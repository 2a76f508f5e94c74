import BlockForge.Proofs.Simulation.Gaps

/-!
# New objects

An object comes into being when its allocation is made. A new vector is empty and without a buffer at first; the
descriptor is then brought up to date. If its buffer is too large, the descriptor belongs to nothing.
-/

namespace BlockForge.Simulation

open Ir (Builder Emit ValueId)
open Ir.Emit (Onward)
open Lowering (AllocKind Env Scope VectorShape)
open Machine (Allocation At Exec Holds Live Moved Part State Val World addressOf blockAddress cellBytes maxBlocks maxOffset)
open Reference (Heap Locals Object Result Sem Value)
open StateM
open BlockForge.Types (Ty)

/-! ### Allocations and their roles -/

section

variable {S : Scene} {scope : Scope} {ρ : Locals} {b b' : Builder} {M M' : State} {g : Ground} {H : Heap} {p : ValueId}
  {bytes : Nat} {kind : AllocKind}

/-- The allocations that were there stay. -/
theorem pushed_keeps (hst : Stands S scope ρ g H M)
    (hst' : M'.store = { M.store with memory := M.store.memory.push { size := bytes } }) {i : Nat} (hi : i < g.length) :
    M'.store.memory.blocks[i]? = M.store.memory.blocks[i]? := by
  rw [hst']
  exact Machine.Memory.push_lt _ (hst.models.size ▸ hi)

/-- An allocation that belongs to nothing. -/
theorem Allocates.discard (h : Allocates S.world b M b' p bytes .general) (hS : S.Open) (hst : Stands S scope ρ g H M)
    (hle : bytes ≤ maxOffset) :
    Leads S scope ρ b M g b' (.value () H) fun _ _ _ => True := by
  intro k
  refine h.done hle fun M' m hst' hheld hatomic => ?_
  by_cases hfull : maxBlocks ≤ M'.store.memory.blocks.size + pending M'.store.globals
  · exact hS.runnable.full hfull
  rw [hst'] at hfull
  have hkeep : ∀ {i : Nat}, i < g.length → _ := pushed_keeps hst hst'
  have hlen := hst.models.size
  have hmodels := hst.models.stack 1 M'.store.memory M.store.calls (by simp [hst'])
    (by rw [hst']; exact Nat.not_le.1 hfull) fun hi _ => hkeep (List.getElem?_eq_some_iff.1 hi).1
  refine k ⟨m, hst.carry hS.toReady (hst.seated.stays m.stays) (List.prefix_append g [.stack]) ?_ ?_ fun hi =>
    hkeep (List.getElem?_eq_some_iff.1 hi).1, List.prefix_append ..⟩ trivial
  · rw [hst'] at hmodels ⊢
    exact hmodels
  · refine hst.watch.append fun hw i r hi _ => ?_
    obtain ⟨rfl, rfl⟩ : i = 0 ∧ Role.stack = r := by simpa [List.getElem?_cons] using hi
    rw [Nat.add_zero, hlen, hatomic hw]
    exact iff_of_false (by simp) (by simp [Role.isAtomic])

/-- An allocation for an object. -/
theorem Allocates.create (h : Allocates S.world b M b' p bytes kind) (hS : S.Open) (hst : Stands S scope ρ g H M)
    (hle : bytes ≤ maxOffset) {t : Ty} {o : Object}
    (hkind : (Role.object H.length t).isAtomic S.env.tables = true ↔ kind = .noReferences)
    (ho : ∀ {mem : Machine.Memory}, Live mem g.length { size := bytes } →
      Stored S.layout S.env.tables S.world.module (g ++ [.object H.length t]) mem g.length H.length t o) :
    Leads S scope ρ b M g b' (.value () (H ++ [o])) fun _ g' M' => g' = g ++ [.object H.length t] ∧
      Holds b' M' p (.ptr (blockAddress g.length)) ∧ Live M'.store.memory g.length { size := bytes } := by
  intro k
  refine h.done hle fun M' m hst' hheld hatomic => ?_
  by_cases hfull : maxBlocks ≤ M'.store.memory.blocks.size + pending M'.store.globals
  · exact hS.runnable.full hfull
  rw [hst'] at hfull
  have hkeep : ∀ {i : Nat}, i < g.length → _ := pushed_keeps hst hst'
  have hlen := hst.models.size
  have hlive : Live M'.store.memory g.length { size := bytes } := by
    refine ⟨hst.models.pos, ?_, ?_, hle⟩
    · have := hst.models.room
      omega
    · rw [hlen, hst']
      exact Machine.Memory.push_self ..
  have hmodels := hst.models.create (t := t) [] M'.store.memory (fun hi => by cases hi) (by simp [hst'])
    (by rw [hst']; exact Nat.not_le.1 hfull) (fun hi => hkeep (hlen ▸ hi)) (ho hlive)
  refine k ⟨m, hst.carry hS.toReady (hst.seated.stays m.stays) (List.prefix_append g [.object H.length t])
    ?_ ?_ fun hi => hkeep (List.getElem?_eq_some_iff.1 hi).1, List.prefix_append ..⟩ ⟨rfl, hlen ▸ hheld, hlive⟩
  · rw [hst'] at hmodels ⊢
    exact hmodels
  · refine hst.watch.append fun hw i r hi _ => ?_
    obtain ⟨rfl, rfl⟩ : i = 0 ∧ Role.object H.length t = r := by simpa [List.getElem?_cons] using hi
    rw [Nat.add_zero, hlen, hatomic hw, hkind]

end

/-! ### New vectors -/

section

variable {env : Env} {elem : Ty} {v : VectorShape} {b : Builder} (h : b.Live) (hv : Shaped env elem v)
  (hf : v.Fits b .i64)

include h hv hf

/-- The bytes of a new vector's buffer. -/
def bufferBytes (env : Env) (elem : Ty) (capacity : Nat) : Nat :=
  min (capacity * cellBytes (env.ir elem)) 0xffffffffffffffff

/-- The buffer of a new vector. -/
theorem newBuffer_leads (capacity : UInt64) :
    (v.newBuffer capacity).Sat b fun p b' => (Onward b b' ∧ b'.function.Has p .ptr) ∧
      ∀ {S : Scene} {M : State} {scope : Scope} {ρ : Locals} {g : Ground} {H : Heap}, S.Open → S.env = env → Part b' S.world →
        At S.world.func b M → Stands S scope ρ g H M →
        (0 < capacity.toNat → maxOffset < bufferBytes env elem capacity.toNat → ∀ {α : Type} {R : α → Ground → State → Prop},
          Leads S scope ρ b M g b' (.stop (.trap (.tooLarge (bufferBytes env elem capacity.toNat))) H) R) ∧
        ∀ {id j : Nat} {d : Allocation} {elems : UInt64}, VectorIn S g H M elem id j [] 0 d elems →
          (0 < capacity.toNat → bufferBytes env elem capacity.toNat ≤ maxOffset) →
          Leads S scope ρ b M g b' (.value () H) fun _ g' M' => ∃ elems',
            Holds b' M' p (.ptr elems') ∧ VectorIn S g' H M' elem id j [] 0 d elems ∧
            (0 < capacity.toNat → ∃ k buf, elems' = blockAddress k ∧
              BufferAt S.layout S.world.module g' M'.store.memory id elem [] capacity.toNat k buf) := by
  unfold VectorShape.newBuffer
  split
  · rename_i hpos
    have hpos' : 0 < capacity.toNat := hpos
    refine Sat.bind (constUsize_reaches h hf.word _) fun size b₁ ⟨⟨o₁, h₁⟩, r₁⟩ => ?_
    refine (buffer_leads o₁.live hv (hf.onward o₁) h₁ _).imp ?_
    rintro p b₂ ⟨⟨o₂, h₂⟩, r₂⟩
    refine ⟨⟨o₁.trans o₂, h₂⟩, fun {S M scope ρ g H} hS he hp hM hst => ?_⟩
    subst he
    have hbytes : v.initialBytes capacity = UInt64.ofNat (bufferBytes S.env elem capacity.toNat) := by
      rw [VectorShape.initialBytes, hv.size]
      rfl
    have hsmall : bufferBytes S.env elem capacity.toNat < 2 ^ 64 := Nat.lt_of_le_of_lt (Nat.min_le_right ..) (by decide)
    rw [hbytes] at r₁
    have hreach := r₁ (hp.back o₂) hM
    constructor
    · intro _ hlarge α R
      refine Leads.past hS.toReady hst hreach fun {M₁} a₁ hst₁ hv₁ => ?_
      exact Leads.of_faults hS a₁.stands ((r₂ hS rfl hp a₁.moved.toAt hv₁ hsmall).1 hlarge)
    · intro id j d elems hin hle
      refine Leads.past hS.toReady hst hreach fun {M₁} a₁ hst₁ hv₁ => ?_
      have hle' := hle hpos'
      refine ((r₂ hS rfl hp a₁.moved.toAt hv₁ hsmall).2 (n := capacity.toNat) a₁.stands (hin.same hst₁) hle' ?_).value
        fun _ ⟨buf, hheld, hbuf, hin'⟩ => ⟨_, hheld, hin', fun _ => ⟨_, buf, rfl, hbuf⟩⟩
      unfold bufferBytes maxOffset at *
      omega
  · rename_i hpos
    have hzero : ¬0 < capacity.toNat := hpos
    refine (constNull_reaches h).imp ?_
    rintro p b₁ ⟨o₁, r₁⟩
    refine ⟨o₁, fun {S M scope ρ g H} hS he hp hM hst => ⟨fun hc => absurd hc hzero, fun {id j d elems} hin _ => ?_⟩⟩
    refine Leads.past hS.toReady hst (r₁ hp hM) fun {M₁} a₁ hst₁ hv₁ k => ?_
    exact k (.refl a₁.moved.toAt a₁.stands) ⟨0, hv₁, hin.same hst₁, fun hc => absurd hc hzero⟩

omit h hv hf in
theorem newVector_eq (hl : env.layout.pointerBits = 64) (capacity : Nat) (H : Heap) :
    Reference.newVector env.layout elem capacity H = if 0 < capacity ∧ maxOffset < bufferBytes env elem capacity
      then .stop (.trap (.tooLarge (bufferBytes env elem capacity))) H
      else .value (.object H.length) (H ++ [.vector elem [] capacity]) := by
  by_cases hpos : 0 < capacity
  · rw [Reference.newVector, if_pos hpos, cellSize_eq hl]
    refine (Sem.demandBytes_bind (bufferBytes env elem capacity) _ H).trans ?_
    by_cases hlarge : maxOffset < bufferBytes env elem capacity
    · exact (if_pos hlarge).trans (if_pos (And.intro hpos hlarge)).symm
    · exact (if_neg hlarge).trans (if_neg fun hc : _ ∧ _ => hlarge hc.2).symm
  · rw [Reference.newVector, if_neg hpos, if_neg fun hc : _ ∧ _ => hpos hc.1]
    rfl

omit h hv hf in
/-- A zeroed descriptor is that of an empty vector. -/
theorem vectorAt_fresh {l : Types.Layout} {m : Ir.Module} {g : Ground} {mem : Machine.Memory} {j id : Nat}
    (hlive : Live mem j { size := 24 }) : VectorAt l m g mem j id elem [] 0 { size := 24 } 0 where
  live := hlive
  size := rfl
  elemsWord := congrArg Val.ptr (word_fresh ..)
  sizeWord := congrArg Val.int (word_fresh ..)
  capacityWord := congrArg Val.int (word_fresh ..)
  fits := Nat.le_refl _
  buffer hc := absurd hc (Nat.lt_irrefl _)

omit h hv hf in
theorem sizeOf_descriptor {m : Ir.Module} (hl : m.pointerBits = 64) {s : Ir.StructId}
    (hs : m.structFields s = [.ptr, .i64, .i64]) : m.sizeOf (.struct s) = 24 := by
  rw [(Ir.Module.layout_struct (sized_vector hs)).1, hs]
  simp [Ir.Module.put, Ir.place, Ir.Module.sizeOf_of_plain, Ir.Module.alignOf_of_plain, Ir.Module.plainLayout, hl,
    Ir.roundUp]

/-- A new empty vector. -/
theorem new_leads (capacity : UInt64) :
    (v.new 24 capacity).Sat b fun p b' => (Onward b b' ∧ b'.function.Has p .ptr) ∧
      ∀ {S : Scene} {M : State} {scope : Scope} {ρ : Locals} {g : Ground} {H : Heap}, S.Open → S.env = env → Part b' S.world →
        At S.world.func b M → Stands S scope ρ g H M →
        Leads S scope ρ b M g b' (Reference.newVector env.layout elem capacity.toNat H) fun x g' M' =>
          Denotes S b' M' g' p ⟨x, .vector elem⟩ := by
  refine Sat.get_bind ?_
  rw [hf.word]
  refine Sat.bind (constUsize_reaches h hf.word _) fun size b₁ ⟨⟨o₁, h₁⟩, r₁⟩ => ?_
  have hf₁ := hf.onward o₁
  rw [hv.allocator]
  refine Sat.bind (collector_allocates o₁.live (by rw [hf₁.word]; exact h₁) .general _) fun desc b₂ ⟨⟨o₂, h₂⟩, r₂⟩ => ?_
  have o₁₂ := o₁.trans o₂
  refine Sat.bind (newBuffer_leads o₂.live hv (hf.onward o₁₂) capacity) fun elems b₃ ⟨⟨o₃, h₃⟩, r₃⟩ => ?_
  have o₁₃ := o₁₂.trans o₃
  refine Sat.bind (constInt_reaches o₃.live (show Ir.Ty.intBits? .i64 = some 64 from rfl) 0) fun zero b₄ ⟨⟨o₄, h₄⟩, r₄⟩ => ?_
  have o₁₄ := o₁₃.trans o₄
  refine Sat.bind (constUsize_reaches o₄.live (hf.onward o₁₄).word _) fun cap b₅ ⟨⟨o₅, h₅⟩, r₅⟩ => ?_
  have o₁₅ := o₁₄.trans o₅
  have o₃₅ := (o₃.trans o₄).trans o₅
  refine Sat.bind (storeField_revises o₅.live hv (hf.onward o₁₅) (o₃₅.has h₂) .elems (o₅.has (o₄.has h₃)))
    fun _ b₆ ⟨o₆, r₆⟩ => ?_
  have o₁₆ := o₁₅.trans o₆
  have o₃₆ := o₃₅.trans o₆
  refine Sat.bind (storeField_revises o₆.live hv (hf.onward o₁₆) (o₃₆.has h₂) .size (o₆.has (o₅.has h₄)))
    fun _ b₇ ⟨o₇, r₇⟩ => ?_
  have o₁₇ := o₁₆.trans o₇
  have o₃₇ := o₃₆.trans o₇
  refine Sat.bind (storeField_revises o₇.live hv (hf.onward o₁₇) (o₃₇.has h₂) .capacity (o₇.has (o₆.has h₅)))
    fun _ b₈ ⟨o₈, r₈⟩ => ?_
  have o₃₈ := o₃₇.trans o₈
  refine Sat.pure ⟨⟨o₁₇.trans o₈, o₃₈.has h₂⟩, fun {S M scope ρ g H} hS he hp hM hst => ?_⟩
  subst he
  have p₇ := hp.back o₈
  have p₆ := p₇.back o₇
  have p₅ := p₆.back o₆
  have p₄ := p₅.back o₅
  have p₃ := p₄.back o₄
  have p₂ := p₃.back o₃
  rw [newVector_eq hS.runnable.pointerBits]
  refine Leads.past hS.toReady hst (r₁ (p₂.back o₂) hM) fun {M₁} a₁ hst₁ hv₁ => ?_
  have halloc := r₂ p₂ a₁.moved.toAt hv₁
  have hle : (UInt64.ofNat 24).toNat ≤ maxOffset := by decide
  split
  · rename_i hlarge
    refine (halloc.discard hS a₁.stands hle).next fun {g₂ M₂} a₂ _ => ?_
    exact fun k => ((r₃ hS rfl p₃ a₂.moved.toAt a₂.stands).1 hlarge.1 hlarge.2 (R := fun (_ : Unit) _ _ => True)) k
  · rename_i hsmall
    refine (halloc.create hS a₁.stands hle (t := .vector elem) (o := .vector elem [] 0)
      (iff_of_false (by simp [Role.isAtomic]) (by simp)) fun hlive => ⟨rfl, _, _, vectorAt_fresh hlive⟩).next
      fun {g₂ M₂} a₂ ⟨hg₂, hheld₂, hlive₂⟩ => ?_
    have hin₂ : VectorIn S g₂ (H ++ [.vector elem [] 0]) M₂ elem H.length g.length [] 0 { size := 24 } 0 :=
      ⟨by simp [hg₂], by simp, vectorAt_fresh hlive₂⟩
    have hfits : 0 < capacity.toNat → bufferBytes S.env elem capacity.toNat ≤ maxOffset := fun hc =>
      Nat.not_lt.1 fun hlarge => hsmall ⟨hc, hlarge⟩
    refine ((r₃ hS rfl p₃ a₂.moved.toAt a₂.stands).2 hin₂ hfits).next fun {g₃ M₃} a₃ ⟨elems', hheld₃, hin₃, hbuf₃⟩ => ?_
    have hreach := (r₄ p₄ a₃.moved.toAt).bind fun M₄ m₄ hv₄ =>
      (r₅ p₅ m₄.toAt).imp_moved fun M₅ m₅ hv₅ => And.intro (m₅.holds hv₄) hv₅
    refine Leads.past hS.toReady a₃.stands hreach fun {M₅} a₅ hst₅ ⟨hzero₅, hcap₅⟩ goal => ?_
    rw [Word.mask_of_le (Nat.le_refl 64)] at hzero₅
    rw [← UInt64.ofNat_toNat (x := capacity)] at hcap₅
    have hdesc₅ := a₅.moved.holds (a₃.moved.holds hheld₂)
    refine r₆ hS.toReady rfl p₆ a₅.moved.toAt a₅.stands (hin₃.same hst₅) hdesc₅ (a₅.moved.holds hheld₃)
      (.elems fun hc => absurd hc (Nat.lt_irrefl _)) fun {M₆ d₆} m₆ hst₆ hin₆ hkeep₆ => ?_
    refine r₇ hS.toReady rfl p₇ m₆.toAt hst₆ hin₆ (m₆.holds hdesc₅) (m₆.holds hzero₅)
      (.size [] (Nat.le_refl _) fun _ hb => hb) fun {M₇ d₇} m₇ hst₇ hin₇ hkeep₇ => ?_
    have m₅₇ := m₆.trans m₇
    refine r₈ hS.toReady rfl hp m₇.toAt hst₇ hin₇ (m₅₇.holds hdesc₅) (m₅₇.holds hcap₅)
      (.capacity capacity.toNat (Nat.zero_le _) fun hc => ?_) fun {M₈ d₈} m₈ hst₈ hin₈ _ => ?_
    · obtain ⟨k, buf, rfl, hb⟩ := hbuf₃ hc
      have hne : k ≠ g.length := by
        rintro rfl
        have := hb.role.symm.trans hin₃.role
        cases this
      refine ⟨k, buf, rfl, hb.mono (List.prefix_refl _) ?_⟩
      rw [hkeep₇ k hne, hkeep₆ k hne, hst₅]
    · have hheap : (((H ++ [Object.vector elem [] 0]).set H.length (.vector elem [] 0)).set H.length (.vector elem [] 0)).set
          H.length (.vector elem [] capacity.toNat) = H ++ [.vector elem [] capacity.toNat] := by
        simp
      have m₅₈ := m₅₇.trans m₈
      refine goal ⟨m₅₈, hheap ▸ hst₈, List.prefix_refl _⟩ (.of_holds (m₅₈.holds hdesc₅) ?_)
      exact ⟨rfl, g.length, hin₃.role, rfl⟩

end

end BlockForge.Simulation
