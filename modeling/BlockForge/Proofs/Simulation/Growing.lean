import BlockForge.Proofs.Machine.Detours
import BlockForge.Proofs.Simulation.Vectors

/-!
# Growing vectors

A full vector gets a buffer with twice the room: it is allocated, the elements are copied, and the descriptor is
brought up to date. Until then the vector is as it was, so an allocation that is too large changes nothing.
-/

namespace BlockForge.Simulation

open Ir (Builder Emit ValueId)
open Ir.Emit (Onward)
open Lowering (Env Scope VectorField VectorShape)
open Machine (Allocation At Exec Holds Live Moved Part State Toward Val World addressOf blockAddress cellBytes
  maxBlocks maxOffset)
open Reference (Heap Locals Object Result Sem Value doubled)
open StateM
open BlockForge.Types (Ty)

/-! ### Descriptors that change -/

/-- The fields of a descriptor do not overlap. -/
theorem read_write_field (d : Allocation) (f f' : VectorField) {z : Val} (hz : z.Of (fieldCell f)) :
    (d.write (fieldCell f) (8 * f.position) z).read (fieldCell f') (8 * f'.position) =
      if f' = f then z.kept (fieldCell f) else d.read (fieldCell f') (8 * f'.position) := by
  split
  · rename_i h
    subst h
    exact Allocation.read_write_self d _ hz
  · rename_i h
    refine Allocation.read_write_apart (fieldCell_fits f').1 ?_
    cases f <;> cases f' <;> simp [fieldCell, VectorField.position, cellBytes] at h ⊢

section

variable {S : Scene} {scope : Scope} {ρ : Locals} {b b' : Builder} {M M' : State} {g : Ground} {H : Heap} {elem : Ty}
  {id j : Nat} {items : List Value} {capacity : Nat} {d : Allocation} {elems : UInt64}

/-- What a vector becomes when a field of its descriptor is overwritten. -/
inductive Revised (S : Scene) (g : Ground) (M : State) (elem : Ty) (id : Nat) (items : List Value) (capacity : Nat)
    (elems : UInt64) : VectorField → Val → List Value → Nat → UInt64 → Prop
  | elems {addr} (hb : 0 < capacity → ∃ k buf, addr = blockAddress k ∧
      BufferAt S.layout S.world.module g M.store.memory id elem items capacity k buf) :
      Revised S g M elem id items capacity elems .elems (.ptr addr) items capacity addr
  | size (items') (hle : items'.length ≤ capacity) (hb : ∀ {k buf}, elems = blockAddress k →
      BufferAt S.layout S.world.module g M.store.memory id elem items capacity k buf →
      BufferAt S.layout S.world.module g M.store.memory id elem items' capacity k buf) :
      Revised S g M elem id items capacity elems .size (.int (UInt64.ofNat items'.length)) items' capacity elems
  | capacity (capacity') (hle : items.length ≤ capacity') (hb : 0 < capacity' → ∃ k buf, elems = blockAddress k ∧
      BufferAt S.layout S.world.module g M.store.memory id elem items capacity' k buf) :
      Revised S g M elem id items capacity elems .capacity (.int (UInt64.ofNat capacity')) items capacity' elems

theorem kept_word (n : UInt64) : (Val.int n).kept .i64 = .int n := congrArg Val.int (Word.mask_of_le (Nat.le_refl 64) n)

theorem Revised.of {f : VectorField} {z : Val} {items' : List Value} {capacity' : Nat} {elems' : UInt64}
    (r : Revised S g M elem id items capacity elems f z items' capacity' elems') : z.Of (fieldCell f) := by
  cases r <;> rfl

theorem Stands.describe (hS : S.Ready) (hst : Stands S scope ρ g H M)
    (h : VectorIn S g H M elem id j items capacity d elems) {f : VectorField} {z : Val} {items' : List Value}
    {capacity' : Nat} {elems' : UInt64} (r : Revised S g M elem id items capacity elems f z items' capacity' elems')
    (hseat : Seated S M')
    (hst' : M'.store = { M.store with memory := M.store.memory.set j (d.write (fieldCell f) (8 * f.position) z) }) :
    Stands S scope ρ g (H.set id (.vector elem items' capacity')) M' ∧
      VectorIn S g (H.set id (.vector elem items' capacity')) M' elem id j items' capacity'
        (d.write (fieldCell f) (8 * f.position) z) elems' := by
  have hz := r.of
  have hbuffer : ∀ {k : Nat} {buf : Allocation} {its : List Value} {c : Nat},
      BufferAt S.layout S.world.module g M.store.memory id elem its c k buf →
      BufferAt S.layout S.world.module g (M.store.memory.set j (d.write (fieldCell f) (8 * f.position) z)) id elem its c k buf := by
    intro k buf its c hb
    refine hb.mono (List.prefix_refl _) (Machine.Memory.set_ne _ ?_)
    rintro rfl
    have := hb.role.symm.trans h.role
    cases this
  refine hst.revise hS h (by simp) (fun {i r} hi hr => Machine.Memory.set_ne _ ?_) ?_ hseat hst'
  · rintro rfl
    rw [h.role] at hi
    cases hi
    exact hr rfl
  have hread := fun f' => read_write_field d f f' hz
  have helems := hread .elems
  have hsize := hread .size
  have hcapacity := hread .capacity
  have hlive := h.stored.live.set_self (b := d.write (fieldCell f) (8 * f.position) z) (Allocation.size_write ..)
  cases r with
  | elems hb =>
    refine ⟨hlive, (Allocation.size_write ..).trans h.stored.size, helems, hsize.trans h.stored.sizeWord,
      hcapacity.trans h.stored.capacityWord, h.stored.fits, fun hc => ?_⟩
    obtain ⟨k, buf, rfl, hbuf⟩ := hb hc
    exact ⟨k, buf, rfl, hbuffer hbuf⟩
  | size _ hle hb =>
    refine ⟨hlive, (Allocation.size_write ..).trans h.stored.size, helems.trans h.stored.elemsWord,
      hsize.trans (kept_word _), hcapacity.trans h.stored.capacityWord, hle, fun hc => ?_⟩
    obtain ⟨k, buf, rfl, hbuf⟩ := h.stored.buffer hc
    exact ⟨k, buf, rfl, hbuffer (hb rfl hbuf)⟩
  | capacity _ hle hb =>
    refine ⟨hlive, (Allocation.size_write ..).trans h.stored.size, helems.trans h.stored.elemsWord,
      hsize.trans h.stored.sizeWord, hcapacity.trans (kept_word _), hle, fun hc => ?_⟩
    obtain ⟨k, buf, rfl, hbuf⟩ := hb hc
    exact ⟨k, buf, rfl, hbuffer hbuf⟩

end

section

variable {env : Env} {elem : Ty} {v : VectorShape} {b : Builder} (h : b.Live) (hv : Shaped env elem v)
  (hf : v.Fits b .i64) {desc : ValueId} (hd : b.function.Has desc .ptr)

include h hv hf hd

/-- A field of a vector's descriptor is overwritten. -/
theorem storeField_revises (f : VectorField) {x : ValueId} (hx : b.function.Has x (fieldCell f)) :
    (v.storeField desc f x).Sat b fun _ b' => Onward b b' ∧
      ∀ {S : Scene} {scope : Scope} {ρ : Locals} {g : Ground} {H : Heap} {M : State} {id j : Nat} {items items' : List Value}
        {capacity capacity' : Nat} {d : Allocation} {elems elems' : UInt64} {z : Val}, S.Ready → S.env = env →
        Part b' S.world → At S.world.func b M → Stands S scope ρ g H M →
        VectorIn S g H M elem id j items capacity d elems → Holds b M desc (.ptr (blockAddress j)) → Holds b M x z →
        Revised S g M elem id items capacity elems f z items' capacity' elems' →
        (∀ {M' : State} {d' : Allocation}, Moved S.world.func b M b' M' →
          Stands S scope ρ g (H.set id (.vector elem items' capacity')) M' →
          VectorIn S g (H.set id (.vector elem items' capacity')) M' elem id j items' capacity' d' elems' →
          (∀ i, i ≠ j → M'.store.memory.blocks[i]? = M.store.memory.blocks[i]?) → S.world.goal M') → S.world.goal M := by
  refine (storeField_runs h hv hf hd f hx).imp ?_
  rintro - b' ⟨o, run⟩
  refine ⟨o, fun {S scope ρ g H M id j items items' capacity capacity' d elems elems' z} hS he hp hM hst hin hdesc hz r k => ?_⟩
  refine run hS he hp hM hst hdesc hin.role hin.stored.live hin.stored.size hz r.of fun M' m hst' => ?_
  obtain ⟨hst'', hin'⟩ := hst.describe hS hin r (hst.seated.stays m.stays) hst'
  refine k m hst'' hin' fun i hi => ?_
  rw [hst']
  exact Machine.Memory.set_ne _ hi.symm

/-- The size goes up or down by one. -/
theorem bumpSize_runs {size : ValueId} (hs : b.function.Has size .i64) (grow : Bool) :
    (v.bumpSize desc size grow).Sat b fun _ b' => Onward b b' ∧
      ∀ {S : Scene} {scope : Scope} {ρ : Locals} {g : Ground} {H : Heap} {M : State} {id j n : Nat} {items : List Value}
        {capacity : Nat} {d : Allocation} {elems : UInt64} (items' : List Value), S.Ready → S.env = env → Part b' S.world →
        At S.world.func b M → Stands S scope ρ g H M → VectorIn S g H M elem id j items capacity d elems →
        Holds b M desc (.ptr (blockAddress j)) → Holds b M size (.int (UInt64.ofNat n)) →
        (if grow then items'.length = n + 1 else items'.length + 1 = n) → items'.length ≤ capacity →
        (∀ {k : Nat} {buf : Allocation}, elems = blockAddress k →
          BufferAt S.layout S.world.module g M.store.memory id elem items capacity k buf →
          BufferAt S.layout S.world.module g M.store.memory id elem items' capacity k buf) →
        (∀ {M' : State}, Moved S.world.func b M b' M' → Stands S scope ρ g (H.set id (.vector elem items' capacity)) M' →
          S.world.goal M') → S.world.goal M := by
  obtain ⟨op, name, hop, hbump, hword⟩ : ∃ (op : Ir.BinOp) (name : String), op.isFloat = false ∧
      (v.bumpSize desc size grow = do
        let one ← Emit.constUsize 1
        let new ← Emit.binary op size one name
        v.storeField desc .size new) ∧
      ∀ {m n : Nat}, (if grow then m = n + 1 else m + 1 = n) →
        Machine.intBinary op 64 (UInt64.ofNat n) 1 = some (UInt64.ofNat m) := by
    cases grow with
    | true =>
      refine ⟨.add, _, rfl, rfl, fun {m n} hm => ?_⟩
      rw [(intBinary_words _ _).1, show m = n + 1 from hm, UInt64.ofNat_add]
      rfl
    | false =>
      refine ⟨.sub, _, rfl, rfl, fun {m n} hm => ?_⟩
      rw [(intBinary_words _ _).2.1, ← show m + 1 = n from hm, UInt64.ofNat_add]
      exact congrArg some (add_sub_cancel_right _ _)
  rw [hbump]
  refine Sat.bind (constUsize_reaches h hf.word 1) fun one b₁ ⟨⟨o₁, h₁⟩, r₁⟩ => ?_
  refine Sat.bind (word_reaches o₁.live hop (o₁.has hs) h₁ name) fun new b₂ ⟨⟨o₂, h₂⟩, r₂⟩ => ?_
  have o := o₁.trans o₂
  refine (storeField_revises o₂.live hv (hf.onward o) (o.has hd) .size h₂).imp ?_
  rintro - b₃ ⟨o₃, r₃⟩
  refine ⟨o.trans o₃, fun {S scope ρ g H M id j n items capacity d elems} items' hS he hp hM hst hin hdesc hsize hn hle
    hbuf k => ?_⟩
  have p₂ := hp.back o₃
  refine r₁ (p₂.back o₂) hM fun M₁ m₁ hst₁ hv₁ => ?_
  refine r₂ p₂ m₁.toAt (m₁.holds hsize) hv₁ (hword hn) fun M₂ m₂ hst₂ hv₂ => ?_
  have m := m₁.trans m₂
  have hstore := hst₂.trans hst₁
  refine r₃ hS he hp m₂.toAt (hst.stays hS m.stays hstore) (hin.same hstore) (m.holds hdesc) hv₂
    (.size items' hle ?_) fun m₃ hst₃ _ _ => k (m.trans m₃) hst₃
  rw [hstore]
  exact hbuf

end

/-- A buffer at the same address that holds another list. -/
theorem BufferAt.refilled {l : BlockForge.Types.Layout} {m : Ir.Module} {g : Ground} {mem : Machine.Memory} {id k k' : Nat} {elem : Ty}
    {items items' : List Value} {capacity : Nat} {buf buf' : Allocation} (h : BufferAt l m g mem id elem items capacity k buf)
    (holds : ∀ {i v}, items'[i]? = some v →
      Encodes l m g elem v (buf.read (l.irType elem) (i * cellBytes (l.irType elem))))
    (he : blockAddress k = blockAddress k') (h' : BufferAt l m g mem id elem items capacity k' buf') :
    BufferAt l m g mem id elem items' capacity k' buf' := by
  obtain rfl := (Machine.blockAddress_inj h.live.lt h'.live.lt).1 he
  obtain rfl := h'.live.unique h.live
  exact { h' with holds }

/-! ### A larger buffer -/

section

variable {b : Builder} (h : b.Live)

include h

/-- Twice the capacity, or one, as a word. -/
theorem doubledCapacity_reaches (hw : b.module.ptrInt = .i64) {cap : ValueId} (hc : b.function.Has cap .i64) :
    (VectorShape.doubledCapacity cap).Sat b fun p b' => (Onward b b' ∧ b'.function.Has p .i64) ∧
      ∀ {w : World} {M : State} {n : Nat}, Part b' w → At w.func b M → Holds b M cap (.int (UInt64.ofNat n)) →
        n < 2 ^ 64 → w.Reaches b M b' (Holds b' · p (.int (UInt64.ofNat (doubled n)))) := by
  refine Sat.get_bind ?_
  rw [hw]
  have hi : Ir.Ty.intBits? .i64 = some 64 := rfl
  refine Sat.bind (constInt_reaches h hi 0) fun zero b₁ ⟨⟨o₁, h₁⟩, r₁⟩ => ?_
  refine Sat.bind (constInt_reaches o₁.live hi 1) fun one b₂ ⟨⟨o₂, h₂⟩, r₂⟩ => ?_
  refine Sat.bind (constInt_reaches o₂.live hi 2) fun two b₃ ⟨⟨o₃, h₃⟩, r₃⟩ => ?_
  have o₁₃ := (o₁.trans o₂).trans o₃
  refine Sat.bind (icmp_reaches o₃.live hi .eq (o₁₃.has hc) (o₃.has (o₂.has h₁)) _) fun empty b₄ ⟨⟨o₄, h₄⟩, r₄⟩ => ?_
  refine Sat.bind (word_reaches o₄.live (show Ir.BinOp.isFloat .mul = false from rfl) (o₄.has (o₁₃.has hc)) (o₄.has h₃) _)
    fun twice b₅ ⟨⟨o₅, h₅⟩, r₅⟩ => ?_
  refine (select_reaches o₅.live (o₅.has h₄) (o₅.has (o₄.has (o₃.has h₂))) h₅ _).imp ?_
  rintro p b₆ ⟨⟨o₆, h₆⟩, r₆⟩
  refine ⟨⟨((o₁₃.trans o₄).trans o₅).trans o₆, h₆⟩, fun {w M n} hp hM hcap hn => ?_⟩
  have p₅ := hp.back o₆
  have p₄ := p₅.back o₅
  have p₃ := p₄.back o₄
  have p₂ := p₃.back o₃
  have hmask : ∀ k : UInt64, Word.mask k 64 = k := fun k => Word.mask_of_le (Nat.le_refl 64) k
  refine (r₁ (p₂.back o₂) hM).bind fun M₁ m₁ hv₁ => ?_
  refine (r₂ p₂ m₁.toAt).bind fun M₂ m₂ hv₂ => ?_
  refine (r₃ p₃ m₂.toAt).bind fun M₃ m₃ hv₃ => ?_
  rw [hmask] at hv₁ hv₂ hv₃
  have hcap₃ := m₃.holds (m₂.holds (m₁.holds hcap))
  refine (r₄ p₄ m₃.toAt hcap₃ (m₃.holds (m₂.holds hv₁))).bind fun M₄ m₄ hv₄ => ?_
  refine (r₅ p₅ m₄.toAt (m₄.holds hcap₃) (m₄.holds hv₃) (intBinary_words _ _).2.2).bind fun M₅ m₅ hv₅ => ?_
  refine (r₆ hp m₅.toAt (m₅.holds hv₄) (m₅.holds (m₄.holds (m₃.holds hv₂))) hv₅).imp fun M₆ hv₆ => ?_
  have hzero : Machine.intCompare .eq 64 (UInt64.ofNat n) 0 = decide (n = 0) := by
    refine decide_eq_decide.2 ?_
    rw [← UInt64.toNat_inj, UInt64.toNat_ofNat_of_lt' hn]
    rfl
  rw [hzero] at hv₆
  rcases Nat.eq_zero_or_pos n with rfl | hpos
  · exact hv₆
  · rw [decide_eq_false hpos.ne', if_neg Bool.false_ne_true] at hv₆
    rwa [show doubled n = n * 2 by unfold doubled; omega, UInt64.ofNat_mul]

end

section

variable {env : Env} {elem : Ty} {v : VectorShape} {b : Builder} (h : b.Live) (hv : Shaped env elem v)
  (hf : v.Fits b .i64)

include h hv hf

/-- A new buffer for a vector. -/
theorem buffer_leads {bytes : ValueId} (hb : b.function.Has bytes .i64) (name : String) :
    (v.allocator.allocate bytes v.kind name).Sat b fun p b' => (Onward b b' ∧ b'.function.Has p .ptr) ∧
      ∀ {S : Scene} {M : State} {m : Nat}, S.Open → S.env = env → Part b' S.world → At S.world.func b M →
        Holds b M bytes (.int (UInt64.ofNat m)) → m < 2 ^ 64 → (maxOffset < m → Faults S.world M (.tooLarge m)) ∧
        ∀ {scope : Scope} {ρ : Locals} {g : Ground} {H : Heap} {id j n : Nat} {items : List Value} {capacity : Nat}
          {d : Allocation} {elems : UInt64}, Stands S scope ρ g H M →
          VectorIn S g H M elem id j items capacity d elems → m ≤ maxOffset → n * cellBytes (env.ir elem) ≤ m →
          Leads S scope ρ b M g b' (.value () H) fun _ g' M' => ∃ buf,
            Holds b' M' p (.ptr (blockAddress g.length)) ∧
            BufferAt S.layout S.world.module g' M'.store.memory id elem [] n g.length buf ∧
            VectorIn S g' H M' elem id j items capacity d elems := by
  rw [hv.allocator]
  refine (collector_allocates h (by rw [hf.word]; exact hb) v.kind name).imp ?_
  rintro p b' ⟨o, run⟩
  refine ⟨o, fun {S M m} hS he hp hM hbytes hm => ?_⟩
  subst he
  have halloc := run hp hM hbytes
  rw [UInt64.toNat_ofNat_of_lt' hm] at halloc
  refine ⟨halloc.tooLarge, fun {scope ρ g H id j n items capacity d elems} hst hin hle hroom k => ?_⟩
  refine halloc.done hle fun M' hm' hst' hheld hatomic => ?_
  by_cases hfull : maxBlocks ≤ M'.store.memory.blocks.size + pending M'.store.globals
  · exact hS.runnable.full hfull
  have hlen : g.length = M.store.memory.blocks.size := hst.models.size
  have hold : ∀ {i : Nat}, i < M.store.memory.blocks.size →
      M'.store.memory.blocks[i]? = M.store.memory.blocks[i]? := fun hi => by
    rw [hst']
    exact Machine.Memory.push_lt _ hi
  have hin' : VectorAt S.layout S.world.module (g ++ [.buffer id elem]) M'.store.memory j id elem items capacity d elems :=
    hin.stored.mono (List.prefix_append ..) (hold hin.stored.live.lt_size) fun hk =>
      hold (hlen ▸ (List.getElem?_eq_some_iff.1 hk).1)
  have hset : H.set id (.vector elem items capacity) = H := hin.set_eq
  have hstands := hst.update hS.toReady hin.role [.buffer id elem] M'.store.memory
    (o := .vector elem items capacity) ?_ ?_ (by simp [hst']) ?_ ?_ ⟨rfl, d, elems, hin'⟩
    (hst.seated.stays hm'.stays) (by rw [hst'])
  · rw [hset] at hstands
    have hlive : Live M'.store.memory g.length { size := m } := by
      refine ⟨hst.models.pos, ?_, ?_, hle⟩
      · have := hst.models.room
        omega
      · rw [hlen, hst']
        exact Machine.Memory.push_self ..
    exact k ⟨hm', hstands, List.prefix_append ..⟩ ⟨_, hlen ▸ hheld, ⟨by simp, hlive, hroom, fun hi => by cases hi⟩,
      ⟨getElem?_of_grown (List.prefix_append ..) hin.role, hin.object, hin'⟩⟩
  · intro i r hi
    obtain ⟨-, rfl⟩ : i = 0 ∧ Role.buffer id elem = r := by simpa [List.getElem?_cons] using hi
    exact ⟨elem, rfl⟩
  · intro hw i r hi
    obtain ⟨rfl, rfl⟩ : i = 0 ∧ Role.buffer id elem = r := by simpa [List.getElem?_cons] using hi
    rw [Nat.add_zero, hlen, hatomic hw, hv.kind]
    show _ ↔ (!elem.isReference) = true
    unfold Lowering.bufferKind
    split <;> simp_all
  · have := hfull
    rw [hst'] at this ⊢
    exact Nat.not_le.1 this
  · intro i r hi _
    exact hold (hlen ▸ (List.getElem?_eq_some_iff.1 hi).1)

end

section

variable {S : Scene} {scope : Scope} {ρ : Locals} {b b' : Builder} {M M' : State} {g : Ground} {H : Heap} {elem : Ty}
  {id j k n : Nat} {items : List Value} {capacity : Nat} {d spare : Allocation} {elems : UInt64}

/-- A buffer of the vector that it does not use changes. -/
theorem Stands.spare_filled (hS : S.Ready) (hst : Stands S scope ρ g H M)
    (h : VectorIn S g H M elem id j items capacity d elems) (hrole : g[k]? = some (.buffer id elem))
    (hne : 0 < capacity → elems ≠ blockAddress k) {filled : Allocation} (hseat : Seated S M')
    (hst' : M'.store = { M.store with memory := M.store.memory.set k filled }) :
    Stands S scope ρ g H M' ∧ VectorIn S g H M' elem id j items capacity d elems := by
  have hj : k ≠ j := by
    rintro rfl
    have := hrole.symm.trans h.role
    cases this
  have hstored : VectorAt S.layout S.world.module g (M.store.memory.set k filled) j id elem items capacity d elems :=
    { h.stored with
      live := h.stored.live.set_ne hj
      buffer := fun hc => by
        obtain ⟨k', buf, he, hb⟩ := h.stored.buffer hc
        refine ⟨k', buf, he, hb.mono (List.prefix_refl _) (Machine.Memory.set_ne _ ?_)⟩
        rintro rfl
        exact hne hc he }
  have := hst.revise hS h (by simp) (fun {i r} hi hr => Machine.Memory.set_ne _ ?_) hstored hseat hst'
  · rwa [h.set_eq] at this
  · rintro rfl
    rw [hrole] at hi
    cases hi
    exact hr rfl

/-- The elements of a vector are copied to another buffer. -/
theorem elements_copied (hS : S.Ready) (hst : Stands S scope ρ g H M)
    (h : VectorIn S g H M elem id j items capacity d elems)
    (hb : BufferAt S.layout S.world.module g M.store.memory id elem [] n k spare) (hne : 0 < capacity → elems ≠ blockAddress k)
    (hn : items.length ≤ n) {dst src len : ValueId} (e : Machine.Acts b b' (.memCopy dst src len)) (hp : Part b' S.world)
    (hM : At S.world.func b M) (hd : Holds b M dst (.ptr (blockAddress k))) (hs : Holds b M src (.ptr elems))
    (hl : Holds b M len (.int (UInt64.ofNat (items.length * cellBytes (S.env.ir elem)))))
    (goal : ∀ {M' : State} {spare' : Allocation}, Moved S.world.func b M b' M' → Stands S scope ρ g H M' →
      VectorIn S g H M' elem id j items capacity d elems →
      BufferAt S.layout S.world.module g M'.store.memory id elem items n k spare' → S.world.goal M') :
    S.world.goal M := by
  rcases Nat.eq_zero_or_pos items.length with hz | hpos
  · obtain rfl := List.eq_nil_of_length_eq_zero hz
    rw [List.length_nil, Nat.zero_mul] at hl
    refine copy_nothing (.inl rfl) e hp hM hd hs hl fun M' m hst' => ?_
    exact goal m (hst.stays hS m.stays hst') (h.same hst') (hst' ▸ hb)
  have hcap := Nat.lt_of_lt_of_le hpos h.stored.fits
  obtain ⟨k', buf, rfl, hbuf⟩ := h.stored.buffer hcap
  have hcell : (S.env.ir elem).isScalar = true := Env.isScalar_ir elem
  have hbytes : items.length * cellBytes (S.env.ir elem) ≤ buf.size :=
    Nat.le_trans (Nat.mul_le_mul_right _ h.stored.fits) hbuf.room
  have hfits : items.length * cellBytes (S.env.ir elem) ≤ spare.size := Nat.le_trans (Nat.mul_le_mul_right _ hn) hb.room
  refine copy_runs (.inl rfl) hst e hp hM 0 0 (by rwa [Machine.addressOf_zero])
    (by rwa [Machine.addressOf_zero]) hl hbuf.role hb.role hbuf.live hb.live (by rwa [Nat.zero_add])
    (by rwa [Nat.zero_add]) (Nat.mul_pos hpos (Machine.cellBytes_pos hcell)) fun M' m hst' => ?_
  obtain ⟨hst₁, h₁⟩ := hst.spare_filled hS h hb.role hne (hst.seated.stays m.stays) hst'
  have hsize := Allocation.size_fill spare 0 (items.length * cellBytes (S.env.ir elem)) fun x => buf.byte (0 + x)
  refine goal m hst₁ h₁ ⟨hb.role, ?_, hsize ▸ hb.room, fun {i x} hi => ?_⟩
  · rw [hst']
    exact hb.live.set_self hsize
  · have hlt := (List.getElem?_eq_some_iff.1 hi).1
    have hread := Allocation.read_copy (a := spare) (b := buf) 0 0 hcell
      (n := items.length * cellBytes (S.env.ir elem)) (k := i * cellBytes (S.env.ir elem)) (by
        rw [← Nat.succ_mul]
        exact Nat.mul_le_mul_right _ hlt)
    rw [Nat.zero_add] at hread
    exact hread ▸ hbuf.holds hi

end

/-- The bytes of a value on a machine with 64-bit pointers. -/
theorem cellSize_eq {env : Env} (hl : env.layout.pointerBits = 64) (t : Ty) :
    Reference.cellSize env.layout t = cellBytes (env.ir t) := by
  cases t with
  | signed w | unsigned w =>
    cases w <;> simp [Reference.cellSize, Env.ir, Types.Layout.irType, Types.Layout.intBits, Types.IntWidth.bits, hl,
      Ir.Ty.int?, cellBytes]
  | float w => cases w <;> rfl
  | string | record | vector | null =>
    simp [Reference.cellSize, Env.ir, Types.Layout.irType, Types.Layout.pointerBytes, hl, cellBytes]
  | _ => rfl

section

variable {env : Env} {elem : Ty} {v : VectorShape} {b : Builder} (h : b.Live) (hv : Shaped env elem v)
  (hf : v.Fits b .i64) {desc : ValueId} (hd : b.function.Has desc .ptr)

include h hv hf hd

/-- A full vector gets a larger buffer. -/
theorem moveElements_leads {size cap : ValueId} (hs : b.function.Has size .i64) (hc : b.function.Has cap .i64) :
    (v.moveElements desc size cap).Sat b fun _ b' => Onward b b' ∧
      ∀ {S : Scene} {scope : Scope} {ρ : Locals} {g : Ground} {H : Heap} {M : State} {id j : Nat}
        {items : List Value} {capacity : Nat} {d : Allocation} {elems : UInt64}, S.Open → S.env = env → Part b' S.world →
        At S.world.func b M → Stands S scope ρ g H M → VectorIn S g H M elem id j items capacity d elems →
        Holds b M desc (.ptr (blockAddress j)) → Holds b M size (.int (UInt64.ofNat items.length)) →
        Holds b M cap (.int (UInt64.ofNat capacity)) →
        Leads S scope ρ b M g b' ((Sem.demandBytes (doubled capacity * Reference.cellSize env.layout elem) >>= fun _ =>
            Sem.put id (.vector elem items (doubled capacity)) : Sem Unit) H) fun _ g' M' => ∃ d' elems',
          VectorIn S g' (H.set id (.vector elem items (doubled capacity))) M' elem id j items (doubled capacity) d' elems' := by
  refine Sat.bind (doubledCapacity_reaches h hf.word hc) fun new b₁ ⟨⟨o₁, h₁⟩, r₁⟩ => ?_
  refine Sat.bind (byteLen_reaches o₁.live hv (hf.onward o₁) h₁) fun bytes b₂ ⟨⟨o₂, h₂⟩, r₂⟩ => ?_
  have o₁₂ := o₁.trans o₂
  have hf₂ := hf.onward o₁₂
  refine Sat.bind (buffer_leads o₂.live hv hf₂ h₂ _) fun buffer b₃ ⟨⟨o₃, h₃⟩, r₃⟩ => ?_
  have o₁₃ := o₁₂.trans o₃
  refine Sat.bind (loadElems_reads o₃.live hv (hf.onward o₁₃) (o₁₃.has hd)) fun old b₄ ⟨⟨o₄, h₄⟩, r₄⟩ => ?_
  have o₁₄ := o₁₃.trans o₄
  refine Sat.bind (byteLen_reaches o₄.live hv (hf.onward o₁₄) (o₁₄.has hs)) fun live b₅ ⟨⟨o₅, h₅⟩, r₅⟩ => ?_
  have o₁₅ := o₁₄.trans o₅
  refine Sat.bind ((Ir.Emit.memCopy_onward o₅.live (o₅.has (o₄.has h₃)) (o₅.has h₄) (hf.onward o₁₅).word h₅).and
    (Machine.memCopy_acts o₅.live)) fun _ b₆ ⟨⟨o₆, _⟩, e₆⟩ => ?_
  have o₁₆ := o₁₅.trans o₆
  have o₃₆ := (o₄.trans o₅).trans o₆
  refine Sat.bind (storeField_revises o₆.live hv (hf.onward o₁₆) (o₁₆.has hd) .elems (o₃₆.has h₃))
    fun _ b₇ ⟨o₇, r₇⟩ => ?_
  have o₁₇ := o₁₆.trans o₇
  refine (storeField_revises o₇.live hv (hf.onward o₁₇) (o₁₇.has hd) .capacity
    (o₇.has (o₃₆.has (o₃.has (o₂.has h₁))))).imp ?_
  rintro - b₈ ⟨o₈, r₈⟩
  refine ⟨o₁₇.trans o₈, fun {S scope ρ g H M id j items capacity d elems} hS he hp hM hst hin hdesc hsize hcap => ?_⟩
  subst he
  have p₇ := hp.back o₈
  have p₆ := p₇.back o₇
  have p₅ := p₆.back o₆
  have p₄ := p₅.back o₅
  have p₃ := p₄.back o₄
  have p₂ := p₃.back o₃
  have hle := hin.capacity_le
  have hcell := Machine.cellBytes_le (S.env.ir elem)
  have hdoubled : doubled capacity ≤ 2 * maxOffset := by
    unfold doubled maxOffset at *
    omega
  have hbytes : doubled capacity * cellBytes (S.env.ir elem) < 2 ^ 64 :=
    Nat.lt_of_le_of_lt (Nat.mul_le_mul hdoubled hcell) (by decide)
  have hmore : capacity ≤ doubled capacity := by unfold doubled; omega
  have hcap64 : capacity < 2 ^ 64 := Nat.lt_of_le_of_lt hle (by decide)
  have hreach := (r₁ (p₂.back o₂) hM hcap hcap64).bind fun M₁ m₁ hv₁ =>
    (r₂ p₂ m₁.toAt hv₁).imp_moved fun M₂ m₂ hv₂ => And.intro (m₂.holds hv₁) hv₂
  refine Leads.past hS.toReady hst hreach fun {M₂} a₂ hst₂ ⟨hnew₂, hbytes₂⟩ => ?_
  obtain ⟨htoo, hdone⟩ := r₃ hS rfl p₃ a₂.moved.toAt hbytes₂ hbytes
  rw [cellSize_eq hS.runnable.pointerBits, Sem.demandBytes_bind]
  by_cases hlarge : maxOffset < doubled capacity * cellBytes (S.env.ir elem)
  · rw [if_pos hlarge]
    exact Leads.of_faults hS a₂.stands (htoo hlarge)
  rw [if_neg hlarge]
  refine (hdone a₂.stands (hin.same hst₂) (Nat.not_lt.1 hlarge) (Nat.le_refl _)).next fun {g₃ M₃} a₃ ⟨spare, hbuf₃, hspare, hin₃⟩ => ?_
  have a₂₃ := a₂.trans a₃
  have hreach₃ := (r₄ hS.toReady rfl p₄ a₃.moved.toAt (a₂₃.moved.holds hdesc) hin₃).bind fun M₄ m₄ hv₄ =>
    (r₅ p₅ m₄.toAt (m₄.holds (a₂₃.moved.holds hsize))).imp_moved fun M₅ m₅ hv₅ => And.intro (m₅.holds hv₄) hv₅
  refine Leads.past hS.toReady a₃.stands hreach₃ fun {M₅} a₅ hst₅ ⟨hold₅, hlive₅⟩ k => ?_
  have hne : 0 < capacity → elems ≠ blockAddress g.length := by
    intro hc he
    obtain ⟨k', buf, rfl, hb⟩ := hin.stored.buffer hc
    have hlt := (List.getElem?_eq_some_iff.1 hb.role).1
    have hlt' := (List.getElem?_eq_some_iff.1 hspare.role).1
    have := (Machine.blockAddress_inj hb.live.lt hspare.live.lt).1 he
    omega
  have m₃₅ := a₅.moved
  refine elements_copied hS.toReady a₅.stands (hin₃.same hst₅) (hst₅ ▸ hspare) hne
    (Nat.le_trans hin.stored.fits hmore) e₆ p₆ a₅.moved.toAt (m₃₅.holds hbuf₃) hold₅ hlive₅
    fun {M₆ spare₆} m₆ hst₆ hin₆ hspare₆ => ?_
  have m₂₆ := a₃.moved.trans (m₃₅.trans m₆)
  have m₆' := a₂.moved.trans m₂₆
  refine r₇ hS.toReady rfl p₇ m₆.toAt hst₆ hin₆ (m₆'.holds hdesc) (m₆.holds (m₃₅.holds hbuf₃))
    (.elems fun hc => ⟨_, _, rfl, hspare₆.role, hspare₆.live, ?_, hspare₆.holds⟩) fun {M₇ d₇} m₇ hst₇ hin₇ hkeep₇ => ?_
  · exact Nat.le_trans (Nat.mul_le_mul_right _ hmore) hspare₆.room
  rw [hin.set_eq] at hst₇ hin₇
  refine r₈ hS.toReady rfl hp m₇.toAt hst₇ hin₇ (m₇.holds (m₆'.holds hdesc)) (m₇.holds (m₂₆.holds hnew₂))
    (.capacity _ (Nat.le_trans hin.stored.fits hmore) fun hc => ⟨_, spare₆, rfl, ?_⟩) fun {M₈ d₈} m₈ hst₈ hin₈ _ => ?_
  · refine hspare₆.mono (List.prefix_refl _) (hkeep₇ _ ?_)
    rintro rfl
    have := hspare₆.role.symm.trans hin₇.role
    cases this
  · exact k ⟨m₆.trans (m₇.trans m₈), hst₈, List.prefix_refl _⟩ ⟨_, _, hin₈⟩

end

/-! ### Room for one more element -/

/-- The capacity of a vector goes up if it is full. -/
def grown (l : Types.Layout) (id : Nat) (elem : Ty) (items : List Value) (capacity : Nat) : Sem Nat := do
  let c ← Reference.makeRoom l elem items.length capacity
  Sem.put id (.vector elem items c)
  pure c

section

variable {l : Types.Layout} {id : Nat} {elem : Ty} {items : List Value} {capacity : Nat} {H H' : Heap}

theorem makeRoom_of_lt (h : items.length < capacity) : Reference.makeRoom l elem items.length capacity = pure capacity := by
  rw [Reference.makeRoom, if_pos h]

theorem makeRoom_of_full (h : ¬items.length < capacity) {α : Type} (f : Nat → Sem α) :
    (Reference.makeRoom l elem items.length capacity >>= f) H =
      if maxOffset < doubled capacity * Reference.cellSize l elem
      then .stop (.trap (.tooLarge (doubled capacity * Reference.cellSize l elem))) H
      else f (doubled capacity) H := by
  rw [Reference.makeRoom, if_neg h]
  show Result.bind f ((Sem.demandBytes _ >>= _) H) = _
  rw [Sem.demandBytes_bind]
  split <;> rfl

/-- What is done once there is room. -/
theorem makeRoom_put (f : Nat → Object) :
    (Reference.makeRoom l elem items.length capacity >>= fun c => Sem.put id (f c)) H =
      (grown l id elem items capacity >>= fun c => Sem.put id (f c)) H := by
  by_cases h : items.length < capacity
  · show _ = Result.bind _ ((Reference.makeRoom l elem items.length capacity >>= _) H)
    rw [makeRoom_of_lt h]
    exact congrArg (Result.value ()) (List.set_set ..).symm
  · show _ = Result.bind _ ((Reference.makeRoom l elem items.length capacity >>= _) H)
    rw [makeRoom_of_full h, makeRoom_of_full h]
    split
    · rfl
    · exact congrArg (Result.value ()) (List.set_set ..).symm

theorem grown_ends {c : Nat} (hle : items.length ≤ capacity)
    (h : (grown l id elem items capacity H).Ends (.ok c) H') :
    H' = H.set id (.vector elem items c) ∧ items.length < c := by
  change ((Reference.makeRoom l elem items.length capacity >>= _) H).Ends _ _ at h
  by_cases hlt : items.length < capacity
  · rw [makeRoom_of_lt hlt] at h
    cases h
    exact ⟨rfl, hlt⟩
  · rw [makeRoom_of_full hlt] at h
    split at h
    · cases h
    · cases h
      refine ⟨rfl, ?_⟩
      unfold doubled
      omega

end

section

variable {env : Env} {elem : Ty} {v : VectorShape} {b : Builder} (h : b.Live) (hv : Shaped env elem v)
  (hf : v.Fits b .i64) {desc : ValueId} (hd : b.function.Has desc .ptr)

include h hv hf hd

/-- There is room for one more element. -/
theorem ensureCapacity_leads {size : ValueId} (hs : b.function.Has size .i64) :
    (v.ensureCapacity desc size).Sat b fun _ b' => Onward b b' ∧
      ∀ {S : Scene} {scope : Scope} {ρ : Locals} {g : Ground} {H : Heap} {M : State} {id j : Nat}
        {items : List Value} {capacity : Nat} {d : Allocation} {elems : UInt64}, S.Open → S.env = env →
        Toward b b' S.world → At S.world.func b M → Stands S scope ρ g H M →
        VectorIn S g H M elem id j items capacity d elems → Holds b M desc (.ptr (blockAddress j)) →
        Holds b M size (.int (UInt64.ofNat items.length)) →
        Leads S scope ρ b M g b' (grown env.layout id elem items capacity H) fun c g' M' => ∃ d' elems',
          VectorIn S g' (H.set id (.vector elem items c)) M' elem id j items c d' elems' := by
  show (v.loadCapacity desc >>= fun cap => Emit.icmp .uge size cap "vec.full" >>= fun full =>
    Machine.detour full "vec.grow" "vec.append" (v.moveElements desc size cap)).Sat b _
  refine Sat.bind (loadCapacity_reads h hv hf hd) fun cap b₁ ⟨⟨o₁, h₁⟩, r₁⟩ => ?_
  refine Sat.bind (icmp_reaches o₁.live (show Ir.Ty.intBits? .i64 = some 64 from rfl) .uge (o₁.has hs) h₁ _)
    fun full b₂ ⟨⟨o₂, h₂⟩, r₂⟩ => ?_
  have o₁₂ := o₁.trans o₂
  refine (Machine.detour_detours o₂.live h₂ _ _ fun s os => moveElements_leads os.live hv (hf.onward (o₁₂.trans os))
    ((o₁₂.trans os).has hd) ((o₁₂.trans os).has hs) (os.has (o₂.has h₁))).imp ?_
  rintro - b' ⟨s, d, os, move, detours⟩
  refine ⟨o₁₂.trans detours.onward, fun {S scope ρ g H M id j items capacity desc' elems} hS he ht hM hst hin hdesc hsize => ?_⟩
  subst he
  have p₂ := ht.toPart.back detours.onward
  have ht₂ := ht.since o₁₂.ext.toLater
  have hreach := ((r₁ hS.toReady rfl (p₂.back o₂) hM).2 hdesc hin).bind fun M₁ m₁ hv₁ =>
    (r₂ p₂ m₁.toAt (m₁.holds hsize) hv₁).imp_moved fun M₂ m₂ hv₂ => And.intro (m₂.holds hv₁) hv₂
  refine Leads.past hS.toReady hst hreach fun {M₂} a₂ hst₂ ⟨hcap₂, hfull₂⟩ => ?_
  have hin₂ := hin.same hst₂
  have hword : ∀ k : Nat, k < 2 ^ 64 → (UInt64.ofNat k).toNat = k := fun k hk => UInt64.toNat_ofNat_of_lt' hk
  have hcompare : Machine.intCompare .uge 64 (UInt64.ofNat items.length) (UInt64.ofNat capacity) =
      decide (capacity ≤ items.length) := by
    refine decide_eq_decide.2 ?_
    rw [UInt64.le_iff_toNat_le, hword _ hin.length_lt,
      hword _ (Nat.lt_of_le_of_lt hin.capacity_le (by decide))]
  rw [hcompare] at hfull₂
  show Leads _ _ _ _ _ _ _ ((Reference.makeRoom _ _ _ _ >>= _) H) _
  by_cases hlt : items.length < capacity
  · rw [decide_eq_false (Nat.not_le.2 hlt)] at hfull₂
    rw [makeRoom_of_lt hlt]
    show Leads _ _ _ _ _ _ _ (.value capacity (H.set id (.vector elem items capacity))) _
    rw [hin.set_eq]
    refine Leads.past hS.toReady a₂.stands (detours.skip ht₂ a₂.moved.toAt hfull₂) fun a₃ hst₃ _ k => ?_
    refine k (.refl a₃.moved.toAt a₃.stands) ⟨desc', elems, ?_⟩
    rw [hin.set_eq]
    exact hin₂.same hst₃
  · rw [decide_eq_true (Nat.not_lt.1 hlt)] at hfull₂
    rw [makeRoom_of_full hlt]
    refine Leads.past hS.toReady a₂.stands (detours.enter ht₂ a₂.moved.toAt hfull₂) fun {M₃} a₃ hst₃ _ => ?_
    have m₃ := a₂.moved.trans a₃.moved
    have hmove := move hS rfl (detours.inside ht₂).toPart a₃.moved.toAt a₃.stands (hin₂.same hst₃) (m₃.holds hdesc)
      (m₃.holds hsize) (a₃.moved.holds hcap₂)
    rw [Sem.demandBytes_bind] at hmove
    split
    · rename_i hlarge
      rw [if_pos hlarge] at hmove
      exact hmove
    · rename_i hsmall
      rw [if_neg hsmall] at hmove
      refine hmove.next fun {g₄ M₄} a₄ ⟨d', elems', hin₄⟩ => ?_
      refine Leads.past hS.toReady a₄.stands (detours.leave ht₂ a₄.moved.toAt) fun a₅ hst₅ _ k => ?_
      exact k (.refl a₅.moved.toAt a₅.stands) ⟨d', elems', hin₄.same hst₅⟩

/-- An element is appended. -/
theorem append_operates {x : ValueId} (hx : b.function.Has x (env.ir elem)) :
    (v.append desc x).Sat b fun _ b' => Onward b b' ∧
      ∀ y, Operates env elem desc b b' (fun S M g => Denotes S b M g x ⟨y, elem⟩)
        (Reference.append env.layout · (Reference.keptAs elem y)) fun _ _ _ _ => True := by
  refine Sat.bind (loadSize_reads h hv hf hd) fun size b₁ ⟨⟨o₁, h₁⟩, r₁⟩ => ?_
  have hf₁ := hf.onward o₁
  refine Sat.bind (ensureCapacity_leads o₁.live hv hf₁ (o₁.has hd) h₁) fun _ b₂ ⟨o₂, r₂⟩ => ?_
  have o₁₂ := o₁.trans o₂
  refine Sat.bind (loadElems_reads o₂.live hv (hf.onward o₁₂) (o₁₂.has hd)) fun elems b₃ ⟨⟨o₃, h₃⟩, r₃⟩ => ?_
  have o₁₃ := o₁₂.trans o₃
  refine Sat.bind (elementPtr_reaches o₃.live hv (hf.onward o₁₃) h₃ (o₃.has (o₂.has h₁)))
    fun slot b₄ ⟨⟨o₄, h₄⟩, r₄⟩ => ?_
  have o₁₄ := o₁₃.trans o₄
  refine Sat.bind ((Ir.Emit.store_onward o₄.live (.inl ⟨_, o₁₄.has hx⟩) h₄).and (Machine.store_acts o₄.live h₄))
    fun _ b₅ ⟨⟨o₅, _⟩, e₅⟩ => ?_
  have o₁₅ := o₁₄.trans o₅
  have o₂₅ := ((o₂.trans o₃).trans o₄).trans o₅
  refine (bumpSize_runs o₅.live hv (hf.onward o₁₅) (o₁₅.has hd) (o₂₅.has h₁) true).imp ?_
  rintro - b₆ ⟨o₆, r₆⟩
  refine ⟨o₁₅.trans o₆, fun y {S scope ρ g H M u} hS he ht hM hst hdesc hvalue => ?_⟩
  subst he
  have p₅ := ht.toPart.back o₆
  have p₄ := p₅.back o₅
  have p₃ := p₄.back o₄
  have p₂ := p₃.back o₃
  obtain ⟨hnull, hsize⟩ := r₁ hS.toReady rfl (p₂.back o₂) hM
  show Leads S scope ρ b M g b₆ ((Reference.vectorOf u >>= _ : Sem Unit) H) _
  refine hdesc.leads_vector hS hst hnull fun {id j items capacity d elems} hv hin => ?_
  simp only []
  rw [makeRoom_put]
  refine Leads.past hS.toReady hst (hsize hv hin) fun {M₁} a₁ hst₁ hs₁ => ?_
  have ht₂ := (ht.before (((o₃.trans o₄).trans o₅).trans o₆).ext).since o₁.ext.toLater
  refine Leads.bind_ends (r₂ hS rfl ht₂ a₁.moved.toAt a₁.stands (hin.same hst₁) (a₁.moved.holds hv) hs₁)
    fun {c H₂ g₂ M₂} hends a₂ ⟨d₂, elems₂, hin₂⟩ => ?_
  obtain ⟨rfl, hroom⟩ := grown_ends hin.stored.fits hends
  obtain ⟨k, buf, rfl, hbuf⟩ := hin₂.stored.buffer (Nat.zero_lt_of_lt hroom)
  have a₁₂ := a₁.trans a₂
  have hdesc₂ := a₁₂.moved.holds hv
  have hsize₂ := a₂.moved.holds hs₁
  have hreach := (r₃ hS.toReady rfl p₃ a₂.moved.toAt hdesc₂ hin₂).bind fun M₃ m₃ hv₃ =>
    r₄ p₄ m₃.toAt hv₃ (m₃.holds hsize₂)
  refine Leads.past hS.toReady a₂.stands hreach fun {M₄} a₄ hst₄ hslot goal => ?_
  have m₄ := a₁₂.moved.trans a₄.moved
  refine cell_stored hS.toReady a₄.stands (hin₂.same hst₄) (hst₄ ▸ hbuf) a₄.moved.toAt p₅ e₅ hslot
    (valueType_of_has p₄ (o₁₄.has hx)) (hvalue.mono m₄ a₁₂.grows) hroom
    fun {g₅ M₅ buf₅} m₅ hg₅ hst₅ hin₅ hbuf₅ hkeep₅ hcell₅ => ?_
  rw [List.set_eq_of_length_le (Nat.le_refl _), List.set_set] at hst₅ hin₅
  rw [List.set_eq_of_length_le (Nat.le_refl _)] at hbuf₅
  refine r₆ (n := items.length) (items ++ [Reference.keptAs elem y]) hS.toReady rfl ht.toPart m₅.toAt hst₅ hin₅
    (m₅.holds (m₄.holds hv)) (m₅.holds (a₄.moved.holds hsize₂)) (by simp) (by simpa using hroom) ?_
    fun {M₆} m₆ hst₆ => ?_
  · refine hbuf₅.refilled fun {i z} hi => ?_
    rw [List.getElem?_append] at hi
    split at hi
    · exact hbuf₅.holds hi
    · rename_i hge
      obtain ⟨hz, rfl⟩ : i - items.length = 0 ∧ Reference.keptAs elem y = z := by simpa [List.getElem?_cons] using hi
      obtain rfl : i = items.length := by omega
      exact hcell₅
  · exact goal ⟨m₅.trans m₆, hst₆, hg₅⟩ trivial

end

end BlockForge.Simulation
