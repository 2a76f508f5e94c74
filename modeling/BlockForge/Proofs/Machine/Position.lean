import BlockForge.Proofs.Ir.Flow
import BlockForge.Proofs.Machine.Steps

/-!
# Running code while it is built

A state of the machine is `At` a builder state if it is about to run what is emitted next. Slots may
still be put in front of the entry block, so a position counts the instructions behind them. What is
shown of a run is a `goal` that holds of a state if it holds of the next one; so running emitted code
is to move the goal along it, one instruction at a time.
-/

namespace BlockForge.Machine

open Ir (BlockId Builder Emit Function Inst InstKind Module Terminator Ty Value ValueId)
open Ir.Emit (Appended Declared Fresh Halted Onward Within)
open StateM

/-! ### Addresses in memory -/

/-- About to ask for memory without references. -/
def CallsAtomic (m : Module) (M : State) : Prop :=
  ∃ r id args t d, M.frame.code.insts[M.frame.next]? = some ⟨r, .call (.host id) args t⟩ ∧
    m.host? id = some d ∧ d.name = hostMallocAtomic

/-- About to store an address at an address. -/
def StoresAddress (m : Module) (M : State) (addr : UInt64) : Prop :=
  ∃ r v p x M₁ M₂, M.frame.code.insts[M.frame.next]? = some ⟨r, .store v p⟩ ∧
    M.frame.func.valueType v = .ptr ∧ Exec.operand m v M = .ok x M₁ ∧
    Exec.operandPtr m p M₁ = .ok addr M₂

/-- About to copy bytes from an address to another. -/
def CopiesBytes (m : Module) (M : State) (dst src : UInt64) : Prop :=
  ∃ r d s l len M₁ M₂ M₃, (M.frame.code.insts[M.frame.next]? = some ⟨r, .memCopy d s l⟩ ∨
      M.frame.code.insts[M.frame.next]? = some ⟨r, .memMove d s l⟩) ∧
    Exec.operandPtr m d M = .ok dst M₁ ∧ Exec.operandPtr m s M₁ = .ok src M₂ ∧
    Exec.operandInt m l M₂ = .ok len M₃ ∧ len ≠ 0

/-- About to write at an address. -/
inductive WritesAt (m : Module) (M : State) (addr : UInt64) : Prop
  | store {r v p x M₁ M₂} (hi : M.frame.code.insts[M.frame.next]? = some ⟨r, .store v p⟩)
      (hv : Exec.operand m v M = .ok x M₁) (hp : Exec.operandPtr m p M₁ = .ok addr M₂)
  | copy {src} (h : CopiesBytes m M addr src)

/-- About to keep addresses out of the allocations without references, which are those in `A`, and to leave
those in `K` as they are. -/
structure Careful (m : Module) (A K : Nat → Prop) (M : State) : Prop where
  stores : ∀ {addr}, StoresAddress m M addr → ¬A (blockIndex addr)
  copies : ∀ {dst src}, CopiesBytes m M dst src → A (blockIndex dst) → A (blockIndex src)
  writes : ∀ {addr}, WritesAt m M addr → ¬K (blockIndex addr)

/-- What a step allocates is in `A` if it asked for memory without references. -/
def Tells (m : Module) (A : Nat → Prop) (M M' : State) : Prop :=
  ∀ j, M.store.memory.blocks.size ≤ j → j < M'.store.memory.blocks.size → (A j ↔ CallsAtomic m M)

/-! ### Runs -/

/-- What is shown of the runs of a module: `holds n M` follows of a state from the next one, with one less
to go. Where allocations are `watched`, a step has to be careful about those that are `atomic` and those that
are `kept`. -/
structure Aim where
  module : Module
  limit : Nat
  watched : Prop
  atomic : Nat → Prop
  kept : Nat → Prop
  /-- Nothing is left to show when none is left to go. -/
  bounded : Prop
  holds : Nat → State → Prop
  step : ∀ {n M M'}, Exec.step module limit M = .ok none M' → (watched → Careful module atomic kept M) →
    ((watched → Tells module atomic M M') → holds n M') → holds (n + 1) M
  less : ∀ {n M}, holds (n + 1) M → holds n M
  zero : ∀ {M}, bounded → holds 0 M

/-- The function that runs, and how much is left to show. -/
structure World extends Aim where
  index : Nat
  func : Function
  ok : func.Ok module

namespace World

variable (w : World) {M M' : State}

def goal (M : State) : Prop := w.holds w.index M

/-- With one less to go. -/
def pred : World := { w with index := w.index - 1 }

variable {w}

theorem goal_pred (h : w.goal M) : w.pred.goal M := by
  show w.holds (w.index - 1) M
  cases hn : w.index with
  | zero => rw [World.goal, hn] at h; exact h
  | succ n => rw [World.goal, hn] at h; exact w.less h

/-- A step from which less has to be shown. -/
theorem forth (h : Exec.step w.module w.limit M = .ok none M')
    (hc : w.watched → Careful w.module w.atomic w.kept M)
    (hg : (w.watched → Tells w.module w.atomic M M') → w.pred.goal M') : w.goal M := by
  show w.holds w.index M
  have hstep : w.holds (w.index - 1 + 1) M := w.step h hc hg
  cases hn : w.index with
  | zero => rw [hn] at hstep; exact w.less hstep
  | succ n => rw [hn] at hstep; exact hstep

theorem back (h : Exec.step w.module w.limit M = .ok none M')
    (hc : w.watched → Careful w.module w.atomic w.kept M)
    (hg : (w.watched → Tells w.module w.atomic M M') → w.goal M') : w.goal M :=
  forth h hc fun ht => goal_pred (hg ht)

end World

/-- Whether an instruction leaves the contents of memory as they are. -/
def isQuiet : InstKind → Bool
  | .store .. | .memCopy .. | .memMove .. => false
  | _ => true

theorem not_copiesBytes_of_quiet {m : Module} {M : State} {inst : Inst}
    (hi : M.frame.code.insts[M.frame.next]? = some inst) (hq : isQuiet inst.kind = true) {dst src : UInt64} :
    ¬CopiesBytes m M dst src := by
  rintro ⟨r, d, s, l, len, M₁, M₂, M₃, hs, -⟩
  rw [hi] at hs
  rcases hs with hs | hs
  all_goals
    cases hs
    cases hq

theorem careful_of_quiet {m : Module} {A K : Nat → Prop} {M : State} {inst : Inst}
    (hi : M.frame.code.insts[M.frame.next]? = some inst) (hq : isQuiet inst.kind = true) :
    Careful m A K M where
  stores := by
    rintro addr ⟨r, v, p, x, M₁, M₂, hs, -⟩
    rw [hi] at hs
    cases hs
    cases hq
  copies h := absurd h (not_copiesBytes_of_quiet hi hq)
  writes h := by
    cases h with
    | store hs =>
      rw [hi] at hs
      cases hs
      cases hq
    | copy h => exact absurd h (not_copiesBytes_of_quiet hi hq)

/-- About to store at an address that is known. -/
theorem careful_store {m : Module} {A K : Nat → Prop} {M M₁ M₂ : State} {r : Option ValueId} {v p : ValueId} {x : Val}
    {addr : UInt64} (hi : M.frame.code.insts[M.frame.next]? = some ⟨r, .store v p⟩)
    (hv : Exec.operand m v M = .ok x M₁) (hp : Exec.operandPtr m p M₁ = .ok addr M₂)
    (ha : M.frame.func.valueType v = .ptr → ¬A (blockIndex addr)) (hk : ¬K (blockIndex addr)) : Careful m A K M := by
  have hsame : ∀ {addr' : UInt64} {r' : Option ValueId} {v' p' : ValueId} {x' : Val} {M₁' M₂' : State},
      M.frame.code.insts[M.frame.next]? = some ⟨r', .store v' p'⟩ → Exec.operand m v' M = .ok x' M₁' →
      Exec.operandPtr m p' M₁' = .ok addr' M₂' → v' = v ∧ addr' = addr := by
    intro addr' r' v' p' x' M₁' M₂' hi' hv' hp'
    rw [hi] at hi'
    cases hi'
    rw [hv] at hv'
    cases hv'
    rw [hp] at hp'
    cases hp'
    exact ⟨rfl, rfl⟩
  have hcopy : ∀ {dst src : UInt64}, ¬CopiesBytes m M dst src := by
    rintro dst src ⟨r', d, s, l, len, M₁', M₂', M₃', hs, -⟩
    rw [hi] at hs
    rcases hs with hs | hs <;> cases hs
  refine ⟨?_, fun h => absurd h hcopy, fun h => ?_⟩
  · rintro addr' ⟨r', v', p', x', M₁', M₂', hs, ht, hv', hp'⟩
    obtain ⟨rfl, rfl⟩ := hsame hs hv' hp'
    exact ha ht
  · cases h with
    | store hs hv' hp' =>
      obtain ⟨-, rfl⟩ := hsame hs hv' hp'
      exact hk
    | copy h => exact absurd h hcopy

/-- About to copy between addresses that are known, or nothing. -/
theorem careful_copy {m : Module} {A K : Nat → Prop} {M : State} {r : Option ValueId} {d s l : ValueId}
    {dst src len : UInt64} (hi : M.frame.code.insts[M.frame.next]? = some ⟨r, .memCopy d s l⟩ ∨
      M.frame.code.insts[M.frame.next]? = some ⟨r, .memMove d s l⟩)
    (hd : Exec.operandPtr m d M = .ok dst M) (hs : Exec.operandPtr m s M = .ok src M)
    (hl : Exec.operandInt m l M = .ok len M) (ha : len ≠ 0 → A (blockIndex dst) → A (blockIndex src))
    (hk : len ≠ 0 → ¬K (blockIndex dst)) : Careful m A K M := by
  have hsame : ∀ {dst' src' : UInt64}, CopiesBytes m M dst' src' → dst' = dst ∧ src' = src ∧ len ≠ 0 := by
    rintro dst' src' ⟨r', d', s', l', len', M₁, M₂, M₃, hi', hd', hs', hl', hne⟩
    obtain ⟨rfl, rfl, rfl⟩ : d' = d ∧ s' = s ∧ l' = l := by
      rcases hi with hi | hi <;> rcases hi' with hi' | hi' <;> rw [hi] at hi' <;> cases hi'
      all_goals exact ⟨rfl, rfl, rfl⟩
    rw [hd] at hd'
    cases hd'
    rw [hs] at hs'
    cases hs'
    rw [hl] at hl'
    cases hl'
    exact ⟨rfl, rfl, hne⟩
  have hstore : ∀ {r' : Option ValueId} {v p : ValueId}, M.frame.code.insts[M.frame.next]? ≠ some ⟨r', .store v p⟩ := by
    intro r' v p hi'
    rcases hi with hi | hi <;>
    · rw [hi] at hi'
      cases hi'
  refine ⟨?_, fun h => ?_, fun h => ?_⟩
  · rintro addr ⟨r', v, p, x, M₁, M₂, hi', -⟩
    exact absurd hi' hstore
  · obtain ⟨rfl, rfl, hne⟩ := hsame h
    exact ha hne
  · cases h with
    | store hi' => exact absurd hi' hstore
    | copy h =>
      obtain ⟨rfl, -, hne⟩ := hsame h
      exact hk hne

/-- The stack slots of a function. -/
def IsSlot (f : Function) (v : ValueId) : Prop := ∃ x ∈ f.slots Ir.Id.entry, x.result = some v

/-- The builder's work is part of the function that runs. -/
structure Part (b : Builder) (w : World) : Prop where
  module : b.module.Grows w.module
  function : b.function.Grows w.func

theorem Part.before {s b : Builder} {w : World} (h : Part b w) (k : s.Later b) : Part s w :=
  ⟨k.module.trans h.module, k.grows.trans h.function⟩

theorem Part.back {s b : Builder} {w : World} (h : Part b w) (o : Onward s b) : Part s w :=
  h.before o.ext.toLater

/-! ### Positions -/

/-- About to run what the builder emits next. -/
structure At (f : Function) (b : Builder) (M : State) : Prop where
  func : M.frame.func = f
  block : b.current = some M.frame.block
  code : f.block? M.frame.block = some M.frame.code
  next : M.frame.next = (f.slots M.frame.block).length + (b.function.body M.frame.block).length
  regs : M.frame.regs.size = f.values.size

/-- The value of an operand that the builder knows. -/
structure Holds (b : Builder) (M : State) (v : ValueId) (x : Val) : Prop where
  lt : v.index < b.function.values.size
  value : M.frame.value? v = some x

/-- A later state of the same frame, in which the first `n` values and the slots have kept their
results; the store is left open. -/
structure Stays (f : Function) (n : Nat) (M M' : State) : Prop where
  func : M'.frame.func = M.frame.func
  args : M'.frame.args = M.frame.args
  slots : M'.frame.slots = M.frame.slots
  depth : M'.frame.depth = M.frame.depth
  callers : M'.callers = M.callers
  kept : ∀ v : ValueId, v.index < n ∨ IsSlot f v →
    M'.frame.regs[v.index]? = M.frame.regs[v.index]?

namespace Stays

variable {f : Function} {n k : Nat} {M M' M'' : State}

theorem refl (f : Function) (n : Nat) (M : State) : Stays f n M M :=
  ⟨rfl, rfl, rfl, rfl, rfl, fun _ _ => rfl⟩

theorem trans (h : Stays f n M M') (hk : Stays f k M' M'') (hn : n ≤ k) : Stays f n M M'' where
  func := hk.func.trans h.func
  args := hk.args.trans h.args
  slots := hk.slots.trans h.slots
  depth := hk.depth.trans h.depth
  callers := hk.callers.trans h.callers
  kept v hv := (hk.kept v (hv.imp (fun hlt => Nat.lt_of_lt_of_le hlt hn) id)).trans (h.kept v hv)

theorem mono (h : Stays f n M M') (hk : k ≤ n) : Stays f k M M' :=
  { h with kept := fun v hv => h.kept v (hv.imp (fun hlt => Nat.lt_of_lt_of_le hlt hk) id) }

/-- A frame does not depend on the store. -/
theorem restore {st : Store} (h : Stays f n M M') : Stays f n { M with store := st } M' :=
  ⟨h.func, h.args, h.slots, h.depth, h.callers, h.kept⟩

theorem value? (h : Stays f n M M') {v : ValueId} (hv : v.index < n ∨ IsSlot f v) :
    M'.frame.value? v = M.frame.value? v := by
  simp only [Frame.value?, h.func, h.args, h.kept v hv]

end Stays

/-- A later position in the same frame. -/
structure Moved (f : Function) (b : Builder) (M : State) (b' : Builder) (M' : State) : Prop extends
    At f b' M' where
  stays : Stays f b.function.values.size M M'
  grown : b.function.values.size ≤ b'.function.values.size

namespace Moved

variable {f : Function} {b b' b'' : Builder} {M M' M'' : State}

theorem refl (h : At f b M) : Moved f b M b M := ⟨h, .refl .., Nat.le_refl _⟩

theorem trans (h : Moved f b M b' M') (k : Moved f b' M' b'' M'') : Moved f b M b'' M'' :=
  ⟨k.toAt, h.stays.trans k.stays h.grown, Nat.le_trans h.grown k.grown⟩

theorem holds (h : Moved f b M b' M') {v : ValueId} {x : Val} (hv : Holds b M v x) :
    Holds b' M' v x :=
  ⟨Nat.lt_of_lt_of_le hv.lt h.grown, (h.stays.value? (.inl hv.lt)).trans hv.value⟩

end Moved

section

variable {w : World} {s b : Builder} {M : State}

/-- A position in a finished block: `insts` come next there. -/
theorem At.insts_getElem? (h : At w.func s M) (n : Nat) :
    M.frame.code.insts[M.frame.next + n]? =
      (w.func.body M.frame.block)[(s.function.body M.frame.block).length + n]? := by
  have hcode : w.func.code M.frame.block = M.frame.code.insts.toList := by
    simp only [Function.code]
    have := h.code
    rw [Function.block?] at this
    simp [this]
  rw [← Array.getElem?_toList, ← hcode, w.ok.arranged.lead, h.next, Nat.add_assoc,
    List.getElem?_append_right (by omega)]
  congr 1
  omega

theorem At.inst (h : At w.func s M) (hp : Part b w) {c : BlockId} {inst : Inst}
    (hc : s.current = some c) (hb : b.function.body c = s.function.body c ++ [inst]) :
    M.frame.code.insts[M.frame.next]? = some inst := by
  have hblock : M.frame.block = c := Option.some.inj (h.block.symm.trans hc)
  have := h.insts_getElem? 0
  rw [Nat.add_zero, Nat.add_zero, hblock] at this
  rw [this]
  obtain ⟨rest, hrest⟩ := hp.function.body c
  rw [← hrest, hb]
  simp

end

/-! ### Instructions -/

/-- The builder has emitted one instruction, with a result. -/
structure Emits (s b : Builder) (v : ValueId) (kind : InstKind) : Prop where
  isNext : v = ⟨s.function.values.size⟩
  current : b.current = s.current
  value : ∃ t c name, b.function.value? v = some ⟨t, .inst c, name⟩
  body : ∀ {c}, s.current = some c → b.function.body c = s.function.body c ++ [⟨some v, kind⟩]

/-- The builder has emitted one instruction, without a result. -/
structure Acts (s b : Builder) (kind : InstKind) : Prop where
  current : b.current = s.current
  values : b.function.values = s.function.values
  body : ∀ {c}, s.current = some c → b.function.body c = s.function.body c ++ [⟨none, kind⟩]

section

variable {w : World} {s b : Builder} {M M₁ : State} {v : ValueId} {kind : InstKind}

theorem Emits.inst (e : Emits s b v kind) (hp : Part b w) (hM : At w.func s M) :
    M.frame.code.insts[M.frame.next]? = some ⟨some v, kind⟩ :=
  hM.inst hp hM.block (e.body hM.block)

theorem Acts.inst (e : Acts s b kind) (hp : Part b w) (hM : At w.func s M) :
    M.frame.code.insts[M.frame.next]? = some ⟨none, kind⟩ :=
  hM.inst hp hM.block (e.body hM.block)

/-- The result of an instruction is no slot. -/
theorem Emits.not_isSlot (e : Emits s b v kind) (hp : Part b w) (hM : At w.func s M) : ¬ IsSlot w.func v := by
  rintro ⟨x, hx, hr⟩
  have hmem : (⟨some v, kind⟩ : Inst) ∈ w.func.body M.frame.block := by
    refine (hp.function.body _).subset ?_
    rw [e.body hM.block]
    simp
  exact w.ok.apart hx hmem rfl hr

/-- Behind an instruction with a result. -/
theorem Emits.moved (e : Emits s b v kind) (hp : Part b w) (hM : At w.func s M) (st : Store) (x : Val) :
    Moved w.func s M b (({ M with store := st } : State).put v x) ∧
      Holds b (({ M with store := st } : State).put v x) v x := by
  obtain ⟨t, c, name, hv⟩ := e.value
  have hlt : v.index < b.function.values.size := (Array.getElem?_eq_some_iff.1 hv).1
  have hidx : v.index = s.function.values.size := by rw [e.isNext]
  have hg : v.index < w.func.values.size := Nat.lt_of_lt_of_le hlt hp.function.valuesSize
  have hnot := e.not_isSlot hp hM
  have hkept : ∀ u : ValueId, u.index < s.function.values.size ∨ IsSlot w.func u →
      (M.frame.regs.setIfInBounds v.index (some x))[u.index]? = M.frame.regs[u.index]? := by
    intro u hu
    have hne : v.index ≠ u.index := by
      rcases hu with hu | hu
      · omega
      · exact fun he => hnot (Ir.Id.ext he ▸ hu)
    rw [Array.getElem?_setIfInBounds_ne hne]
  refine ⟨⟨⟨hM.func, e.current.trans hM.block, hM.code, ?_, ?_⟩, ⟨rfl, rfl, rfl, rfl, rfl, hkept⟩, ?_⟩,
    hlt, ?_⟩
  · show M.frame.next + 1 =
      (w.func.slots M.frame.block).length + (b.function.body M.frame.block).length
    rw [e.body hM.block, hM.next, List.length_append]
    rfl
  · show (M.frame.regs.setIfInBounds v.index (some x)).size = _
    rw [Array.size_setIfInBounds]
    exact hM.regs
  · omega
  · have hval : M.frame.func.value? v = some ⟨t, .inst c, name⟩ := by
      rw [hM.func]
      exact hp.function.value? hv
    have hreg : (M.frame.regs.setIfInBounds v.index (some x))[v.index]? = some (some x) :=
      Array.getElem?_setIfInBounds_self_of_lt (by rw [hM.regs]; exact hg)
    simp [Frame.value?, State.put, hval, hreg]

/-- Runs an instruction with a result that changes the store. -/
theorem Emits.change (e : Emits s b v kind) (hp : Part b w) (hM : At w.func s M) {st : Store} {x : Val}
    (hq : isQuiet kind = true)
    (h : Exec.perform w.module kind M = .ok (.done (some x)) { M with store := st })
    (k : ∀ M', Moved w.func s M b M' → M'.store = st → Holds b M' v x →
      (w.watched → Tells w.module w.atomic M M') → w.goal M') : w.goal M := by
  obtain ⟨hm, hv⟩ := e.moved hp hM st x
  have hi := e.inst hp hM
  exact w.back (step_done hi h) (fun _ => careful_of_quiet hi hq) (k _ hm rfl hv)

/-- Runs an instruction with a result. -/
theorem Emits.run (e : Emits s b v kind) (hp : Part b w) (hM : At w.func s M) {x : Val}
    (hq : isQuiet kind = true) (h : Exec.perform w.module kind M = .ok (.done (some x)) M)
    (k : ∀ M', Moved w.func s M b M' → M'.store = M.store → Holds b M' v x → w.goal M') : w.goal M :=
  e.change hp hM hq h fun M' m st hv _ => k M' m st hv

theorem Acts.moved (e : Acts s b kind) (hM : At w.func s M) {st : Store} :
    Moved w.func s M b ({ M with store := st } : State).skip := by
  refine ⟨⟨hM.func, e.current.trans hM.block, hM.code, ?_, hM.regs⟩,
    ⟨rfl, rfl, rfl, rfl, rfl, fun _ _ => rfl⟩, by rw [e.values]⟩
  show M.frame.next + 1 =
    (w.func.slots M.frame.block).length + (b.function.body M.frame.block).length
  rw [e.body hM.block, hM.next, List.length_append]
  rfl

/-- Runs an instruction without a result. -/
theorem Acts.change (e : Acts s b kind) (hp : Part b w) (hM : At w.func s M) {st : Store} {x : Option Val}
    (hc : w.watched → Careful w.module w.atomic w.kept M)
    (h : Exec.perform w.module kind M = .ok (.done x) { M with store := st })
    (k : ∀ M', Moved w.func s M b M' → M'.store = st → (w.watched → Tells w.module w.atomic M M') →
      w.goal M') : w.goal M :=
  w.back (step_done (e.inst hp hM) h) hc (k _ (e.moved hM) rfl)

/-- The frame is behind its last instruction. -/
theorem Halted.atEnd {t : Terminator} (h : Halted s b t) (hp : Part b w) (hM : At w.func s M) :
    M.frame.code.insts[M.frame.next]? = none ∧ M.frame.code.terminator = some t := by
  obtain ⟨c, hc, hf⟩ := h.ended
  obtain rfl : M.frame.block = c := Option.some.inj (hM.block.symm.trans hc)
  have hlt : M.frame.block.index < s.function.blocks.size := by
    obtain ⟨d, hd, hlt⟩ := h.ok.position
    rw [h.current, hM.block] at hd
    cases hd
    rw [← h.size]
    exact hlt
  have hend : b.function.ending M.frame.block = some t := by
    rw [hf, Function.ending_setEnding hlt, if_pos rfl]
  obtain ⟨hend', hbody⟩ := hp.function.ended hend
  constructor
  · have := hM.insts_getElem? 0
    rw [Nat.add_zero, Nat.add_zero] at this
    rw [this, hbody, h.body]
    simp
  · have hcode := hM.code
    rw [Function.block?] at hcode
    simpa [Function.ending, hcode] using hend'

/-! ### Work without steps -/

/-- The position has not moved. -/
theorem At.stay (hM : At w.func s M) (hc : b.current = s.current)
    (hb : ∀ {c}, s.current = some c → b.function.body c = s.function.body c)
    (hg : s.function.values.size ≤ b.function.values.size) : Moved w.func s M b M := by
  refine ⟨⟨hM.func, hc.trans hM.block, hM.code, ?_, hM.regs⟩, .refl .., hg⟩
  rw [hb hM.block]
  exact hM.next

theorem Declared.moved {val : Value} (d : Declared s b v val) (hM : At w.func s M) :
    Moved w.func s M b M :=
  hM.stay d.current (fun _ => by rw [d.function, Function.body_addValue]) (by
    rw [d.function]
    simp [Function.addValue])

theorem Declared.value? {val : Value} (d : Declared s b v val) (hp : Part b w)
    (hM : M.frame.func = w.func) :
    v.index < b.function.values.size ∧ M.frame.func.value? v = some val := by
  have hv : b.function.value? v = some val := by
    simp [d.function, d.isNext, Function.value?, Function.addValue]
  refine ⟨(Array.getElem?_eq_some_iff.1 hv).1, ?_⟩
  rw [hM]
  exact hp.function.value? hv

theorem Declared.int {t : Ty} {n : UInt64} {name : String}
    (d : Declared s b v ⟨t, .constInt n, name⟩) (hp : Part b w) (hM : M.frame.func = w.func) :
    Holds b M v (.int n) := by
  obtain ⟨hlt, hv⟩ := Declared.value? d hp hM
  exact ⟨hlt, by simp [Frame.value?, hv]⟩

theorem Declared.null {t : Ty} {name : String} (d : Declared s b v ⟨t, .constNull, name⟩)
    (hp : Part b w) (hM : M.frame.func = w.func) : Holds b M v .null := by
  obtain ⟨hlt, hv⟩ := Declared.value? d hp hM
  exact ⟨hlt, by simp [Frame.value?, hv]⟩

theorem Declared.float {t : Ty} {n : UInt64} {name : String}
    (d : Declared s b v ⟨t, .constFloat n, name⟩) (hp : Part b w) (hM : M.frame.func = w.func) :
    Holds b M v (.float n) := by
  obtain ⟨hlt, hv⟩ := Declared.value? d hp hM
  exact ⟨hlt, by simp [Frame.value?, hv]⟩

end

/-! ### Straight-line code -/

namespace World

/-- Running what was emitted from `s` to `b` leads to a state with `P`, the store as it is. -/
def Reaches (w : World) (s : Builder) (M : State) (b : Builder) (P : State → Prop) : Prop :=
  (∀ M', Moved w.func s M b M' → M'.store = M.store → P M' → w.goal M') → w.goal M

variable {w : World} {s b d : Builder} {M : State} {P Q : State → Prop}

theorem Reaches.of_moved (h : Moved w.func s M b M) (hP : P M) : w.Reaches s M b P := fun k => k M h rfl hP

theorem Reaches.bind (h : w.Reaches s M b P)
    (k : ∀ M', Moved w.func s M b M' → P M' → w.Reaches b M' d Q) : w.Reaches s M d Q := by
  intro goal
  refine h fun M₁ m₁ st₁ hP => k M₁ m₁ hP fun M₂ m₂ st₂ hQ => ?_
  exact goal M₂ (m₁.trans m₂) (st₂.trans st₁) hQ

theorem Reaches.keeps (h : w.Reaches s M b P) : w.Reaches s M b fun M' => M'.store = M.store ∧ P M' :=
  fun k => h fun M' m hst hP => k M' m hst ⟨hst, hP⟩

theorem Reaches.imp_moved (h : w.Reaches s M b P) (hi : ∀ M', Moved w.func s M b M' → P M' → Q M') :
    w.Reaches s M b Q := fun k => h fun M' m st hP => k M' m st (hi M' m hP)

theorem Reaches.imp (h : w.Reaches s M b P) (hi : ∀ M', P M' → Q M') : w.Reaches s M b Q :=
  fun k => h fun M' m st hP => k M' m st (hi M' hP)

end World

/-! ### What operations emit -/

section

variable {b : Builder} (h : b.Live)

include h

theorem emit_emits {kind : InstKind} (hk : kind.isAlloca = false) (ty : Ty) (name : String) :
    (Emit.emit ty kind name).Sat b fun v b' => Emits b b' v kind := by
  obtain ⟨c, hc, ho⟩ := h.isOpen
  have hlt := Emit.lt_size_of_ending h hc
  refine Sat.get_bind (Sat.bind ((Emit.pushValue_onward h (by trivial)).and
    (Emit.pushValue_declared h ty (.inst (b.current.getD Ir.Id.entry)) name)) ?_)
  rintro v b₁ ⟨⟨hon, -⟩, d⟩
  have hc₁ : b₁.current = some c := d.current.trans hc
  have ho₁ : b₁.function.ending c = none := by
    rw [d.function, Function.ending_addValue]
    exact ho
  have hlt₁ : c.index < b₁.function.blocks.size := by
    rw [d.function]
    exact hlt
  refine Sat.bind (P := fun _ b₂ => b₂ = b₁.modifyFunction (·.addInst c ⟨some v, kind⟩)) ?_ ?_
  · unfold Sat
    rw [Emit.insert_eq hc₁ ho₁]
  · rintro - b₂ rfl
    have hfun := Builder.function_modifyFunction hon.live.ok.valid (·.addInst c ⟨some v, kind⟩)
    refine Sat.pure ⟨d.isNext, d.current, ?_, ?_⟩
    · rw [hfun, d.isNext]
      exact ⟨ty, b.current.getD Ir.Id.entry, name, by
        simp [Function.value?, Function.addInst, Function.editInsts, d.function,
          Function.addValue]⟩
    · intro c' hc'
      obtain rfl : c = c' := Option.some.inj (hc.symm.trans hc')
      rw [hfun, Function.body_addInst hlt₁ hk, if_pos rfl, d.function, Function.body_addValue]

theorem emitVoid_acts {kind : InstKind} (hk : kind.isAlloca = false) :
    (Emit.emitVoid kind).Sat b fun _ b' => Acts b b' kind := by
  obtain ⟨c, hc, ho⟩ := h.isOpen
  have hlt := Emit.lt_size_of_ending h hc
  have hfun := Builder.function_modifyFunction h.ok.valid (·.addInst c ⟨none, kind⟩)
  unfold Emit.emitVoid Sat
  rw [Emit.insert_eq hc ho]
  refine ⟨rfl, by rw [hfun]; rfl, ?_⟩
  intro c' hc'
  obtain rfl : c = c' := Option.some.inj (hc.symm.trans hc')
  rw [hfun, Function.body_addInst hlt hk, if_pos rfl]

variable {l r p o : ValueId} {t : Ty}

theorem load_emits (hp : b.function.Has p .ptr) (name : String) :
    (Emit.load t p name).Sat b fun v b' => Emits b b' v (.load t p) :=
  Emit.demand_bind (by simp [Builder.valueType, hp.valueType_eq, Ty.isPtr]) (emit_emits h rfl t name)

theorem store_acts (hp : b.function.Has p .ptr) :
    (Emit.store l p).Sat b fun _ b' => Acts b b' (.store l p) :=
  Emit.demand_bind (by simp [Builder.valueType, hp.valueType_eq, Ty.isPtr]) (emitVoid_acts h rfl)

theorem ptrAdd_emits (name : String) :
    (Emit.ptrAdd p o name).Sat b fun v b' => Emits b b' v (.ptrAdd p o) := emit_emits h rfl _ name

theorem fieldPtr_emits {i : Ir.StructId} {k : Nat} (hk : k < (b.module.structFields i).length)
    (name : String) : (Emit.fieldPtr i p k name).Sat b fun v b' => Emits b b' v (.fieldPtr i p k) :=
  Emit.demand_bind (by simpa using hk) (emit_emits h rfl _ name)

theorem memCopy_acts : (Emit.memCopy l r o).Sat b fun _ b' => Acts b b' (.memCopy l r o) :=
  emitVoid_acts h rfl

theorem memMove_acts : (Emit.memMove l r o).Sat b fun _ b' => Acts b b' (.memMove l r o) :=
  emitVoid_acts h rfl

theorem binary_emits {op : Ir.BinOp} (hl : b.function.Has l t) (hr : b.function.Has r t)
    (hop : op.isFloat = t.isFloat) (name : String) :
    (Emit.binary op l r name).Sat b fun v b' => Emits b b' v (.binary op l r) := by
  refine Emit.demand_bind ?_ (Emit.demand_bind ?_ (Sat.get_bind (emit_emits h rfl _ name)))
  · simp [Builder.valueType, hl.valueType_eq, hr.valueType_eq]
  · simp [Builder.valueType, hl.valueType_eq, hop]

theorem icmp_emits {p : Ir.IntPred} (hl : b.function.Has l t) (hr : b.function.Has r t)
    (name : String) : (Emit.icmp p l r name).Sat b fun v b' => Emits b b' v (.icmp p l r) :=
  Emit.demand_bind (by simp [Builder.valueType, hl.valueType_eq, hr.valueType_eq])
    (emit_emits h rfl _ name)

theorem cast_emits (op : Ir.CastOp) (name : String) :
    (Emit.cast op l t name).Sat b fun v b' => Emits b b' v (.cast op l t) := emit_emits h rfl _ name

theorem select_emits {c : ValueId} (name : String) :
    (Emit.select c l r name).Sat b fun v b' => Emits b b' v (.select c l r) :=
  Sat.get_bind (emit_emits h rfl _ name)

theorem callAt_emits (callee : Ir.Callee) (ret : Ty) (args : List ValueId) (name : String) :
    (Emit.callAt callee ret args name).Sat b fun r b' =>
      (ret = .void ∧ r = none ∧ Acts b b' (.call callee args ret)) ∨
        ret ≠ .void ∧ ∃ v, r = some v ∧ Emits b b' v (.call callee args ret) := by
  unfold Emit.callAt
  split
  · rename_i hv
    refine Sat.bind (emitVoid_acts h rfl) fun _ b' hb => ?_
    exact Sat.pure (.inl ⟨hv, rfl, hb⟩)
  · rename_i hv
    refine Sat.map ((emit_emits h rfl ret name).imp fun v b' hb => ?_)
    exact .inr ⟨hv, v, rfl, hb⟩

theorem call_emits {func : Ir.FuncId} {f : Function} {args : List ValueId}
    (hf : b.module.function? func = some f) (ha : args.length = f.params.length) (name : String) :
    (Emit.call func args name).Sat b fun r b' =>
      (f.ret = .void ∧ r = none ∧ Acts b b' (.call (.func func) args f.ret)) ∨
        f.ret ≠ .void ∧ ∃ v, r = some v ∧ Emits b b' v (.call (.func func) args f.ret) := by
  refine Emit.demand_bind (by simp [hf, ha]) (Sat.get_bind ?_)
  simp only [hf, Option.elim_some]
  exact callAt_emits h _ _ _ _

theorem callHost_emits {host : Ir.HostId} {d : Ir.HostDecl} {args : List ValueId}
    (hd : b.module.host? host = some d) (name : String) :
    (Emit.callHost host args name).Sat b fun r b' =>
      (d.ret = .void ∧ r = none ∧ Acts b b' (.call (.host host) args d.ret)) ∨
        d.ret ≠ .void ∧ ∃ v, r = some v ∧ Emits b b' v (.call (.host host) args d.ret) := by
  refine Sat.get_bind ?_
  simp only [hd, Option.elim_some]
  exact callAt_emits h _ _ _ _

end

end BlockForge.Machine
