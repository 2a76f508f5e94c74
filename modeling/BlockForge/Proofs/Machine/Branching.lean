import BlockForge.Proofs.Machine.Position

/-!
# Running branches

A conditional branch leads to the start of a block. A block that merges nothing starts with its first
instruction, so a frame that comes there is where the code of the block was begun.
-/

namespace BlockForge.Machine

open Ir (BlockId Builder Function Module ValueId)
open Ir.Emit (Appended Halted)

theorem careful_of_end {m : Module} {A K : Nat → Prop} {M : State}
    (hi : M.frame.code.insts[M.frame.next]? = none) : Careful m A K M where
  stores := by
    rintro addr ⟨r, v, p, x, M₁, M₂, hs, -⟩
    rw [hi] at hs
    cases hs
  copies := by
    rintro dst src ⟨r, d, s, l, len, M₁, M₂, M₃, hs, -⟩
    rw [hi] at hs
    rcases hs with hs | hs <;> cases hs
  writes := by
    rintro addr (hs | ⟨r, d, s, l, len, M₁, M₂, M₃, hs, -⟩)
    · rw [hi] at hs
      cases hs
    · rw [hi] at hs
      rcases hs with hs | hs <;> cases hs

/-- The work since `s` is part of the function that runs, and its blocks that merge nothing never will. -/
structure Toward (s b : Builder) (w : World) : Prop extends Part b w where
  plain : ∀ i : BlockId, s.function.blocks.size ≤ i.index → i.index < b.function.blocks.size →
    b.function.NoPhi i → w.func.NoPhi i

namespace Toward

variable {s b d : Builder} {w : World}

/-- The part up to an earlier state. -/
theorem before (h : Toward s d w) (k : b.Ext d) : Toward s b w where
  toPart := h.toPart.before k.toLater
  plain i hs hb hn := h.plain i hs (Nat.lt_of_lt_of_le hb k.grows.size) (k.noPhi i hb hn)

/-- The part since a later state. -/
theorem since (h : Toward s d w) (k : s.Later b) : Toward b d w where
  toPart := h.toPart
  plain i hs hd hn := h.plain i (Nat.le_trans k.grows.size hs) hd hn

end Toward

section

variable {w : World} {s b d : Builder} {M : State}

theorem Appended.moved {i : BlockId} (a : Appended s b i) (hM : At w.func s M) : Moved w.func s M b M :=
  hM.stay a.current (fun _ => by rw [a.body]) a.ext.grows.valuesSize

/-- A block that merges nothing starts with its first instruction. -/
theorem startsPlain_of_noPhi {i : BlockId} (hi : i ≠ Ir.Id.entry) (hn : w.func.NoPhi i)
    {code : Ir.Block} (hc : w.func.block? i = some code) : startsPlain code.insts.toList := by
  intro inst hinst
  have hcode : w.func.code i = code.insts.toList := by
    rw [Function.block?] at hc
    simp [Function.code, hc]
  refine hn inst ?_
  rw [← w.ok.arranged.code_eq_body hi, hcode]
  exact List.mem_of_mem_head? hinst

theorem block?_of_lt {f : Function} {i : BlockId} (h : i.index < f.blocks.size) :
    ∃ code, f.block? i = some code := ⟨f.blocks[i.index], by simp [Function.block?, h]⟩

/-- A conditional branch enters the block that its condition says. -/
theorem Halted.step_enter {c : ValueId} {i j : BlockId} (h : Halted s b (.condBr c i j))
    (hp : Part b w) (hM : At w.func s M) {t : Bool} (hc : Holds s M c (.bool t)) {M' : State}
    (he : Exec.enterBlock w.module (if t then i else j) (some M.frame.block) M = .ok () M') :
    Exec.step w.module w.limit M = .ok none M' := by
  obtain ⟨hnone, hterm⟩ := Halted.atEnd h hp hM
  have htest : ∀ t : Bool, ((if t then 1 else 0 : UInt64) &&& 1 == 1) = t := by decide
  refine Machine.step_condBr hnone hterm hc.value ?_
  rw [htest]
  exact he

/-- About to run the first instruction of a block that merges nothing. -/
structure AtStart (f : Function) (i : BlockId) (M : State) : Prop where
  func : M.frame.func = f
  block : M.frame.block = i
  code : f.block? i = some M.frame.code
  next : M.frame.next = 0
  regs : M.frame.regs.size = f.values.size

/-- The builder is at work on the block. -/
theorem AtStart.at {f : Function} {i : BlockId} (h : AtStart f i M) (hf : f.Arranged) (hi : i ≠ Ir.Id.entry)
    (hb : b.current = some i) (he : b.function.body i = []) : At f b M where
  func := h.func
  block := by rw [hb, h.block]
  code := by rw [h.block]; exact h.code
  next := by rw [h.next, h.block, he, hf.entryOnly i hi]; rfl
  regs := h.regs

/-- A state at the start of a block, come to from another one by a step that changes nothing else. -/
structure Enters (w : World) (i : BlockId) (M M' : State) : Prop extends AtStart w.func i M' where
  step : Exec.step w.module w.limit M = .ok none M'
  store : M'.store = M.store
  stays : ∀ n, Stays w.func n M M'

theorem At.enters {i : BlockId} (hM : At w.func s M) (hi : i ≠ Ir.Id.entry) (hn : w.func.NoPhi i)
    (hlt : i.index < w.func.blocks.size)
    (hstep : ∀ M', Exec.enterBlock w.module i (some M.frame.block) M = .ok () M' →
      Exec.step w.module w.limit M = .ok none M') : ∃ M', Enters w i M M' := by
  obtain ⟨code, hc⟩ := block?_of_lt hlt
  refine ⟨M.goTo i code 0, ⟨hM.func, rfl, hc, rfl, hM.regs⟩, hstep _ ?_, rfl,
    fun n => ⟨rfl, rfl, rfl, rfl, rfl, fun _ _ => rfl⟩⟩
  refine enterBlock_plain ?_ (startsPlain_of_noPhi hi hn hc)
  rw [hM.func]
  exact hc

/-- A branch into a block that merges nothing. -/
theorem Halted.enters_br {i : BlockId} (h : Halted s b (.br i)) (hp : Part b w) (hM : At w.func s M)
    (hi : i ≠ Ir.Id.entry) (hn : w.func.NoPhi i) (hlt : i.index < b.function.blocks.size) : ∃ M', Enters w i M M' := by
  obtain ⟨hnone, hterm⟩ := Halted.atEnd h hp hM
  exact hM.enters hi hn (Nat.lt_of_lt_of_le hlt hp.function.size) fun M' he => Machine.step_br hnone hterm he

/-- A conditional branch into a block that merges nothing. -/
theorem Halted.enters_condBr {c : ValueId} {i j target : BlockId} (h : Halted s b (.condBr c i j)) (hp : Part b w)
    (hM : At w.func s M) {q : Bool} (hc : Holds s M c (.bool q)) (htarget : (if q then i else j) = target)
    (hi : target ≠ Ir.Id.entry) (hn : w.func.NoPhi target) (hlt : target.index < b.function.blocks.size) :
    ∃ M', Enters w target M M' :=
  hM.enters hi hn (Nat.lt_of_lt_of_le hlt hp.function.size) fun M' he =>
    Halted.step_enter h hp hM hc (by rw [htarget]; exact he)

/-- Goes on at the start of a block, with one less to show. -/
theorem Enters.turn {i : BlockId} {M' : State} (e : Enters w i M M') (hi : M.frame.code.insts[M.frame.next]? = none)
    (hg : w.pred.goal M') : w.goal M := w.forth e.step (fun _ => careful_of_end hi) fun _ => hg

/-- Goes on in the block that the builder is at work on. -/
theorem Enters.goal {i : BlockId} {M' : State} (e : Enters w i M M') (hnone : M.frame.code.insts[M.frame.next]? = none)
    (hi : i ≠ Ir.Id.entry) (hcurrent : d.current = some i) (hempty : d.function.body i = [])
    (hgrown : s.function.values.size ≤ d.function.values.size)
    (k : ∀ M', Moved w.func s M d M' → M'.store = M.store → w.goal M') : w.goal M :=
  w.back e.step (fun _ => careful_of_end hnone) fun _ =>
    k M' ⟨e.toAtStart.at w.ok.arranged hi hcurrent hempty, e.stays _, hgrown⟩ e.store

/-- A conditional branch goes where its condition says, to the start of a block. -/
theorem Halted.branch {c : ValueId} {i j : BlockId} (h : Halted s b (.condBr c i j)) (hp : Part b w)
    (hM : At w.func s M) {q : Bool} (hc : Holds s M c (.bool q)) {target : BlockId}
    (htarget : (if q then i else j) = target) (hentry : target ≠ Ir.Id.entry) (hn : w.func.NoPhi target)
    (hlt : target.index < b.function.blocks.size) (hcurrent : d.current = some target)
    (hempty : d.function.body target = []) (hgrown : s.function.values.size ≤ d.function.values.size)
    (k : ∀ M', Moved w.func s M d M' → M'.store = M.store → w.goal M') : w.goal M := by
  obtain ⟨M', e⟩ := Halted.enters_condBr h hp hM hc htarget hentry hn hlt
  exact e.goal (Halted.atEnd h hp hM).1 hentry hcurrent hempty hgrown k

/-- A branch goes to the start of a block. -/
theorem Halted.jump {i : BlockId} (h : Halted s b (.br i)) (hp : Part b w) (hM : At w.func s M)
    (hentry : i ≠ Ir.Id.entry) (hn : w.func.NoPhi i) (hlt : i.index < b.function.blocks.size)
    (hcurrent : d.current = some i) (hempty : d.function.body i = [])
    (hgrown : s.function.values.size ≤ d.function.values.size)
    (k : ∀ M', Moved w.func s M d M' → M'.store = M.store → w.goal M') : w.goal M := by
  obtain ⟨M', e⟩ := Halted.enters_br h hp hM hentry hn hlt
  exact e.goal (Halted.atEnd h hp hM).1 hentry hcurrent hempty hgrown k

/-- A branch to one of two new blocks goes to the one that its condition says. -/
theorem Halted.branchNew (hs : s.Live) {b₁ b₂ : Builder} {c : ValueId} {x y target : BlockId} (h₁ : Appended s b₁ x)
    (h₂ : Appended b₁ b₂ y) (h : Halted b₂ b (.condBr c x y)) (hp : Part b w) (hM : At w.func s M) {q : Bool}
    (hc : Holds s M c (.bool q)) (htarget : (if q then x else y) = target) (hn : w.func.NoPhi target)
    (hcurrent : d.current = some target) (hempty : d.function.body target = [])
    (hgrown : b.function.values.size ≤ d.function.values.size)
    (k : ∀ M', Moved w.func s M d M' → M'.store = M.store → w.goal M') : w.goal M := by
  have m₁ := Appended.moved h₁ hM
  have m₂ := Appended.moved h₂ m₁.toAt
  have hnew : s.function.blocks.size ≤ target.index ∧ target.index < b.function.blocks.size := by
    have hx : x.index = s.function.blocks.size := by rw [h₁.isNext]
    have hxlt := Nat.lt_of_lt_of_le h₁.fresh.lt_size (Nat.le_trans h₂.ext.grows.size h.ext.grows.size)
    have hy : y.index = b₁.function.blocks.size := by rw [h₂.isNext]
    have hylt := Nat.lt_of_lt_of_le h₂.fresh.lt_size h.ext.grows.size
    have hle := h₁.ext.grows.size
    cases q with
    | true =>
      obtain rfl : x = target := htarget
      omega
    | false =>
      obtain rfl : y = target := htarget
      omega
  have hentry : target ≠ Ir.Id.entry := by
    obtain ⟨c, -, hlt⟩ := hs.ok.position
    rintro rfl
    exact absurd hnew.1 (by show ¬_ ≤ 0; omega)
  exact Halted.branch h hp m₂.toAt (m₂.holds (m₁.holds hc)) htarget hentry hn hnew.2 hcurrent hempty
    (Nat.le_trans h.ext.grows.valuesSize hgrown) fun M' m hst => k M' ((m₁.trans m₂).trans m) hst

end

end BlockForge.Machine
