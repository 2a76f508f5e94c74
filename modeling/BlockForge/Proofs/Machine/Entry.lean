import BlockForge.Proofs.Machine.Position

/-!
# Entering a function

A call starts at the stack slots of the entry block. They take one allocation each; behind them the frame is
where the first instruction of the body was emitted.
-/

namespace BlockForge.Machine

open Ir (Builder Function Inst Module ValueId)

/-- About to run the first instruction of a function. -/
structure AtEntry (f : Function) (M : State) : Prop where
  func : M.frame.func = f
  block : M.frame.block = Ir.Id.entry
  code : f.block? Ir.Id.entry = some M.frame.code
  next : M.frame.next = 0
  slots : M.frame.slots = []
  regs : M.frame.regs = Array.replicate f.values.size none

/-- The bytes of a stack slot. -/
def slotSize (m : Module) (i : Inst) : Nat :=
  match i.kind with
  | .alloca t => m.sizeOf t
  | _ => 0

/-- Behind the first `n` stack slots of a function that was entered in the state `M`. -/
structure Prepared (w : World) (M : State) (n : Nat) (M' : State) : Prop where
  func : M'.frame.func = w.func
  block : M'.frame.block = Ir.Id.entry
  code : w.func.block? Ir.Id.entry = some M'.frame.code
  next : M'.frame.next = n
  regs : M'.frame.regs.size = w.func.values.size
  args : M'.frame.args = M.frame.args
  depth : M'.frame.depth = M.frame.depth
  callers : M'.callers = M.callers
  globals : M'.store.globals = M.store.globals
  blocks : M'.store.memory.blocks = M.store.memory.blocks ++
    (((w.func.slots Ir.Id.entry).take n).map fun i => some { size := slotSize w.module i }).toArray
  slots : M'.frame.slots = ((List.range n).map fun i => blockAddress (M.store.memory.blocks.size + i)).reverse
  held : ∀ {i : Nat} {x : Inst} {v : ValueId}, i < n → (w.func.slots Ir.Id.entry)[i]? = some x →
    x.result = some v →
    M'.frame.regs[v.index]? = some (some (.ptr (blockAddress (M.store.memory.blocks.size + i))))
  told : w.watched → ∀ j, M.store.memory.blocks.size ≤ j → j < M.store.memory.blocks.size + n → ¬ w.atomic j

section

variable {w : World} {M M' : State} {n : Nat}

theorem AtEntry.prepared (h : AtEntry w.func M) : Prepared w M 0 M where
  func := h.func
  block := h.block
  code := h.code
  next := h.next
  regs := by simp [h.regs]
  args := rfl
  depth := rfl
  callers := rfl
  globals := rfl
  blocks := by simp
  slots := by simp [h.slots]
  held hi := absurd hi (Nat.not_lt_zero _)
  told _ j hj hlt := absurd hlt (by omega)

theorem slotSize_le (hm : w.module.pointerBits ≤ 64) {x : Inst} (hx : x ∈ w.func.slots Ir.Id.entry) :
    ∃ t v, x.kind = .alloca t ∧ x.result = some v ∧ v.index < w.func.values.size ∧ w.module.Sized t ∧
      w.module.sizeOf t ≤ 8 := by
  obtain ⟨hmem, ha⟩ := List.mem_filter.1 hx
  have hok := w.ok.insts _ x hmem
  obtain ⟨r, kind⟩ := x
  cases kind with
  | alloca t =>
    obtain ⟨hscalar, hr⟩ := hok.typed
    obtain ⟨v, rfl⟩ : ∃ v, r = some v := by
      cases r with
      | none => cases hr
      | some v => exact ⟨v, rfl⟩
    obtain ⟨val, b, hv, -⟩ := hok.result v rfl
    refine ⟨t, v, rfl, rfl, (Array.getElem?_eq_some_iff.1 hv).1, ?_⟩
    cases t with
    | ptr =>
      refine ⟨rfl, ?_⟩
      show w.module.pointerBits / 8 ≤ 8
      omega
    | struct id => cases hscalar
    | _ => exact ⟨rfl, by simp [Module.sizeOf_of_plain, Module.plainLayout]⟩
  | _ => cases ha

/-- A stack slot takes a fresh allocation. -/
theorem Prepared.step (hm : w.module.pointerBits ≤ 64) (h : Prepared w M n M') {x : Inst}
    (hx : (w.func.slots Ir.Id.entry)[n]? = some x) (k : ∀ M'', Prepared w M (n + 1) M'' → w.goal M'') :
    w.goal M' := by
  have hmem : x ∈ w.func.slots Ir.Id.entry := List.mem_of_getElem? hx
  obtain ⟨t, v, hkind, hresult, hv, hsized, hsize⟩ := slotSize_le hm hmem
  obtain ⟨r, kind⟩ := x
  obtain rfl : kind = .alloca t := hkind
  obtain rfl : r = some v := hresult
  have hlt : n < (w.func.slots Ir.Id.entry).length := (List.getElem?_eq_some_iff.1 hx).1
  have hcode : w.func.code Ir.Id.entry = M'.frame.code.insts.toList := by
    have := h.code
    rw [Function.block?] at this
    simp [Function.code, this]
  have hinst : M'.frame.code.insts[M'.frame.next]? = some ⟨some v, .alloca t⟩ := by
    rw [h.next, ← Array.getElem?_toList, ← hcode, w.ok.arranged.lead, List.getElem?_append_left hlt, hx]
  have hblocks : M'.store.memory.blocks.size = M.store.memory.blocks.size + n := by
    rw [h.blocks]
    simp
    omega
  let mem : Memory := { M'.store.memory with
    blocks := M'.store.memory.blocks.push (some { size := w.module.sizeOf t }) }
  have halloc : Mem.allocate (w.module.sizeOf t) M'.store.memory =
      .ok (blockAddress M'.store.memory.blocks.size) mem := by
    have hmax : ¬ maxOffset < w.module.sizeOf t := by
      unfold maxOffset
      omega
    unfold Mem.allocate
    rw [if_neg hmax]
  have hperform := perform_alloca hsized halloc
  refine w.back (step_slot hinst hperform) (fun _ => careful_of_quiet hinst rfl) fun tells => k _ ?_
  refine
    { func := h.func
      block := h.block
      code := h.code
      next := by show M'.frame.next + 1 = _; rw [h.next]
      regs := by
        show (M'.frame.regs.setIfInBounds v.index _).size = _
        rw [Array.size_setIfInBounds, h.regs]
      args := h.args
      depth := h.depth
      callers := h.callers
      globals := h.globals
      blocks := ?_
      slots := ?_
      held := ?_
      told := ?_ }
  · show M'.store.memory.blocks.push _ = _
    rw [h.blocks, List.take_add_one, hx]
    simp [slotSize]
  · show blockAddress M'.store.memory.blocks.size :: M'.frame.slots = _
    rw [h.slots, hblocks, List.range_succ]
    simp
  · intro i y u hi hy hu
    show (M'.frame.regs.setIfInBounds v.index (some (.ptr (blockAddress M'.store.memory.blocks.size))))[u.index]? = _
    by_cases he : i = n
    · subst he
      rw [hx] at hy
      cases hy
      cases hu
      rw [Array.getElem?_setIfInBounds_self_of_lt (by rw [h.regs]; exact hv), hblocks]
    · have hne : v.index ≠ u.index := by
        intro heq
        obtain rfl : v = u := Ir.Id.ext heq
        have hnodup := w.ok.slotIds
        have hi' : i < ((w.func.slots Ir.Id.entry).map (·.result)).length := by
          rw [List.length_map]
          omega
        refine he ((List.getElem?_inj hi' hnodup).1 ?_)
        rw [List.getElem?_map, List.getElem?_map, hy, hx, Option.map_some, Option.map_some, hu]
      rw [Array.getElem?_setIfInBounds_ne hne]
      exact h.held (by omega) hy hu
  · intro hw j hj hj'
    by_cases hlast : j = M.store.memory.blocks.size + n
    · have hnew := (tells hw j (by omega) ?_).not
      · refine hnew.2 ?_
        rintro ⟨r, id, args, t', d, hi, -⟩
        rw [hinst] at hi
        cases hi
      · show j < mem.blocks.size
        simp only [mem, Array.size_push]
        omega
    · exact h.told hw j hj (by omega)

/-- All stack slots of a function. -/
theorem AtEntry.run (hm : w.module.pointerBits ≤ 64) (h : AtEntry w.func M)
    (k : ∀ M', Prepared w M (w.func.slots Ir.Id.entry).length M' → w.goal M') : w.goal M := by
  have hall : ∀ d n M', n + d = (w.func.slots Ir.Id.entry).length → Prepared w M n M' → w.goal M' := by
    intro d
    induction d with
    | zero =>
      intro n M' hn hp
      rw [Nat.add_zero] at hn
      exact k M' (hn ▸ hp)
    | succ d ih =>
      intro n M' hn hp
      have hlt : n < (w.func.slots Ir.Id.entry).length := by omega
      exact hp.step hm (List.getElem?_eq_getElem hlt) fun M'' hp' => ih (n + 1) M'' (by omega) hp'
  exact hall _ 0 M (Nat.zero_add _) h.prepared

/-- Behind its slots the frame is where the body was started. -/
theorem Prepared.at (h : Prepared w M (w.func.slots Ir.Id.entry).length M') {b : Builder}
    (hc : b.current = some Ir.Id.entry) (he : b.function.body Ir.Id.entry = []) : At w.func b M' where
  func := h.func
  block := by rw [hc, h.block]
  code := by rw [h.block]; exact h.code
  next := by rw [h.next, h.block, he]; rfl
  regs := h.regs

end

/-! ### Calls -/

/-- The entry block merges nothing. -/
theorem startsPlain_entry {f : Function} {m : Module} (h : f.Ok m) {code : Ir.Block}
    (hc : f.block? Ir.Id.entry = some code) : startsPlain code.insts.toList := by
  intro inst hinst
  have hcode : f.code Ir.Id.entry = code.insts.toList := by
    rw [Function.block?] at hc
    simp [Function.code, hc]
  have hmem : inst ∈ f.slots Ir.Id.entry ++ f.body Ir.Id.entry := by
    rw [← h.arranged.lead, hcode]
    exact List.mem_of_mem_head? hinst
  rcases List.mem_append.1 hmem with hslot | hbody
  · have halloca := (List.mem_filter.1 hslot).2
    obtain ⟨r, kind⟩ := inst
    cases kind <;> first | rfl | cases halloca
  · exact h.phiEntry inst hbody

/-- The frame of a call of a function with a body. -/
theorem ofCall_eq {m : Module} {limit depth : Nat} {id : Ir.FuncId} {f : Function} {args : List Val}
    (hf : m.function? id = some f) (hblocks : 0 < f.blocks.size) (hargs : args.length = f.params.length) :
    Frame.ofCall m limit id args depth =
      if limit ≤ depth then .error (.stackOverflow limit)
      else .ok { func := f, args := args.toArray, regs := Array.replicate f.values.size none, depth := depth + 1 } := by
  have hbody : f.isDeclaration = false := by
    simp only [Function.isDeclaration, Array.isEmpty_eq_false_iff]
    rintro he
    simp [he] at hblocks
  unfold Frame.ofCall
  simp only [hf, Option.getD_some, hbody, Bool.false_eq_true, if_false, hargs, ne_eq, not_true_eq_false]

section

variable {m : Module} {limit : Nat} {id : Ir.FuncId} {f : Function} {args : List Val} (hf : m.function? id = some f)
  (hblocks : 0 < f.blocks.size) (hargs : args.length = f.params.length)

include hf hblocks hargs

/-- A call from inside, as deep as allowed. -/
theorem pushCall_overflow {M : State} (h : limit ≤ M.frame.depth) :
    Exec.pushCall m limit id args M = .error (.stackOverflow limit) M := by
  show (checked (Frame.ofCall m limit id args M.frame.depth) >>= _ : Exec Unit) M = _
  rw [ofCall_eq hf hblocks hargs, if_pos h]
  rfl

/-- A call from inside goes to the entry of its function. -/
theorem pushCall_eq {M : State} (hok : f.Ok m) (h : M.frame.depth < limit) :
    ∃ M', Exec.pushCall m limit id args M = .ok () M' ∧ AtEntry f M' ∧ M'.callers = M.frame :: M.callers ∧
      M'.frame.args = args.toArray ∧ M'.frame.depth = M.frame.depth + 1 ∧ M'.store = M.store.countCall id := by
  obtain ⟨code, hc⟩ : ∃ code, f.block? Ir.Id.entry = some code :=
    ⟨f.blocks[0], Array.getElem?_eq_getElem hblocks⟩
  let F : Frame :=
    { func := f, args := args.toArray, regs := Array.replicate f.values.size none, depth := M.frame.depth + 1 }
  let M₀ : State := ⟨M.store.countCall id, F, M.frame :: M.callers⟩
  have henter : Exec.enterBlock m Ir.Id.entry none M₀ = .ok () (M₀.goTo Ir.Id.entry code 0) :=
    enterBlock_plain hc (startsPlain_entry hok hc)
  refine ⟨M₀.goTo Ir.Id.entry code 0, ?_, ⟨rfl, rfl, hc, rfl, rfl, rfl⟩, rfl, rfl, rfl, rfl⟩
  show (checked (Frame.ofCall m limit id args M.frame.depth) >>= _ : Exec Unit) M = _
  rw [ofCall_eq hf hblocks hargs, if_neg (Nat.not_le.2 h)]
  exact henter

end

/-- A call from outside runs from the entry of its function. -/
theorem invoke_eq_run {m : Module} {limit : Nat} {store : Store} {id : Ir.FuncId} {f : Function}
    {args : List Val} (hf : m.function? id = some f) (hok : f.Ok m) (hblocks : 0 < f.blocks.size)
    (hargs : args.length = f.params.length) (hlimit : 0 < limit) :
    ∃ M : State, AtEntry f M ∧ M.callers = [] ∧ M.frame.args = args.toArray ∧ M.store.memory = store.memory ∧
      ∀ fuel, invoke m limit fuel store id args = run m limit fuel M := by
  obtain ⟨code, hc⟩ : ∃ code, f.block? Ir.Id.entry = some code :=
    ⟨f.blocks[0], Array.getElem?_eq_getElem hblocks⟩
  let F : Frame := { func := f, args := args.toArray, regs := Array.replicate f.values.size none, depth := 1 }
  have hframe : Frame.ofCall m limit id args 0 = .ok F := by
    rw [ofCall_eq hf hblocks hargs, if_neg (Nat.not_le.2 hlimit)]
  let M : State := ⟨store.countCall id, F, []⟩
  have henter : Exec.enterBlock m Ir.Id.entry none M = .ok () (M.goTo Ir.Id.entry code 0) :=
    enterBlock_plain hc (startsPlain_entry hok hc)
  refine ⟨M.goTo Ir.Id.entry code 0, ⟨rfl, rfl, hc, rfl, rfl, rfl⟩, rfl, rfl, rfl, fun fuel => ?_⟩
  unfold invoke
  rw [hframe]
  dsimp only
  rw [henter]

end BlockForge.Machine
