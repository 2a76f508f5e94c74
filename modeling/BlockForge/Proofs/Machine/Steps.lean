import BlockForge.Machine.Step
import BlockForge.Proofs.Ir.Layout
import Mathlib

/-!
# Single steps

What one step does, given the instruction or terminator it meets and the values of its operands.
Operands other than constant texts are read without changing anything, so a step is known from what
the frame holds.
-/

namespace BlockForge.Machine

open Ir (BlockId Callee Inst InstKind Module Terminator Ty ValueId)

/-! ### Sequencing -/

section

variable {σ α β : Type} {x : EStateM Fault σ α} {f : α → EStateM Fault σ β} {s s' : σ}

theorem bind_ok {a : α} (h : x s = .ok a s') : (x >>= f) s = f a s' := by
  show EStateM.bind x f s = _
  simp [EStateM.bind, h]

theorem bind_error {e : Fault} (h : x s = .error e s') : (x >>= f) s = .error e s' := by
  show EStateM.bind x f s = _
  simp [EStateM.bind, h]

end

/-! ### Sizes -/

theorem sizeTypes_cases (m : Module) (ts : List Ty) : sizeTypes m ts = .ok () ∨
    ∃ t, ¬m.Sized t ∧ sizeTypes m ts = .error (.malformed (.endlessLayout t)) := by
  induction ts with
  | nil => exact .inl rfl
  | cons t rest ih =>
    unfold sizeTypes
    split
    · exact ih
    · rename_i hnone
      exact .inr ⟨t, by simp [Module.Sized, hnone], rfl⟩

theorem sizeTypes_of_sized {m : Module} {ts : List Ty} (h : ∀ t ∈ ts, m.Sized t) : sizeTypes m ts = .ok () := by
  induction ts with
  | nil => rfl
  | cons t rest ih =>
    obtain ⟨r, hr⟩ := Option.isSome_iff_exists.1 (h t (List.mem_cons_self ..))
    rw [sizeTypes, hr]
    exact ih fun u hu => h u (List.mem_cons_of_mem _ hu)

theorem storeWord_eq {m : Module} {t : Ty} (ht : m.Sized t) (hpos : 0 < m.sizeOf t) (addr : UInt64) (v : Val)
    (w : UInt64) : Mem.storeWord m t addr v w = Mem.writeWord addr (m.sizeOf t) w := by
  rw [Mem.storeWord, sizeTypes_of_sized (by simpa using ht), if_pos hpos]
  rfl

/-! ### Operands -/

/-- The value of an operand, where reading it changes nothing. -/
def Frame.value? (f : Frame) (id : ValueId) : Option Val :=
  match f.func.value? id with
  | none => none
  | some v =>
    match v.kind with
    | .param n => f.args[n]?
    | .constInt bits => some (.int bits)
    | .constFloat bits => some (.float bits)
    | .constNull => some .null
    | .global _ => none
    | .inst _ => (f.regs[id.index]?).join

variable {m : Module} {limit : Nat} {M : State}

theorem operand_eq {v : ValueId} {x : Val} (h : M.frame.value? v = some x) :
    Exec.operand m v M = .ok x M := by
  have hf : Exec.frame M = .ok M.frame M := rfl
  unfold Exec.operand
  rw [bind_ok hf]
  unfold Frame.value? at h
  split at h
  · cases h
  · rename_i val hv
    rw [hv]
    dsimp only
    split at h <;> rename_i hk <;> rw [hk]
    · dsimp only
      rw [h]
      rfl
    · cases h
      rfl
    · cases h
      rfl
    · cases h
      rfl
    · cases h
    · have hr : M.frame.regs[v.index]? = some (some x) := by
        simpa [Option.join_eq_some_iff] using h
      dsimp only
      rw [hr]
      rfl

theorem typeOf_eq (v : ValueId) : Exec.typeOf v M = .ok (M.frame.func.valueType v) M := rfl

theorem operandInt_eq {v : ValueId} {x : UInt64} (h : M.frame.value? v = some (.int x)) :
    Exec.operandInt m v M = .ok x M := bind_ok (operand_eq h)

theorem operandFloat_eq {v : ValueId} {x : UInt64} (h : M.frame.value? v = some (.float x)) :
    Exec.operandFloat m v M = .ok x M := bind_ok (operand_eq h)

theorem operandPtr_eq {v : ValueId} {x : UInt64} (h : M.frame.value? v = some (.ptr x)) :
    Exec.operandPtr m v M = .ok x M := bind_ok (operand_eq h)

theorem operandBool_eq {v : ValueId} {x : UInt64} (h : M.frame.value? v = some (.int x)) :
    Exec.operandBool m v M = .ok (x &&& 1 == 1) M := bind_ok (operand_eq h)

theorem operands_eq {vs : List ValueId} {xs : List Val}
    (h : List.Forall₂ (fun v x => M.frame.value? v = some x) vs xs) :
    Exec.operands m vs M = .ok xs M := by
  induction h with
  | nil => rfl
  | cons hv _ ih => exact (bind_ok (operand_eq hv)).trans (bind_ok ih)

/-! ### Arithmetic -/

/-- A result, or the fault of a division by zero. -/
def intResult (w : Option UInt64) (M : State) : EStateM.Result Fault State Val :=
  match w with
  | some w => .ok (.int w) M
  | none => .error (.divisionByZero M.frame.func.name) M

theorem binary_eq {op : Ir.BinOp} {l r : ValueId} {bits : Nat} {x y : UInt64}
    (hop : op.isFloat = false) (hb : opBits (M.frame.func.valueType l) = .ok bits)
    (hl : M.frame.value? l = some (.int x)) (hr : M.frame.value? r = some (.int y)) :
    Exec.binary m op l r M = intResult (intBinary op bits x y) M := by
  unfold Exec.binary
  rw [bind_ok (typeOf_eq l), bind_ok (operand_eq hl), bind_ok (operand_eq hr), hop, hb]
  show (match intBinary op bits x y with
    | some w => (pure (.int w) : Exec Val)
    | none => do throw (Fault.divisionByZero (← Exec.frame).func.name)) M = _
  cases intBinary op bits x y <;> rfl

theorem binary_float_eq {op : Ir.BinOp} {l r : ValueId} {x y : UInt64}
    (hop : op.isFloat = true) (hl : M.frame.value? l = some (.float x))
    (hr : M.frame.value? r = some (.float y)) :
    Exec.binary m op l r M =
      .ok (.float (roundTo (M.frame.func.valueType l) (floatBinary op x y))) M := by
  unfold Exec.binary
  rw [bind_ok (typeOf_eq l), bind_ok (operand_eq hl), bind_ok (operand_eq hr), hop]
  rfl

theorem compare_eq {p : Ir.IntPred} {l r : ValueId} {bits : Nat} {x y : UInt64}
    (hb : opBits (M.frame.func.valueType l) = .ok bits)
    (hl : M.frame.value? l = some (.int x)) (hr : M.frame.value? r = some (.int y)) :
    Exec.compare m p l r M = .ok (.bool (intCompare p bits x y)) M := by
  unfold Exec.compare
  rw [bind_ok (typeOf_eq l), bind_ok (operand_eq hl), bind_ok (operand_eq hr), hb]
  rfl

/-! ### Instructions -/

/-- The state with another memory. -/
def State.withMemory (M : State) (memory : Memory) : State :=
  { M with store := { M.store with memory } }

theorem onMemory_ok {α : Type} {op : Mem α} {a : α} {mem : Memory}
    (h : op M.store.memory = .ok a mem) : Exec.onMemory op M = .ok a (M.withMemory mem) := by
  obtain ⟨⟨memory, globals, calls⟩, frame, callers⟩ := M
  simp only [Exec.onMemory, h]
  rfl

theorem onMemory_error {α : Type} {op : Mem α} {e : Fault} {mem : Memory}
    (h : op M.store.memory = .error e mem) :
    Exec.onMemory op M = .error e (M.withMemory mem) := by
  obtain ⟨⟨memory, globals, calls⟩, frame, callers⟩ := M
  simp only [Exec.onMemory, h]
  rfl

theorem perform_binary {op : Ir.BinOp} {l r : ValueId} {x : Val}
    (h : Exec.binary m op l r M = .ok x M) :
    Exec.perform m (.binary op l r) M = .ok (.done (some x)) M := bind_ok h

theorem perform_icmp {p : Ir.IntPred} {l r : ValueId} {x : Val}
    (h : Exec.compare m p l r M = .ok x M) :
    Exec.perform m (.icmp p l r) M = .ok (.done (some x)) M := bind_ok h

theorem perform_fneg {v : ValueId} {x : UInt64} (h : M.frame.value? v = some (.float x)) :
    Exec.perform m (.fneg v) M = .ok (.done (some (.float (Binary64.neg x)))) M :=
  bind_ok (operandFloat_eq h)

theorem perform_fcmp {p : Ir.FloatPred} {l r : ValueId} {x y : UInt64}
    (hl : M.frame.value? l = some (.float x)) (hr : M.frame.value? r = some (.float y)) :
    Exec.perform m (.fcmp p l r) M = .ok (.done (some (.bool (floatCompare p x y)))) M :=
  (bind_ok (operandFloat_eq hl)).trans (bind_ok (operandFloat_eq hr))

theorem perform_cast {op : Ir.CastOp} {v : ValueId} {target : Ty} {x y : Val}
    (hv : M.frame.value? v = some x)
    (h : convert op (M.frame.func.valueType v) target x = .ok y) :
    Exec.perform m (.cast op v target) M = .ok (.done (some y)) M := by
  show (Exec.typeOf v >>= _) M = _
  rw [bind_ok (typeOf_eq v), bind_ok (operand_eq hv), h]
  rfl

theorem perform_select {c l r : ValueId} {w : UInt64} {x y : Val}
    (hc : M.frame.value? c = some (.int w)) (hl : M.frame.value? l = some x)
    (hr : M.frame.value? r = some y) :
    Exec.perform m (.select c l r) M =
      .ok (.done (some (if w &&& 1 == 1 then x else y))) M := by
  show (Exec.operandBool m c >>= _) M = _
  rw [bind_ok (operandBool_eq hc)]
  cases w &&& 1 == 1
  · exact bind_ok (operand_eq hr)
  · exact bind_ok (operand_eq hl)

theorem perform_load {t : Ty} {p : ValueId} {addr : UInt64} {x : Val}
    (hp : M.frame.value? p = some (.ptr addr))
    (h : Memory.load m M.store.memory t addr = .ok x) :
    Exec.perform m (.load t p) M = .ok (.done (some x)) M := by
  show (Exec.operandPtr m p >>= _) M = _
  rw [bind_ok (operandPtr_eq hp)]
  show (Exec.memory >>= _) M = _
  rw [bind_ok (show Exec.memory M = .ok M.store.memory M from rfl), h]
  rfl

theorem perform_store {v p : ValueId} {addr : UInt64} {x : Val} {mem : Memory}
    (hv : M.frame.value? v = some x) (hp : M.frame.value? p = some (.ptr addr))
    (h : Mem.store m (M.frame.func.valueType v) addr x M.store.memory = .ok () mem) :
    Exec.perform m (.store v p) M = .ok (.done none) (M.withMemory mem) := by
  show (Exec.typeOf v >>= _) M = _
  rw [bind_ok (typeOf_eq v), bind_ok (operand_eq hv), bind_ok (operandPtr_eq hp)]
  exact bind_ok (onMemory_ok h)

theorem perform_ptrAdd {p o : ValueId} {addr offset : UInt64}
    (hp : M.frame.value? p = some (.ptr addr)) (ho : M.frame.value? o = some (.int offset)) :
    Exec.perform m (.ptrAdd p o) M = .ok (.done (some (.ptr (addr + offset)))) M :=
  (bind_ok (operandPtr_eq hp)).trans (bind_ok (operandInt_eq ho))

theorem perform_fieldPtr {s : Ir.StructId} {p : ValueId} {field : Nat} {addr : UInt64}
    (hs : ∀ t ∈ m.fieldsUpTo s field, m.Sized t) (hp : M.frame.value? p = some (.ptr addr)) (ha : addr ≠ 0) :
    Exec.perform m (.fieldPtr s p field) M =
      .ok (.done (some (.ptr (addr + UInt64.ofNat (m.fieldOffset s field))))) M := by
  show (Exec.operandPtr m p >>= _) M = _
  rw [bind_ok (operandPtr_eq hp)]
  simp only [ha, if_false, sizeTypes_of_sized hs]
  rfl

theorem perform_fieldPtr_null {s : Ir.StructId} {p : ValueId} {field : Nat}
    (hp : M.frame.value? p = some (.ptr 0)) :
    Exec.perform m (.fieldPtr s p field) M = .error .nullDereference M := by
  show (Exec.operandPtr m p >>= _) M = _
  rw [bind_ok (operandPtr_eq hp)]
  rfl

theorem perform_memCopy {d s l : ValueId} {dst src len : UInt64} {mem : Memory}
    (hd : M.frame.value? d = some (.ptr dst)) (hs : M.frame.value? s = some (.ptr src))
    (hl : M.frame.value? l = some (.int len))
    (h : Mem.copy dst src len.toNat M.store.memory = .ok () mem) :
    Exec.perform m (.memCopy d s l) M = .ok (.done none) (M.withMemory mem) := by
  show (Exec.operandPtr m d >>= _) M = _
  rw [bind_ok (operandPtr_eq hd), bind_ok (operandPtr_eq hs), bind_ok (operandInt_eq hl)]
  exact bind_ok (onMemory_ok h)

theorem perform_memMove {d s l : ValueId} {dst src len : UInt64} {mem : Memory}
    (hd : M.frame.value? d = some (.ptr dst)) (hs : M.frame.value? s = some (.ptr src))
    (hl : M.frame.value? l = some (.int len))
    (h : Mem.copy dst src len.toNat M.store.memory = .ok () mem) :
    Exec.perform m (.memMove d s l) M = .ok (.done none) (M.withMemory mem) :=
  perform_memCopy (s := s) hd hs hl h

theorem perform_alloca {t : Ty} {addr : UInt64} {mem : Memory} (ht : m.Sized t)
    (h : Mem.allocate (m.sizeOf t) M.store.memory = .ok addr mem) :
    Exec.perform m (.alloca t) M = .ok (.slot addr) (M.withMemory mem) := by
  show (Machine.checked (sizeTypes m [t]) >>= _) M = _
  rw [sizeTypes_of_sized (by simpa using ht)]
  exact bind_ok (onMemory_ok h)

theorem perform_call {id : Ir.FuncId} {vs : List ValueId} {xs : List Val} {t : Ty}
    (h : List.Forall₂ (fun v x => M.frame.value? v = some x) vs xs) :
    Exec.perform m (.call (.func id) vs t) M = .ok (.call id xs) M := bind_ok (operands_eq h)

theorem perform_callHost {id : Ir.HostId} {d : Ir.HostDecl} {vs : List ValueId} {xs : List Val}
    {t : Ty} {x : Option Val} {mem : Memory} (hd : m.host? id = some d)
    (hv : List.Forall₂ (fun v x => M.frame.value? v = some x) vs xs)
    (h : callHost d.name xs M.store.memory = .ok x mem) :
    Exec.perform m (.call (.host id) vs t) M = .ok (.done x) (M.withMemory mem) := by
  show (Exec.operands m vs >>= _) M = _
  rw [bind_ok (operands_eq hv), hd]
  exact bind_ok (onMemory_ok h)

theorem perform_callHost_error {id : Ir.HostId} {d : Ir.HostDecl} {vs : List ValueId}
    {xs : List Val} {t : Ty} {e : Fault} {mem : Memory} (hd : m.host? id = some d)
    (hv : List.Forall₂ (fun v x => M.frame.value? v = some x) vs xs)
    (h : callHost d.name xs M.store.memory = .error e mem) :
    Exec.perform m (.call (.host id) vs t) M = .error e (M.withMemory mem) := by
  show (Exec.operands m vs >>= _) M = _
  rw [bind_ok (operands_eq hv), hd]
  exact bind_error (onMemory_error h)

/-! ### Steps -/

namespace State

/-- The frame goes on behind its instruction, whose result is `x`. -/
def put (M : State) (v : ValueId) (x : Val) : State :=
  { M with frame := { M.frame with
      regs := M.frame.regs.setIfInBounds v.index (some x)
      next := M.frame.next + 1 } }

/-- The frame goes on behind its instruction. -/
def skip (M : State) : State :=
  { M with frame := { M.frame with next := M.frame.next + 1 } }

/-- The frame goes on behind its instruction, with a result or without. -/
def finish (M : State) (r : Option ValueId) (x : Option Val) : State :=
  match r, x with
  | some v, some x => M.put v x
  | _, _ => M.skip

/-- The frame keeps the address of a stack slot. -/
def addSlot (M : State) (addr : UInt64) : State :=
  { M with frame := { M.frame with slots := addr :: M.frame.slots } }

/-- Control is at a position of a block. -/
def goTo (M : State) (block : BlockId) (code : Ir.Block) (next : Nat) : State :=
  { M with frame := { M.frame with block, code, next } }

end State

theorem finishInst_eq (inst : Inst) (x : Option Val) :
    Exec.finishInst inst x M = .ok () (M.finish inst.result x) := by
  obtain ⟨r, kind⟩ := inst
  cases r <;> cases x <;> rfl

section

variable {inst : Inst} (hi : M.frame.code.insts[M.frame.next]? = some inst)

include hi

theorem step_inst : Exec.step m limit M =
    (Exec.stepInst m limit inst >>= fun _ => pure none) M := by
  unfold Exec.step
  rw [bind_ok (show Exec.frame M = .ok M.frame M from rfl), hi]

/-- An instruction that needs only operands and memory. -/
theorem step_done {x : Option Val} {M' : State}
    (hp : Exec.perform m inst.kind M = .ok (.done x) M') :
    Exec.step m limit M = .ok none (M'.finish inst.result x) := by
  rw [step_inst hi]
  refine bind_ok (a := ()) ?_
  unfold Exec.stepInst
  rw [bind_ok hp]
  exact finishInst_eq inst x

theorem step_error {e : Fault} {M' : State} (hp : Exec.perform m inst.kind M = .error e M') :
    Exec.step m limit M = .error e M' := by
  rw [step_inst hi]
  refine bind_error ?_
  unfold Exec.stepInst
  exact bind_error hp

theorem step_slot {addr : UInt64} {M' : State}
    (hp : Exec.perform m inst.kind M = .ok (.slot addr) M') :
    Exec.step m limit M = .ok none ((M'.addSlot addr).finish inst.result (some (.ptr addr))) := by
  rw [step_inst hi]
  refine bind_ok (a := ()) ?_
  unfold Exec.stepInst
  rw [bind_ok hp]
  exact finishInst_eq (M := M'.addSlot addr) inst _

theorem step_call {id : Ir.FuncId} {xs : List Val} {M' M'' : State}
    (hp : Exec.perform m inst.kind M = .ok (.call id xs) M')
    (hc : Exec.pushCall m limit id xs M' = .ok () M'') :
    Exec.step m limit M = .ok none M'' := by
  rw [step_inst hi]
  refine bind_ok (a := ()) ?_
  unfold Exec.stepInst
  rw [bind_ok hp]
  exact hc

theorem step_call_error {id : Ir.FuncId} {xs : List Val} {M' M'' : State} {e : Fault}
    (hp : Exec.perform m inst.kind M = .ok (.call id xs) M')
    (hc : Exec.pushCall m limit id xs M' = .error e M'') :
    Exec.step m limit M = .error e M'' := by
  rw [step_inst hi]
  refine bind_error ?_
  unfold Exec.stepInst
  rw [bind_ok hp]
  exact hc

end

section

variable (hi : M.frame.code.insts[M.frame.next]? = none)

include hi

theorem step_terminator : Exec.step m limit M = Exec.stepTerminator m M := by
  unfold Exec.step
  rw [bind_ok (show Exec.frame M = .ok M.frame M from rfl), hi]

theorem step_br {target : BlockId} (ht : M.frame.code.terminator = some (.br target)) {M' : State}
    (he : Exec.enterBlock m target (some M.frame.block) M = .ok () M') :
    Exec.step m limit M = .ok none M' := by
  rw [step_terminator hi]
  unfold Exec.stepTerminator
  rw [bind_ok (show Exec.frame M = .ok M.frame M from rfl), ht]
  exact bind_ok he

theorem step_condBr {c : ValueId} {l r : BlockId}
    (ht : M.frame.code.terminator = some (.condBr c l r)) {w : UInt64}
    (hc : M.frame.value? c = some (.int w)) {M' : State}
    (he : Exec.enterBlock m (if w &&& 1 == 1 then l else r) (some M.frame.block) M = .ok () M') :
    Exec.step m limit M = .ok none M' := by
  rw [step_terminator hi]
  unfold Exec.stepTerminator
  rw [bind_ok (show Exec.frame M = .ok M.frame M from rfl), ht]
  dsimp only
  rw [bind_ok (operandBool_eq hc)]
  exact bind_ok he

theorem step_ret {v : ValueId} (ht : M.frame.code.terminator = some (.ret (some v))) {x : Val}
    (hv : M.frame.value? v = some x) : Exec.step m limit M = Exec.popReturn (some x) M := by
  rw [step_terminator hi]
  unfold Exec.stepTerminator
  rw [bind_ok (show Exec.frame M = .ok M.frame M from rfl), ht]
  exact bind_ok (operand_eq hv)

end

/-! ### Blocks -/

/-- The instructions start with no merge. -/
def startsPlain (insts : List Inst) : Prop := ∀ i ∈ insts.head?, i.kind.isPhi = false

theorem phiValues_plain {block : BlockId} {source : Option BlockId} {insts : List Inst}
    (h : startsPlain insts) : Exec.phiValues m block source insts M = .ok [] M := by
  cases insts with
  | nil => rfl
  | cons i rest =>
    obtain ⟨r, kind⟩ := i
    cases kind with
    | phi t incoming => simp [startsPlain, InstKind.isPhi] at h
    | _ => rfl

theorem enterBlock_plain {block : BlockId} {source : Option BlockId} {code : Ir.Block}
    (hc : M.frame.func.block? block = some code) (hp : startsPlain code.insts.toList) :
    Exec.enterBlock m block source M = .ok () (M.goTo block code 0) := by
  unfold Exec.enterBlock
  rw [bind_ok (show Exec.frame M = .ok M.frame M from rfl), hc]
  dsimp only
  rw [bind_ok (phiValues_plain hp)]
  rfl

/-- A block that starts with one merge takes its value from the edge. -/
theorem enterBlock_phi {block source : BlockId} {code : Ir.Block} {v edge : ValueId} {t : Ty}
    {incoming : List (ValueId × BlockId)} {rest : List Inst} {x : Val}
    (hc : M.frame.func.block? block = some code)
    (hi : code.insts.toList = ⟨some v, .phi t incoming⟩ :: rest) (hp : startsPlain rest)
    (he : (incoming.find? fun e => e.2 = source) = some (edge, source))
    (hx : M.frame.value? edge = some x) :
    Exec.enterBlock m block (some source) M =
      .ok () (({ M with frame := { M.frame with
        regs := M.frame.regs.setIfInBounds v.index (some x) } } : State).goTo block code 1) := by
  have hphi : Exec.phiValues m block (some source) code.insts.toList M =
      .ok [(some v, x)] M := by
    rw [hi]
    unfold Exec.phiValues
    dsimp only
    rw [he]
    dsimp only
    rw [bind_ok (operand_eq hx), bind_ok (phiValues_plain hp)]
    rfl
  unfold Exec.enterBlock
  rw [bind_ok (show Exec.frame M = .ok M.frame M from rfl), hc]
  dsimp only
  rw [bind_ok hphi]
  rfl

/-! ### Returns -/

/-- The state once the frame in control has been taken down and its caller goes on. -/
def State.return (M : State) (value : Option Val) (caller : Frame) (callers : List Frame) :
    State :=
  let M' : State := ⟨{ M.store with memory := M.store.memory.releaseAll M.frame.slots },
    caller, callers⟩
  match caller.code.insts[caller.next]? with
  | some inst => M'.finish inst.result value
  | none => M'

theorem popReturn_caller {value : Option Val} {caller : Frame} {callers : List Frame}
    (hc : M.callers = caller :: callers) :
    Exec.popReturn value M = .ok none (M.return value caller callers) := by
  obtain ⟨⟨memory, globals, calls⟩, frame, _⟩ := M
  subst hc
  have hpop : Exec.popFrame ⟨⟨memory, globals, calls⟩, frame, caller :: callers⟩ =
      .ok true ⟨⟨memory.releaseAll frame.slots, globals, calls⟩, caller, callers⟩ := rfl
  unfold Exec.popReturn
  rw [bind_ok hpop]
  simp only [if_true]
  refine bind_ok (a := ()) ?_
  unfold Exec.resume State.return
  rw [bind_ok (show Exec.frame _ = .ok _ _ from rfl)]
  dsimp only
  cases caller.code.insts[caller.next]? with
  | none => rfl
  | some inst => exact finishInst_eq inst value

theorem popReturn_last {value : Option Val} (hc : M.callers = []) :
    Exec.popReturn value M = .ok (some value)
      ⟨{ M.store with memory := M.store.memory.releaseAll M.frame.slots },
        { M.frame with slots := [] }, []⟩ := by
  obtain ⟨⟨memory, globals, calls⟩, frame, _⟩ := M
  subst hc
  rfl

end BlockForge.Machine
