import BlockForge.Proofs.Machine.Faults

/-!
# Runs on top of other frames

A call runs the same way from outside and on top of waiting frames, if as many more frames are allowed. It
ends on top of them by handing its result to the frame that waits for it. How often functions were entered
is counted but never read.
-/

namespace BlockForge.Machine

open Ir (BlockId FuncId Function Inst InstKind Module ValueId)

/-- The frame with `k` more frames below it. -/
def Frame.deeper (k : Nat) (F : Frame) : Frame := { F with depth := F.depth + k }

/-- The same run on top of `outer`; how often functions were entered is left open. -/
structure Atop (k : Nat) (outer : List Frame) (M N : State) : Prop where
  memory : N.store.memory = M.store.memory
  globals : N.store.globals = M.store.globals
  frame : N.frame = M.frame.deeper k
  callers : N.callers = M.callers.map (Frame.deeper k) ++ outer

/-- What succeeds in `x` succeeds with the same result in `y`, on top of other frames. -/
def Lifts (k : Nat) (outer : List Frame) {α : Type} (x y : Exec α) : Prop :=
  ∀ (M N M' : State) (a : α), Atop k outer M N → x M = .ok a M' → ∃ N', y N = .ok a N' ∧ Atop k outer M' N'

section

variable {k : Nat} {outer : List Frame} {α β : Type}

namespace Lifts

theorem bind {x y : Exec α} {f g : α → Exec β} (h : Lifts k outer x y)
    (hf : ∀ a, Lifts k outer (f a) (g a)) : Lifts k outer (x >>= f) (y >>= g) := by
  intro M N M' b hN hx
  cases hxM : x M with
  | error e M₁ =>
    rw [bind_error hxM] at hx
    cases hx
  | ok a M₁ =>
    rw [bind_ok hxM] at hx
    obtain ⟨N₁, hy, h₁⟩ := h M N M₁ a hN hxM
    rw [bind_ok hy]
    exact hf a M₁ N₁ M' b h₁ hx

theorem pure (a : α) : Lifts k outer (Pure.pure a) (Pure.pure a) := by
  intro M N M' b hN hx
  cases hx
  exact ⟨N, rfl, hN⟩

theorem throw (e : Fault) {y : Exec α} : Lifts k outer (throw e) y := by
  intro M N M' b hN hx
  cases hx

theorem checked (r : Except Fault α) : Lifts k outer (Machine.checked r) (Machine.checked r) := by
  cases r with
  | ok a => exact pure a
  | error e => exact throw e

/-- What depends on the frame in control, but not on its depth. -/
theorem frame_bind {f : Frame → Exec α} (hf : ∀ F, f (F.deeper k) = f F)
    (h : ∀ F, Lifts k outer (f F) (f F)) : Lifts k outer (Exec.frame >>= f) (Exec.frame >>= f) := by
  intro M N M' a hN hx
  show ∃ N', f N.frame N = .ok a N' ∧ _
  rw [hN.frame, hf]
  exact h M.frame M N M' a hN hx

theorem onMemory (op : Mem α) : Lifts k outer (Exec.onMemory op) (Exec.onMemory op) := by
  intro M N M' a hN hx
  cases hop : op M.store.memory with
  | error e mem =>
    rw [onMemory_error hop] at hx
    cases hx
  | ok b mem =>
    rw [onMemory_ok hop] at hx
    cases hx
    have hop' : op N.store.memory = .ok a mem := by rw [hN.memory, hop]
    exact ⟨_, onMemory_ok hop', rfl, hN.globals, hN.frame, hN.callers⟩

theorem memory : Lifts k outer Exec.memory Exec.memory := by
  intro M N M' a hN hx
  cases hx
  exact ⟨N, congrArg (EStateM.Result.ok · N) hN.memory, hN⟩

/-- A change of the frame in control that its depth has nothing to do with. -/
theorem onFrame {g : Frame → Frame} (hg : ∀ F, g (F.deeper k) = (g F).deeper k) :
    Lifts k outer (modify fun M => { M with frame := g M.frame })
      (modify fun M => { M with frame := g M.frame }) := by
  intro M N M' a hN hx
  cases hx
  exact ⟨_, rfl, hN.memory, hN.globals, (congrArg g hN.frame).trans (hg _), hN.callers⟩

end Lifts

variable (m : Module)

theorem typeOf_lifts (v : ValueId) : Lifts k outer (Exec.typeOf v) (Exec.typeOf v) :=
  Lifts.frame_bind (fun _ => rfl) fun F => .pure (F.func.valueType v)

theorem globalAddress_lifts (g : Ir.GlobalId) :
    Lifts k outer (Exec.globalAddress m g) (Exec.globalAddress m g) := by
  have hnew : ∀ bytes : Array UInt8, Lifts k outer
      (do
        let addr ← Exec.onMemory (Mem.allocate bytes.size)
        Exec.onMemory (Mem.write addr bytes)
        modify fun s =>
          { s with store := { s.store with globals := s.store.globals.setIfInBounds g.index (some addr) } }
        pure addr)
      (do
        let addr ← Exec.onMemory (Mem.allocate bytes.size)
        Exec.onMemory (Mem.write addr bytes)
        modify fun s =>
          { s with store := { s.store with globals := s.store.globals.setIfInBounds g.index (some addr) } }
        pure addr) := by
    intro bytes
    refine (Lifts.onMemory _).bind fun addr => (Lifts.onMemory _).bind fun _ => Lifts.bind ?_ fun _ => .pure addr
    intro M N M' a hN hx
    cases hx
    exact ⟨_, rfl, hN.memory, congrArg (·.setIfInBounds g.index (some addr)) hN.globals, hN.frame, hN.callers⟩
  intro M N M' a hN hx
  unfold Exec.globalAddress at hx ⊢
  rw [bind_ok (show (get : Exec State) M = .ok M M from rfl)] at hx
  rw [bind_ok (show (get : Exec State) N = .ok N N from rfl), hN.globals]
  rcases hg : M.store.globals[g.index]? with - | - | addr
  · rw [hg] at hx
    exact hnew _ M N M' a hN hx
  · rw [hg] at hx
    exact hnew _ M N M' a hN hx
  · rw [hg] at hx
    cases hx
    exact ⟨N, rfl, hN⟩

theorem operand_lifts (v : ValueId) : Lifts k outer (Exec.operand m v) (Exec.operand m v) := by
  refine Lifts.frame_bind (fun _ => rfl) fun F => ?_
  cases F.func.value? v with
  | none => exact .throw _
  | some val =>
    dsimp only
    cases val.kind with
    | param n =>
      dsimp only
      cases F.args[n]? with
      | none => exact .throw _
      | some a => exact .pure _
    | constInt bits => exact .pure _
    | constFloat bits => exact .pure _
    | constNull => exact .pure _
    | global g => exact (globalAddress_lifts m g).bind fun addr => .pure _
    | inst b =>
      dsimp only
      rcases F.regs[v.index]? with - | - | a
      · exact .throw _
      · exact .throw _
      · exact .pure _

theorem operandInt_lifts (v : ValueId) : Lifts k outer (Exec.operandInt m v) (Exec.operandInt m v) :=
  (operand_lifts m v).bind fun _ => .checked _

theorem operandFloat_lifts (v : ValueId) : Lifts k outer (Exec.operandFloat m v) (Exec.operandFloat m v) :=
  (operand_lifts m v).bind fun _ => .checked _

theorem operandPtr_lifts (v : ValueId) : Lifts k outer (Exec.operandPtr m v) (Exec.operandPtr m v) :=
  (operand_lifts m v).bind fun _ => .checked _

theorem operandBool_lifts (v : ValueId) : Lifts k outer (Exec.operandBool m v) (Exec.operandBool m v) :=
  (operand_lifts m v).bind fun _ => .checked _

theorem operands_lifts (vs : List ValueId) : Lifts k outer (Exec.operands m vs) (Exec.operands m vs) := by
  induction vs with
  | nil => exact .pure _
  | cons v rest ih => exact (operand_lifts m v).bind fun _ => ih.bind fun _ => .pure _

theorem binary_lifts (op : Ir.BinOp) (l r : ValueId) :
    Lifts k outer (Exec.binary m op l r) (Exec.binary m op l r) := by
  refine (typeOf_lifts l).bind fun t => (operand_lifts m l).bind fun a => (operand_lifts m r).bind fun b => ?_
  split
  · exact (Lifts.checked _).bind fun _ => (Lifts.checked _).bind fun _ => .pure _
  · refine (Lifts.checked _).bind fun _ => (Lifts.checked _).bind fun _ => (Lifts.checked _).bind fun _ => ?_
    split
    · exact .pure _
    · exact Lifts.frame_bind (fun _ => rfl) fun F => .throw _

theorem compare_lifts (p : Ir.IntPred) (l r : ValueId) :
    Lifts k outer (Exec.compare m p l r) (Exec.compare m p l r) := by
  refine (typeOf_lifts l).bind fun t => (operand_lifts m l).bind fun a => (operand_lifts m r).bind fun b => ?_
  split
  · exact .pure _
  · exact (Lifts.checked _).bind fun _ => (Lifts.checked _).bind fun _ => (Lifts.checked _).bind fun _ => .pure _

/-- No instruction depends on the frames below. -/
theorem perform_lifts (kind : InstKind) : Lifts k outer (Exec.perform m kind) (Exec.perform m kind) := by
  cases kind with
  | alloca t => exact (Lifts.checked _).bind fun _ => (Lifts.onMemory _).bind fun _ => .pure _
  | load t p =>
    exact (operandPtr_lifts m p).bind fun _ => Lifts.memory.bind fun _ => (Lifts.checked _).bind fun _ => .pure _
  | store v p =>
    exact (typeOf_lifts v).bind fun _ => (operand_lifts m v).bind fun _ => (operandPtr_lifts m p).bind fun _ =>
      (Lifts.onMemory _).bind fun _ => .pure _
  | binary op a b => exact (binary_lifts m op a b).bind fun _ => .pure _
  | fneg v => exact (operandFloat_lifts m v).bind fun _ => .pure _
  | icmp p a b => exact (compare_lifts m p a b).bind fun _ => .pure _
  | fcmp p a b =>
    exact (operandFloat_lifts m a).bind fun _ => (operandFloat_lifts m b).bind fun _ => .pure _
  | cast op v target =>
    exact (typeOf_lifts v).bind fun _ => (operand_lifts m v).bind fun _ => (Lifts.checked _).bind fun _ => .pure _
  | select c a b =>
    refine (operandBool_lifts m c).bind fun taken => ?_
    split
    · exact (operand_lifts m a).bind fun _ => .pure _
    · exact (operand_lifts m b).bind fun _ => .pure _
  | phi t incoming => exact Lifts.frame_bind (fun _ => rfl) fun F => .throw _
  | call callee args ret =>
    cases callee with
    | func id => exact (operands_lifts m args).bind fun _ => .pure _
    | host id => exact (operands_lifts m args).bind fun _ => (Lifts.onMemory _).bind fun _ => .pure _
  | ptrAdd p o => exact (operandPtr_lifts m p).bind fun _ => (operandInt_lifts m o).bind fun _ => .pure _
  | fieldPtr s p field =>
    refine (operandPtr_lifts m p).bind fun addr => ?_
    split
    · exact Lifts.bind (.throw _) fun _ => (Lifts.checked _).bind fun _ => .pure _
    · exact (Lifts.checked _).bind fun _ => .pure _
  | memCopy d s l | memMove d s l =>
    exact (operandPtr_lifts m d).bind fun _ => (operandPtr_lifts m s).bind fun _ =>
      (operandInt_lifts m l).bind fun _ => (Lifts.onMemory _).bind fun _ => .pure _

theorem phiValues_lifts (block : BlockId) (source : Option BlockId) (insts : List Inst) :
    Lifts k outer (Exec.phiValues m block source insts) (Exec.phiValues m block source insts) := by
  induction insts with
  | nil => exact .pure _
  | cons inst rest ih =>
    obtain ⟨result, kind⟩ := inst
    cases kind with
    | phi t incoming =>
      unfold Exec.phiValues
      split
      · exact .throw _
      · split
        · exact .throw _
        · exact (operand_lifts m _).bind fun _ => ih.bind fun _ => .pure _
    | _ => exact .pure _

theorem setReg_lifts (r : ValueId) (x : Val) : Lifts k outer (Exec.setReg r x) (Exec.setReg r x) :=
  .onFrame (g := fun F => { F with regs := F.regs.setIfInBounds r.index (some x) }) fun _ => rfl

theorem setRegs_lifts (values : List (Option ValueId × Val)) :
    Lifts k outer (Exec.setRegs values) (Exec.setRegs values) := by
  induction values with
  | nil => exact .pure _
  | cons value rest ih =>
    obtain ⟨r, x⟩ := value
    cases r with
    | none => exact ih
    | some r => exact (setReg_lifts r x).bind fun _ => ih

theorem enterBlock_lifts (block : BlockId) (source : Option BlockId) :
    Lifts k outer (Exec.enterBlock m block source) (Exec.enterBlock m block source) := by
  refine Lifts.frame_bind (fun _ => rfl) fun F => ?_
  cases F.func.block? block with
  | none => exact .throw _
  | some code =>
    exact (phiValues_lifts m block source _).bind fun values => (setRegs_lifts values).bind fun _ =>
      .onFrame (g := fun F => { F with block, code, next := values.length }) fun _ => rfl

theorem Atop.finish {M N : State} (h : Atop k outer M N) (r : Option ValueId) (x : Option Val) :
    Atop k outer (M.finish r x) (N.finish r x) := by
  have hskip : Atop k outer M.skip N.skip :=
    ⟨h.memory, h.globals, congrArg (fun F : Frame => { F with next := F.next + 1 }) h.frame, h.callers⟩
  cases r with
  | none => exact hskip
  | some v =>
    cases x with
    | none => exact hskip
    | some x =>
      exact ⟨h.memory, h.globals, congrArg (fun F : Frame => { F with
        regs := F.regs.setIfInBounds v.index (some x), next := F.next + 1 }) h.frame, h.callers⟩

theorem finishInst_lifts (inst : Inst) (x : Option Val) :
    Lifts k outer (Exec.finishInst inst x) (Exec.finishInst inst x) := by
  intro M N M' a hN hx
  rw [finishInst_eq] at hx ⊢
  cases hx
  exact ⟨_, rfl, hN.finish inst.result x⟩

variable {limit : Nat}

/-- With `k` frames more below it a function can be called if `k` more are allowed. -/
theorem ofCall_deeper {id : FuncId} {xs : List Val} {depth : Nat} {F : Frame}
    (h : Frame.ofCall m limit id xs depth = .ok F) :
    Frame.ofCall m (limit + k) id xs (depth + k) = .ok (F.deeper k) := by
  unfold Frame.ofCall at h ⊢
  dsimp only at h ⊢
  split at h
  · cases h
  · rename_i hbody
    split at h
    · cases h
    · rename_i hargs
      split at h
      · cases h
      · rename_i hdepth
        cases h
        rw [if_neg hbody, if_neg hargs, if_neg (by omega)]
        simp only [Frame.deeper, Except.ok.injEq, Frame.mk.injEq, true_and]
        omega

theorem pushCall_ok {id : FuncId} {xs : List Val} {M : State} {F : Frame}
    (h : Frame.ofCall m limit id xs M.frame.depth = .ok F) :
    Exec.pushCall m limit id xs M =
      Exec.enterBlock m Ir.Id.entry none ⟨M.store.countCall id, F, M.frame :: M.callers⟩ := by
  unfold Exec.pushCall
  rw [bind_ok (show Exec.frame M = .ok M.frame M from rfl)]
  dsimp only
  rw [h]
  rfl

theorem pushCall_error {id : FuncId} {xs : List Val} {M : State} {e : Fault}
    (h : Frame.ofCall m limit id xs M.frame.depth = .error e) :
    Exec.pushCall m limit id xs M = .error e M := by
  unfold Exec.pushCall
  rw [bind_ok (show Exec.frame M = .ok M.frame M from rfl)]
  dsimp only
  rw [h]
  rfl

theorem pushCall_lifts (id : FuncId) (xs : List Val) :
    Lifts k outer (Exec.pushCall m limit id xs) (Exec.pushCall m (limit + k) id xs) := by
  intro M N M' a hN hx
  cases hF : Frame.ofCall m limit id xs M.frame.depth with
  | error e =>
    rw [pushCall_error m hF] at hx
    cases hx
  | ok F =>
    rw [pushCall_ok m hF] at hx
    have hF' : Frame.ofCall m (limit + k) id xs N.frame.depth = .ok (F.deeper k) := by
      rw [hN.frame]
      exact ofCall_deeper m hF
    rw [pushCall_ok m hF']
    refine enterBlock_lifts m _ _ ⟨M.store.countCall id, F, M.frame :: M.callers⟩
      ⟨N.store.countCall id, F.deeper k, N.frame :: N.callers⟩ M' a ⟨hN.memory, hN.globals, rfl, ?_⟩ hx
    rw [hN.frame, hN.callers]
    rfl

theorem stepInst_lifts (inst : Inst) :
    Lifts k outer (Exec.stepInst m limit inst) (Exec.stepInst m (limit + k) inst) := by
  refine (perform_lifts m inst.kind).bind fun effect => ?_
  cases effect with
  | done x => exact finishInst_lifts inst x
  | slot addr =>
    exact Lifts.bind (.onFrame (g := fun F => { F with slots := addr :: F.slots }) fun _ => rfl) fun _ =>
      finishInst_lifts inst _
  | call id xs => exact pushCall_lifts m id xs

/-! ### Returns -/

/-- A frame goes on behind its call. -/
def resumed (store : Store) (caller : Frame) (callers : List Frame) (value : Option Val) : State :=
  match caller.code.insts[caller.next]? with
  | some inst => (⟨store, caller, callers⟩ : State).finish inst.result value
  | none => ⟨store, caller, callers⟩

theorem return_eq (M : State) (value : Option Val) (caller : Frame) (callers : List Frame) :
    M.return value caller callers =
      resumed { M.store with memory := M.store.memory.releaseAll M.frame.slots } caller callers value := rfl

variable {caller : Frame} {rest : List Frame}

/-- What a step on top of other frames leads to: the same state on top of them, or the frame that waits
for the result. -/
def Follows (k : Nat) (caller : Frame) (rest : List Frame) (M' : State) : Option (Option Val) → State → Prop
  | none, N' => Atop k (caller :: rest) M' N'
  | some v, N' => ∃ calls, N' = resumed ⟨M'.store.memory, M'.store.globals, calls⟩ caller rest v

theorem popReturn_follows {M N M' : State} {value : Option Val} {r : Option (Option Val)}
    (hN : Atop k (caller :: rest) M N) (h : Exec.popReturn value M = .ok r M') :
    ∃ N', Exec.popReturn value N = .ok none N' ∧ Follows k caller rest M' r N' := by
  have hslots : N.frame.slots = M.frame.slots := by rw [hN.frame]; rfl
  cases hc : M.callers with
  | nil =>
    rw [popReturn_last hc] at h
    cases h
    have hcallers : N.callers = caller :: rest := by rw [hN.callers, hc]; rfl
    refine ⟨_, popReturn_caller hcallers, N.store.calls, ?_⟩
    rw [return_eq, hslots, hN.memory, ← hN.globals]
  | cons next callers =>
    rw [popReturn_caller hc] at h
    cases h
    have hcallers : N.callers = next.deeper k :: (callers.map (Frame.deeper k) ++ caller :: rest) := by
      rw [hN.callers, hc]
      rfl
    refine ⟨_, popReturn_caller hcallers, ?_⟩
    have hpopped : Atop k (caller :: rest)
        ⟨{ M.store with memory := M.store.memory.releaseAll M.frame.slots }, next, callers⟩
        ⟨{ N.store with memory := N.store.memory.releaseAll N.frame.slots }, next.deeper k,
          callers.map (Frame.deeper k) ++ caller :: rest⟩ :=
      ⟨by rw [hslots, hN.memory], hN.globals, rfl, rfl⟩
    show Atop k (caller :: rest) (resumed _ next callers value) (resumed _ (next.deeper k) _ value)
    unfold resumed
    show Atop k (caller :: rest) _ (match next.code.insts[next.next]? with | some inst => _ | none => _)
    cases next.code.insts[next.next]? with
    | none => exact hpopped
    | some inst => exact hpopped.finish _ _

/-- A step of a run is a step on top of other frames, if as many more are allowed. -/
theorem step_follows {M N M' : State} {r : Option (Option Val)} (hN : Atop k (caller :: rest) M N)
    (h : Exec.step m limit M = .ok r M') :
    ∃ N', Exec.step m (limit + k) N = .ok none N' ∧ Follows k caller rest M' r N' := by
  have hcode : N.frame.code = M.frame.code := by rw [hN.frame]; rfl
  have hnext : N.frame.next = M.frame.next := by rw [hN.frame]; rfl
  have hblock : N.frame.block = M.frame.block := by rw [hN.frame]; rfl
  have hsome : ∀ {x : Exec Unit} {y : Exec Unit} {M₁ N₁ : State}, Lifts k (caller :: rest) x y →
      Atop k (caller :: rest) M₁ N₁ → (x >>= fun _ => pure none : Exec (Option (Option Val))) M₁ = .ok r M' →
      ∃ N', (y >>= fun _ => pure none : Exec (Option (Option Val))) N₁ = .ok none N' ∧
        Follows k caller rest M' r N' := by
    intro x y M₁ N₁ hxy hN₁ hx
    cases hxM : x M₁ with
    | error e M₂ =>
      rw [bind_error hxM] at hx
      cases hx
    | ok a M₂ =>
      rw [bind_ok hxM] at hx
      cases hx
      obtain ⟨N₂, hy, hN₂⟩ := hxy _ _ _ _ hN₁ hxM
      exact ⟨N₂, bind_ok hy, hN₂⟩
  cases hi : M.frame.code.insts[M.frame.next]? with
  | some inst =>
    rw [step_inst hi] at h
    have hi' : N.frame.code.insts[N.frame.next]? = some inst := by rw [hcode, hnext, hi]
    rw [step_inst hi']
    exact hsome (stepInst_lifts m inst) hN h
  | none =>
    rw [step_terminator hi] at h
    rw [step_terminator (by rw [hcode, hnext, hi])]
    unfold Exec.stepTerminator at h ⊢
    rw [bind_ok (show Exec.frame M = .ok M.frame M from rfl)] at h
    rw [bind_ok (show Exec.frame N = .ok N.frame N from rfl), hcode, hblock]
    cases ht : M.frame.code.terminator with
    | none =>
      rw [ht] at h
      cases h
    | some t =>
      rw [ht] at h
      cases t with
      | br target => exact hsome (enterBlock_lifts m target _) hN h
      | condBr c x y =>
        dsimp only at h ⊢
        cases hb : Exec.operandBool m c M with
        | error e M₁ =>
          rw [bind_error hb] at h
          cases h
        | ok taken M₁ =>
          rw [bind_ok hb] at h
          obtain ⟨N₁, hb', hN₁⟩ := operandBool_lifts m c _ _ _ _ hN hb
          rw [bind_ok hb']
          exact hsome (enterBlock_lifts m _ _) hN₁ h
      | ret v =>
        cases v with
        | none => exact popReturn_follows hN h
        | some v =>
          dsimp only at h ⊢
          cases hv : Exec.operand m v M with
          | error e M₁ =>
            rw [bind_error hv] at h
            cases h
          | ok x M₁ =>
            rw [bind_ok hv] at h
            obtain ⟨N₁, hv', hN₁⟩ := operand_lifts m v _ _ _ _ hN hv
            rw [bind_ok hv']
            exact popReturn_follows hN₁ h
      | unreachable => cases h

/-- A run that ends with a result does so on top of other frames, with as many steps, and the frame that
waits for the result goes on. -/
theorem run_follows {fuel left : Nat} {M N : State} {v : Option Val} {store : Store}
    (hN : Atop k (caller :: rest) M N) (h : run m limit fuel M = ⟨.ok v, store, left⟩) :
    ∃ used calls, fuel = used + left ∧ ∀ extra, run m (limit + k) (used + extra) N =
      run m (limit + k) extra (resumed ⟨store.memory, store.globals, calls⟩ caller rest v) := by
  induction fuel generalizing M N with
  | zero => cases h
  | succ fuel ih =>
    unfold run at h
    cases hs : Exec.step m limit M with
    | error e M' =>
      rw [hs] at h
      cases h
    | ok r M' =>
      rw [hs] at h
      obtain ⟨N', hs', hN'⟩ := step_follows m hN hs
      have hrun : ∀ n, run m (limit + k) (n + 1) N = run m (limit + k) n N' := fun n => by rw [run, hs']
      cases r with
      | none =>
        obtain ⟨used, calls, hfuel, hcalls⟩ := ih hN' h
        refine ⟨used + 1, calls, by omega, fun extra => ?_⟩
        rw [show used + 1 + extra = used + extra + 1 by omega, hrun, hcalls]
      | some r =>
        cases h
        obtain ⟨calls, rfl⟩ := hN'
        refine ⟨1, calls, by omega, fun extra => ?_⟩
        rw [show 1 + extra = extra + 1 by omega, hrun]

/-- The frame of a function without parameters that is called from outside, at its first instruction. -/
def Frame.first (f : Function) (code : Ir.Block) : Frame where
  func := f
  args := #[]
  regs := Array.replicate f.values.size none
  code := code
  depth := 1

/-- A function that starts with a call goes on behind it once the callee, which would have returned from
outside too, has returned. -/
theorem invoke_calling {id callee : FuncId} {f : Function} {code : Ir.Block} {result : Option ValueId}
    {t : Ir.Ty} {fuel left : Nat} {store store' : Store} {v : Option Val} (hf : m.function? id = some f)
    (hp : f.params = []) (hc : f.block? Ir.Id.entry = some code)
    (hi : code.insts[0]? = some ⟨result, .call (.func callee) [] t⟩)
    (hrun : invoke m limit fuel store callee [] = ⟨.ok v, store', left⟩) (hleft : 0 < left) :
    ∃ calls, invoke m (limit + 1) fuel store id [] =
      run m (limit + 1) (left - 1) (resumed ⟨store'.memory, store'.globals, calls⟩ (.first f code) [] v) := by
  have hbody : f.isDeclaration = false := by
    rw [Function.block?] at hc
    have : 0 < f.blocks.size := (Array.getElem?_eq_some_iff.1 hc).1
    simp only [Function.isDeclaration, Array.isEmpty_eq_false_iff]
    rintro he
    simp [he] at this
  have hplain : startsPlain code.insts.toList := by
    intro inst hinst
    rw [List.head?_eq_getElem?, Array.getElem?_toList, hi] at hinst
    cases hinst
    rfl
  have hframe : Frame.ofCall m (limit + 1) id [] 0 = .ok { Frame.first f code with code := default } := by
    unfold Frame.ofCall
    simp only [hf, Option.getD_some, hbody, hp, List.length_nil, ne_eq, not_true_eq_false, if_false,
      Bool.false_eq_true]
    rfl
  -- the state at the call
  let M : State := ⟨store.countCall id, .first f code, []⟩
  have hentered : Exec.enterBlock m Ir.Id.entry none
      ⟨store.countCall id, { Frame.first f code with code := default }, []⟩ = .ok () M :=
    enterBlock_plain hc hplain
  have hinvoke : invoke m (limit + 1) fuel store id [] = run m (limit + 1) fuel M := by
    unfold invoke
    rw [hframe]
    dsimp only
    rw [hentered]
  unfold invoke at hrun
  cases hF : Frame.ofCall m limit callee [] 0 with
  | error e =>
    rw [hF] at hrun
    cases hrun
  | ok F =>
    rw [hF] at hrun
    dsimp only at hrun
    cases hM : Exec.enterBlock m Ir.Id.entry none ⟨store.countCall callee, F, []⟩ with
    | error e M' =>
      rw [hM] at hrun
      cases hrun
    | ok _ M₁ =>
      rw [hM] at hrun
      have hlifts : Lifts 1 [M.frame] (Exec.enterBlock m Ir.Id.entry none)
          (Exec.enterBlock m Ir.Id.entry none) := enterBlock_lifts m Ir.Id.entry none
      obtain ⟨N, hN, hatop⟩ := hlifts ⟨store.countCall callee, F, []⟩
        ⟨M.store.countCall callee, F.deeper 1, [M.frame]⟩ M₁ () ⟨rfl, rfl, rfl, rfl⟩ hM
      have hpush : Exec.pushCall m (limit + 1) callee [] M = .ok () N := by
        rw [pushCall_ok m (show Frame.ofCall m (limit + 1) callee [] M.frame.depth = .ok (F.deeper 1) from
          ofCall_deeper m hF)]
        exact hN
      have hstep : Exec.step m (limit + 1) M = .ok none N := step_call hi (perform_call .nil) hpush
      obtain ⟨used, calls, hfuel, hfollows⟩ := run_follows m hatop hrun
      refine ⟨calls, ?_⟩
      rw [hinvoke, show fuel = used + (left - 1) + 1 by omega, run, hstep]
      exact hfollows (left - 1)

end

end BlockForge.Machine
