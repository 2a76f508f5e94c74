import BlockForge.Machine.Session
import BlockForge.Proofs.Ir.Shape
import BlockForge.Proofs.Machine.Steps

/-!
# What operations can fail with

Operations on values and memory leave the frames of a run alone and fail in faults of their own. Beyond
these an instruction fails only for a value that does not exist, for being a merge where none may stand, or
for too few arguments of a host function.
-/

namespace BlockForge.Machine

open Ir (Function InstKind Module Ty ValueId)

/-- The defects that show in a single operation on values. -/
def Defect.isLocal : Defect → Bool
  | .expectedInt _ | .expectedFloat _ | .expectedPtr _ | .missingParam _ | .useBeforeDefinition ..
  | .loadOf _ | .storeOf .. | .intOperationOn _ => true
  | _ => false

/-- The faults of operations on values and memory. -/
def Fault.isLocal : Fault → Bool
  | .boundsCheck .. | .divisionByZero _ | .nullDereference | .invalidAccess .. | .allocationTooLarge _
  | .unknownHost _ => true
  | .malformed d => d.isLocal
  | _ => false

/-! ### Operations with known faults -/

section

variable {σ α β : Type} {E : Fault → Prop}

/-- Ends where `Q` holds, or in a fault of `E`. -/
def Safe (E : Fault → Prop) (x : EStateM Fault σ α) (s : σ) (Q : α → σ → Prop) : Prop :=
  match x s with
  | .ok a s' => Q a s'
  | .error e _ => E e

theorem Safe.bind {x : EStateM Fault σ α} {f : α → EStateM Fault σ β} {s : σ} {Q : α → σ → Prop}
    {R : β → σ → Prop} (h : Safe E x s Q) (k : ∀ a s', Q a s' → Safe E (f a) s' R) :
    Safe E (x >>= f) s R := by
  unfold Safe at h
  cases hx : x s with
  | ok a s' =>
    rw [hx] at h
    have := k a s' h
    unfold Safe at this ⊢
    rw [bind_ok hx]
    exact this
  | error e s' =>
    rw [hx] at h
    unfold Safe
    rw [bind_error hx]
    exact h

theorem Safe.mono {x : EStateM Fault σ α} {s : σ} {Q R : α → σ → Prop} {F : Fault → Prop}
    (h : Safe E x s Q) (hf : ∀ e, E e → F e) (k : ∀ a s', Q a s' → R a s') : Safe F x s R := by
  unfold Safe at h ⊢
  cases hx : x s with
  | ok a s' =>
    rw [hx] at h
    exact k a s' h
  | error e s' =>
    rw [hx] at h
    exact hf e h

theorem Safe.imp {x : EStateM Fault σ α} {s : σ} {Q R : α → σ → Prop} (h : Safe E x s Q)
    (k : ∀ a s', Q a s' → R a s') : Safe E x s R := h.mono (fun _ he => he) k

theorem Safe.and_eq {x : EStateM Fault σ α} {s : σ} {Q : α → σ → Prop} (h : Safe E x s Q) :
    Safe E x s fun a s' => Q a s' ∧ x s = .ok a s' := by
  unfold Safe at h ⊢
  cases hx : x s with
  | ok a s' =>
    rw [hx] at h
    exact ⟨h, rfl⟩
  | error e s' =>
    rw [hx] at h
    exact h

theorem Safe.fault {x : EStateM Fault σ α} {s s' : σ} {Q : α → σ → Prop} {e : Fault} (h : Safe E x s Q)
    (hx : x s = .error e s') : E e := by
  unfold Safe at h
  rw [hx] at h
  exact h

theorem Safe.pure {a : α} {s : σ} {Q : α → σ → Prop} (h : Q a s) :
    Safe E (Pure.pure a : EStateM Fault σ α) s Q := h

theorem Safe.throw {e : Fault} {s : σ} {Q : α → σ → Prop} (h : E e) :
    Safe E (throw e : EStateM Fault σ α) s Q := h

end

/-! ### Values and memory -/

/-- A result, or a fault of `E`. -/
def Fails (E : Fault → Prop) {α : Type} (r : Except Fault α) : Prop := ∀ ⦃e⦄, r = .error e → E e

section

variable {α β : Type} {E : Fault → Prop}

theorem Fails.ok (a : α) : Fails E (.ok a : Except Fault α) := by
  intro e he
  cases he

theorem Fails.error {e : Fault} (h : E e) : Fails E (.error e : Except Fault α) := by
  intro e' he
  cases he
  exact h

theorem Fails.bind {r : Except Fault α} {f : α → Except Fault β} (h : Fails E r)
    (k : ∀ a, Fails E (f a)) : Fails E (r >>= f) := by
  cases r with
  | ok a => exact k a
  | error e => exact .error (h rfl)

theorem Fails.map {r : Except Fault α} (h : Fails E r) (f : α → β) : Fails E (r.map f) := by
  cases r with
  | ok a => exact .ok (f a)
  | error e => exact .error (h rfl)

theorem Fails.imp {r : Except Fault α} {F : Fault → Prop} (h : Fails E r) (k : ∀ e, E e → F e) :
    Fails F r := fun e he => k e (h he)

theorem Fails.checked {σ : Type} {r : Except Fault α} {s : σ} (h : Fails E r) :
    Safe E (Machine.checked r : EStateM Fault σ α) s fun _ s' => s' = s := by
  cases r with
  | ok a => exact rfl
  | error e => exact h rfl

end

/-- A result, or a fault of an operation on values or memory. -/
abbrev Ordinary {α : Type} (r : Except Fault α) : Prop := Fails (·.isLocal = true) r

theorem asInt_ordinary (v : Val) : Ordinary v.asInt := by
  cases v with
  | int w => exact .ok w
  | _ => exact .error rfl

theorem asFloat_ordinary (v : Val) : Ordinary v.asFloat := by
  cases v with
  | float w => exact .ok w
  | _ => exact .error rfl

theorem asPtr_ordinary (v : Val) : Ordinary v.asPtr := by
  cases v with
  | ptr w => exact .ok w
  | _ => exact .error rfl

theorem asBool_ordinary (v : Val) : Ordinary v.asBool := (asInt_ordinary v).map _

theorem opBits_ordinary (t : Ty) : Ordinary (opBits t) := by
  unfold opBits
  split
  · exact .ok _
  · split
    · exact .ok _
    · exact .error rfl

theorem convert_ordinary (op : Ir.CastOp) (source target : Ty) (v : Val) :
    Ordinary (convert op source target v) := by
  have hi := asInt_ordinary v
  have hf := asFloat_ordinary v
  have hs : ∀ bits, Ordinary (v.asSigned bits) := fun bits => hi.map _
  have hb := opBits_ordinary
  cases op with
  | trunc => exact hi.bind fun _ => (hb _).bind fun _ => .ok _
  | zext => exact hi.bind fun _ => .ok _
  | sext => exact (hb _).bind fun _ => (hs _).bind fun _ => (hb _).bind fun _ => .ok _
  | sitofp => exact (hb _).bind fun _ => (hs _).bind fun _ => .ok _
  | uitofp => exact hi.bind fun _ => .ok _
  | fptosi => exact hf.bind fun _ => (hb _).bind fun _ => .ok _
  | fptoui => exact hf.bind fun _ => (hb _).bind fun _ => .ok _
  | fpext => exact hf.bind fun _ => .ok _
  | fptrunc => exact hf.bind fun _ => .ok _

theorem locate_ordinary (mem : Memory) (addr : UInt64) (len : Nat) :
    Ordinary (mem.locate addr len) := by
  unfold Memory.locate
  split
  · exact .error rfl
  · split
    · split
      · exact .ok _
      · exact .error rfl
    · exact .error rfl

theorem load_ordinary (m : Module) (mem : Memory) (t : Ty) (addr : UInt64) :
    Ordinary (Memory.load m mem t addr) := by
  have hread : ∀ size, Ordinary (mem.readWord addr size) := fun size =>
    (locate_ordinary mem addr size).map _
  cases t with
  | void => exact .error rfl
  | struct id => exact .error rfl
  | _ => exact (hread _).map _

/-- An operation on memory with faults of `E` only. -/
def Mem.Tame (E : Fault → Prop) {α : Type} (op : Mem α) : Prop := ∀ mem, Safe E op mem fun _ _ => True

theorem allocate_tame (size : Nat) : Mem.Tame (·.isLocal = true) (Mem.allocate size) := by
  intro mem
  unfold Safe Mem.allocate
  split
  · rename_i h
    split at h
    · cases h
    · trivial
  · rename_i h
    split at h
    · cases h
      rfl
    · cases h

theorem fill_tame (addr : UInt64) (n : Nat) (g : Nat → UInt8) :
    Mem.Tame (·.isLocal = true) (Mem.fill addr n g) := by
  intro mem
  have hl := locate_ordinary mem addr n
  unfold Safe Mem.fill
  cases h : mem.locate addr n with
  | ok a => trivial
  | error e => exact hl h

theorem writeWord_tame (addr : UInt64) (size : Nat) (w : UInt64) :
    Mem.Tame (·.isLocal = true) (Mem.writeWord addr size w) := by
  unfold Mem.writeWord
  split
  · exact fun mem => .throw rfl
  · exact fill_tame addr size _

theorem copy_tame (dst src : UInt64) (len : Nat) :
    Mem.Tame (·.isLocal = true) (Mem.copy dst src len) := by
  intro mem
  have hl := locate_ordinary mem src len
  unfold Mem.copy Safe
  by_cases hz : len = 0
  · simp [hz]
  · simp only [hz, if_false]
    cases h : mem.locate src len with
    | ok a => exact fill_tame dst len _ mem
    | error e => exact hl h

theorem Mem.Tame.mono {E F : Fault → Prop} {α : Type} {op : Mem α} (h : op.Tame E) (hf : ∀ e, E e → F e) :
    op.Tame F := fun mem => (h mem).mono hf fun _ _ ht => ht

/-- The faults of operations that ask for the sizes of types: local ones, and the mark that sizing one never
ends. -/
def Fault.OfSizes (m : Module) (e : Fault) : Prop :=
  e.isLocal = true ∨ ∃ t, ¬m.Sized t ∧ e = .malformed (.endlessLayout t)

theorem sizeTypes_fails (m : Module) (ts : List Ty) : Fails (Fault.OfSizes m) (sizeTypes m ts) := by
  rcases sizeTypes_cases m ts with h | ⟨t, ht, h⟩
  · rw [h]
    exact .ok ()
  · rw [h]
    exact .error (.inr ⟨t, ht, rfl⟩)

theorem storeWord_tame (m : Module) (t : Ty) (addr : UInt64) (v : Val) (w : UInt64) :
    Mem.Tame (Fault.OfSizes m) (Mem.storeWord m t addr v w) := by
  intro mem
  refine (sizeTypes_fails m [t]).checked.bind fun _ mem' _ => ?_
  split
  · exact (writeWord_tame addr _ w).mono (fun _ => .inl) mem'
  · exact .throw (.inl rfl)

theorem store_tame (m : Module) (t : Ty) (addr : UInt64) (v : Val) :
    Mem.Tame (Fault.OfSizes m) (Mem.store m t addr v) := by
  unfold Mem.store
  split
  · exact (writeWord_tame _ _ _).mono fun _ => .inl
  · exact (writeWord_tame _ _ _).mono fun _ => .inl
  · exact storeWord_tame m _ addr _ _
  · exact storeWord_tame m _ addr _ _
  · exact fun mem => .throw (.inl rfl)

/-- The faults of a host function. -/
def Fault.isHost : Fault → Bool
  | .argCount .. => true
  | e => e.isLocal

theorem isHost_of_isLocal {e : Fault} (h : e.isLocal = true) : e.isHost = true := by
  cases e <;> first | rfl | exact h

theorem hostInt_fails (name : String) (args : List Val) (position : Nat) :
    Fails (·.isHost = true) (hostInt name args position) := by
  unfold hostInt hostArg
  split
  · exact (asInt_ordinary _).imp fun _ => isHost_of_isLocal
  · exact .error rfl

theorem callHost_tame (name : String) (args : List Val) :
    Mem.Tame (·.isHost = true) (callHost name args) := by
  have hint := hostInt_fails name args
  intro mem
  unfold callHost
  split
  · refine (hint 0).checked.bind fun size s hs => ?_
    refine ((allocate_tame size.toNat s).mono (fun _ => isHost_of_isLocal) fun _ _ h => h).bind ?_
    exact fun _ _ _ => .pure trivial
  · split
    · exact (hint 0).checked.bind fun _ _ _ => (hint 1).checked.bind fun _ _ _ => .throw rfl
    · exact .throw rfl

/-! ### Operands and instructions -/

/-- An operation of a function that leaves the frames alone and has faults of `E` only. -/
def Exec.Tame (f : Function) (E : Fault → Prop) {α : Type} (x : Exec α) : Prop :=
  ∀ M, M.frame.func = f → Safe E x M fun _ M' => M'.frame = M.frame ∧ M'.callers = M.callers

/-- Local faults are in `E`, and so are those of values of the list that the function does not have. -/
structure Allows (f : Function) (E : Fault → Prop) (ids : List ValueId) : Prop where
  isLocal : ∀ e : Fault, e.isLocal = true → E e
  unknown : ∀ v ∈ ids, f.value? v = none → E (.malformed (.unknownValue v))

namespace Exec

section

variable {α β : Type} {f : Function} {E : Fault → Prop}

theorem Tame.bind {x : Exec α} {g : α → Exec β} (h : x.Tame f E) (k : ∀ a, (g a).Tame f E) :
    Exec.Tame f E (x >>= g) := fun M hM =>
  (h M hM).bind fun a M₁ h₁ => (k a M₁ (by rw [h₁.1, hM])).imp
    fun _ _ h₂ => ⟨h₂.1.trans h₁.1, h₂.2.trans h₁.2⟩

theorem Tame.pure (a : α) : Exec.Tame f E (Pure.pure a) := fun _ _ => .pure ⟨rfl, rfl⟩

theorem Tame.throw {e : Fault} (h : E e) : Exec.Tame f E (throw e : Exec α) := fun _ _ => .throw h

theorem Tame.checked {r : Except Fault α} (h : Fails E r) : Exec.Tame f E (Machine.checked r) :=
  fun _ _ => h.checked.imp fun _ _ hs => by rw [hs]; exact ⟨rfl, rfl⟩

theorem Tame.get_bind {g : State → Exec α} (h : ∀ M, (g M).Tame f E) : Exec.Tame f E (get >>= g) :=
  fun M hM => h M M hM

theorem Tame.frame_bind {g : Frame → Exec α} (h : ∀ F : Frame, F.func = f → (g F).Tame f E) :
    Exec.Tame f E (frame >>= g) := fun M hM => h M.frame hM M hM

theorem memory_tame : memory.Tame f E := fun _ _ => ⟨rfl, rfl⟩

theorem typeOf_tame (id : ValueId) : (typeOf id).Tame f E := fun _ _ => ⟨rfl, rfl⟩

theorem onMemory_tame {op : Mem α} (h : op.Tame E) : (onMemory op).Tame f E := by
  intro M _
  have := h M.store.memory
  unfold Safe at this ⊢
  cases ho : op M.store.memory with
  | ok a mem =>
    rw [onMemory_ok ho]
    exact ⟨rfl, rfl⟩
  | error e mem =>
    rw [ho] at this
    rw [onMemory_error ho]
    exact this

end

variable {f : Function} {E : Fault → Prop} (m : Module) {ids : List ValueId}

theorem onMemory_allowed {α : Type} {op : Mem α} (h : Allows f E ids)
    (hop : op.Tame (·.isLocal = true)) : (onMemory op).Tame f E :=
  onMemory_tame fun mem => (hop mem).mono h.isLocal fun _ _ ht => ht

theorem checked_allowed {α : Type} {r : Except Fault α} (h : Allows f E ids) (hr : Ordinary r) :
    Exec.Tame f E (Machine.checked r) := .checked (hr.imp h.isLocal)

theorem globalAddress_tame (h : Allows f E ids) (id : Ir.GlobalId) : (globalAddress m id).Tame f E := by
  refine .get_bind fun M => ?_
  split
  · exact .pure _
  · refine (onMemory_allowed h (allocate_tame _)).bind fun addr => ?_
    refine (onMemory_allowed h (fill_tame _ _ _)).bind fun _ => ?_
    exact Tame.bind (fun M _ => ⟨rfl, rfl⟩) fun _ => .pure _

theorem operand_tame (h : Allows f E ids) {id : ValueId} (hid : id ∈ ids) : (operand m id).Tame f E := by
  refine .frame_bind fun F hF => ?_
  split
  · rename_i hn
    exact .throw (h.unknown id hid (hF ▸ hn))
  · split
    · split
      · exact .pure _
      · exact .throw (h.isLocal _ rfl)
    · exact .pure _
    · exact .pure _
    · exact .pure _
    · exact (globalAddress_tame m h _).bind fun _ => .pure _
    · split
      · exact .pure _
      · exact .throw (h.isLocal _ rfl)

theorem operandInt_tame (h : Allows f E ids) {id : ValueId} (hid : id ∈ ids) :
    (operandInt m id).Tame f E :=
  (operand_tame m h hid).bind fun v => checked_allowed h (asInt_ordinary v)

theorem operandFloat_tame (h : Allows f E ids) {id : ValueId} (hid : id ∈ ids) :
    (operandFloat m id).Tame f E :=
  (operand_tame m h hid).bind fun v => checked_allowed h (asFloat_ordinary v)

theorem operandPtr_tame (h : Allows f E ids) {id : ValueId} (hid : id ∈ ids) :
    (operandPtr m id).Tame f E :=
  (operand_tame m h hid).bind fun v => checked_allowed h (asPtr_ordinary v)

theorem operandBool_tame (h : Allows f E ids) {id : ValueId} (hid : id ∈ ids) :
    (operandBool m id).Tame f E :=
  (operand_tame m h hid).bind fun v => checked_allowed h (asBool_ordinary v)

theorem operands_tame (h : Allows f E ids) {vs : List ValueId} (hvs : ∀ v ∈ vs, v ∈ ids) :
    (operands m vs).Tame f E := by
  induction vs with
  | nil => exact .pure _
  | cons v rest ih =>
    exact (operand_tame m h (hvs v (by simp))).bind fun _ =>
      (ih fun w hw => hvs w (by simp [hw])).bind fun _ => .pure _

theorem binary_tame (op : Ir.BinOp) {l r : ValueId} (h : Allows f E [l, r]) :
    (binary m op l r).Tame f E := by
  refine (typeOf_tame l).bind fun t => (operand_tame m h (by simp)).bind fun a =>
    (operand_tame m h (by simp)).bind fun b => ?_
  split
  · exact (checked_allowed h (asFloat_ordinary a)).bind fun _ =>
      (checked_allowed h (asFloat_ordinary b)).bind fun _ => .pure _
  · refine (checked_allowed h (opBits_ordinary t)).bind fun bits =>
      (checked_allowed h (asInt_ordinary a)).bind fun _ =>
      (checked_allowed h (asInt_ordinary b)).bind fun _ => ?_
    split
    · exact .pure _
    · exact .frame_bind fun _ _ => .throw (h.isLocal _ rfl)

theorem compare_tame (p : Ir.IntPred) {l r : ValueId} (h : Allows f E [l, r]) :
    (compare m p l r).Tame f E := by
  refine (typeOf_tame l).bind fun t => (operand_tame m h (by simp)).bind fun a =>
    (operand_tame m h (by simp)).bind fun b => ?_
  split
  · exact .pure _
  · exact (checked_allowed h (asInt_ordinary _)).bind fun _ =>
      (checked_allowed h (asInt_ordinary _)).bind fun _ =>
      (checked_allowed h (opBits_ordinary t)).bind fun _ => .pure _

/-- None but calls concerns the frames. An instruction fails locally, for a value that is not there, as a
late merge, in the arguments of a host function, or where sizing a type never ends. -/
theorem perform_tame {kind : InstKind} (h : Allows f E kind.operands)
    (hphi : kind.isPhi = true → E (.malformed (.latePhi f.name)))
    (hhost : ∀ name n k, E (.argCount name n k)) (hsize : ∀ t, ¬m.Sized t → E (.malformed (.endlessLayout t))) :
    (perform m kind).Tame f E := by
  have hsizes : ∀ e : Fault, e.OfSizes m → E e := by
    rintro e (he | ⟨t, ht, rfl⟩)
    · exact h.isLocal e he
    · exact hsize t ht
  have hlayout : ∀ ts, Exec.Tame f E (Machine.checked (sizeTypes m ts)) := fun ts =>
    .checked ((sizeTypes_fails m ts).imp hsizes)
  cases kind with
  | alloca t =>
    exact (hlayout [t]).bind fun _ => (onMemory_allowed h (allocate_tame _)).bind fun _ => .pure _
  | load t p =>
    exact (operandPtr_tame m h (by simp [InstKind.operands])).bind fun addr => memory_tame.bind fun mem =>
      (checked_allowed h (load_ordinary m mem t addr)).bind fun _ => .pure _
  | store v p =>
    exact (typeOf_tame v).bind fun t => (operand_tame m h (by simp [InstKind.operands])).bind fun x =>
      (operandPtr_tame m h (by simp [InstKind.operands])).bind
      fun addr => (onMemory_tame ((store_tame m t addr x).mono hsizes)).bind fun _ => .pure _
  | binary op a b => exact (binary_tame m op h).bind fun _ => .pure _
  | fneg v => exact (operandFloat_tame m h (by simp [InstKind.operands])).bind fun _ => .pure _
  | icmp p a b => exact (compare_tame m p h).bind fun _ => .pure _
  | fcmp p a b =>
    exact (operandFloat_tame m h (by simp [InstKind.operands])).bind fun _ =>
      (operandFloat_tame m h (by simp [InstKind.operands])).bind fun _ => .pure _
  | cast op v target =>
    exact (typeOf_tame v).bind fun source => (operand_tame m h (by simp [InstKind.operands])).bind fun x =>
      (checked_allowed h (convert_ordinary op source target x)).bind fun _ => .pure _
  | select c a b =>
    refine (operandBool_tame m h (by simp [InstKind.operands])).bind fun taken => ?_
    split
    · exact (operand_tame m h (by simp [InstKind.operands])).bind fun _ => .pure _
    · exact (operand_tame m h (by simp [InstKind.operands])).bind fun _ => .pure _
  | phi t incoming =>
    refine .frame_bind fun F hF => .throw ?_
    rw [hF]
    exact hphi rfl
  | call callee args ret =>
    cases callee with
    | func id => exact (operands_tame m h fun _ hv => hv).bind fun _ => .pure _
    | host id =>
      refine (operands_tame m h fun _ hv => hv).bind fun xs => Tame.bind ?_ fun _ => .pure _
      refine onMemory_tame fun mem => (callHost_tame _ xs mem).mono (fun e he => ?_) fun _ _ ht => ht
      cases e with
      | argCount name n k => exact hhost name n k
      | _ => exact h.isLocal _ he
  | ptrAdd p o =>
    exact (operandPtr_tame m h (by simp [InstKind.operands])).bind fun _ =>
      (operandInt_tame m h (by simp [InstKind.operands])).bind fun _ => .pure _
  | fieldPtr s p field =>
    refine (operandPtr_tame m h (by simp [InstKind.operands])).bind fun addr => ?_
    split
    · exact .throw (h.isLocal _ rfl)
    · exact (hlayout _).bind fun _ => .pure _
  | memCopy d s l =>
    exact (operandPtr_tame m h (by simp [InstKind.operands])).bind fun dst =>
      (operandPtr_tame m h (by simp [InstKind.operands])).bind fun src =>
      (operandInt_tame m h (by simp [InstKind.operands])).bind fun len =>
      (onMemory_allowed h (copy_tame dst src _)).bind fun _ => .pure _
  | memMove d s l =>
    exact (operandPtr_tame m h (by simp [InstKind.operands])).bind fun dst =>
      (operandPtr_tame m h (by simp [InstKind.operands])).bind fun src =>
      (operandInt_tame m h (by simp [InstKind.operands])).bind fun len =>
      (onMemory_allowed h (copy_tame dst src _)).bind fun _ => .pure _

/-- The hook for a failed bounds check does not return. -/
theorem perform_ne_ok_of_halts {kind : InstKind} (h : kind.Halts m) (M M' : State) (a : Effect) :
    perform m kind M ≠ .ok a M' := by
  obtain ⟨id, args, ret, d, rfl, hd, hn⟩ := h
  have hname : ((m.host? id).getD default).name = hostBoundsError := by rw [hd]; exact hn
  have hall : Allows M.frame.func (fun _ => True) args := ⟨fun _ _ => trivial, fun _ _ _ => trivial⟩
  have hend : Safe (fun _ => True) (perform m (.call (.host id) args ret)) M fun _ _ => False := by
    refine (operands_tame m hall (fun _ hv => hv) M rfl).bind fun xs M₁ _ => ?_
    refine Safe.bind (Q := fun _ _ => False) ?_ fun _ _ h => h.elim
    have hcall : Safe (·.isHost = true) (callHost hostBoundsError xs) M₁.store.memory fun _ _ => False :=
      (hostInt_fails _ xs 0).checked.bind fun _ _ _ => (hostInt_fails _ xs 1).checked.bind
        fun _ _ _ => .throw rfl
    rw [hname]
    unfold Safe at hcall ⊢
    cases ho : callHost hostBoundsError xs M₁.store.memory with
    | ok a mem =>
      rw [ho] at hcall
      exact hcall.elim
    | error e mem => simp [onMemory_error ho]
  intro hok
  unfold Safe at hend
  rw [hok] at hend
  exact hend

end Exec

end BlockForge.Machine
