import BlockForge.Proofs.Ir.Shape

/-!
# Sequences of builder operations

The calls that a builder takes, as data, and what a single call does to the block graph. Only a terminator adds
edges; it is counted, so the graph is the same as long as the count is.
-/

namespace BlockForge.Ir

open StateM

/-- A call that makes a value or puts an instruction into a block. -/
inductive Emission where
  | constInt (ty : Ty) (value : UInt64)
  | constBool (value : Bool)
  | constUsize (value : UInt64)
  | constFloat (ty : Ty) (bits : UInt64)
  | constNull
  | globalString (text : String)
  | declareHost (name : String) (params : List Ty) (ret : Ty)
  | alloca (ty : Ty) (name : String)
  | entryAlloca (ty : Ty) (name : String)
  | load (ty : Ty) (ptr : ValueId) (name : String)
  | store (value ptr : ValueId)
  | ptrAdd (ptr offset : ValueId) (name : String)
  | fieldPtr (struct : StructId) (ptr : ValueId) (field : Nat) (name : String)
  | memCopy (dst src len : ValueId)
  | memMove (dst src len : ValueId)
  | binary (op : BinOp) (lhs rhs : ValueId) (name : String)
  | neg (operand : ValueId) (name : String)
  | fneg (operand : ValueId) (name : String)
  | not (operand : ValueId) (name : String)
  | icmp (pred : IntPred) (lhs rhs : ValueId) (name : String)
  | fcmp (pred : FloatPred) (lhs rhs : ValueId) (name : String)
  | cast (op : CastOp) (value : ValueId) (target : Ty) (name : String)
  | intResize (value : ValueId) (target : Ty) (signed : Bool) (name : String)
  | select (cond ifTrue ifFalse : ValueId) (name : String)
  | phi (ty : Ty) (incoming : List (ValueId × BlockId)) (name : String)
  | call (func : FuncId) (args : List ValueId) (name : String)
  | callHost (host : HostId) (args : List ValueId) (name : String)

inductive Operation where
  | appendBlock (name : String)
  | positionAt (block : BlockId)
  | sealBlock (block : BlockId)
  | emission (e : Emission)
  | terminate (t : Terminator)

/-- Runs an operation and forgets its result. -/
def Emission.run : Emission → Emit Unit
  | constInt ty value => discard (Emit.constInt ty value)
  | constBool value => discard (Emit.constBool value)
  | constUsize value => discard (Emit.constUsize value)
  | constFloat ty bits => discard (Emit.constFloat ty bits)
  | constNull => discard Emit.constNull
  | globalString text => discard (Emit.globalString text)
  | declareHost name params ret => discard (Emit.onModule (·.declareHost name params ret))
  | alloca ty name => discard (Emit.alloca ty name)
  | entryAlloca ty name => discard (Emit.entryAlloca ty name)
  | load ty ptr name => discard (Emit.load ty ptr name)
  | store value ptr => Emit.store value ptr
  | ptrAdd ptr offset name => discard (Emit.ptrAdd ptr offset name)
  | fieldPtr struct ptr field name => discard (Emit.fieldPtr struct ptr field name)
  | memCopy dst src len => Emit.memCopy dst src len
  | memMove dst src len => Emit.memMove dst src len
  | binary op lhs rhs name => discard (Emit.binary op lhs rhs name)
  | neg operand name => discard (Emit.neg operand name)
  | fneg operand name => discard (Emit.fneg operand name)
  | not operand name => discard (Emit.not operand name)
  | icmp pred lhs rhs name => discard (Emit.icmp pred lhs rhs name)
  | fcmp pred lhs rhs name => discard (Emit.fcmp pred lhs rhs name)
  | cast op value target name => discard (Emit.cast op value target name)
  | intResize value target signed name => discard (Emit.intResize value target signed name)
  | select cond ifTrue ifFalse name => discard (Emit.select cond ifTrue ifFalse name)
  | phi ty incoming name => discard (Emit.phi ty incoming name)
  | call func args name => discard (Emit.call func args name)
  | callHost host args name => discard (Emit.callHost host args name)

/-- The operation of the builder that ends the current block in a certain way. -/
def Terminator.run : Terminator → Emit Unit
  | br target => Emit.br target
  | condBr cond ifTrue ifFalse => Emit.condBr cond ifTrue ifFalse
  | ret (some value) => Emit.ret value
  | ret none => Emit.retVoid
  | unreachable => Emit.unreachable

namespace Operation

def run : Operation → Emit Unit
  | appendBlock name => discard (Emit.appendBlock name)
  | positionAt block => Emit.positionAt block
  | sealBlock block => discard (Emit.sealBlock block)
  | emission e => e.run
  | terminate t => t.run

/-- The blocks that an operation branches to. -/
def targets : Operation → List BlockId
  | terminate t => t.successors
  | _ => []

end Operation

/-! ### What an operation does to the graph -/

/-- The block graph grows by edges to some targets, and only if a terminator is counted. -/
structure Wires (targets : List BlockId) (s b : Builder) : Prop where
  func : b.func = s.func
  functions : b.module.functions.size = s.module.functions.size
  size : s.function.blocks.size ≤ b.function.blocks.size
  edges : ∀ {i j : BlockId}, j ∈ b.function.succs i → j ∈ s.function.succs i ∨ j ∈ targets
  terminators : s.terminators ≤ b.terminators
  steady : b.terminators = s.terminators → b.function.ending = s.function.ending

namespace Wires

variable {targets : List BlockId} {s b d : Builder}

theorem of_ending (hf : b.func = s.func) (hm : b.module.functions.size = s.module.functions.size)
    (hs : s.function.blocks.size ≤ b.function.blocks.size) (he : b.function.ending = s.function.ending)
    (ht : b.terminators = s.terminators) : Wires targets s b where
  func := hf
  functions := hm
  size := hs
  edges hj := by
    rw [Function.succs, he] at hj
    exact .inl hj
  terminators := Nat.le_of_eq ht.symm
  steady _ := he

theorem of_inline (h : Emit.Inline s b) : Wires targets s b :=
  of_ending h.func h.functions (Nat.le_of_eq h.size.symm) h.ending h.terminators

theorem trans_inline (h : Wires targets s b) (k : Emit.Inline b d) : Wires targets s d where
  func := k.func.trans h.func
  functions := k.functions.trans h.functions
  size := Nat.le_trans h.size (Nat.le_of_eq k.size.symm)
  edges hj := by
    rw [Function.succs, k.ending] at hj
    exact h.edges hj
  terminators := Nat.le_trans h.terminators (Nat.le_of_eq k.terminators.symm)
  steady he := k.ending.trans (h.steady (k.terminators.symm.trans he))

theorem inline_trans (h : Emit.Inline s b) (k : Wires targets b d) : Wires targets s d where
  func := k.func.trans h.func
  functions := k.functions.trans h.functions
  size := Nat.le_trans (Nat.le_of_eq h.size.symm) k.size
  edges hj := by
    have := k.edges hj
    rwa [Function.succs, h.ending] at this
  terminators := Nat.le_trans (Nat.le_of_eq h.terminators.symm) k.terminators
  steady he := (k.steady (he.trans h.terminators.symm)).trans h.ending

theorem valid (h : Wires targets s b) (hv : s.func.index < s.module.functions.size) :
    b.func.index < b.module.functions.size := by
  rw [h.func, h.functions]
  exact hv

/-- Every branch still leads to a block that exists, if the targets do. -/
theorem bounded (h : Wires targets s b) (hs : s.function.Bounded)
    (ht : ∀ t ∈ targets, t.index < s.function.blocks.size) : b.function.Bounded := by
  intro i j hi
  rcases h.edges hi with hi | hi
  · exact Nat.lt_of_lt_of_le (hs hi) h.size
  · exact Nat.lt_of_lt_of_le (ht i hi) h.size

/-- While the count stays, control gets to the same blocks. -/
theorem path_iff (h : Wires targets s b) (ht : b.terminators = s.terminators) (i j : BlockId) :
    b.function.Path i j ↔ s.function.Path i j := by
  simp only [Function.Path, Function.succs, h.steady ht]

end Wires

theorem Function.succs_setEnding {f : Function} {c : BlockId} {t : Terminator} {i j : BlockId}
    (hj : j ∈ (f.setEnding c t).succs i) : j ∈ f.succs i ∨ j ∈ t.successors := by
  simp only [succs, ending, setEnding, Array.getElem?_modify] at hj ⊢
  split at hj
  · cases hb : f.blocks[i.index]? with
    | none => simp [hb] at hj
    | some bl =>
      rw [hb] at hj
      exact .inr hj
  · exact .inl hj

section

variable {b : Builder}

open Emit

theorem Emission.inline (e : Emission) : IsInline e.run := by
  cases e with
  | constInt => exact (constInt_inline ..).map
  | constBool => exact (constBool_inline _).map
  | constUsize => exact (constUsize_inline _).map
  | constFloat => exact (constFloat_inline ..).map
  | constNull => exact constNull_inline.map
  | globalString => exact (globalString_inline _).map
  | declareHost => exact (declareHost_inline ..).map
  | alloca => exact (emit_inline ..).map
  | entryAlloca => exact (entryAlloca_inline ..).map
  | load => exact (load_inline ..).map
  | store => exact store_inline ..
  | ptrAdd => exact (ptrAdd_inline ..).map
  | fieldPtr => exact (fieldPtr_inline ..).map
  | memCopy => exact emitVoid_inline _
  | memMove => exact emitVoid_inline _
  | binary => exact (binary_inline ..).map
  | neg => exact (neg_inline ..).map
  | fneg => exact (fneg_inline ..).map
  | not => exact (not_inline ..).map
  | icmp => exact (icmp_inline ..).map
  | fcmp => exact (fcmp_inline ..).map
  | cast => exact (cast_inline ..).map
  | intResize => exact (intResize_inline ..).map
  | select => exact (select_inline ..).map
  | phi => exact (phi_inline ..).map
  | call => exact (call_inline ..).map
  | callHost => exact (callHost_inline ..).map

theorem closeBlock_wires (hv : b.func.index < b.module.functions.size) (c : BlockId) (t : Terminator) :
    (closeBlock c t).Sat b fun _ b' => Wires t.successors b b' := by
  unfold Sat closeBlock
  split
  · exact .of_inline (.refl b)
  · have hf : (b.modifyFunction (·.setEnding c t)).function = b.function.setEnding c t :=
      Builder.function_modifyFunction hv _
    constructor
    · rfl
    · simp [Builder.modifyBlock, Builder.modifyFunction, Module.modifyFunction]
    · show b.function.blocks.size ≤ (b.modifyFunction (·.setEnding c t)).function.blocks.size
      rw [hf]
      simp [Function.setEnding]
    · intro i j hj
      apply Function.succs_setEnding (c := c)
      rw [← hf]
      exact hj
    · exact Nat.le_succ _
    · intro hcount
      exact absurd hcount (Nat.succ_ne_self _)

theorem terminate_wires (hv : b.func.index < b.module.functions.size) (t : Terminator) :
    (terminate t).Sat b fun _ b' => Wires t.successors b b' := by
  refine Sat.get_bind ?_
  cases b.current with
  | none => exact .of_inline ((demand_inline ..).sat b hv)
  | some c =>
    refine Sat.bind (closeBlock_wires hv c t) fun closed b₁ h₁ => ?_
    exact h₁.trans_inline ((demand_inline ..).sat b₁ (h₁.valid hv))

theorem Terminator.wires (hv : b.func.index < b.module.functions.size) (t : Terminator) :
    t.run.Sat b fun _ b' => Wires t.successors b b' := by
  cases t with
  | br => exact terminate_wires hv _
  | condBr =>
    refine Sat.bind ((demand_inline ..).sat b hv) fun _ b₁ h₁ => ?_
    exact (terminate_wires (h₁.valid hv) _).imp fun _ _ h₂ => .inline_trans h₁ h₂
  | ret value =>
    cases value with
    | none => exact terminate_wires hv _
    | some => exact terminate_wires hv _
  | unreachable => exact terminate_wires hv _

/-- An operation adds no edges but those to its targets. -/
theorem Operation.wires (hv : b.func.index < b.module.functions.size) (op : Operation) :
    op.run.Sat b fun _ b' => Wires op.targets b b' := by
  cases op with
  | appendBlock name =>
    obtain ⟨-, h⟩ := appendBlock_makes hv name
    have hsize := Nat.le_trans (Nat.le_succ _) (Nat.le_of_eq h.size.symm)
    exact .of_ending h.func h.functions hsize h.ending h.terminators
  | positionAt block =>
    refine Sat.bind ((demand_inline ..).sat b hv) fun _ b₁ h₁ => ?_
    exact .of_ending h₁.func h₁.functions (Nat.le_of_eq h₁.size.symm) h₁.ending h₁.terminators
  | sealBlock block => exact closeBlock_wires hv block .unreachable
  | emission e => exact .of_inline (e.inline.sat b hv)
  | terminate t => exact t.wires hv

end

end BlockForge.Ir
