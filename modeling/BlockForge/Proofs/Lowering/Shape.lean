import BlockForge.Lowering.Sequence
import BlockForge.Lowering.VectorCode
import BlockForge.Proofs.Ir.Shape

/-!
# The shape of operators and vector operations

Operators emit into the current block. A vector operation checks its index on the way, and may grow
the buffer or shift elements in a branch of its own: each time it comes back to one open block.
-/

namespace BlockForge.Lowering

open Ir (BlockId Builder Emit ValueId)
open Ir.Emit
open Source (BinaryOp)
open StateM
open BlockForge.Types (CastKind Ty)

/-! ### Operators -/

theorem emitSignedMod_inline (ir : Ir.Ty) (a b : ValueId) : IsInline (emitSignedMod ir a b) :=
  (binary_inline ..).bind fun _ => (constInt_inline ..).bind fun _ => (icmp_inline ..).bind fun _ =>
    (icmp_inline ..).bind fun _ => (icmp_inline ..).bind fun _ => (binary_inline ..).bind fun _ =>
    (binary_inline ..).bind fun _ => (binary_inline ..).bind fun _ => select_inline ..

theorem emitFloatMod_inline (ir : Ir.Ty) (a b : ValueId) : IsInline (emitFloatMod ir a b) :=
  (binary_inline ..).bind fun _ => (constFloat_inline ..).bind fun _ => (fcmp_inline ..).bind fun _ =>
    (fcmp_inline ..).bind fun _ => (fcmp_inline ..).bind fun _ => (binary_inline ..).bind fun _ =>
    (binary_inline ..).bind fun _ => (binary_inline ..).bind fun _ => select_inline ..

theorem emitArithmetic_inline (op : BinaryOp) (t : Ty) (ir : Ir.Ty) (a b : ValueId) :
    IsInline (emitArithmetic op t ir a b) := by
  unfold emitArithmetic
  dsimp only
  split
  case h_6 =>
    split
    · exact (emitFloatMod_inline ..).map
    · split
      · exact (emitSignedMod_inline ..).map
      · exact (binary_inline ..).map
  case h_7 => exact .pure none
  all_goals exact (binary_inline ..).map

theorem emitOrdering_inline (op : BinaryOp) (t : Ty) (a b : ValueId) :
    IsInline (emitOrdering op t a b) := by
  unfold emitOrdering
  split
  · exact fcmp_inline ..
  · exact icmp_inline ..

theorem emitEquality_inline (equal : Bool) (t : Ty) (a b : ValueId) :
    IsInline (emitEquality equal t a b) := by
  unfold emitEquality
  split
  · exact fcmp_inline ..
  · exact icmp_inline ..

theorem emitShift_inline (op : BinaryOp) (t : Ty) (ir : Ir.Ty) (a amount : ValueId) (signed : Bool) :
    IsInline (emitShift op t ir a amount signed) :=
  (intResize_inline ..).bind fun _ => binary_inline ..

theorem emitBitwise_inline (op : BinaryOp) (a b : ValueId) : IsInline (emitBitwise op a b) := by
  unfold emitBitwise
  split <;> exact binary_inline ..

theorem emitCast_inline (kind : CastKind) (v : ValueId) (ir : Ir.Ty) :
    IsInline (emitCast kind v ir) := by
  unfold emitCast
  split
  · exact .pure v
  all_goals exact cast_inline ..

/-! ### Allocation -/

/-- An allocator that emits its code into the current block. -/
def Allocator.IsInline (a : Allocator) : Prop :=
  ∀ size kind name, Emit.IsInline (a.allocate size kind name)

theorem callAllocator_inline (symbol : String) (params : List Ir.Ty) (args : List ValueId)
    (name : String) : IsInline (Allocator.callAllocator symbol params args name) := by
  refine (declareHost_inline ..).bind fun host => (callHost_inline ..).bind fun r => ?_
  cases r with
  | none => exact constNull_inline
  | some p => exact .pure p

theorem collector_inline : Allocator.collector.IsInline :=
  fun _ _ _ => .get_bind fun _ => callAllocator_inline ..

/-! ### Branches of vector operations -/

/-- The hook is called in the current block, which control then does not get through. -/
theorem callBoundsError_halts {b : Builder} (ho : b.Opened) (index size : ValueId) :
    (callBoundsError index size).Sat b fun _ b' => Inline b b' ∧
      ∀ d, b'.current = some d → b'.function.Halts b'.module d := by
  obtain ⟨c, hc, -⟩ := ho.position
  refine Sat.get_bind ?_
  have hname : (onModule (·.declareHost boundsErrorHook [b.module.ptrInt, b.module.ptrInt] .void)).Sat b
      fun id b' => ∃ d, b'.module.host? id = some d ∧ d.name = boundsErrorHook :=
    declareHost_name b.module ..
  refine Sat.bind (Sat.and ((declareHost_inline ..).sat b ho.valid) hname) ?_
  rintro hook b₁ ⟨i₁, decl, hdecl, hd⟩
  have ho₁ := i₁.opened ho
  refine Sat.bind (Sat.and ((callHost_inline ..).sat b₁ ho₁.valid)
    (callHost_mem ho₁ (i₁.current.trans hc) hook [index, size] "")) ?_
  rintro - b₂ ⟨i₂, r, ret, hmem⟩
  refine Sat.pure ⟨i₁.trans i₂, fun d hcur => ?_⟩
  rw [i₂.current, i₁.current, hc] at hcur
  cases hcur
  exact ⟨_, hmem, hook, _, ret, decl, rfl, i₂.hosts hdecl, hd⟩

theorem emitBoundsCheck_advance (index size : ValueId) (inclusive : Bool) :
    IsAdvance (emitBoundsCheck index size inclusive) := by
  refine (icmp_inline ..).advance fun ok => ⟨fun s ho => ?_⟩
  obtain ⟨c, hc, -⟩ := ho.position
  refine Sat.bind (appendBlock_makes ho.valid _) fun y s₁ ⟨hy, h₁⟩ => ?_
  refine Sat.bind (appendBlock_makes (h₁.opened ho).valid _) fun x s₂ ⟨hx, h₂⟩ => ?_
  have h := h₁.trans h₂
  rw [h₁.size] at hx
  refine Sat.bind (condBr_turns (h.opened ho) (h.current.trans hc) ok y x) fun _ s₃ h₃ => ?_
  refine Sat.bind (h₃.positionAt x) fun _ s₄ h₄ => ?_
  have ho₄ := Turns.opened ho h h₄ (by omega) (by omega)
  refine Sat.bind (callBoundsError_halts ho₄ index size) fun _ s₅ ⟨i₅, hh⟩ => ?_
  have ho₅ := i₅.opened ho₄
  obtain ⟨d, hd, -⟩ := ho₅.position
  refine Sat.bind (terminate_turns ho₅ hd .unreachable) fun _ s₆ h₆ => ?_
  refine (h₆.positionAt y).imp fun _ s₇ h₇ => ?_
  refine Advances.branch ho h (.inr ⟨hy, hx⟩) h₄ ?_ (i₅.advances ho₄) h₇ (.inr ⟨rfl, hh⟩)
  intro i
  simp [Ir.Terminator.successors, or_comm]

/-- Code that goes off into the first of two new blocks and joins the second. -/
theorem join_sat {β : Type} {s : Builder} (ho : s.Opened) (first second : String) (v : ValueId)
    {inner : Emit Unit} (hi : IsAdvance inner) {k : Unit → Emit β} {Q : β → Builder → Prop}
    (hk : ∀ s', Advances s s' → (k ()).Sat s' Q) :
    (appendBlock first >>= fun x => appendBlock second >>= fun y => condBr v x y >>= fun _ =>
      positionAt x >>= fun _ => inner >>= fun _ => br y >>= fun _ => positionAt y >>= k).Sat s Q := by
  obtain ⟨c, hc, -⟩ := ho.position
  refine Sat.bind (appendBlock_makes ho.valid first) fun x s₁ ⟨hx, h₁⟩ => ?_
  refine Sat.bind (appendBlock_makes (h₁.opened ho).valid second) fun y s₂ ⟨hy, h₂⟩ => ?_
  have h := h₁.trans h₂
  rw [h₁.size] at hy
  refine Sat.bind (condBr_turns (h.opened ho) (h.current.trans hc) v x y) fun _ s₃ h₃ => ?_
  refine Sat.bind (h₃.positionAt x) fun _ s₄ h₄ => ?_
  have ho₄ := Turns.opened ho h h₄ (by omega) (by omega)
  refine Sat.bind (hi.sat s₄ ho₄) fun _ s₅ a₅ => ?_
  obtain ⟨d, hd, -⟩ := a₅.opened.position
  refine Sat.bind (terminate_turns a₅.opened hd (.br y)) fun _ s₆ h₆ => ?_
  refine Sat.bind (h₆.positionAt y) fun _ s₇ h₇ => hk s₇ ?_
  refine Advances.branch ho h (.inl ⟨hx, hy⟩) h₄ ?_ a₅ h₇ (.inl rfl)
  intro i
  simp [Ir.Terminator.successors]

/-! ### Vector operations -/

namespace VectorShape

variable {v : VectorShape}

theorem loadField_inline (desc : ValueId) (f : VectorField) (name : String) :
    IsInline (v.loadField desc f name) :=
  (fieldPtr_inline ..).bind fun _ => .get_bind fun _ => load_inline ..

theorem storeField_inline (desc : ValueId) (f : VectorField) (value : ValueId) :
    IsInline (v.storeField desc f value) :=
  (fieldPtr_inline ..).bind fun _ => store_inline ..

theorem elementPtr_inline (elems index : ValueId) : IsInline (v.elementPtr elems index) :=
  (constUsize_inline _).bind fun _ => (binary_inline ..).bind fun _ => ptrAdd_inline ..

theorem byteLen_inline (count : ValueId) : IsInline (v.byteLen count) :=
  (constUsize_inline _).bind fun _ => binary_inline ..

theorem bumpSize_inline (desc size : ValueId) (grow : Bool) : IsInline (v.bumpSize desc size grow) := by
  refine (constUsize_inline _).bind fun _ => ?_
  cases grow <;> exact (binary_inline ..).bind fun _ => storeField_inline ..

theorem doubledCapacity_inline (cap : ValueId) : IsInline (doubledCapacity cap) :=
  .get_bind fun _ => (constInt_inline ..).bind fun _ => (constInt_inline ..).bind fun _ =>
    (constInt_inline ..).bind fun _ => (icmp_inline ..).bind fun _ => (binary_inline ..).bind fun _ =>
    select_inline ..

theorem openGap_inline (elems index size slot : ValueId) :
    IsInline (v.openGap elems index size slot) :=
  (constUsize_inline _).bind fun _ => (binary_inline ..).bind fun _ =>
    (elementPtr_inline ..).bind fun _ => (binary_inline ..).bind fun _ =>
    (byteLen_inline _).bind fun _ => emitVoid_inline _

theorem closeGap_inline (elems next size slot : ValueId) :
    IsInline (v.closeGap elems next size slot) :=
  (elementPtr_inline ..).bind fun _ => (binary_inline ..).bind fun _ =>
    (byteLen_inline _).bind fun _ => emitVoid_inline _

theorem access_advance (desc index : ValueId) : IsAdvance (v.access desc index) :=
  (loadField_inline ..).advance fun _ => (emitBoundsCheck_advance ..).bind fun _ =>
    (loadField_inline ..).advance fun _ => (elementPtr_inline ..).advance fun _ =>
    (IsInline.pure _).isAdvance

theorem getAt_advance (desc index : ValueId) : IsAdvance (v.getAt desc index) :=
  (access_advance ..).bind fun _ => (load_inline ..).isAdvance

theorem setAt_advance (desc index value : ValueId) : IsAdvance (v.setAt desc index value) :=
  (access_advance ..).bind fun _ => (store_inline ..).isAdvance

theorem removeAt_advance (desc index : ValueId) : IsAdvance (v.removeAt desc index) :=
  (access_advance ..).bind fun _ => (load_inline ..).advance fun removed =>
    (constUsize_inline _).advance fun _ => (binary_inline ..).advance fun _ =>
    (icmp_inline ..).advance fun _ => ⟨fun _ ho => join_sat ho _ _ _ (closeGap_inline ..).isAdvance
      fun s' h => (((bumpSize_inline ..).bind fun _ => .pure removed).isAdvance.sat s' h.opened).imp
        fun _ _ k => h.trans k⟩

variable (ha : v.allocator.IsInline)

include ha

theorem moveElements_inline (desc size cap : ValueId) : IsInline (v.moveElements desc size cap) :=
  (doubledCapacity_inline _).bind fun _ => (byteLen_inline _).bind fun _ => (ha ..).bind fun _ =>
    (loadField_inline ..).bind fun _ => (byteLen_inline _).bind fun _ => (emitVoid_inline _).bind fun _ =>
    (storeField_inline ..).bind fun _ => storeField_inline ..

theorem ensureCapacity_advance (desc size : ValueId) : IsAdvance (v.ensureCapacity desc size) :=
  (loadField_inline ..).advance fun _ => (icmp_inline ..).advance fun _ =>
    ⟨fun _ ho => join_sat (k := pure) ho _ _ _ (moveElements_inline ha ..).isAdvance
      fun _ h => Sat.pure h⟩

theorem newBuffer_inline (capacity : UInt64) : IsInline (v.newBuffer capacity) := by
  unfold newBuffer
  split
  · exact (constUsize_inline _).bind fun _ => ha ..
  · exact constNull_inline

theorem new_inline (descBytes : Nat) (capacity : UInt64) : IsInline (v.new descBytes capacity) :=
  .get_bind fun _ => (constUsize_inline _).bind fun _ => (ha ..).bind fun desc =>
    (newBuffer_inline ha _).bind fun _ => (constInt_inline ..).bind fun _ =>
    (constUsize_inline _).bind fun _ => (storeField_inline ..).bind fun _ =>
    (storeField_inline ..).bind fun _ => (storeField_inline ..).bind fun _ => .pure desc

theorem append_advance (desc value : ValueId) : IsAdvance (v.append desc value) :=
  (loadField_inline ..).advance fun _ => (ensureCapacity_advance ha ..).bind fun _ =>
    (loadField_inline ..).advance fun _ => (elementPtr_inline ..).advance fun _ =>
    (store_inline ..).advance fun _ => (bumpSize_inline ..).isAdvance

theorem insertAt_advance (desc index value : ValueId) : IsAdvance (v.insertAt desc index value) :=
  (loadField_inline ..).advance fun _ => (emitBoundsCheck_advance ..).bind fun _ =>
    (ensureCapacity_advance ha ..).bind fun _ => (loadField_inline ..).advance fun _ =>
    (elementPtr_inline ..).advance fun _ => (openGap_inline ..).advance fun _ =>
    (store_inline ..).advance fun _ => (bumpSize_inline ..).isAdvance

end VectorShape

end BlockForge.Lowering
