import BlockForge.Lowering.Operators
import BlockForge.Lowering.Records
import BlockForge.Proofs.Ir.Confined
import BlockForge.Proofs.Lowering.Allocators

/-!
# Operators and vector operations keep to their block

The code of operators, allocations and vector operations is confined, and what it gives is in the table of
values: the result of an instruction, or a constant that depends on nothing but the source.
-/

namespace BlockForge.Lowering

open Ir (BlockId Builder Emit ValueId ValueKind)
open Ir.Emit
open Source (BinaryOp)
open StateM
open BlockForge.Types (CastKind Ty)

/-! ### Operators -/

theorem emitConst_confined (env : Env) (t : Ty) (c : Const) : IsConfined (emitConst env t c) := by
  cases c with
  | int v => exact constInt_confined ..
  | float bits => exact constFloat_confined ..

theorem emitSignedMod_confined (ir : Ir.Ty) (a b : ValueId) : IsConfined (emitSignedMod ir a b) :=
  (binary_confined ..).bind fun _ => (constInt_confined ..).bind fun _ => (icmp_confined ..).bind fun _ =>
    (icmp_confined ..).bind fun _ => (icmp_confined ..).bind fun _ => (binary_confined ..).bind fun _ =>
    (binary_confined ..).bind fun _ => (binary_confined ..).bind fun _ => select_confined ..

theorem emitFloatMod_confined (ir : Ir.Ty) (a b : ValueId) : IsConfined (emitFloatMod ir a b) :=
  (binary_confined ..).bind fun _ => (constFloat_confined ..).bind fun _ => (fcmp_confined ..).bind fun _ =>
    (fcmp_confined ..).bind fun _ => (fcmp_confined ..).bind fun _ => (binary_confined ..).bind fun _ =>
    (binary_confined ..).bind fun _ => (binary_confined ..).bind fun _ => select_confined ..

theorem emitArithmetic_confined (op : BinaryOp) (t : Ty) (ir : Ir.Ty) (a b : ValueId) :
    IsConfined (emitArithmetic op t ir a b) := by
  unfold emitArithmetic
  dsimp only
  split
  case h_6 =>
    split
    · exact (emitFloatMod_confined ..).map
    · split
      · exact (emitSignedMod_confined ..).map
      · exact (binary_confined ..).map
  case h_7 => exact .pure none
  all_goals exact (binary_confined ..).map

theorem emitOrdering_confined (op : BinaryOp) (t : Ty) (a b : ValueId) :
    IsConfined (emitOrdering op t a b) := by
  unfold emitOrdering
  split
  · exact fcmp_confined ..
  · exact icmp_confined ..

theorem emitEquality_confined (equal : Bool) (t : Ty) (a b : ValueId) :
    IsConfined (emitEquality equal t a b) := by
  unfold emitEquality
  split
  · exact fcmp_confined ..
  · exact icmp_confined ..

theorem emitShift_confined (op : BinaryOp) (t : Ty) (ir : Ir.Ty) (a amount : ValueId) (signed : Bool) :
    IsConfined (emitShift op t ir a amount signed) :=
  (intResize_confined ..).bind fun _ => binary_confined ..

theorem emitBitwise_confined (op : BinaryOp) (a b : ValueId) : IsConfined (emitBitwise op a b) := by
  unfold emitBitwise
  split <;> exact binary_confined ..

theorem emitCast_confined (kind : CastKind) (v : ValueId) (ir : Ir.Ty) : IsConfined (emitCast kind v ir) := by
  unfold emitCast
  split
  · exact .pure v
  all_goals exact cast_confined ..

/-! ### Allocation -/

/-- An allocator that keeps to the current block and to blocks of its own. -/
def Allocator.IsConfined (a : Allocator) : Prop :=
  ∀ size kind name, Emit.IsConfined (a.allocate size kind name)

theorem callAllocator_confined (symbol : String) (params : List Ir.Ty) (args : List ValueId) (name : String) :
    IsConfined (Allocator.callAllocator symbol params args name) := by
  refine (declareHost_confined ..).bind fun host => (callHost_confined ..).bind fun r => ?_
  cases r with
  | none => exact constNull_confined
  | some p => exact .pure p

theorem collector_confined : Allocator.collector.IsConfined :=
  fun _ _ _ => .get_bind fun _ => callAllocator_confined ..

theorem storeFields_confined (info : RecordInfo) (object : ValueId) (values : List (Nat × ValueId))
    (fields : List (String × Nat)) : IsConfined (storeFields info object values fields) := by
  induction fields with
  | nil => exact .pure ()
  | cons f rest ih =>
    obtain ⟨name, position⟩ := f
    unfold storeFields
    split
    · exact (fieldPtr_confined ..).bind fun _ => (store_confined ..).bind fun _ => ih
    · exact ih

/-! ### Branches of vector operations -/

theorem callBoundsError_confined (index size : ValueId) : IsConfined (callBoundsError index size) :=
  .get_bind fun _ => (declareHost_confined ..).bind fun _ => (callHost_confined ..).bind fun _ => .pure ()

theorem emitBoundsCheck_confined (index size : ValueId) (inclusive : Bool) :
    IsConfined (emitBoundsCheck index size inclusive) := by
  refine (icmp_confined ..).bind fun ok => ⟨fun s => ?_⟩
  refine Sat.bind (appendBlock_after (.refl s) _) fun y s₁ ⟨k₁, hy⟩ => ?_
  refine Sat.bind (appendBlock_after k₁ _) fun x s₂ ⟨k₂, hx⟩ => ?_
  refine Sat.bind ((condBr_confined ok y x).after k₂) fun _ s₃ k₃ => ?_
  refine Sat.bind (positionAt_after k₃ hx) fun _ s₄ k₄ => ?_
  refine Sat.bind ((callBoundsError_confined index size).after k₄) fun _ s₅ k₅ => ?_
  refine Sat.bind ((terminate_confined .unreachable).after k₅) fun _ s₆ k₆ => ?_
  exact positionAt_after k₆ hy

/-- Code that goes off into the first of two new blocks and goes on in the second. -/
theorem join_confined {β : Type} (first second : String) (v : ValueId) {inner : Emit Unit}
    (hi : IsConfined inner) {k : Unit → Emit β} (hk : IsConfined (k ())) :
    IsConfined (appendBlock first >>= fun x => appendBlock second >>= fun y => condBr v x y >>= fun _ =>
      positionAt x >>= fun _ => inner >>= fun _ => br y >>= fun _ => positionAt y >>= k) := by
  refine ⟨fun s => ?_⟩
  refine Sat.bind (appendBlock_after (.refl s) first) fun x s₁ ⟨k₁, hx⟩ => ?_
  refine Sat.bind (appendBlock_after k₁ second) fun y s₂ ⟨k₂, hy⟩ => ?_
  refine Sat.bind ((condBr_confined v x y).after k₂) fun _ s₃ k₃ => ?_
  refine Sat.bind (positionAt_after k₃ hx) fun _ s₄ k₄ => ?_
  refine Sat.bind (hi.after k₄) fun _ s₅ k₅ => ?_
  refine Sat.bind ((br_confined y).after k₅) fun _ s₆ k₆ => ?_
  exact Sat.bind (positionAt_after k₆ hy) fun _ s₇ k₇ => hk.after k₇

/-! ### Vector operations -/

namespace VectorShape

variable {v : VectorShape}

theorem loadField_confined (desc : ValueId) (f : VectorField) (name : String) :
    IsConfined (v.loadField desc f name) :=
  (fieldPtr_confined ..).bind fun _ => .get_bind fun _ => load_confined ..

theorem storeField_confined (desc : ValueId) (f : VectorField) (value : ValueId) :
    IsConfined (v.storeField desc f value) :=
  (fieldPtr_confined ..).bind fun _ => store_confined ..

theorem elementPtr_confined (elems index : ValueId) : IsConfined (v.elementPtr elems index) :=
  (constUsize_confined _).bind fun _ => (binary_confined ..).bind fun _ => ptrAdd_confined ..

theorem byteLen_confined (count : ValueId) : IsConfined (v.byteLen count) :=
  (constUsize_confined _).bind fun _ => binary_confined ..

theorem bumpSize_confined (desc size : ValueId) (grow : Bool) : IsConfined (v.bumpSize desc size grow) := by
  refine (constUsize_confined _).bind fun _ => ?_
  cases grow <;> exact (binary_confined ..).bind fun _ => storeField_confined ..

theorem doubledCapacity_confined (cap : ValueId) : IsConfined (doubledCapacity cap) :=
  .get_bind fun _ => (constInt_confined ..).bind fun _ => (constInt_confined ..).bind fun _ =>
    (constInt_confined ..).bind fun _ => (icmp_confined ..).bind fun _ => (binary_confined ..).bind fun _ =>
    select_confined ..

theorem openGap_confined (elems index size slot : ValueId) : IsConfined (v.openGap elems index size slot) :=
  (constUsize_confined _).bind fun _ => (binary_confined ..).bind fun _ =>
    (elementPtr_confined ..).bind fun _ => (binary_confined ..).bind fun _ =>
    (byteLen_confined _).bind fun _ => emitVoid_confined _

theorem closeGap_confined (elems next size slot : ValueId) : IsConfined (v.closeGap elems next size slot) :=
  (elementPtr_confined ..).bind fun _ => (binary_confined ..).bind fun _ =>
    (byteLen_confined _).bind fun _ => emitVoid_confined _

theorem access_confined (desc index : ValueId) : IsConfined (v.access desc index) :=
  (loadField_confined ..).bind fun _ => (emitBoundsCheck_confined ..).bind fun _ =>
    (loadField_confined ..).bind fun _ => (elementPtr_confined ..).bind fun _ => .pure _

theorem getAt_confined (desc index : ValueId) : IsConfined (v.getAt desc index) :=
  (access_confined ..).bind fun _ => load_confined ..

theorem setAt_confined (desc index value : ValueId) : IsConfined (v.setAt desc index value) :=
  (access_confined ..).bind fun _ => store_confined ..

theorem removeAt_confined (desc index : ValueId) : IsConfined (v.removeAt desc index) :=
  (access_confined ..).bind fun _ => (load_confined ..).bind fun removed =>
    (constUsize_confined _).bind fun _ => (binary_confined ..).bind fun _ => (icmp_confined ..).bind fun _ =>
    join_confined _ _ _ (closeGap_confined ..) ((bumpSize_confined ..).bind fun _ => .pure removed)

variable (ha : v.allocator.IsConfined)

include ha

theorem moveElements_confined (desc size cap : ValueId) : IsConfined (v.moveElements desc size cap) :=
  (doubledCapacity_confined _).bind fun _ => (byteLen_confined _).bind fun _ => (ha ..).bind fun _ =>
    (loadField_confined ..).bind fun _ => (byteLen_confined _).bind fun _ =>
    (emitVoid_confined _).bind fun _ => (storeField_confined ..).bind fun _ => storeField_confined ..

theorem ensureCapacity_confined (desc size : ValueId) : IsConfined (v.ensureCapacity desc size) :=
  (loadField_confined ..).bind fun _ => (icmp_confined ..).bind fun _ =>
    join_confined _ _ _ (k := pure) (moveElements_confined ha ..) (.pure _)

theorem newBuffer_confined (capacity : UInt64) : IsConfined (v.newBuffer capacity) := by
  unfold newBuffer
  split
  · exact (constUsize_confined _).bind fun _ => ha ..
  · exact constNull_confined

theorem new_confined (descBytes : Nat) (capacity : UInt64) : IsConfined (v.new descBytes capacity) :=
  .get_bind fun _ => (constUsize_confined _).bind fun _ => (ha ..).bind fun desc =>
    (newBuffer_confined ha _).bind fun _ => (constInt_confined ..).bind fun _ =>
    (constUsize_confined _).bind fun _ => (storeField_confined ..).bind fun _ =>
    (storeField_confined ..).bind fun _ => (storeField_confined ..).bind fun _ => .pure desc

theorem append_confined (desc value : ValueId) : IsConfined (v.append desc value) :=
  (loadField_confined ..).bind fun _ => (ensureCapacity_confined ha ..).bind fun _ =>
    (loadField_confined ..).bind fun _ => (elementPtr_confined ..).bind fun _ =>
    (store_confined ..).bind fun _ => bumpSize_confined ..

theorem insertAt_confined (desc index value : ValueId) : IsConfined (v.insertAt desc index value) :=
  (loadField_confined ..).bind fun _ => (emitBoundsCheck_confined ..).bind fun _ =>
    (ensureCapacity_confined ha ..).bind fun _ => (loadField_confined ..).bind fun _ =>
    (elementPtr_confined ..).bind fun _ => (openGap_confined ..).bind fun _ =>
    (store_confined ..).bind fun _ => bumpSize_confined ..

end VectorShape

/-! ### Values -/

/-- An operation whose result is in the table of values, and of a certain kind. -/
structure OfKind (K : ValueKind → Prop) (x : Emit ValueId) : Prop where
  sat : ∀ b : Builder, b.func.index < b.module.functions.size →
    x.Sat b fun v b' => ∃ val, b'.function.value? v = some val ∧ K val.kind

/-- The result of an instruction. -/
def IsResult (k : ValueKind) : Prop := ∃ c, k = .inst c

section

variable {K : ValueKind → Prop} {α : Type}

theorem OfKind.after {x : Emit α} {f : α → Emit ValueId} (hx : IsConfined x) (hf : ∀ a, OfKind K (f a)) :
    OfKind K (x >>= f) :=
  ⟨fun b hv => Sat.bind (hx.sat b) fun a b₁ k => (hf a).sat b₁ (k.valid hv)⟩

theorem OfKind.get_bind {f : Builder → Emit ValueId} (hf : ∀ b, OfKind K (f b)) : OfKind K (get >>= f) :=
  ⟨fun b hv => (hf b).sat b hv⟩

/-- OfKind back a value that it has got, whatever it does before. -/
def Returns (v : ValueId) (x : Emit ValueId) : Prop := ∀ b, (x b).1 = v

theorem returns_bind {v : ValueId} {x : Emit α} {f : α → Emit ValueId} (hf : ∀ a, Returns v (f a)) :
    Returns v (x >>= f) := fun _ => hf _ _

/-- Later code leaves a value as it is. -/
theorem OfKind.keep {x : Emit ValueId} {f : ValueId → Emit ValueId} (hx : OfKind K x)
    (hf : ∀ v, IsConfined (f v)) (hr : ∀ v, Returns v (f v)) : OfKind K (x >>= f) := by
  refine ⟨fun b hv => Sat.bind (hx.sat b hv) fun v b₁ ⟨val, hval, hk⟩ => ?_⟩
  show ∃ val, (f v b₁).2.function.value? (f v b₁).1 = some val ∧ K val.kind
  rw [hr v b₁]
  exact ⟨val, ((hf v).sat b₁).values hval, hk⟩

theorem pushValue_ofKind {kind : ValueKind} (hk : K kind) (ty : Ir.Ty) (name : String) :
    OfKind K (pushValue ty kind name) := by
  refine ⟨fun b hv => ⟨⟨ty, kind, name⟩, ?_, hk⟩⟩
  show (b.modifyFunction (·.addValue ⟨ty, kind, name⟩)).function.value? ⟨b.function.values.size⟩ = _
  rw [Builder.function_modifyFunction hv]
  simp [Ir.Function.addValue, Ir.Function.value?]

theorem emit_ofKind (ty : Ir.Ty) (kind : Ir.InstKind) (name : String) : OfKind IsResult (emit ty kind name) :=
  ⟨fun _ hv => (emit_value hv ty kind name).imp fun _ _ hval => ⟨_, hval, _, rfl⟩⟩

theorem load_ofKind (ty : Ir.Ty) (p : ValueId) (name : String) : OfKind IsResult (load ty p name) :=
  .after (demand_confined ..) fun _ => emit_ofKind ..

theorem binary_ofKind (op : Ir.BinOp) (l r : ValueId) (name : String) : OfKind IsResult (binary op l r name) :=
  .after (demand_confined ..) fun _ => .after (demand_confined ..) fun _ => .get_bind fun _ => emit_ofKind ..

theorem neg_ofKind (v : ValueId) (name : String) : OfKind IsResult (neg v name) :=
  .get_bind fun _ => .after (constInt_confined ..) fun _ => binary_ofKind ..

theorem fneg_ofKind (v : ValueId) (name : String) : OfKind IsResult (fneg v name) :=
  .get_bind fun _ => emit_ofKind ..

theorem not_ofKind (v : ValueId) (name : String) : OfKind IsResult (Emit.not v name) :=
  .get_bind fun _ => .after (constInt_confined ..) fun _ => binary_ofKind ..

theorem emitShift_ofKind (op : BinaryOp) (t : Ty) (ir : Ir.Ty) (a amount : ValueId) (signed : Bool) :
    OfKind IsResult (emitShift op t ir a amount signed) :=
  .after (intResize_confined ..) fun _ => binary_ofKind ..

theorem emitBitwise_ofKind (op : BinaryOp) (a b : ValueId) : OfKind IsResult (emitBitwise op a b) := by
  unfold emitBitwise
  split <;> exact binary_ofKind ..

theorem emitCast_ofKind {kind : CastKind} (hk : kind ≠ .identity) (v : ValueId) (ir : Ir.Ty) :
    OfKind IsResult (emitCast kind v ir) := by
  unfold emitCast
  split
  · exact absurd rfl hk
  all_goals exact emit_ofKind ..

/-- The code of an arithmetic operator. -/
theorem emitArithmetic_ofKind {op : BinaryOp} (hop : op.isArithmetic = true) (t : Ty) (ir : Ir.Ty)
    (a b : ValueId) : ∃ x, emitArithmetic op t ir a b = some <$> x ∧ OfKind IsResult x := by
  unfold emitArithmetic
  dsimp only
  split
  case h_6 =>
    split
    · refine ⟨_, rfl, .after (binary_confined ..) fun _ => .after (constFloat_confined ..) fun _ =>
        .after (fcmp_confined ..) fun _ => .after (fcmp_confined ..) fun _ => .after (fcmp_confined ..) fun _ =>
        .after (binary_confined ..) fun _ => .after (binary_confined ..) fun _ =>
        .after (binary_confined ..) fun _ => .get_bind fun _ => emit_ofKind ..⟩
    · split
      · refine ⟨_, rfl, .after (binary_confined ..) fun _ => .after (constInt_confined ..) fun _ =>
          .after (icmp_confined ..) fun _ => .after (icmp_confined ..) fun _ =>
          .after (icmp_confined ..) fun _ => .after (binary_confined ..) fun _ =>
          .after (binary_confined ..) fun _ => .after (binary_confined ..) fun _ =>
          .get_bind fun _ => emit_ofKind ..⟩
      · exact ⟨_, rfl, binary_ofKind ..⟩
  case h_7 => cases op <;> simp_all [BinaryOp.isArithmetic]
  all_goals exact ⟨_, rfl, binary_ofKind ..⟩

end

namespace VectorShape

variable {v : VectorShape}

theorem loadField_ofKind (desc : ValueId) (f : VectorField) (name : String) :
    OfKind IsResult (v.loadField desc f name) :=
  .after (fieldPtr_confined ..) fun _ => .get_bind fun _ => load_ofKind ..

theorem getAt_ofKind (desc index : ValueId) : OfKind IsResult (v.getAt desc index) :=
  .after (access_confined ..) fun _ => load_ofKind ..

theorem removeAt_ofKind (desc index : ValueId) : OfKind IsResult (v.removeAt desc index) := by
  refine .after (access_confined ..) fun a => (load_ofKind ..).keep (fun removed => ?_) fun removed => ?_
  · exact (constUsize_confined _).bind fun _ => (binary_confined ..).bind fun _ =>
      (icmp_confined ..).bind fun _ =>
      join_confined _ _ _ (closeGap_confined ..) ((bumpSize_confined ..).bind fun _ => .pure removed)
  · exact returns_bind fun _ => returns_bind fun _ => returns_bind fun _ => returns_bind fun _ =>
      returns_bind fun _ => returns_bind fun _ => returns_bind fun _ => returns_bind fun _ =>
      returns_bind fun _ => returns_bind fun _ => returns_bind fun _ _ => rfl

end VectorShape

end BlockForge.Lowering
