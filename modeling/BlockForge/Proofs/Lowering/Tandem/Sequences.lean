import BlockForge.Proofs.Lowering.Tandem.State

/-!
# Instruction sequences in tandem

The sequences that operators and vector operations emit keep every tandem. Those that allocate keep it if the
allocators do.
-/

namespace BlockForge.Lowering

open Ir (Emit Known Linkable ValueId)
open Source (BinaryOp)
open StateM
open BlockForge.Types (CastKind Ty)

variable {T : Tandem} {known : List (ValueId × ValueId)}

/-! ### Sequences -/

section

variable {a a' b b' c c' d d' : ValueId}

theorem emitSignedMod_follows (ir : Ir.Ty) (ha : Known known a a') (hb : Known known b b') :
    T.Follows known (emitSignedMod ir a b) (emitSignedMod ir a' b') := by
  refine (T.binary _ ha hb _).bind fun rem rem' _ => ?_
  refine (T.constInt ..).weaken.bind fun zero zero' _ => ?_
  refine (T.icmp _ (by simp) (by simp) _).bind fun nonzero nonzero' _ => ?_
  refine (T.icmp _ (by simp) (by simp) _).bind fun remNeg remNeg' _ => ?_
  refine (T.icmp _ (by simp [hb]) (by simp) _).bind fun divNeg divNeg' _ => ?_
  refine (T.binary _ (by simp) (by simp) _).bind fun differ differ' _ => ?_
  refine (T.binary _ (by simp) (by simp) _).bind fun adjust adjust' _ => ?_
  refine (T.binary _ (by simp) (by simp [hb]) _).bind fun fixed fixed' _ => ?_
  exact T.select (by simp) (by simp) (by simp) _

theorem emitFloatMod_follows (ir : Ir.Ty) (ha : Known known a a') (hb : Known known b b') :
    T.Follows known (emitFloatMod ir a b) (emitFloatMod ir a' b') := by
  refine (T.binary _ ha hb _).bind fun rem rem' _ => ?_
  refine (T.constFloat ..).weaken.bind fun zero zero' _ => ?_
  refine (T.fcmp _ (by simp) (by simp) _).bind fun nonzero nonzero' _ => ?_
  refine (T.fcmp _ (by simp) (by simp) _).bind fun remNeg remNeg' _ => ?_
  refine (T.fcmp _ (by simp [hb]) (by simp) _).bind fun divNeg divNeg' _ => ?_
  refine (T.binary _ (by simp) (by simp) _).bind fun differ differ' _ => ?_
  refine (T.binary _ (by simp) (by simp) _).bind fun adjust adjust' _ => ?_
  refine (T.binary _ (by simp) (by simp [hb]) _).bind fun fixed fixed' _ => ?_
  exact T.select (by simp) (by simp) (by simp) _

/-- A value as a result that is there. -/
theorem some_follows {x y : Emit ValueId} (h : T.Follows known x y) :
    T.Follows known (some <$> x) (some <$> y) :=
  h.map (by simp) fun _ _ _ p hp => List.mem_append_left _ hp

theorem emitArithmetic_follows (op : BinaryOp) (t : Ty) (ir : Ir.Ty) (ha : Known known a a') (hb : Known known b b') :
    T.Follows known (emitArithmetic op t ir a b) (emitArithmetic op t ir a' b') := by
  cases op with
  | mod =>
    exact .ite (some_follows (emitFloatMod_follows ir ha hb))
      (.ite (some_follows (emitSignedMod_follows ir ha hb)) (some_follows (T.binary _ ha hb _)))
  | add => exact some_follows (T.binary _ ha hb _)
  | sub => exact some_follows (T.binary _ ha hb _)
  | mul => exact some_follows (T.binary _ ha hb _)
  | div => exact some_follows (T.binary _ ha hb _)
  | rem => exact some_follows (T.binary _ ha hb _)
  | _ => exact .pure (by simp) (by simp)

theorem emitOrdering_follows (op : BinaryOp) (t : Ty) (ha : Known known a a') (hb : Known known b b') :
    T.Follows known (emitOrdering op t a b) (emitOrdering op t a' b') :=
  .ite (T.fcmp _ ha hb _) (T.icmp _ ha hb _)

theorem emitEquality_follows (equal : Bool) (t : Ty) (ha : Known known a a') (hb : Known known b b') :
    T.Follows known (emitEquality equal t a b) (emitEquality equal t a' b') :=
  .ite (T.fcmp _ ha hb _) (T.icmp _ ha hb _)

theorem emitShift_follows (op : BinaryOp) (t : Ty) (ir : Ir.Ty) (ha : Known known a a') (hb : Known known b b')
    (signed : Bool) : T.Follows known (emitShift op t ir a b signed) (emitShift op t ir a' b' signed) :=
  (T.intResize hb ..).bind fun amount amount' _ => T.binary _ (by simp [ha]) (by simp) _

theorem emitBitwise_follows (op : BinaryOp) (ha : Known known a a') (hb : Known known b b') :
    T.Follows known (emitBitwise op a b) (emitBitwise op a' b') := by
  unfold emitBitwise
  split <;> exact T.binary _ ha hb _

theorem emitCast_follows (kind : CastKind) (ha : Known known a a') (ir : Ir.Ty) :
    T.Follows known (emitCast kind a ir) (emitCast kind a' ir) := by
  cases kind with
  | identity => exact .pure (by simp) (by simpa using ha)
  | _ => exact T.cast _ ha _ _

/-! ### Vectors -/

theorem isLabel_of_last {name : String} {c : Char} (h : name.toList.getLast? = some c)
    (hc : (c.isDigit || c == '.') = false) : Ir.IsLabel name := ⟨c, h, hc⟩

theorem emitBoundsCheck_follows (ha : Known known a a') (hb : Known known b b') (inclusive : Bool) :
    T.Follows known (emitBoundsCheck a b inclusive) (emitBoundsCheck a' b' inclusive) := by
  refine (T.icmp _ ha hb _).bind fun ok ok' _ => ?_
  refine (T.appendBlock (isLabel_of_last rfl rfl)).weaken.bind fun inBounds _ hi => ?_
  obtain rfl := (Linkable.same_block ..).1 hi
  refine (T.appendBlock (isLabel_of_last rfl rfl)).weaken.bind fun outOfBounds _ ho => ?_
  obtain rfl := (Linkable.same_block ..).1 ho
  refine (T.condBr (by simp) _ _).bind fun _ _ _ => (T.positionAt _).bind fun _ _ _ => ?_
  exact (T.boundsError (by simp [ha]) (by simp [hb])).bind fun _ _ _ => T.unreachable.bind fun _ _ _ => T.positionAt _

namespace VectorShape

variable (v : VectorShape)

theorem fieldPtr_follows (ha : Known known a a') (f : VectorField) :
    T.Follows known (v.fieldPtr a f) (v.fieldPtr a' f) := T.fieldPtr _ ha _ _

theorem loadField_follows (ha : Known known a a') (f : VectorField) (name : String) :
    T.Follows known (v.loadField a f name) (v.loadField a' f name) := by
  refine (v.fieldPtr_follows ha f).bind fun ptr ptr' _ => .get_bind fun hL h => ?_
  rw [T.ptrInt h]
  exact T.load _ (by simp) _

theorem storeField_follows (ha : Known known a a') (f : VectorField) (hb : Known known b b') :
    T.Follows known (v.storeField a f b) (v.storeField a' f b') :=
  (v.fieldPtr_follows ha f).bind fun ptr ptr' _ => T.store (by simp [hb]) (by simp)

theorem elementPtr_follows (ha : Known known a a') (hb : Known known b b') :
    T.Follows known (v.elementPtr a b) (v.elementPtr a' b') := by
  refine (T.constUsize _).bind fun size size' _ => ?_
  refine (T.binary _ (by simp [hb]) (by simp) _).bind fun offset offset' _ => ?_
  exact T.ptrAdd (by simp [ha]) (by simp) _

theorem byteLen_follows (ha : Known known a a') : T.Follows known (v.byteLen a) (v.byteLen a') :=
  (T.constUsize _).bind fun size size' _ => T.binary _ (by simp [ha]) (by simp) _

theorem bumpSize_follows (ha : Known known a a') (hb : Known known b b') (grow : Bool) :
    T.Follows known (v.bumpSize a b grow) (v.bumpSize a' b' grow) := by
  refine (T.constUsize _).bind fun one one' _ => ?_
  split
  · exact (T.binary _ (by simp [hb]) (by simp) _).bind fun n n' _ => v.storeField_follows (by simp [ha]) _ (by simp)
  · exact (T.binary _ (by simp [hb]) (by simp) _).bind fun n n' _ => v.storeField_follows (by simp [ha]) _ (by simp)

theorem doubledCapacity_follows (ha : Known known a a') :
    T.Follows known (doubledCapacity a) (doubledCapacity a') := by
  refine .get_bind fun hL h => ?_
  rw [T.ptrInt h]
  refine (T.constInt ..).weaken.bind fun zero zero' _ => ?_
  refine (T.constInt ..).weaken.bind fun one one' _ => ?_
  refine (T.constInt ..).weaken.bind fun two two' _ => ?_
  refine (T.icmp _ (by simp [ha]) (by simp) _).bind fun empty empty' _ => ?_
  refine (T.binary _ (by simp [ha]) (by simp) _).bind fun doubled doubled' _ => ?_
  exact T.select (by simp) (by simp) (by simp) _

theorem access_follows (ha : Known known a a') (hb : Known known b b') :
    T.Follows known (v.access a b) (v.access a' b') := by
  refine (v.loadField_follows ha _ _).bind fun size size' _ => ?_
  refine (emitBoundsCheck_follows (by simp [hb]) (by simp) _).bind fun _ _ _ => ?_
  refine (v.loadField_follows (by simp [ha]) _ _).bind fun elems elems' _ => ?_
  refine (v.elementPtr_follows (by simp) (by simp [hb])).bind fun slot slot' _ => ?_
  exact .pure (by simp) (by simp)

theorem getAt_follows (ha : Known known a a') (hb : Known known b b') :
    T.Follows known (v.getAt a b) (v.getAt a' b') :=
  (v.access_follows ha hb).bind fun x y _ => T.load _ (by simp) _

theorem setAt_follows (ha : Known known a a') (hb : Known known b b') (hc : Known known c c') :
    T.Follows known (v.setAt a b c) (v.setAt a' b' c') :=
  (v.access_follows ha hb).bind fun x y _ => T.store (by simp [hc]) (by simp)

theorem openGap_follows (ha : Known known a a') (hb : Known known b b') (hc : Known known c c')
    (hd : Known known d d') : T.Follows known (v.openGap a b c d) (v.openGap a' b' c' d') := by
  refine (T.constUsize _).bind fun one one' _ => ?_
  refine (T.binary _ (by simp [hb]) (by simp) _).bind fun next next' _ => ?_
  refine (v.elementPtr_follows (by simp [ha]) (by simp)).bind fun dst dst' _ => ?_
  refine (T.binary _ (by simp [hc]) (by simp [hb]) _).bind fun tail tail' _ => ?_
  refine (v.byteLen_follows (by simp)).bind fun bytes bytes' _ => ?_
  exact T.memMove (by simp) (by simp [hd]) (by simp)

theorem closeGap_follows (ha : Known known a a') (hb : Known known b b') (hc : Known known c c')
    (hd : Known known d d') : T.Follows known (v.closeGap a b c d) (v.closeGap a' b' c' d') := by
  refine (v.elementPtr_follows ha hb).bind fun src src' _ => ?_
  refine (T.binary _ (by simp [hc]) (by simp [hb]) _).bind fun tail tail' _ => ?_
  refine (v.byteLen_follows (by simp)).bind fun bytes bytes' _ => ?_
  exact T.memMove (by simp [hd]) (by simp) (by simp)

theorem removeAt_follows (ha : Known known a a') (hb : Known known b b') :
    T.Follows known (v.removeAt a b) (v.removeAt a' b') := by
  refine (v.access_follows ha hb).bind fun x y _ => ?_
  refine (T.load _ (by simp) _).bind fun removed removed' _ => ?_
  refine (T.constUsize _).bind fun one one' _ => ?_
  refine (T.binary _ (by simp [hb]) (by simp) _).bind fun next next' _ => ?_
  refine (T.icmp _ (by simp) (by simp) _).bind fun hasTail hasTail' _ => ?_
  refine (T.appendBlock (isLabel_of_last rfl rfl)).weaken.bind fun shift _ hs => ?_
  obtain rfl := (Linkable.same_block ..).1 hs
  refine (T.appendBlock (isLabel_of_last rfl rfl)).weaken.bind fun done _ hd => ?_
  obtain rfl := (Linkable.same_block ..).1 hd
  refine (T.condBr (by simp) _ _).bind fun _ _ _ => (T.positionAt _).bind fun _ _ _ => ?_
  refine (v.closeGap_follows (by simp) (by simp) (by simp) (by simp)).bind fun _ _ _ => ?_
  refine (T.br _).bind fun _ _ _ => (T.positionAt _).bind fun _ _ _ => ?_
  refine (v.bumpSize_follows (by simp [ha]) (by simp) _).bind fun _ _ _ => ?_
  exact .pure (by simp) (by simp)

/-! The operations that allocate. -/

variable {v} {x : Allocator} (hx : v.allocator.Follows T x)

include hx

theorem moveElements_follows (ha : Known known a a') (hb : Known known b b') (hc : Known known c c') :
    T.Follows known (v.moveElements a b c) ((v.on x).moveElements a' b' c') := by
  refine (doubledCapacity_follows hc).bind fun newCap newCap' _ => ?_
  refine (v.byteLen_follows (by simp)).bind fun bytes bytes' _ => ?_
  refine (hx _ _ (by simp)).bind fun buffer buffer' _ => ?_
  refine (v.loadField_follows (by simp [ha]) _ _).bind fun old old' _ => ?_
  refine (v.byteLen_follows (by simp [hb])).bind fun live live' _ => ?_
  refine (T.memCopy (by simp) (by simp) (by simp)).bind fun _ _ _ => ?_
  refine (v.storeField_follows (by simp [ha]) _ (by simp)).bind fun _ _ _ => ?_
  exact v.storeField_follows (by simp [ha]) _ (by simp)

theorem ensureCapacity_follows (ha : Known known a a') (hb : Known known b b') :
    T.Follows known (v.ensureCapacity a b) ((v.on x).ensureCapacity a' b') := by
  refine (v.loadField_follows ha _ _).bind fun cap cap' _ => ?_
  refine (T.icmp _ (by simp [hb]) (by simp) _).bind fun full full' _ => ?_
  refine (T.appendBlock (isLabel_of_last rfl rfl)).weaken.bind fun grow _ hg => ?_
  obtain rfl := (Linkable.same_block ..).1 hg
  refine (T.appendBlock (isLabel_of_last rfl rfl)).weaken.bind fun room _ hr => ?_
  obtain rfl := (Linkable.same_block ..).1 hr
  refine (T.condBr (by simp) _ _).bind fun _ _ _ => (T.positionAt _).bind fun _ _ _ => ?_
  refine (moveElements_follows hx (by simp [ha]) (by simp [hb]) (by simp)).bind fun _ _ _ => ?_
  exact (T.br _).bind fun _ _ _ => T.positionAt _

theorem append_follows (ha : Known known a a') (hb : Known known b b') :
    T.Follows known (v.append a b) ((v.on x).append a' b') := by
  refine (v.loadField_follows ha _ _).bind fun size size' _ => ?_
  refine (ensureCapacity_follows hx (by simp [ha]) (by simp)).bind fun _ _ _ => ?_
  refine (v.loadField_follows (by simp [ha]) _ _).bind fun elems elems' _ => ?_
  refine (v.elementPtr_follows (by simp) (by simp)).bind fun ptr ptr' _ => ?_
  refine (T.store (by simp [hb]) (by simp)).bind fun _ _ _ => ?_
  exact v.bumpSize_follows (by simp [ha]) (by simp) _

theorem insertAt_follows (ha : Known known a a') (hb : Known known b b') (hc : Known known c c') :
    T.Follows known (v.insertAt a b c) ((v.on x).insertAt a' b' c') := by
  refine (v.loadField_follows ha _ _).bind fun size size' _ => ?_
  refine (emitBoundsCheck_follows (by simp [hb]) (by simp) _).bind fun _ _ _ => ?_
  refine (ensureCapacity_follows hx (by simp [ha]) (by simp)).bind fun _ _ _ => ?_
  refine (v.loadField_follows (by simp [ha]) _ _).bind fun elems elems' _ => ?_
  refine (v.elementPtr_follows (by simp) (by simp [hb])).bind fun slot slot' _ => ?_
  refine (v.openGap_follows (by simp) (by simp [hb]) (by simp) (by simp)).bind fun _ _ _ => ?_
  refine (T.store (by simp [hc]) (by simp)).bind fun _ _ _ => ?_
  exact v.bumpSize_follows (by simp [ha]) (by simp) _

theorem newBuffer_follows (capacity : UInt64) :
    T.Follows known (v.newBuffer capacity) ((v.on x).newBuffer capacity) :=
  .ite ((T.constUsize _).bind fun size size' _ => hx _ _ (by simp)) T.constNull.weaken

/-- With one capacity, whatever the allocators are. -/
theorem new_follows (descBytes : Nat) (capacity : UInt64) :
    T.Follows known (v.new descBytes capacity) ((v.on x).new descBytes capacity) := by
  refine .get_bind fun _ h => ?_
  rw [T.ptrInt h]
  refine (T.constUsize _).bind fun descSize descSize' _ => ?_
  refine (hx _ _ (by simp)).bind fun desc desc' _ => ?_
  refine (newBuffer_follows hx capacity).bind fun elems elems' _ => ?_
  refine (T.constInt ..).weaken.bind fun zero zero' _ => ?_
  refine (T.constUsize _).bind fun cap cap' _ => ?_
  refine (v.storeField_follows (by simp) _ (by simp)).bind fun _ _ _ => ?_
  refine (v.storeField_follows (by simp) _ (by simp)).bind fun _ _ _ => ?_
  refine (v.storeField_follows (by simp) _ (by simp)).bind fun _ _ _ => ?_
  exact .pure (by simp) (by simp)

end VectorShape

end

/-- One environment twice. -/
theorem Env.Follows.refl {env : Env} (h : env.allocator.Follows T env.allocator) : env.Follows T env where
  pointerBits := rfl
  tables := rfl
  returnType := rfl
  functionName := rfl
  allocator := h
  new v bytes hv _ := VectorShape.new_follows (by rw [hv]; exact @h) bytes _

end BlockForge.Lowering
