import BlockForge.Proofs.Lowering.Discreet.State

/-!
# Instruction sequences that keep functions discreet

The sequences that operators and vector operations emit use plain values as they come. Those that allocate keep
functions discreet if the allocator does.
-/

namespace BlockForge.Lowering

open Ir (Emit Fact HostDecl Knows ValueId)
open Ir.Emit
open Source (BinaryOp)
open BlockForge.Types (CastKind Ty)

variable {own : Set HostDecl} {word : Ir.Ty} {known : List Fact} {a b c d : ValueId}

/-! ### Operators -/

theorem emitConst_obeys (env : Env) (t : Ty) (x : Const) :
    Emit.Obeys (allowedHosts own) word known (emitConst env t x) fun v => Fact.value v (env.ir t) := by
  cases x with
  | int n => exact constInt_obeys ..
  | float bits => exact constFloat_obeys ..

theorem emitSignedMod_obeys {ir : Ir.Ty} (ha : Knows known a ir) (hb : .plain b ∈ known) :
    Emit.Obeys (allowedHosts own) word known (emitSignedMod ir a b) fun v => Fact.value v ir := by
  refine (binary_obeys _ ir ha hb _).bind fun rem => ?_
  refine (constInt_obeys ..).bind fun zero => ?_
  refine (icmp_obeys _ (by simp) (by simp) _).bind fun nonzero => ?_
  refine (icmp_obeys _ (by simp) (by simp) _).bind fun remNeg => ?_
  refine (icmp_obeys _ (by simp [hb]) (by simp) _).bind fun divNeg => ?_
  refine (binary_obeys _ .i1 (by simp) (by simp) _).bind fun differ => ?_
  refine (binary_obeys _ .i1 (by simp) (by simp) _).bind fun adjust => ?_
  refine (binary_obeys _ ir (by simp) (by simp [hb]) _).bind fun fixed => ?_
  exact select_obeys ir (by simp) (by simp) (by simp) _

theorem emitFloatMod_obeys {ir : Ir.Ty} (ha : Knows known a ir) (hb : .plain b ∈ known) :
    Emit.Obeys (allowedHosts own) word known (emitFloatMod ir a b) fun v => Fact.value v ir := by
  refine (binary_obeys _ ir ha hb _).bind fun rem => ?_
  refine (constFloat_obeys ..).bind fun zero => ?_
  refine (fcmp_obeys _ (by simp) (by simp) _).bind fun nonzero => ?_
  refine (fcmp_obeys _ (by simp) (by simp) _).bind fun remNeg => ?_
  refine (fcmp_obeys _ (by simp [hb]) (by simp) _).bind fun divNeg => ?_
  refine (binary_obeys _ .i1 (by simp) (by simp) _).bind fun differ => ?_
  refine (binary_obeys _ .i1 (by simp) (by simp) _).bind fun adjust => ?_
  refine (binary_obeys _ ir (by simp) (by simp [hb]) _).bind fun fixed => ?_
  exact select_obeys ir (by simp) (by simp) (by simp) _

/-- A value as a result that is there. -/
theorem some_obeys {x : Emit ValueId} {gives : ValueId → List Fact}
    (h : Emit.Obeys (allowedHosts own) word known x gives) :
    Emit.Obeys (allowedHosts own) word known (some <$> x) fun r => r.elim [] gives :=
  h.map fun _ _ hp => List.mem_append_left _ hp

theorem emitArithmetic_obeys (op : BinaryOp) (t : Ty) {ir : Ir.Ty} (ha : Knows known a ir) (hb : .plain b ∈ known) :
    Emit.Obeys (allowedHosts own) word known (emitArithmetic op t ir a b) fun r => r.elim [] (Fact.value · ir) := by
  cases op with
  | mod =>
    exact .ite (some_obeys (emitFloatMod_obeys ha hb))
      (.ite (some_obeys (emitSignedMod_obeys ha hb)) (some_obeys (binary_obeys _ ir ha hb _)))
  | add => exact some_obeys (binary_obeys _ ir ha hb _)
  | sub => exact some_obeys (binary_obeys _ ir ha hb _)
  | mul => exact some_obeys (binary_obeys _ ir ha hb _)
  | div => exact some_obeys (binary_obeys _ ir ha hb _)
  | rem => exact some_obeys (binary_obeys _ ir ha hb _)
  | _ => exact .pure (by simp)

theorem emitOrdering_obeys (op : BinaryOp) (t : Ty) (ha : .plain a ∈ known) (hb : .plain b ∈ known) :
    Emit.Obeys (allowedHosts own) word known (emitOrdering op t a b) fun v => Fact.value v .i1 :=
  .ite (fcmp_obeys _ ha hb _) (icmp_obeys _ ha hb _)

theorem emitEquality_obeys (equal : Bool) (t : Ty) (ha : .plain a ∈ known) (hb : .plain b ∈ known) :
    Emit.Obeys (allowedHosts own) word known (emitEquality equal t a b) fun v => Fact.value v .i1 :=
  .ite (fcmp_obeys _ ha hb _) (icmp_obeys _ ha hb _)

theorem emitShift_obeys (op : BinaryOp) (t : Ty) {ir amount : Ir.Ty} (hi : ir.isInt = true)
    (hj : amount.isInt = true) (ha : Knows known a ir) (hb : Knows known b amount) (signed : Bool) :
    Emit.Obeys (allowedHosts own) word known (emitShift op t ir a b signed) fun v => Fact.value v ir :=
  (intResize_obeys hb hj hi signed _).bind fun _ => binary_obeys _ ir (by simp [ha]) (by simp) _

theorem emitBitwise_obeys (op : BinaryOp) {ir : Ir.Ty} (ha : Knows known a ir) (hb : .plain b ∈ known) :
    Emit.Obeys (allowedHosts own) word known (emitBitwise op a b) fun v => Fact.value v ir := by
  unfold emitBitwise
  split <;> exact binary_obeys _ ir ha hb _

/-- A conversion that does nothing is between types that are represented alike. -/
theorem emitCast_obeys (kind : CastKind) (source : Ir.Ty) {target : Ir.Ty} (ha : Knows known a source)
    (hk : kind = .identity → source = target) :
    Emit.Obeys (allowedHosts own) word known (emitCast kind a target) fun v => Fact.value v target := by
  cases kind with
  | identity =>
    rw [hk rfl] at ha
    exact .pure (by simpa using ha)
  | _ => exact cast_obeys _ ha.1 _ _

/-! ### Bounds checks -/

theorem callBoundsError_obeys (ha : .plain a ∈ known) (hb : .plain b ∈ known) :
    Emit.Obeys (allowedHosts own) word known (callBoundsError a b) fun _ => [] := by
  refine .get_bind fun s hs _ => ?_
  rw [hs.ptrInt]
  have hook : ∀ params, (⟨boundsErrorHook, params, .void⟩ : HostDecl) ∈ allowedHosts own := fun _ => .inr rfl
  refine (declareHost_obeys (hook _)).bind fun host => ?_
  refine (callHost_obeys (by simp [ha, hb]) host "").bind fun _ => ?_
  exact .pure (by simp)

theorem emitBoundsCheck_obeys (ha : .plain a ∈ known) (hb : .plain b ∈ known) (inclusive : Bool) :
    Emit.Obeys (allowedHosts own) word known (emitBoundsCheck a b inclusive) fun _ => [] := by
  refine (icmp_obeys _ ha hb _).bind fun ok => ?_
  refine (appendBlock_obeys _).bind fun inBounds => (appendBlock_obeys _).bind fun outOfBounds => ?_
  refine (condBr_obeys (by simp) (by simp) (by simp)).bind fun _ => (positionAt_obeys (by simp)).bind fun _ => ?_
  refine (callBoundsError_obeys (by simp [ha]) (by simp [hb])).bind fun _ => ?_
  exact unreachable_obeys.bind fun _ => (positionAt_obeys (by simp)).silent

/-! ### Vectors -/

namespace VectorShape

variable (v : VectorShape)

theorem fieldPtr_obeys (ha : .plain a ∈ known) (f : VectorField) :
    Emit.Obeys (allowedHosts own) word known (v.fieldPtr a f) fun p => Fact.value p .ptr := Emit.fieldPtr_obeys _ ha _ _

/-- The type of a field of a descriptor. -/
theorem loadField_obeys (ha : .plain a ∈ known) (f : VectorField) (name : String) :
    Emit.Obeys (allowedHosts own) word known (v.loadField a f name)
      fun x => Fact.value x (if f = .elems then .ptr else word) := by
  refine (v.fieldPtr_obeys ha f).bind fun ptr => .get_bind fun s hs _ => ?_
  rw [hs.ptrInt]
  exact load_obeys (by simp) _ _

theorem storeField_obeys (ha : .plain a ∈ known) (f : VectorField) (hb : .plain b ∈ known) :
    Emit.Obeys (allowedHosts own) word known (v.storeField a f b) fun _ => [] :=
  (v.fieldPtr_obeys ha f).bind fun _ => store_obeys (by simp [hb]) (by simp)

theorem loadSize_obeys (ha : .plain a ∈ known) :
    Emit.Obeys (allowedHosts own) word known (v.loadSize a) fun x => Fact.value x word := v.loadField_obeys ha .size _

theorem loadElems_obeys (ha : .plain a ∈ known) :
    Emit.Obeys (allowedHosts own) word known (v.loadElems a) fun x => Fact.value x .ptr := v.loadField_obeys ha .elems _

theorem loadCapacity_obeys (ha : .plain a ∈ known) :
    Emit.Obeys (allowedHosts own) word known (v.loadCapacity a) fun x => Fact.value x word :=
  v.loadField_obeys ha .capacity _

theorem elementPtr_obeys (ha : .plain a ∈ known) (hb : Knows known b word) :
    Emit.Obeys (allowedHosts own) word known (v.elementPtr a b) fun p => Fact.value p .ptr := by
  refine (constUsize_obeys _).bind fun size => ?_
  refine (binary_obeys _ word (by simp [hb]) (by simp) _).bind fun offset => ?_
  exact ptrAdd_obeys (by simp [ha]) (by simp) _

theorem byteLen_obeys (ha : Knows known a word) :
    Emit.Obeys (allowedHosts own) word known (v.byteLen a) fun x => Fact.value x word :=
  (constUsize_obeys _).bind fun _ => binary_obeys _ word (by simp [ha]) (by simp) _

theorem bumpSize_obeys (ha : .plain a ∈ known) (hb : Knows known b word) (grow : Bool) :
    Emit.Obeys (allowedHosts own) word known (v.bumpSize a b grow) fun _ => [] := by
  refine (constUsize_obeys _).bind fun one => ?_
  split
  · exact (binary_obeys _ word (by simp [hb]) (by simp) _).bind fun _ => v.storeField_obeys (by simp [ha]) _ (by simp)
  · exact (binary_obeys _ word (by simp [hb]) (by simp) _).bind fun _ => v.storeField_obeys (by simp [ha]) _ (by simp)

theorem doubledCapacity_obeys (ha : Knows known a word) :
    Emit.Obeys (allowedHosts own) word known (doubledCapacity a) fun x => Fact.value x word := by
  refine .get_bind fun s hs _ => ?_
  rw [hs.ptrInt]
  refine (constInt_obeys ..).bind fun zero => (constInt_obeys ..).bind fun one => (constInt_obeys ..).bind fun two => ?_
  refine (icmp_obeys _ (by simp [ha]) (by simp) _).bind fun empty => ?_
  refine (binary_obeys _ word (by simp [ha]) (by simp) _).bind fun doubled => ?_
  exact select_obeys word (by simp) (by simp) (by simp) _

/-- What is known of a size, of elements and of the address of one of them. -/
def Access.facts (word : Ir.Ty) (x : Access) : List Fact :=
  Fact.value x.size word ++ (Fact.value x.elems .ptr ++ Fact.value x.slot .ptr)

@[simp] theorem Access.mem_facts {word : Ir.Ty} {x : Access} {p : Fact} : p ∈ x.facts word ↔
    p ∈ Fact.value x.size word ∨ p ∈ Fact.value x.elems .ptr ∨ p ∈ Fact.value x.slot .ptr := by
  simp only [facts, List.mem_append]

theorem access_obeys (ha : .plain a ∈ known) (hb : Knows known b word) :
    Emit.Obeys (allowedHosts own) word known (v.access a b) (Access.facts word) := by
  refine (v.loadSize_obeys ha).bind fun size => ?_
  refine (emitBoundsCheck_obeys (by simp [hb]) (by simp) _).bind fun _ => ?_
  refine (v.loadElems_obeys (by simp [ha])).bind fun elems => ?_
  refine (v.elementPtr_obeys (by simp) (by simp [hb])).bind fun slot => ?_
  refine .pure fun p hp => ?_
  simp only [Access.mem_facts, List.mem_append] at hp ⊢
  tauto

theorem getAt_obeys (ha : .plain a ∈ known) (hb : Knows known b word) :
    Emit.Obeys (allowedHosts own) word known (v.getAt a b) fun x => Fact.value x v.elem :=
  (v.access_obeys ha hb).bind fun _ => load_obeys (by simp) _ _

theorem setAt_obeys (ha : .plain a ∈ known) (hb : Knows known b word) (hc : .plain c ∈ known) :
    Emit.Obeys (allowedHosts own) word known (v.setAt a b c) fun _ => [] :=
  (v.access_obeys ha hb).bind fun _ => store_obeys (by simp [hc]) (by simp)

theorem openGap_obeys (ha : .plain a ∈ known) (hb : Knows known b word) (hc : Knows known c word)
    (hd : .plain d ∈ known) : Emit.Obeys (allowedHosts own) word known (v.openGap a b c d) fun _ => [] := by
  refine (constUsize_obeys _).bind fun one => ?_
  refine (binary_obeys _ word (by simp [hb]) (by simp) _).bind fun next => ?_
  refine (v.elementPtr_obeys (by simp [ha]) (by simp)).bind fun dst => ?_
  refine (binary_obeys _ word (by simp [hc]) (by simp [hb]) _).bind fun tail => ?_
  refine (v.byteLen_obeys (by simp)).bind fun bytes => ?_
  exact memMove_obeys (by simp) (by simp [hd]) (by simp)

theorem closeGap_obeys (ha : .plain a ∈ known) (hb : Knows known b word) (hc : Knows known c word)
    (hd : .plain d ∈ known) : Emit.Obeys (allowedHosts own) word known (v.closeGap a b c d) fun _ => [] := by
  refine (v.elementPtr_obeys ha hb).bind fun src => ?_
  refine (binary_obeys _ word (by simp [hc]) (by simp [hb]) _).bind fun tail => ?_
  refine (v.byteLen_obeys (by simp)).bind fun bytes => ?_
  exact memMove_obeys (by simp [hd]) (by simp) (by simp)

theorem removeAt_obeys (ha : .plain a ∈ known) (hb : Knows known b word) :
    Emit.Obeys (allowedHosts own) word known (v.removeAt a b) fun x => Fact.value x v.elem := by
  refine (v.access_obeys ha hb).bind fun x => ?_
  refine (load_obeys (by simp) _ _).bind fun removed => ?_
  refine (constUsize_obeys _).bind fun one => ?_
  refine (binary_obeys _ word (by simp [hb]) (by simp) _).bind fun next => ?_
  refine (icmp_obeys _ (by simp) (by simp) _).bind fun hasTail => ?_
  refine (appendBlock_obeys _).bind fun shift => (appendBlock_obeys _).bind fun done => ?_
  refine (condBr_obeys (by simp) (by simp) (by simp)).bind fun _ => (positionAt_obeys (by simp)).bind fun _ => ?_
  refine (v.closeGap_obeys (by simp) (by simp) (by simp) (by simp)).bind
    fun _ => ?_
  refine (br_obeys (by simp)).bind fun _ => (positionAt_obeys (by simp)).bind fun _ => ?_
  refine (v.bumpSize_obeys (by simp [ha]) (by simp) _).bind fun _ => ?_
  exact .pure (by simp +contextual)

/-! The operations that allocate. -/

variable {v} (hv : v.allocator.Discreet own)

include hv

theorem moveElements_obeys (ha : .plain a ∈ known) (hb : Knows known b word) (hc : Knows known c word) :
    Emit.Obeys (allowedHosts own) word known (v.moveElements a b c) fun _ => [] := by
  refine (doubledCapacity_obeys hc).bind fun newCap => ?_
  refine (v.byteLen_obeys (by simp)).bind fun bytes => ?_
  refine (hv _ _ (by simp)).bind fun buffer => ?_
  refine (v.loadElems_obeys (by simp [ha])).bind fun old => ?_
  refine (v.byteLen_obeys (by simp [hb])).bind fun live => ?_
  refine (memCopy_obeys (by simp) (by simp) (by simp)).bind fun _ => ?_
  refine (v.storeField_obeys (by simp [ha]) _ (by simp)).bind fun _ => ?_
  exact v.storeField_obeys (by simp [ha]) _ (by simp)

theorem ensureCapacity_obeys (ha : .plain a ∈ known) (hb : Knows known b word) :
    Emit.Obeys (allowedHosts own) word known (v.ensureCapacity a b) fun _ => [] := by
  refine (v.loadCapacity_obeys ha).bind fun cap => ?_
  refine (icmp_obeys _ (by simp [hb]) (by simp) _).bind fun full => ?_
  refine (appendBlock_obeys _).bind fun grow => (appendBlock_obeys _).bind fun room => ?_
  refine (condBr_obeys (by simp) (by simp) (by simp)).bind fun _ => (positionAt_obeys (by simp)).bind fun _ => ?_
  refine (moveElements_obeys hv (by simp [ha]) (by simp [hb]) (by simp)).bind fun _ => ?_
  exact (br_obeys (by simp)).bind fun _ => (positionAt_obeys (by simp)).silent

theorem append_obeys (ha : .plain a ∈ known) (hb : .plain b ∈ known) :
    Emit.Obeys (allowedHosts own) word known (v.append a b) fun _ => [] := by
  refine (v.loadSize_obeys ha).bind fun size => ?_
  refine (ensureCapacity_obeys hv (by simp [ha]) (by simp)).bind fun _ => ?_
  refine (v.loadElems_obeys (by simp [ha])).bind fun elems => ?_
  refine (v.elementPtr_obeys (by simp) (by simp)).bind fun ptr => ?_
  refine (store_obeys (by simp [hb]) (by simp)).bind fun _ => ?_
  exact v.bumpSize_obeys (by simp [ha]) (by simp) _

theorem insertAt_obeys (ha : .plain a ∈ known) (hb : Knows known b word) (hc : .plain c ∈ known) :
    Emit.Obeys (allowedHosts own) word known (v.insertAt a b c) fun _ => [] := by
  refine (v.loadSize_obeys ha).bind fun size => ?_
  refine (emitBoundsCheck_obeys (by simp [hb]) (by simp) _).bind fun _ => ?_
  refine (ensureCapacity_obeys hv (by simp [ha]) (by simp)).bind fun _ => ?_
  refine (v.loadElems_obeys (by simp [ha])).bind fun elems => ?_
  refine (v.elementPtr_obeys (by simp) (by simp [hb])).bind fun slot => ?_
  refine (v.openGap_obeys (by simp) (by simp [hb]) (by simp) (by simp)).bind fun _ => ?_
  refine (store_obeys (by simp [hc]) (by simp)).bind fun _ => ?_
  exact v.bumpSize_obeys (by simp [ha]) (by simp) _

theorem newBuffer_obeys (capacity : UInt64) :
    Emit.Obeys (allowedHosts own) word known (v.newBuffer capacity) fun x => Fact.value x .ptr :=
  .ite ((constUsize_obeys _).bind fun _ => hv _ _ (by simp)) constNull_obeys

theorem new_obeys (descBytes : Nat) (capacity : UInt64) :
    Emit.Obeys (allowedHosts own) word known (v.new descBytes capacity) fun x => Fact.value x .ptr := by
  refine .get_bind fun s hs _ => ?_
  rw [hs.ptrInt]
  refine (constUsize_obeys _).bind fun descSize => ?_
  refine (hv _ _ (by simp)).bind fun desc => ?_
  refine (newBuffer_obeys hv capacity).bind fun elems => ?_
  refine (constInt_obeys ..).bind fun zero => (constUsize_obeys _).bind fun cap => ?_
  refine (v.storeField_obeys (by simp) _ (by simp)).bind fun _ => ?_
  refine (v.storeField_obeys (by simp) _ (by simp)).bind fun _ => ?_
  refine (v.storeField_obeys (by simp) _ (by simp)).bind fun _ => ?_
  exact .pure (by simp +contextual)

end VectorShape

/-! ### The collector, and an allocator with a flag -/

/-- Calling a host function of one's own that returns addresses. -/
theorem callAllocator_obeys {symbol : String} {params : List Ir.Ty} (hd : ⟨symbol, params, .ptr⟩ ∈ own)
    (hr : ∀ d ∈ own, d.name = symbol → d.ret = .ptr) (hne : symbol ≠ boundsErrorHook) {args : List ValueId}
    (hargs : ∀ v ∈ args, Fact.plain v ∈ known) (name : String) :
    Emit.Obeys (allowedHosts own) word known (Allocator.callAllocator symbol params args name)
      fun v => Fact.value v .ptr := by
  have hret : ∀ d ∈ allowedHosts own, d.name = symbol → d.ret = .ptr := fun d hd hn =>
    hr d (hd.resolve_right fun he => hne (hn.symm.trans he)) hn
  refine (declareHost_returns_obeys (.inl hd) hret).bind fun host => ?_
  refine (callHost_returns_obeys (by simpa using hargs) List.mem_cons_self name).bind fun r => ?_
  cases r with
  | none => exact constNull_obeys
  | some p => exact .pure fun _ hp => List.mem_append_left _ hp

theorem collector_discreet : Allocator.Discreet collectorHosts .collector := by
  intro word known size kind name hs
  have hown : ∀ params, (⟨Machine.hostMalloc, params, .ptr⟩ : HostDecl) ∈ collectorHosts ∧
      (⟨Machine.hostMallocAtomic, params, .ptr⟩ : HostDecl) ∈ collectorHosts :=
    fun _ => ⟨⟨.inl rfl, rfl⟩, .inr rfl, rfl⟩
  have hr : ∀ symbol, ∀ d ∈ collectorHosts, d.name = symbol → d.ret = .ptr := fun _ _ hd _ => hd.2
  refine .get_bind fun s _ _ => ?_
  cases kind with
  | general => exact callAllocator_obeys (hown _).1 (hr _) (by decide) (by simpa using hs) name
  | noReferences => exact callAllocator_obeys (hown _).2 (hr _) (by decide) (by simpa using hs) name

end BlockForge.Lowering
