import BlockForge.Proofs.Ir.Shape

/-!
# Code that keeps to its block

Whatever the state they start in, the operations that expressions are made of write to the current block
and to blocks of their own: every other block stays as it is, and so do the numbers of values and the heads
of functions. The position stays, or goes to a block that they have made.
-/

namespace BlockForge.Ir

namespace Emit

open Builder StateM

/-- Work on the current block and on new blocks only. -/
structure Confined (s b : Builder) : Prop where
  func : b.func = s.func
  heads : ∀ f, (b.module.function? f).map Function.head = (s.module.function? f).map Function.head
  values : ∀ {v val}, s.function.value? v = some val → b.function.value? v = some val
  size : s.function.blocks.size ≤ b.function.blocks.size
  current : b.current = s.current ∨ ∃ c, b.current = some c ∧ s.function.blocks.size ≤ c.index
  keep : ∀ {i : BlockId}, i.index < s.function.blocks.size → s.current ≠ some i →
    b.function.block? i = s.function.block? i

namespace Confined

variable {s b d : Builder}

theorem refl (b : Builder) : Confined b b :=
  ⟨rfl, fun _ => rfl, id, Nat.le_refl _, .inl rfl, fun _ _ => rfl⟩

theorem away (h : Confined s b) {i : BlockId} (hi : i.index < s.function.blocks.size)
    (hne : s.current ≠ some i) : b.current ≠ some i := by
  rcases h.current with hc | ⟨c, hc, hle⟩
  · rw [hc]
    exact hne
  · rw [hc]
    rintro he
    cases he
    omega

theorem trans (h : Confined s b) (k : Confined b d) : Confined s d where
  func := k.func.trans h.func
  heads f := (k.heads f).trans (h.heads f)
  values hv := k.values (h.values hv)
  size := Nat.le_trans h.size k.size
  current := by
    rcases k.current with hc | ⟨c, hc, hle⟩
    · rw [hc]
      exact h.current
    · exact .inr ⟨c, hc, Nat.le_trans h.size hle⟩
  keep hi hne := (k.keep (Nat.lt_of_lt_of_le hi h.size) (h.away hi hne)).trans (h.keep hi hne)

/-- The position goes to a block that was made meanwhile. -/
theorem moved (h : Confined s b) {i : BlockId} (hi : s.function.blocks.size ≤ i.index) :
    Confined s { b with current := some i } :=
  ⟨h.func, h.heads, h.values, h.size, .inr ⟨i, rfl, hi⟩, h.keep⟩

theorem isSome (h : Confined s b) (hs : s.current.isSome = true) : b.current.isSome = true := by
  rcases h.current with hc | ⟨c, hc, -⟩
  · rwa [hc]
  · rw [hc]
    rfl

theorem valid (h : Confined s b) (hs : s.func.index < s.module.functions.size) :
    b.func.index < b.module.functions.size := by
  have heads := congrArg Option.isSome (h.heads s.func)
  simp only [Option.isSome_map, Module.function?] at heads
  rw [h.func]
  by_contra hn
  rw [Array.getElem?_eq_none (by omega), Array.getElem?_eq_getElem hs] at heads
  cases heads

end Confined

/-! ### Edits of the function -/

/-- Without a function there is nothing to edit. -/
theorem modifyFunction_of_invalid {b : Builder} (h : ¬b.func.index < b.module.functions.size)
    (F : Function → Function) : b.modifyFunction F = b := by
  have hfunctions : b.module.functions.modify b.func.index F = b.module.functions := by
    refine Array.ext_getElem? fun i => ?_
    rw [Array.getElem?_modify]
    split
    · rename_i hi
      subst hi
      rw [Array.getElem?_eq_none (by omega)]
      rfl
    · rfl
  simp only [Builder.modifyFunction, Module.modifyFunction, hfunctions]

section

variable {b : Builder} {F : Function → Function}

theorem heads_modifyFunction (hh : (F b.function).head = b.function.head) (f : FuncId) :
    ((b.modifyFunction F).module.function? f).map Function.head = (b.module.function? f).map Function.head := by
  by_cases hf : f = b.func
  · subst hf
    simp only [Builder.function, Module.function?] at hh
    simp only [Builder.modifyFunction, Module.modifyFunction, Module.function?, Array.getElem?_modify]
    cases hb : b.module.functions[b.func.index]? with
    | none => simp
    | some g =>
      rw [hb] at hh
      simpa using hh
  · rw [function?_modifyFunction_ne b F hf]

theorem confined_modifyFunction (hh : (F b.function).head = b.function.head)
    (hv : ∀ {v val}, b.function.value? v = some val → (F b.function).value? v = some val)
    (hs : b.function.blocks.size ≤ (F b.function).blocks.size)
    (hk : ∀ {i : BlockId}, i.index < b.function.blocks.size → b.current ≠ some i →
      (F b.function).block? i = b.function.block? i) : Confined b (b.modifyFunction F) := by
  by_cases hvalid : b.func.index < b.module.functions.size
  · have hf := function_modifyFunction hvalid F
    refine ⟨rfl, heads_modifyFunction hh, ?_, ?_, .inl rfl, ?_⟩ <;> rw [hf] <;> assumption
  · rw [modifyFunction_of_invalid hvalid]
    exact .refl b

theorem confined_modifyBlock {c : BlockId} (hc : b.current = some c) (f : Block → Block) :
    Confined b (b.modifyBlock c f) := by
  refine confined_modifyFunction rfl id (by simp) fun {i} _ hne => ?_
  have hic : c.index ≠ i.index := fun he => hne (hc.trans (congrArg some (Id.ext he)))
  simp [Function.block?, Array.getElem?_modify, hic]

end

/-! ### Confined operations -/

/-- An operation that works on the current block and on new blocks only. -/
structure IsConfined {α : Type} (x : Emit α) : Prop where
  sat : ∀ b : Builder, x.Sat b fun _ b' => Confined b b'

section

variable {α β : Type}

theorem IsConfined.pure (a : α) : IsConfined (Pure.pure a) := ⟨.refl⟩

theorem IsConfined.bind {x : Emit α} {f : α → Emit β} (h : IsConfined x) (k : ∀ a, IsConfined (f a)) :
    IsConfined (x >>= f) :=
  ⟨fun b => Sat.bind (h.sat b) fun a b₁ h₁ => ((k a).sat b₁).imp fun _ _ h₂ => h₁.trans h₂⟩

theorem IsConfined.map {x : Emit α} {f : α → β} (h : IsConfined x) : IsConfined (f <$> x) :=
  ⟨fun b => h.sat b⟩

theorem IsConfined.get_bind {f : Builder → Emit α} (h : ∀ b, IsConfined (f b)) :
    IsConfined (get >>= f) := ⟨fun b => (h b).sat b⟩

/-- A step of a longer run. -/
theorem IsConfined.after {x : Emit α} (h : IsConfined x) {s b : Builder} (k : Confined s b) :
    x.Sat b fun _ b' => Confined s b' := (h.sat b).imp fun _ _ h' => k.trans h'

theorem demand_confined (d : Demand) (met : Builder → Bool) : IsConfined (demand d met) := by
  refine ⟨fun b => ?_⟩
  show Confined b (b.demand d (met b))
  cases hm : met b with
  | true => exact .refl b
  | false => exact ⟨rfl, fun _ => rfl, id, Nat.le_refl _, .inl rfl, fun _ _ => rfl⟩

theorem pushValue_confined (ty : Ty) (kind : ValueKind) (name : String) :
    IsConfined (pushValue ty kind name) := by
  refine ⟨fun b => confined_modifyFunction rfl (fun {v val} hv => ?_) (Nat.le_refl _) fun _ _ => rfl⟩
  obtain ⟨hlt, -⟩ := Array.getElem?_eq_some_iff.1 hv
  show (b.function.values.push _)[v.index]? = _
  rw [Array.getElem?_push_lt hlt]
  exact hv ▸ (Array.getElem?_eq_getElem hlt).symm

theorem appendBlock_after {s b : Builder} (k : Confined s b) (name : String) :
    (appendBlock name).Sat b fun i b' => Confined s b' ∧ s.function.blocks.size ≤ i.index := by
  refine ⟨k.trans (confined_modifyFunction rfl id (by simp) fun {i} hi _ => ?_), k.size⟩
  simp [Function.block?, Array.getElem?_push, Nat.ne_of_lt hi]

theorem positionAt_after {s b : Builder} (k : Confined s b) {i : BlockId}
    (hi : s.function.blocks.size ≤ i.index) : (positionAt i).Sat b fun _ b' => Confined s b' :=
  Sat.bind ((demand_confined ..).after k) fun _ _ k₁ => k₁.moved hi

theorem closeBlock_after {b : Builder} {c : BlockId} (hc : b.current = some c) (t : Terminator) :
    (closeBlock c t).Sat b fun _ b' => Confined b b' := by
  show Confined b (closeBlock c t b).2
  unfold closeBlock
  split
  · exact .refl b
  · have h := confined_modifyBlock hc fun bl => { bl with terminator := some t }
    exact ⟨h.func, h.heads, h.values, h.size, h.current, h.keep⟩

theorem insert_confined (kind : InstKind) (r : Option ValueId) : IsConfined (insert kind r) := by
  refine ⟨fun b => ?_⟩
  simp only [Sat, insert, modify, modifyGet, MonadStateOf.modifyGet, StateT.modifyGet, Pure.pure]
  split
  · exact (demand_confined .position fun _ => false).sat b
  · rename_i c hc
    split
    · exact (demand_confined .blockOpen fun _ => false).sat b
    · exact confined_modifyBlock hc _

theorem terminate_confined (t : Terminator) : IsConfined (terminate t) := by
  refine ⟨fun b => Sat.get_bind ?_⟩
  split
  · exact (demand_confined ..).sat b
  · rename_i c hc
    exact Sat.bind (closeBlock_after hc t) fun _ _ k => (demand_confined ..).after k

theorem phi_confined (ty : Ty) (incoming : List (ValueId × BlockId)) (name : String) :
    IsConfined (phi ty incoming name) := by
  refine ⟨fun b => Sat.get_bind ?_⟩
  split
  · exact ((demand_confined ..).bind fun _ => pushValue_confined ..).sat b
  · rename_i c hc
    have hstay : (pushValue ty (.inst c) name).Sat b fun _ b' => b'.current = some c := hc
    refine Sat.bind (Sat.and ((pushValue_confined ..).sat b) hstay) ?_
    rintro r b₁ ⟨k, hc₁⟩
    exact k.trans (confined_modifyBlock hc₁ _)

theorem onModule_confined {f : Module → α × Module} (hf : ∀ m, (f m).2.functions = m.functions) :
    IsConfined (onModule f) := by
  refine ⟨fun b => ?_⟩
  have he : ({ b with module := (f b.module).2 } : Builder).function = b.function := by
    simp [Builder.function, Module.function?, hf]
  show Confined b { b with module := (f b.module).2 }
  refine ⟨rfl, fun _ => by simp [Module.function?, hf], ?_, ?_, .inl rfl, fun _ _ => ?_⟩ <;> rw [he]
  exact id

/-! ### Emission -/

theorem emit_confined (ty : Ty) (kind : InstKind) (name : String) : IsConfined (emit ty kind name) :=
  .get_bind fun _ => (pushValue_confined ..).bind fun r => (insert_confined ..).bind fun _ => .pure r

theorem emitVoid_confined (kind : InstKind) : IsConfined (emitVoid kind) := insert_confined kind none

theorem constInt_confined (ty : Ty) (w : UInt64) : IsConfined (constInt ty w) := pushValue_confined ..

theorem constBool_confined (v : Bool) : IsConfined (constBool v) := constInt_confined ..

theorem constUsize_confined (w : UInt64) : IsConfined (constUsize w) :=
  .get_bind fun _ => constInt_confined ..

theorem constFloat_confined (ty : Ty) (w : UInt64) : IsConfined (constFloat ty w) := pushValue_confined ..

theorem constNull_confined : IsConfined constNull := pushValue_confined ..

theorem globalString_confined (text : String) : IsConfined (globalString text) :=
  (onModule_confined fun _ => rfl).bind fun _ => pushValue_confined ..

theorem declareHost_confined (name : String) (params : List Ty) (ret : Ty) :
    IsConfined (onModule (·.declareHost name params ret)) :=
  onModule_confined fun m => (m.declareHost_grows name params ret).2

theorem load_confined (ty : Ty) (p : ValueId) (name : String) : IsConfined (load ty p name) :=
  (demand_confined ..).bind fun _ => emit_confined ..

theorem store_confined (v p : ValueId) : IsConfined (store v p) :=
  (demand_confined ..).bind fun _ => emitVoid_confined _

theorem ptrAdd_confined (p o : ValueId) (name : String) : IsConfined (ptrAdd p o name) := emit_confined ..

theorem fieldPtr_confined (s : StructId) (p : ValueId) (k : Nat) (name : String) :
    IsConfined (fieldPtr s p k name) :=
  (demand_confined ..).bind fun _ => emit_confined ..

theorem binary_confined (op : BinOp) (l r : ValueId) (name : String) : IsConfined (binary op l r name) :=
  (demand_confined ..).bind fun _ => (demand_confined ..).bind fun _ => .get_bind fun _ =>
    emit_confined ..

theorem neg_confined (v : ValueId) (name : String) : IsConfined (neg v name) :=
  .get_bind fun _ => (constInt_confined ..).bind fun _ => binary_confined ..

theorem fneg_confined (v : ValueId) (name : String) : IsConfined (fneg v name) :=
  .get_bind fun _ => emit_confined ..

theorem not_confined (v : ValueId) (name : String) : IsConfined (Emit.not v name) :=
  .get_bind fun _ => (constInt_confined ..).bind fun _ => binary_confined ..

theorem icmp_confined (pred : IntPred) (l r : ValueId) (name : String) :
    IsConfined (icmp pred l r name) :=
  (demand_confined ..).bind fun _ => emit_confined ..

theorem fcmp_confined (pred : FloatPred) (l r : ValueId) (name : String) :
    IsConfined (fcmp pred l r name) := emit_confined ..

theorem cast_confined (op : CastOp) (v : ValueId) (ty : Ty) (name : String) :
    IsConfined (cast op v ty name) := emit_confined ..

theorem intResize_confined (v : ValueId) (ty : Ty) (signed : Bool) (name : String) :
    IsConfined (intResize v ty signed name) := by
  refine .get_bind fun b => ?_
  dsimp only
  split
  · exact .pure v
  · split <;> exact cast_confined ..

theorem select_confined (c x y : ValueId) (name : String) : IsConfined (select c x y name) :=
  .get_bind fun _ => emit_confined ..

theorem callAt_confined (callee : Callee) (ret : Ty) (args : List ValueId) (name : String) :
    IsConfined (callAt callee ret args name) := by
  unfold callAt
  split
  · exact (emitVoid_confined _).bind fun _ => .pure none
  · exact (emit_confined ..).map

theorem call_confined (func : FuncId) (args : List ValueId) (name : String) :
    IsConfined (call func args name) :=
  (demand_confined ..).bind fun _ => .get_bind fun _ => callAt_confined ..

theorem callHost_confined (host : HostId) (args : List ValueId) (name : String) :
    IsConfined (callHost host args name) := .get_bind fun _ => callAt_confined ..

theorem br_confined (target : BlockId) : IsConfined (br target) := terminate_confined _

theorem condBr_confined (c : ValueId) (x y : BlockId) : IsConfined (condBr c x y) :=
  (demand_confined ..).bind fun _ => terminate_confined _

end

end Emit

end BlockForge.Ir
