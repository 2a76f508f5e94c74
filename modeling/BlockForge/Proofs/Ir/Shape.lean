import BlockForge.Proofs.Ir.Emission
import BlockForge.Proofs.Ir.Reach

/-!
# The shape of emitted code

What emission does to the block graph, whatever the types of its operands. Most operations put code
into the current block and leave the graph alone. The others make two blocks, go off into one of them
and come back at the other; in between they advance from one open block to the next, and every block
that they leave behind has ended.
-/

namespace BlockForge.Ir

/-! ### Calls that do not return -/

/-- A call of the hook for a failed bounds check, which never returns. -/
def InstKind.Halts (m : Module) (k : InstKind) : Prop :=
  ∃ id args ret d, k = .call (.host id) args ret ∧ m.host? id = some d ∧
    d.name = Machine.hostBoundsError

/-- A block that control cannot get through. -/
def Function.Halts (f : Function) (m : Module) (i : BlockId) : Prop :=
  ∃ inst ∈ f.code i, inst.kind.Halts m

/-- How a function is called. -/
def Function.head (f : Function) : String × List Ty × Ty := (f.name, f.params, f.ret)

/-- Control does not get to the end of a dead end. -/
def Function.Guarded (f : Function) (m : Module) : Prop := ∀ ⦃i : BlockId⦄,
  f.Path Id.entry i → f.ending i = some .unreachable → f.Halts m i

namespace Builder

/-- A builder at the end of a block that has not ended. -/
structure Opened (b : Builder) : Prop where
  valid : b.func.index < b.module.functions.size
  position : ∃ c, b.current = some c ∧ c.index < b.function.blocks.size ∧
    b.function.ending c = none

theorem Live.opened {b : Builder} (h : b.Live) : b.Opened := by
  obtain ⟨c, hc, ho⟩ := h.isOpen
  exact ⟨h.ok.valid, c, hc, Emit.lt_size_of_ending h hc, ho⟩

end Builder

namespace Emit

open Builder StateM

/-! ### Code for the current block -/

/-- Only the builder's own function changes, though not how it is called; code and host functions may be
added. -/
structure Inside (s b : Builder) : Prop where
  func : b.func = s.func
  pointerBits : b.module.pointerBits = s.module.pointerBits
  head : b.function.head = s.function.head
  functions : b.module.functions.size = s.module.functions.size
  others : ∀ j, j ≠ s.func → b.module.function? j = s.module.function? j
  code : ∀ {i inst}, inst ∈ s.function.code i → inst ∈ b.function.code i
  hosts : ∀ {id d}, s.module.host? id = some d → b.module.host? id = some d

namespace Inside

theorem refl (b : Builder) : Inside b b := ⟨rfl, rfl, rfl, rfl, fun _ _ => rfl, id, id⟩

theorem trans {s b d : Builder} (h : Inside s b) (k : Inside b d) : Inside s d :=
  ⟨k.func.trans h.func, k.pointerBits.trans h.pointerBits, k.head.trans h.head, k.functions.trans h.functions,
    fun j hj => (k.others j (by rw [h.func]; exact hj)).trans (h.others j hj),
    fun hi => k.code (h.code hi), fun hd => k.hosts (h.hosts hd)⟩

theorem valid {s b : Builder} (h : Inside s b) (hv : s.func.index < s.module.functions.size) :
    b.func.index < b.module.functions.size := by
  rw [h.func, h.functions]
  exact hv

end Inside

/-- The block graph and the position stay. -/
structure Inline (s b : Builder) : Prop extends Inside s b where
  size : b.function.blocks.size = s.function.blocks.size
  ending : b.function.ending = s.function.ending
  current : b.current = s.current
  terminators : b.terminators = s.terminators

namespace Inline

theorem refl (b : Builder) : Inline b b := ⟨.refl b, rfl, rfl, rfl, rfl⟩

theorem trans {s b d : Builder} (h : Inline s b) (k : Inline b d) : Inline s d :=
  ⟨h.toInside.trans k.toInside, k.size.trans h.size, k.ending.trans h.ending,
    k.current.trans h.current, k.terminators.trans h.terminators⟩

theorem opened {s b : Builder} (h : Inline s b) (ho : s.Opened) : b.Opened := by
  obtain ⟨c, hc, hlt, hopen⟩ := ho.position
  exact ⟨h.valid ho.valid, c, h.current.trans hc, by rw [h.size]; exact hlt,
    by rw [h.ending]; exact hopen⟩

end Inline

/-- An operation that only emits into the current block. -/
structure IsInline {α : Type} (x : Emit α) : Prop where
  sat : ∀ b : Builder, b.func.index < b.module.functions.size → x.Sat b fun _ b' => Inline b b'

section

variable {α β : Type}

theorem IsInline.pure (a : α) : IsInline (Pure.pure a) := ⟨fun b _ => .refl b⟩

theorem IsInline.bind {x : Emit α} {f : α → Emit β} (h : IsInline x) (k : ∀ a, IsInline (f a)) :
    IsInline (x >>= f) := ⟨fun b hv =>
  Sat.bind (h.sat b hv) fun a b₁ h₁ => ((k a).sat b₁ (h₁.valid hv)).imp fun _ _ h₂ => h₁.trans h₂⟩

theorem IsInline.map {x : Emit α} {f : α → β} (h : IsInline x) : IsInline (f <$> x) :=
  ⟨fun b hv => h.sat b hv⟩

theorem IsInline.get_bind {f : Builder → Emit α} (h : ∀ b, IsInline (f b)) :
    IsInline (get >>= f) := ⟨fun b => (h b).sat b⟩

theorem inside_modifyFunction {b : Builder} (hv : b.func.index < b.module.functions.size)
    {F : Function → Function} (hh : (F b.function).head = b.function.head)
    (hc : ∀ {i inst}, inst ∈ b.function.code i → inst ∈ (F b.function).code i) :
    Inside b (b.modifyFunction F) := by
  refine ⟨rfl, rfl, by rw [function_modifyFunction hv F, hh], by simp [modifyFunction, Module.modifyFunction],
    fun j hj => function?_modifyFunction_ne b F hj, fun hi => ?_, id⟩
  rw [function_modifyFunction hv F]
  exact hc hi

/-- An edit of the function that adds code but neither blocks nor endings. -/
theorem inline_modifyFunction {b : Builder} (hv : b.func.index < b.module.functions.size)
    {F : Function → Function} (hs : (F b.function).blocks.size = b.function.blocks.size)
    (he : (F b.function).ending = b.function.ending) (hh : (F b.function).head = b.function.head)
    (hc : ∀ {i inst}, inst ∈ b.function.code i → inst ∈ (F b.function).code i) :
    Inline b (b.modifyFunction F) := by
  have hf := function_modifyFunction hv F
  refine ⟨inside_modifyFunction hv hh hc, by rw [hf, hs], by rw [hf, he], rfl, rfl⟩

theorem demand_inline (d : Demand) (met : Builder → Bool) : IsInline (demand d met) := by
  refine ⟨fun b _ => ?_⟩
  show Inline b (b.demand d (met b))
  cases hm : met b with
  | true => exact .refl b
  | false => exact ⟨⟨rfl, rfl, rfl, rfl, fun _ _ => rfl, id, id⟩, rfl, rfl, rfl, rfl⟩

theorem pushValue_inline (ty : Ty) (kind : ValueKind) (name : String) :
    IsInline (pushValue ty kind name) :=
  ⟨fun _ hv => inline_modifyFunction hv rfl rfl rfl id⟩

theorem mem_code_editInsts {f : Function} {c : BlockId} {k : Array Inst → Array Inst}
    (hk : ∀ {insts inst}, inst ∈ insts.toList → inst ∈ (k insts).toList) {i : BlockId} {inst : Inst}
    (hi : inst ∈ f.code i) : inst ∈ (f.editInsts c k).code i := by
  simp only [Function.code, Function.editInsts, Array.getElem?_modify] at hi ⊢
  split
  · cases hb : f.blocks[i.index]? with
    | none => simp [hb] at hi
    | some bl =>
      have hmem : inst ∈ bl.insts.toList := by simpa [hb] using hi
      simpa [hb] using hk hmem
  · exact hi

theorem inline_editInsts {b : Builder} (hv : b.func.index < b.module.functions.size) (c : BlockId)
    {k : Array Inst → Array Inst}
    (hk : ∀ {insts inst}, inst ∈ insts.toList → inst ∈ (k insts).toList) :
    Inline b (b.modifyFunction (·.editInsts c k)) :=
  inline_modifyFunction hv (by simp [Function.editInsts]) (Function.ending_editInsts ..) rfl
    (mem_code_editInsts hk)

theorem mem_push {new : Inst} {insts : Array Inst} {inst : Inst} (h : inst ∈ insts.toList) :
    inst ∈ (insts.push new).toList := by
  rw [Array.toList_push]
  exact List.mem_append_left _ h

theorem mem_insertAfterLeading {p : Inst → Bool} {new : Inst} {insts : Array Inst} {inst : Inst}
    (h : inst ∈ insts.toList) : inst ∈ (insertAfterLeading p new insts).toList := by
  rw [Function.toList_insertAfterLeading]
  rw [← List.takeWhile_append_dropWhile (p := p) (l := insts.toList)] at h
  rcases List.mem_append.1 h with h | h
  · exact List.mem_append_left _ h
  · exact List.mem_append_right _ (List.mem_cons_of_mem _ h)

/-! ### Operations that emit into the current block -/

theorem insert_inline (kind : InstKind) (r : Option ValueId) : IsInline (insert kind r) := by
  refine ⟨fun b hv => ?_⟩
  simp only [Sat, insert, modify, modifyGet, MonadStateOf.modifyGet, StateT.modifyGet, pure]
  split
  · exact (demand_inline .position fun _ => false).sat b hv
  · split
    · exact (demand_inline .blockOpen fun _ => false).sat b hv
    · exact inline_editInsts hv _ mem_push

theorem emit_inline (ty : Ty) (kind : InstKind) (name : String) : IsInline (emit ty kind name) :=
  .get_bind fun _ => (pushValue_inline ..).bind fun r => (insert_inline ..).bind fun _ => .pure r

theorem emitVoid_inline (kind : InstKind) : IsInline (emitVoid kind) := insert_inline kind none

theorem constInt_inline (ty : Ty) (w : UInt64) : IsInline (constInt ty w) := pushValue_inline ..

theorem constBool_inline (v : Bool) : IsInline (constBool v) := constInt_inline ..

theorem constUsize_inline (w : UInt64) : IsInline (constUsize w) :=
  .get_bind fun _ => constInt_inline ..

theorem constFloat_inline (ty : Ty) (w : UInt64) : IsInline (constFloat ty w) := pushValue_inline ..

theorem constNull_inline : IsInline constNull := pushValue_inline ..

theorem onModule_inline {f : Module → α × Module}
    (hf : ∀ m, (f m).2.pointerBits = m.pointerBits ∧ (f m).2.functions = m.functions ∧
      m.hosts.toList <+: (f m).2.hosts.toList) :
    IsInline (onModule f) := by
  refine ⟨fun b _ => ?_⟩
  obtain ⟨hbits, hfun, hhosts⟩ := hf b.module
  have he : ({ b with module := (f b.module).2 } : Builder).function = b.function := by
    simp [Builder.function, Module.function?, hfun]
  show Inline b { b with module := (f b.module).2 }
  refine ⟨⟨rfl, hbits, by rw [he], by rw [hfun], fun j _ => ?_, fun hi => ?_, fun hd => ?_⟩, by rw [he], by rw [he],
    rfl, rfl⟩
  · simp [Module.function?, hfun]
  · rw [he]
    exact hi
  · exact getElem?_of_prefix hhosts hd

theorem globalString_inline (text : String) : IsInline (globalString text) :=
  (onModule_inline fun _ => ⟨rfl, rfl, List.prefix_refl _⟩).bind fun _ => pushValue_inline ..

theorem declareHost_inline (name : String) (params : List Ty) (ret : Ty) :
    IsInline (onModule (·.declareHost name params ret)) :=
  onModule_inline fun m =>
    ⟨(m.declareHost_grows name params ret).1.pointerBits, (m.declareHost_grows name params ret).2,
      (m.declareHost_grows name params ret).1.hosts⟩

theorem entryAlloca_inline (ty : Ty) (name : String) : IsInline (entryAlloca ty name) := by
  refine (pushValue_inline ..).bind fun r => (demand_inline ..).bind fun _ =>
    IsInline.bind ⟨fun b hv => ?_⟩ fun _ => .pure r
  exact inline_editInsts hv _ mem_insertAfterLeading

theorem load_inline (ty : Ty) (p : ValueId) (name : String) : IsInline (load ty p name) :=
  (demand_inline ..).bind fun _ => emit_inline ..

theorem store_inline (v p : ValueId) : IsInline (store v p) :=
  (demand_inline ..).bind fun _ => emitVoid_inline _

theorem ptrAdd_inline (p o : ValueId) (name : String) : IsInline (ptrAdd p o name) := emit_inline ..

theorem fieldPtr_inline (s : StructId) (p : ValueId) (k : Nat) (name : String) :
    IsInline (fieldPtr s p k name) :=
  (demand_inline ..).bind fun _ => emit_inline ..

theorem binary_inline (op : BinOp) (l r : ValueId) (name : String) :
    IsInline (binary op l r name) :=
  (demand_inline ..).bind fun _ => (demand_inline ..).bind fun _ => .get_bind fun _ =>
    emit_inline ..

theorem neg_inline (v : ValueId) (name : String) : IsInline (neg v name) :=
  .get_bind fun _ => (constInt_inline ..).bind fun _ => binary_inline ..

theorem fneg_inline (v : ValueId) (name : String) : IsInline (fneg v name) :=
  .get_bind fun _ => emit_inline ..

theorem not_inline (v : ValueId) (name : String) : IsInline (Emit.not v name) :=
  .get_bind fun _ => (constInt_inline ..).bind fun _ => binary_inline ..

theorem icmp_inline (pred : IntPred) (l r : ValueId) (name : String) :
    IsInline (icmp pred l r name) :=
  (demand_inline ..).bind fun _ => emit_inline ..

theorem fcmp_inline (pred : FloatPred) (l r : ValueId) (name : String) :
    IsInline (fcmp pred l r name) := emit_inline ..

theorem cast_inline (op : CastOp) (v : ValueId) (ty : Ty) (name : String) :
    IsInline (cast op v ty name) := emit_inline ..

theorem intResize_inline (v : ValueId) (ty : Ty) (signed : Bool) (name : String) :
    IsInline (intResize v ty signed name) := by
  refine .get_bind fun b => ?_
  dsimp only
  split
  · exact .pure v
  · split <;> exact cast_inline ..

theorem select_inline (c x y : ValueId) (name : String) : IsInline (select c x y name) :=
  .get_bind fun _ => emit_inline ..

theorem phi_inline (ty : Ty) (incoming : List (ValueId × BlockId)) (name : String) :
    IsInline (phi ty incoming name) := by
  refine .get_bind fun s => ?_
  split
  · exact (demand_inline ..).bind fun _ => constInt_inline ..
  · refine (pushValue_inline ..).bind fun r => IsInline.bind ⟨fun b hv => ?_⟩ fun _ => .pure r
    exact inline_editInsts hv _ mem_insertAfterLeading

theorem callAt_inline (callee : Callee) (ret : Ty) (args : List ValueId) (name : String) :
    IsInline (callAt callee ret args name) := by
  unfold callAt
  split
  · exact (emitVoid_inline _).bind fun _ => .pure none
  · exact (emit_inline ..).map

theorem call_inline (func : FuncId) (args : List ValueId) (name : String) :
    IsInline (call func args name) :=
  (demand_inline ..).bind fun _ => .get_bind fun _ => callAt_inline ..

theorem callHost_inline (host : HostId) (args : List ValueId) (name : String) :
    IsInline (callHost host args name) := .get_bind fun _ => callAt_inline ..

/-- A host function that is declared has its name. -/
theorem declareHost_name (m : Module) (name : String) (params : List Ty) (ret : Ty) :
    ∃ d, (m.declareHost name params ret).2.host? (m.declareHost name params ret).1 = some d ∧
      d.name = name := by
  unfold Module.declareHost
  split
  · rename_i i hi
    obtain ⟨hlt, hn, -⟩ := Array.findIdx?_eq_some_iff_getElem.1 hi
    exact ⟨m.hosts[i], by simp [Module.host?, hlt], by simpa using hn⟩
  · exact ⟨⟨name, params, ret⟩, by simp [Module.host?], rfl⟩

theorem insert_mem {b : Builder} (ho : b.Opened) {c : BlockId} (hc : b.current = some c)
    (kind : InstKind) (r : Option ValueId) :
    (insert kind r).Sat b fun _ b' => ⟨r, kind⟩ ∈ b'.function.code c := by
  obtain ⟨d, hd, hlt, hopen⟩ := ho.position
  obtain rfl : c = d := Option.some.inj (hc.symm.trans hd)
  unfold Sat
  rw [insert_eq hc hopen]
  show _ ∈ (b.modifyFunction _).function.code c
  rw [function_modifyFunction ho.valid, Function.code_addInst hlt, if_pos rfl]
  simp

theorem emit_mem {b : Builder} (ho : b.Opened) {c : BlockId} (hc : b.current = some c) (ty : Ty)
    (kind : InstKind) (name : String) :
    (emit ty kind name).Sat b fun v b' => ⟨some v, kind⟩ ∈ b'.function.code c := by
  refine Sat.get_bind (Sat.bind ((pushValue_inline ..).sat b ho.valid) fun v b₁ h₁ => ?_)
  exact Sat.bind (insert_mem (h₁.opened ho) (h₁.current.trans hc) _ _) fun _ b₂ h₂ => Sat.pure h₂

/-- A call of a host function is in the current block. -/
theorem callHost_mem {b : Builder} (ho : b.Opened) {c : BlockId} (hc : b.current = some c)
    (host : HostId) (args : List ValueId) (name : String) :
    (callHost host args name).Sat b fun _ b' =>
      ∃ r ret, ⟨r, .call (.host host) args ret⟩ ∈ b'.function.code c := by
  refine Sat.get_bind ?_
  unfold callAt
  dsimp only
  split
  · refine Sat.bind (insert_mem ho hc _ _) fun _ b₁ h₁ => Sat.pure ?_
    exact ⟨_, _, h₁⟩
  · refine Sat.map ((emit_mem ho hc _ _ _).imp fun r b₁ h₁ => ?_)
    exact ⟨_, _, h₁⟩

end

/-! ### From one open block to the next -/

/-- Work that starts and ends at an open block. It touches no other block that was there, branches only
to blocks of its own, and all of these but the last have ended; a dead end among them cannot be reached
for good. -/
structure Advances (s b : Builder) : Prop extends Inside s b where
  opened : b.Opened
  size : s.function.blocks.size ≤ b.function.blocks.size
  keep : ∀ {i : BlockId}, i.index < s.function.blocks.size → s.current ≠ some i →
    b.function.ending i = s.function.ending i
  ended : ∀ {i t}, s.function.ending i = some t → b.function.ending i = some t
  current : b.current = s.current ∨ ∃ c, b.current = some c ∧ s.function.blocks.size ≤ c.index
  edges : ∀ {i j : BlockId}, i.index < s.function.blocks.size → i ∈ b.function.succs j →
    i ∈ s.function.succs j
  bounded : s.function.Bounded → b.function.Bounded
  path : ∀ {c d}, s.current = some c → b.current = some d → b.function.Path c d
  opens : ∀ {i : BlockId}, i.index < b.function.blocks.size → b.function.ending i = none →
    b.current = some i ∨ i.index < s.function.blocks.size ∧ s.current ≠ some i
  terminators : s.terminators ≤ b.terminators
  steady : b.terminators = s.terminators → b.function.ending = s.function.ending
  deadEnds : ∀ {i}, b.function.ending i = some .unreachable →
    s.function.ending i = some .unreachable ∨ b.function.Halts b.module i

theorem mem_succs_of_ended {f g : Function} (h : ∀ {i t}, f.ending i = some t → g.ending i = some t)
    {i j : BlockId} (hi : i ∈ f.succs j) : i ∈ g.succs j := by
  cases ht : f.ending j with
  | none => simp [Function.succs, ht] at hi
  | some t =>
    rw [Function.succs, h ht]
    rwa [Function.succs, ht] at hi

theorem path_of_ended {f g : Function} (h : ∀ {i t}, f.ending i = some t → g.ending i = some t)
    {i j : BlockId} (hp : f.Path i j) : g.Path i j :=
  Relation.ReflTransGen.mono (fun _ _ => mem_succs_of_ended h) _ _ hp

theorem halts_mono {f g : Function} {m n : Module} {i : BlockId} (h : f.Halts m i)
    (hc : ∀ {i inst}, inst ∈ f.code i → inst ∈ g.code i)
    (hh : ∀ {id d}, m.host? id = some d → n.host? id = some d) : g.Halts n i := by
  obtain ⟨inst, hi, id, args, ret, d, hk, hd, hn⟩ := h
  exact ⟨inst, hc hi, id, args, ret, d, hk, hh hd, hn⟩

theorem Inline.advances {s b : Builder} (h : Inline s b) (ho : s.Opened) : Advances s b where
  toInside := h.toInside
  opened := h.opened ho
  size := Nat.le_of_eq h.size.symm
  keep _ _ := by rw [h.ending]
  ended ht := by rw [h.ending]; exact ht
  current := .inl h.current
  edges _ hj := by
    rw [Function.succs, h.ending] at hj
    exact hj
  bounded hb i j hj := by
    rw [Function.succs, h.ending] at hj
    rw [h.size]
    exact hb hj
  path hc hd := by
    rw [h.current, hc] at hd
    cases hd
    exact .refl
  opens {i} hi hn := by
    rw [h.current]
    rw [h.size] at hi
    by_cases hc : s.current = some i
    · exact .inl hc
    · exact .inr ⟨hi, hc⟩
  terminators := Nat.le_of_eq h.terminators.symm
  steady _ := h.ending
  deadEnds ht := .inl (by rw [← h.ending]; exact ht)

namespace Advances

theorem refl {b : Builder} (h : b.Opened) : Advances b b := (Inline.refl b).advances h

theorem trans {s b d : Builder} (h : Advances s b) (k : Advances b d) : Advances s d where
  toInside := h.toInside.trans k.toInside
  opened := k.opened
  size := Nat.le_trans h.size k.size
  keep {i} hi hne := by
    have hb : b.current ≠ some i := by
      rcases h.current with hc | ⟨c, hc, hle⟩
      · rw [hc]
        exact hne
      · rw [hc]
        rintro he
        cases he
        omega
    rw [k.keep (Nat.lt_of_lt_of_le hi h.size) hb, h.keep hi hne]
  ended ht := k.ended (h.ended ht)
  current := by
    rcases k.current with hc | ⟨c, hc, hle⟩
    · rw [hc]
      exact h.current
    · exact .inr ⟨c, hc, Nat.le_trans h.size hle⟩
  edges hi hj := h.edges hi (k.edges (Nat.lt_of_lt_of_le hi h.size) hj)
  bounded hb := k.bounded (h.bounded hb)
  path hc hd := by
    obtain ⟨e, he, -⟩ := h.opened.position
    exact (path_of_ended k.ended (h.path hc he)).trans (k.path he hd)
  opens {i} hi hn := by
    rcases k.opens hi hn with hc | ⟨hlt, hne⟩
    · exact .inl hc
    · have hb : b.function.ending i = none := by
        cases ht : b.function.ending i with
        | none => rfl
        | some t => rw [k.ended ht] at hn; cases hn
      exact .inr ((h.opens hlt hb).resolve_left hne)
  terminators := Nat.le_trans h.terminators k.terminators
  steady he := by
    have h₁ := h.terminators
    have h₂ := k.terminators
    rw [k.steady (by omega), h.steady (by omega)]
  deadEnds ht := by
    rcases k.deadEnds ht with ht | hh
    · exact (h.deadEnds ht).imp id fun hh => halts_mono hh k.code k.hosts
    · exact .inr hh

end Advances

/-! ### Branches -/

/-- The current block ends with `t` and the position moves to `y`. -/
structure Turns (s b : Builder) (t : Terminator) (y : BlockId) : Prop extends Inside s b where
  size : b.function.blocks.size = s.function.blocks.size
  ending : ∀ {c}, s.current = some c → ∀ i,
    b.function.ending i = if i = c then some t else s.function.ending i
  current : b.current = some y
  terminators : b.terminators = s.terminators + 1

/-- Some blocks are made, and nothing else. -/
structure Makes (n : Nat) (s b : Builder) : Prop extends Inside s b where
  size : b.function.blocks.size = s.function.blocks.size + n
  ending : b.function.ending = s.function.ending
  current : b.current = s.current
  terminators : b.terminators = s.terminators

theorem Makes.trans {n k : Nat} {s b d : Builder} (h : Makes n s b) (l : Makes k b d) :
    Makes (n + k) s d :=
  ⟨h.toInside.trans l.toInside, by rw [l.size, h.size, Nat.add_assoc], l.ending.trans h.ending,
    l.current.trans h.current, l.terminators.trans h.terminators⟩

theorem Makes.opened {n : Nat} {s b : Builder} (h : Makes n s b) (ho : s.Opened) : b.Opened := by
  obtain ⟨c, hc, hlt, hopen⟩ := ho.position
  exact ⟨h.valid ho.valid, c, h.current.trans hc, by rw [h.size]; omega,
    by rw [h.ending]; exact hopen⟩

theorem appendBlock_makes {b : Builder} (hv : b.func.index < b.module.functions.size)
    (name : String) : (appendBlock name).Sat b fun i b' =>
      i.index = b.function.blocks.size ∧ Makes 1 b b' := by
  have hf := function_modifyFunction hv (·.addBlock name)
  have hin : Inside b (b.modifyFunction (·.addBlock name)) := inside_modifyFunction hv rfl fun hi => by
    rw [Function.code_addBlock]
    exact hi
  refine ⟨rfl, hin, ?_, ?_, rfl, rfl⟩
  · show (b.modifyFunction (·.addBlock name)).function.blocks.size = _
    rw [hf]
    simp [Function.addBlock]
  · show (b.modifyFunction (·.addBlock name)).function.ending = _
    rw [hf, Function.ending_addBlock]

theorem terminate_turns {b : Builder} (ho : b.Opened) {c : BlockId} (hc : b.current = some c)
    (t : Terminator) : (terminate t).Sat b fun _ b' => Turns b b' t c := by
  obtain ⟨d, hd, hlt, hopen⟩ := ho.position
  obtain rfl : c = d := Option.some.inj (hc.symm.trans hd)
  have hterm : b.hasTerminator c = false := by rw [hasTerminator_eq, hopen]; rfl
  have hclose : closeBlock c t b = (true, { b.modifyFunction (·.setEnding c t) with
      terminators := b.terminators + 1 }) := by
    simp only [closeBlock, hterm]
    rfl
  have heq : terminate t b = ((), { b.modifyFunction (·.setEnding c t) with
      terminators := b.terminators + 1 }) := by
    simp only [terminate, bind, StateT.bind, get, getThe, MonadStateOf.get, StateT.get, pure, hc,
      hclose]
    rfl
  have hf : ({ b.modifyFunction (·.setEnding c t) with
      terminators := b.terminators + 1 } : Builder).function = b.function.setEnding c t :=
    function_modifyFunction ho.valid (·.setEnding c t)
  unfold Sat
  rw [heq]
  have hin : Inside b (b.modifyFunction (·.setEnding c t)) := inside_modifyFunction ho.valid rfl fun hi => by
    rw [Function.code_setEnding]
    exact hi
  refine ⟨⟨rfl, hin.pointerBits, hin.head, hin.functions, hin.others, hin.code, id⟩, ?_, ?_, hc, rfl⟩
  · rw [hf]
    simp [Function.setEnding]
  · intro e he i
    obtain rfl : c = e := Option.some.inj (hc.symm.trans he)
    rw [hf, Function.ending_setEnding hlt]

/-- The position moves on, wherever it was left. -/
theorem Turns.positionAt {s b : Builder} {t : Terminator} {x : BlockId} (h : Turns s b t x)
    (y : BlockId) : (Emit.positionAt y).Sat b fun _ b' => Turns s b' t y := by
  refine Sat.modify_bind ?_
  show Turns s { b.demand .blockExists _ with current := some y } t y
  unfold Builder.demand
  split
  · exact ⟨⟨h.func, h.pointerBits, h.head, h.functions, h.others, h.code, h.hosts⟩, h.size, h.ending, rfl, h.terminators⟩
  · exact ⟨⟨h.func, h.pointerBits, h.head, h.functions, h.others, h.code, h.hosts⟩, h.size, h.ending, rfl, h.terminators⟩

theorem Inline.turns {s b d : Builder} (h : Inline s b) {t : Terminator} {y : BlockId}
    (k : Turns b d t y) : Turns s d t y where
  toInside := h.toInside.trans k.toInside
  size := k.size.trans h.size
  ending hc i := by rw [k.ending (h.current.trans hc), h.ending]
  current := k.current
  terminators := by rw [k.terminators, h.terminators]

theorem condBr_turns {b : Builder} (ho : b.Opened) {c : BlockId} (hc : b.current = some c)
    (v : ValueId) (x y : BlockId) :
    (condBr v x y).Sat b fun _ b' => Turns b b' (.condBr v x y) c := by
  refine Sat.bind ((demand_inline _ _).sat b ho.valid) fun _ b₁ h₁ => ?_
  exact (terminate_turns (h₁.opened ho) (h₁.current.trans hc) _).imp fun _ _ h₂ => h₁.turns h₂

/-- The position is in one of the blocks just made. -/
theorem Turns.opened {n : Nat} {s s₁ s₂ : Builder} {t : Terminator} {x : BlockId} (ho : s.Opened)
    (h₁ : Makes n s s₁) (h₂ : Turns s₁ s₂ t x) (hx : s.function.blocks.size ≤ x.index)
    (hlt : x.index < s.function.blocks.size + n) : s₂.Opened := by
  obtain ⟨c, hc, hclt, -⟩ := ho.position
  refine ⟨h₂.valid (h₁.opened ho).valid, x, h₂.current, by rw [h₂.size, h₁.size]; exact hlt, ?_⟩
  rw [h₂.ending (h₁.current.trans hc), if_neg (by rintro rfl; omega), h₁.ending]
  exact Function.ending_eq_none hx

theorem succs_turns {s b : Builder} {t : Terminator} {y c : BlockId} (h : Turns s b t y)
    (hc : s.current = some c) (j : BlockId) :
    b.function.succs j = if j = c then t.successors else s.function.succs j := by
  simp only [Function.succs, h.ending hc]
  split <;> rfl

/-- The current block forks to two new blocks; the work in the first ends by joining the second, or in a
dead end. -/
theorem Advances.branch {s s₁ s₂ s₃ s₄ : Builder} {x y : BlockId} {t u : Terminator}
    (ho : s.Opened) (h₁ : Makes 2 s s₁)
    (hfresh : x.index = s.function.blocks.size ∧ y.index = s.function.blocks.size + 1 ∨
      y.index = s.function.blocks.size ∧ x.index = s.function.blocks.size + 1)
    (h₂ : Turns s₁ s₂ t x)
    (ht : ∀ i, i ∈ t.successors ↔ i = x ∨ i = y) (h₃ : Advances s₂ s₃) (h₄ : Turns s₃ s₄ u y)
    (hu : u = .br y ∨ u = .unreachable ∧ ∀ d, s₃.current = some d →
      s₃.function.Halts s₃.module d) : Advances s s₄ := by
  obtain ⟨c, hc, hclt, hcopen⟩ := ho.position
  obtain ⟨d, hd, hdlt, hdopen⟩ := h₃.opened.position
  have hc₁ : s₁.current = some c := h₁.current.trans hc
  have hsize₂ : s₂.function.blocks.size = s.function.blocks.size + 2 := h₂.size.trans h₁.size
  have hxy : x ≠ y := by
    rintro rfl
    omega
  -- the work in the first branch stays off the blocks that were there and off the second branch
  have hdnew : d = x ∨ s.function.blocks.size + 2 ≤ d.index := by
    rcases h₃.current with hcur | ⟨e, he, hle⟩
    · rw [hd, h₂.current] at hcur
      exact .inl (Option.some.inj hcur)
    · rw [hd] at he
      cases he
      exact .inr (by omega)
  have hdy : y ≠ d := by
    rintro rfl
    rcases hdnew with rfl | hle
    · exact hxy rfl
    · omega
  have hold : ∀ {i : BlockId}, i.index < s.function.blocks.size + 2 → i ≠ x →
      s₄.function.ending i = if i = c then some t else s.function.ending i := by
    intro i hi hx
    have hid : i ≠ d := by
      rintro rfl
      rcases hdnew with rfl | hle
      · exact hx rfl
      · omega
    have hix : s₂.current ≠ some i := by
      rw [h₂.current]
      exact fun he => hx (Option.some.inj he).symm
    rw [h₄.ending hd, if_neg hid, h₃.keep (by rw [hsize₂]; exact hi) hix, h₂.ending hc₁, h₁.ending]
  have hyopen : s₄.function.ending y = none := by
    rw [hold (by omega) (Ne.symm hxy), if_neg (by rintro rfl; omega)]
    exact Function.ending_eq_none (by omega)
  have hended₂ : ∀ {i v}, s₂.function.ending i = some v → s₄.function.ending i = some v := by
    intro i v hi
    have hi₃ := h₃.ended hi
    rw [h₄.ending hd, if_neg, hi₃]
    rintro rfl
    rw [hdopen] at hi₃
    cases hi₃
  have hend : s₄.function.ending c = some t := by
    refine hended₂ ?_
    rw [h₂.ending hc₁, if_pos rfl]
  have hsize : s.function.blocks.size + 2 ≤ s₄.function.blocks.size := by
    rw [h₄.size, ← hsize₂]
    exact h₃.size
  have husucc : ∀ i ∈ u.successors, i = y := by
    intro i hi
    rcases hu with rfl | ⟨rfl, -⟩
    · simpa [Terminator.successors] using hi
    · simp [Terminator.successors] at hi
  have hsucc : ∀ {i j : BlockId}, i ∈ s₄.function.succs j →
      i = y ∨ i ∈ s₃.function.succs j := by
    intro i j hi
    rw [succs_turns h₄ hd] at hi
    split at hi
    · exact .inl (husucc i hi)
    · exact .inr hi
  have hin : Inside s s₄ :=
    ((h₁.toInside.trans h₂.toInside).trans h₃.toInside).trans h₄.toInside
  exact {
    toInside := hin
    opened := ⟨hin.valid ho.valid, y, h₄.current, by omega, hyopen⟩
    size := by omega
    keep := fun {i} hi hne => by
      have hic : i ≠ c := fun he => hne (he ▸ hc)
      rw [hold (by omega) (by rintro rfl; omega), if_neg hic]
    ended := fun {i v} hi => by
      refine hended₂ ?_
      rw [h₂.ending hc₁, if_neg, h₁.ending, hi]
      rintro rfl
      rw [hcopen] at hi
      cases hi
    current := .inr ⟨y, h₄.current, by omega⟩
    edges := fun {i j} hi hj => by
      rcases hsucc hj with rfl | hj
      · omega
      · have hj₂ := h₃.edges (by omega) hj
        rw [succs_turns h₂ hc₁] at hj₂
        split at hj₂
        · rcases (ht i).1 hj₂ with rfl | rfl <;> omega
        · rw [Function.succs, h₁.ending] at hj₂
          exact hj₂
    bounded := fun hb {i j} hj => by
      have hb₂ : s₂.function.Bounded := by
        intro i j hj
        rw [succs_turns h₂ hc₁] at hj
        split at hj
        · rcases (ht i).1 hj with rfl | rfl <;> omega
        · rw [Function.succs, h₁.ending] at hj
          have := hb hj
          omega
      rcases hsucc hj with rfl | hj
      · omega
      · rw [h₄.size]
        exact h₃.bounded hb₂ hj
    path := fun hc' hd' => by
      obtain rfl : c = _ := Option.some.inj (hc.symm.trans hc')
      obtain rfl : y = _ := Option.some.inj (h₄.current.symm.trans hd')
      refine .single ?_
      show y ∈ s₄.function.succs c
      rw [Function.succs, hend]
      exact (ht y).2 (.inr rfl)
    opens := fun {i} hi hn => by
      have hid : i ≠ d := by
        rintro rfl
        rw [h₄.ending hd, if_pos rfl] at hn
        cases hn
      have hn₃ : s₃.function.ending i = none := by
        rw [h₄.ending hd, if_neg hid] at hn
        exact hn
      rcases h₃.opens (by rw [← h₄.size]; exact hi) hn₃ with hcur | ⟨hlt, hne⟩
      · exact absurd (Option.some.inj (hcur.symm.trans hd)) hid
      · have hix : i ≠ x := fun he => hne (he ▸ h₂.current)
        by_cases hiy : i = y
        · exact .inl (hiy ▸ h₄.current)
        · have hnx : i.index ≠ x.index := fun he => hix (Id.ext he)
          have hny : i.index ≠ y.index := fun he => hiy (Id.ext he)
          refine .inr ⟨by omega, fun hcur => ?_⟩
          rw [hc] at hcur
          cases hcur
          rw [hend] at hn
          cases hn
    terminators := by
      have h₅ := h₃.terminators
      rw [h₂.terminators, h₁.terminators] at h₅
      rw [h₄.terminators]
      omega
    steady := fun he => by
      have h₅ := h₃.terminators
      rw [h₂.terminators, h₁.terminators] at h₅
      rw [h₄.terminators] at he
      omega
    deadEnds := fun {i} hi => by
      by_cases hid : i = d
      · subst hid
        rcases hu with rfl | ⟨-, hh⟩
        · rw [h₄.ending hd, if_pos rfl] at hi
          cases hi
        · exact .inr (halts_mono (hh i hd) h₄.code h₄.hosts)
      · rw [h₄.ending hd, if_neg hid] at hi
        rcases h₃.deadEnds hi with hi | hh
        · rw [h₂.ending hc₁] at hi
          split at hi
          · have := (ht x).2 (.inl rfl)
            rw [Option.some.inj hi] at this
            simp [Terminator.successors] at this
          · exact .inl (by rw [← h₁.ending]; exact hi)
        · exact .inr (halts_mono hh h₄.code h₄.hosts) }

/-- An operation that advances from an open block to an open block. -/
structure IsAdvance {α : Type} (x : Emit α) : Prop where
  sat : ∀ b : Builder, b.Opened → x.Sat b fun _ b' => Advances b b'

section

variable {α β : Type}

theorem IsAdvance.steps {x : Emit α} (h : IsAdvance x) {b : Builder} (ho : b.Opened) :
    ∃ a b', x b = (a, b') ∧ Advances b b' := ⟨_, _, rfl, h.sat b ho⟩

theorem IsInline.isAdvance {x : Emit α} (h : IsInline x) : IsAdvance x :=
  ⟨fun b ho => (h.sat b ho.valid).imp fun _ _ hi => hi.advances ho⟩

theorem IsAdvance.bind {x : Emit α} {f : α → Emit β} (h : IsAdvance x) (k : ∀ a, IsAdvance (f a)) :
    IsAdvance (x >>= f) :=
  ⟨fun b ho => Sat.bind (h.sat b ho) fun a b₁ h₁ =>
    ((k a).sat b₁ h₁.opened).imp fun _ _ h₂ => h₁.trans h₂⟩

theorem IsAdvance.get_bind {f : Builder → Emit α} (h : ∀ b, IsAdvance (f b)) :
    IsAdvance (get >>= f) := ⟨fun b => (h b).sat b⟩

theorem IsInline.advance {x : Emit α} {f : α → Emit β} (h : IsInline x) (k : ∀ a, IsAdvance (f a)) :
    IsAdvance (x >>= f) := h.isAdvance.bind k

end

end Emit

end BlockForge.Ir
