import BlockForge.Proofs.Lowering.Renumbering.Builder
import BlockForge.Proofs.Lowering.Tandem.Sequences

/-!
# Calls of the host in between

What an allocator emits leaves everything as it is but for new values and calls of the host. So two builders stay
side by side when each goes through an allocation of its own; and a new vector is made in step up to the elements and
the capacity that its descriptor starts with.
-/

namespace BlockForge.Ir

open StateM

/-! ### One builder -/

/-- The same block with more calls of the host. -/
structure Block.CalledOut (b b' : Block) : Prop where
  name : b'.name = b.name
  terminator : b'.terminator = b.terminator
  own : ownCode b'.insts = ownCode b.insts
  orderly : Orderly b.insts.toList → Orderly b'.insts.toList

/-- The same function with more values and more calls of the host, of which some may be new. -/
structure Builder.CalledOut (hosts : Set HostDecl) (b b' : Builder) : Prop where
  current : b'.current = b.current
  terminators : b'.terminators = b.terminators
  along : b'.Along b.module b.func
  hosts : ∀ d ∈ b'.module.hosts.toList, d ∈ b.module.hosts.toList ∨ d ∈ hosts
  values : b.function.values.toList <+: b'.function.values.toList
  blocks : Paired Block.CalledOut b.function.blocks b'.function.blocks

namespace Builder.CalledOut

variable {hosts : Set HostDecl} {b c d : Builder}

theorem same_blocks (bs : Array Block) : Paired Block.CalledOut bs bs := .same fun _ _ => ⟨rfl, rfl, rfl, id⟩

theorem refl (hv : b.func.index < b.module.functions.size) : CalledOut hosts b b :=
  ⟨rfl, rfl, .refl hv, fun _ => .inl, List.prefix_refl _, same_blocks _⟩

theorem trans (h : CalledOut hosts b c) (k : CalledOut hosts c d) : CalledOut hosts b d where
  current := k.current.trans h.current
  terminators := k.terminators.trans h.terminators
  along := h.along.trans k.along
  hosts e he := (k.hosts e he).elim (h.hosts e) .inr
  values := h.values.trans k.values
  blocks := h.blocks.comp k.blocks fun _ _ _ hx hy =>
    ⟨hy.name.trans hx.name, hy.terminator.trans hx.terminator, hy.own.trans hx.own, hy.orderly ∘ hx.orderly⟩

theorem demand (hv : b.func.index < b.module.functions.size) (e : Demand) (met : Bool) :
    CalledOut hosts b (b.demand e met) := by
  cases met <;> exact ⟨rfl, rfl, (Along.refl hv).of_eq rfl rfl, fun _ => .inl, List.prefix_refl _, same_blocks _⟩

theorem modifyFunction (hv : b.func.index < b.module.functions.size) {F : Function → Function}
    (hF : (F b.function).head = b.function.head)
    (hvalues : b.function.values.toList <+: (F b.function).values.toList)
    (hblocks : Paired Block.CalledOut b.function.blocks (F b.function).blocks) :
    CalledOut hosts b (b.modifyFunction F) := by
  refine ⟨rfl, rfl, (Along.refl hv).modifyFunction hF, fun _ => .inl, ?_, ?_⟩
  · rw [function_modifyFunction hv]
    exact hvalues
  · rw [function_modifyFunction hv]
    exact hblocks

theorem onModule {m : Module} (hv : b.func.index < b.module.functions.size) (hm : b.module.Grows m)
    (hf : m.functions = b.module.functions) (hh : ∀ d ∈ m.hosts.toList, d ∈ b.module.hosts.toList ∨ d ∈ hosts) :
    CalledOut hosts b { b with module := m } := by
  refine ⟨rfl, rfl, (Along.refl hv).onModule hm hf, hh, ?_, ?_⟩
  · rw [function_onModule b hf]
  · rw [function_onModule b hf]
    exact same_blocks _

end Builder.CalledOut

theorem Builder.CalledOut.size_le {hosts : Set HostDecl} {b b' : Builder} (h : b.CalledOut hosts b') :
    b.function.values.size ≤ b'.function.values.size := by simpa using h.values.length_le

/-- The function has the same parameters and keeps its values. -/
theorem Builder.CalledOut.widens {hosts : Set HostDecl} {b b' : Builder} (h : b.CalledOut hosts b') :
    b.function.Widens b'.function := by
  have hhead := h.along.heads b'.func
  rw [function?_eq h.along.valid, h.along.func, eq_comm] at hhead
  obtain ⟨f, hf, hhead⟩ := Option.map_eq_some_iff.1 hhead
  have hfunction : b.function = f := by rw [Builder.function, hf, Option.getD_some]
  exact ⟨by rw [hfunction]; exact congrArg (·.2.1) hhead.symm, h.values⟩

namespace Emit

open Builder

variable {hosts : Set HostDecl} {b : Builder}

theorem pushValue_calledOut (hv : b.func.index < b.module.functions.size) (ty : Ty) (kind : ValueKind) (name : String) :
    b.CalledOut hosts (pushValue ty kind name b).2 :=
  .modifyFunction hv rfl (by simp) (CalledOut.same_blocks _)

theorem pushValue_value (hv : b.func.index < b.module.functions.size) (ty : Ty) (kind : ValueKind) (name : String) :
    (pushValue ty kind name b).2.function.value? (pushValue ty kind name b).1 = some ⟨ty, kind, name⟩ := by
  show (b.modifyFunction (·.addValue ⟨ty, kind, name⟩)).function.value? ⟨b.function.values.size⟩ = _
  rw [function_modifyFunction hv]
  simp [Function.value?, Function.addValue]

/-- A call of the host adds nothing of a block's own. -/
theorem insert_calledOut (hv : b.func.index < b.module.functions.size) (r : Option ValueId) (host : HostId)
    (args : List ValueId) (ret : Ty) : b.CalledOut hosts (insert (.call (.host host) args ret) r b).2 := by
  simp only [insert, modify, modifyGet, MonadStateOf.modifyGet, StateT.modifyGet, pure]
  split
  · exact .demand hv ..
  · rename_i i _
    split
    · exact .demand hv ..
    · refine .modifyFunction hv rfl (List.prefix_refl _) ?_
      -- only one block gets an instruction
      refine .of_entries (by simp) fun j x y hx hy => ?_
      rw [Array.getElem?_modify, hx] at hy
      split at hy
      · cases hy
        refine ⟨rfl, rfl, by simp [ownCode, InstKind.callsHost], fun ho => ?_⟩
        rw [Array.toList_push]
        exact ho.append_one rfl rfl
      · cases hy
        exact ⟨rfl, rfl, rfl, id⟩

theorem declareHost_calledOut (hv : b.func.index < b.module.functions.size) {name : String} {params : List Ty}
    {ret : Ty} (hd : ⟨name, params, ret⟩ ∈ hosts) :
    b.CalledOut hosts (Emit.onModule (·.declareHost name params ret) b).2 := by
  obtain ⟨hm, hf⟩ := b.module.declareHost_grows name params ret
  have hhosts : ∀ d ∈ (b.module.declareHost name params ret).2.hosts.toList,
      d ∈ b.module.hosts.toList ∨ d ∈ hosts := by
    unfold Module.declareHost
    split
    · exact fun _ => .inl
    · intro d hmem
      rcases (by simpa using hmem : d ∈ b.module.hosts ∨ d = _) with hmem | rfl
      · exact .inl (by simpa using hmem)
      · exact .inr hd
  exact .onModule hv hm hf hhosts

theorem callHost_calledOut (hv : b.func.index < b.module.functions.size) (host : HostId) (args : List ValueId)
    (name : String) : b.CalledOut hosts (callHost host args name b).2 := by
  have hrun : ∀ ret, b.CalledOut hosts (callAt (.host host) ret args name b).2 := by
    intro ret
    unfold callAt
    split
    · exact insert_calledOut hv ..
    · have hpush : b.CalledOut hosts (pushValue ret (.inst (b.current.getD Id.entry)) name b).2 :=
        pushValue_calledOut hv ..
      exact hpush.trans (insert_calledOut hpush.along.valid ..)
  exact hrun _

/-- Code that calls out adds values and calls of the host, and nothing else. -/
theorem CallsOut.calledOut {α : Type} {x : Emit α} (h : x.CallsOut hosts) :
    ∀ {b : Builder}, b.func.index < b.module.functions.size → b.CalledOut hosts (x b).2 := by
  induction h with
  | pure a => exact .refl
  | bind hx hf ihx ihf => exact fun hv => (ihx hv).trans (ihf _ (ihx hv).along.valid)
  | get => exact .refl
  | constInt ty value => exact fun hv => pushValue_calledOut hv ..
  | constFloat ty value => exact fun hv => pushValue_calledOut hv ..
  | constNull => exact fun hv => pushValue_calledOut hv ..
  | globalString text =>
    intro b hv
    have hm : b.CalledOut hosts { b with module := (b.module.addString text).2 } :=
      .onModule hv (addString_grows b.module text) rfl fun _ => .inl
    exact hm.trans (pushValue_calledOut hm.along.valid ..)
  | declareHost hd => exact fun hv => declareHost_calledOut hv hd
  | callHost host args name => exact fun hv => callHost_calledOut hv ..

/-- Code that calls out has run in the function that was built with it. -/
theorem CallsOut.ran {α : Type} {x : Emit α} (h : x.CallsOut hosts) (hv : b.func.index < b.module.functions.size) :
    (x b).2.function.Ran b.current x b.function.values.size (x b).1 (x b).2.function.values.size :=
  ⟨b, rfl, rfl, rfl, rfl, (h.calledOut hv).widens, .refl _⟩

/-! ### Two instructions in a row -/

theorem demand_breaking (b : Builder) (e : Demand) (met : Bool) : ∃ w, b.demand e met = b.breaking w := by
  cases met
  · exact ⟨_, rfl⟩
  · exact ⟨b.broken, rfl⟩

theorem fieldPtr_placed (b : Builder) (struct : StructId) (d : ValueId) (field : Nat) (name : String) :
    (fieldPtr struct d field name b).1 = ⟨b.function.values.size⟩ ∧ ∃ w, (fieldPtr struct d field name b).2 =
      ((b.modifyFunction (·.addValue ⟨.ptr, .inst (b.current.getD Id.entry), name⟩)).place
        [⟨some ⟨b.function.values.size⟩, .fieldPtr struct d field⟩]).breaking w := by
  obtain ⟨w, hw⟩ := demand_breaking b .fieldExists (decide (field < (b.module.structFields struct).length))
  obtain ⟨w', hw'⟩ := insert_eq_place (.fieldPtr struct d field) (some ⟨b.function.values.size⟩)
    ((b.modifyFunction (·.addValue ⟨.ptr, .inst (b.current.getD Id.entry), name⟩)).breaking w)
  rw [place_breaking] at hw'
  have hrun : fieldPtr struct d field name b = emit .ptr (.fieldPtr struct d field) name
      (b.demand .fieldExists (decide (field < (b.module.structFields struct).length))) := rfl
  rw [hrun, hw]
  exact ⟨rfl, w', hw'⟩

theorem store_placed (b : Builder) (u p : ValueId) :
    ∃ w, (store u p b).2 = (b.place [⟨none, .store u p⟩]).breaking w := by
  obtain ⟨w, hw⟩ := demand_breaking b .pointer (b.valueType p).isPtr
  obtain ⟨w', hw'⟩ := insert_eq_place (.store u p) none (b.breaking w)
  rw [place_breaking] at hw'
  refine ⟨w', ?_⟩
  show (emitVoid (.store u p) (b.demand .pointer (b.valueType p).isPtr)).2 = _
  rw [hw]
  exact hw'

end Emit

end BlockForge.Ir

namespace BlockForge.Lowering

open Ir (Builder Emit HostDecl Known Linkable Numbering Role Setting ValueId Variation)
open StateM

/-! ### Two builders -/

theorem HostsOf.calledOut {own hosts : Set HostDecl} {b b' : Builder} (h : HostsOf own b.module)
    (k : b.CalledOut hosts b') (hh : ∀ d ∈ hosts, d ∈ own ∨ d.name = boundsErrorHook) : HostsOf own b'.module :=
  fun d hd => (k.hosts d hd).elim (h d) (hh d)

section

variable {S : Setting} {N M : Numbering} {b b' c c' : Builder} {hosts hosts' : Set HostDecl}

/-- Builders stay side by side when each of them calls out. -/
theorem callOut (h : b.Renumbered S N c) (hb : b.CalledOut hosts b') (hc : c.CalledOut hosts' c')
    (hl : ∀ d ∈ hosts, d ∈ S.leftHosts ∨ d.name = boundsErrorHook)
    (hr : ∀ d ∈ hosts', d ∈ S.rightHosts ∨ d.name = boundsErrorHook) (hM : N ≤ M)
    (hv : M.Fits S.contrast b'.module.shared c'.module.shared b'.function c'.function) : b'.Renumbered S M c' where
  current := by rw [hb.current, hc.current, h.current]
  terminators := by rw [hb.terminators, hc.terminators, h.terminators]
  left := h.left.trans hb.along
  right := h.right.trans hc.along
  leftHosts := h.leftHosts.calledOut hb hl
  rightHosts := h.rightHosts.calledOut hc hr
  values := hv
  blocks := by
    have hright := h.blocks.comp hc.blocks fun x y y' (hxy : Ir.Block.Abreast N x y) hy =>
      (⟨hy.name.trans hxy.name, ⟨hxy.insts.left, hy.orderly hxy.insts.right, hy.own ▸ hxy.insts.own⟩,
        hy.terminator ▸ hxy.terminator⟩ : Ir.Block.Abreast N x y')
    refine hb.blocks.flip.comp hright fun x' x y hx hxy => ?_
    refine Ir.Block.Abreast.mono ⟨hxy.name.trans hx.name.symm, ?_, ?_⟩ hM
    · exact ⟨hx.orderly hxy.insts.left, hxy.insts.right, hx.own ▸ hxy.insts.own⟩
    · exact hx.terminator ▸ hxy.terminator

theorem callBoundsError_callsOut (index size : ValueId) :
    (callBoundsError index size).CallsOut {d | d.name = boundsErrorHook} :=
  .bind .get fun _ => .bind (.declareHost rfl) fun _ => .bind (.callHost ..) fun _ => .pure ()

/-! ### Addresses -/

/-- An allocator that gives another value each time. -/
def Allocator.GivesNew (a : Allocator) : Prop :=
  ∀ size kind name (b : Builder), b.func.index < b.module.functions.size →
    (a.allocate size kind name).Sat b fun v _ => b.function.values.size ≤ v.index

theorem callAllocator_givesNew {b : Builder} (hv : b.func.index < b.module.functions.size) (symbol : String)
    (params : List Ir.Ty) (args : List ValueId) (name : String) :
    (Allocator.callAllocator symbol params args name).Sat b fun v _ => b.function.values.size ≤ v.index := by
  have hdecl : b.CalledOut Set.univ (Emit.onModule (·.declareHost symbol params .ptr) b).2 :=
    Emit.declareHost_calledOut hv (Set.mem_univ _)
  refine Sat.bind (P := fun _ b' => b'.func.index < b'.module.functions.size ∧
    b.function.values.size ≤ b'.function.values.size) ⟨hdecl.along.valid, hdecl.size_le⟩ ?_
  rintro host b' ⟨hv', hb'⟩
  -- the result is new, and if there is none, the null behind it
  refine Sat.bind (P := fun r b'' => b.function.values.size ≤ b''.function.values.size ∧
    ∀ v, r = some v → b.function.values.size ≤ v.index) ?_ ?_
  · have hcall : b'.CalledOut Set.univ (Emit.callHost host args name b').2 := Emit.callHost_calledOut hv' ..
    refine ⟨Nat.le_trans hb' hcall.size_le, ?_⟩
    have hresult : ∀ ret v, (Emit.callAt (.host host) ret args name b').1 = some v → v = ⟨b'.function.values.size⟩ := by
      intro ret v hr
      unfold Emit.callAt at hr
      split at hr
      · cases hr
      · exact (Option.some.inj hr).symm
    intro v hr
    rw [hresult _ v hr]
    exact hb'
  · rintro (_ | v) b'' ⟨hb'', hr⟩
    · exact hb''
    · exact hr v rfl

theorem collector_givesNew : Allocator.GivesNew .collector := fun _ _ _ _ hv => callAllocator_givesNew hv ..

theorem flagged_givesNew : Allocator.GivesNew .flagged := by
  intro size kind name b hv
  have hflag : b.CalledOut Set.univ (Emit.constBool (kind = .noReferences) b).2 := Emit.pushValue_calledOut hv ..
  exact Nat.le_trans hflag.size_le (callAllocator_givesNew hflag.along.valid ..)

/-- Code that calls out and gives an address, a new one if that is asked. -/
structure GivesAddress (own : Set HostDecl) (anew : Prop) (x : Emit ValueId) : Prop where
  code : x.CallsOut own
  address : ∀ b : Builder, b.func.index < b.module.functions.size → HostsOf own b.module →
    x.Sat b fun v b' => IsAddress b' v
  anew : anew → ∀ b : Builder, b.func.index < b.module.functions.size →
    x.Sat b fun v _ => b.function.values.size ≤ v.index

theorem Allocator.CallsOut.givesAddress {own : Set HostDecl} {anew : Prop} {a : Allocator} (h : a.CallsOut own)
    (hn : anew → a.GivesNew) (size : ValueId) (kind : AllocKind) (name : String) :
    GivesAddress own anew (a.allocate size kind name) :=
  ⟨h.code size kind name, h.address size kind name, fun ha => hn ha size kind name⟩

theorem IsAddress.value {v : ValueId} (h : IsAddress b v) : ∃ x, b.function.value? v = some x ∧ x.IsAddress := by
  obtain ⟨hty, hnum⟩ := h
  cases hx : b.function.value? v with
  | none => simp [Builder.valueType, Ir.Function.valueType, hx] at hty
  | some x =>
    refine ⟨x, rfl, by simpa [Builder.valueType, Ir.Function.valueType, hx] using hty, fun bits hk => ?_⟩
    obtain ⟨ty, kind, name⟩ := x
    dsimp only at hk
    subst hk
    simp [Builder.constIntValue?, hx] at hnum

/-- Both get an address in a way of their own. -/
theorem address_coupled (h : b.Renumbered S N c) {x y : Emit ValueId} (hx : GivesAddress S.leftHosts S.anew x)
    (hy : GivesAddress S.rightHosts S.anew y) {role : Role}
    (hrole : role = .given ∨ role = .initial S.descriptor .elems)
    (ht : ∀ {f g m m' n n' a a'}, N.Traced S.contrast f g m n → f.Ran b.current x m a m' → g.Ran b.current y n a' n' →
      (N.add role (a, a')).Traced S.contrast f g m' n') :
    x.Coupled b y c fun v b' w c' => b'.Renumbered S (N.add role (v, w)) c' := by
  have hb := hx.code.calledOut h.left.valid
  have hc := hy.code.calledOut h.right.valid
  obtain ⟨u, hu, hau⟩ := (hx.address b h.left.valid h.leftHosts).value
  obtain ⟨w, hw, haw⟩ := (hy.address c h.right.valid h.rightHosts).value
  have hrel : role.Relates S.contrast (x b).2.module.shared (y c).2.module.shared u w := by
    rcases hrole with rfl | rfl
    · exact ⟨hau, haw⟩
    · exact ⟨rfl, hau, haw⟩
  refine callOut h hb hc (fun _ => .inl) (fun _ => .inl) (N.le_add _ _) ?_
  have hran := hy.code.ran h.right.valid
  rw [h.current] at hran
  refine h.values.add hb.widens hc.widens hb.along.shared hc.along.shared hu hw hrel
    (fun hn => ht hn (hx.code.ran h.left.valid) hran) fun hr => ?_
  have hanew : S.anew := hr.resolve_left (by rcases hrole with rfl | rfl <;> simp)
  exact ⟨hx.anew hanew b h.left.valid, hy.anew hanew c h.right.valid⟩

end

/-! ### New vectors -/

section

variable {S : Setting} {N : Numbering} {b c : Builder} {v : VectorShape} {x y : Allocator}

theorem newBuffer_givesAddress {own : Set HostDecl} {anew : Prop}
    (h : ∀ size kind name, GivesAddress own anew (v.allocator.allocate size kind name)) (capacity : UInt64) :
    GivesAddress own anew (v.newBuffer capacity) := by
  unfold VectorShape.newBuffer
  split
  · have hsize : (Emit.constUsize (v.initialBytes capacity)).CallsOut own := .bind .get fun _ => .constInt ..
    have hpush := fun (b : Builder) hv => (hsize.calledOut (b := b) hv)
    refine ⟨.bind hsize fun size => (h ..).code, fun b hv hb => ?_, fun ha b hv => ?_⟩
    · exact (h ..).address _ (hpush b hv).along.valid (hb.calledOut (hpush b hv) fun _ => .inl)
    · exact Nat.le_trans (hpush b hv).size_le ((h ..).anew ha _ (hpush b hv).along.valid)
  · refine ⟨.constNull, fun b hv _ => ?_, fun _ b _ => Nat.le_refl _⟩
    have hnull := Emit.pushValue_value hv .ptr .constNull ""
    exact ⟨by rw [Builder.valueType, Ir.Function.valueType, Emit.constNull, hnull],
      by rw [Builder.constIntValue?, Emit.constNull, hnull]⟩

theorem constInt_coupled (h : b.Renumbered S N c) (t : Ir.Ty) (n : UInt64) :
    (Emit.constInt t n).Coupled b (Emit.constInt t n) c fun v b' w c' => b'.Renumbered S (N.add .own (v, w)) c' :=
  h.addValue (.same (by simp))

/-- Each gets its own capacity. -/
theorem capacity_coupled (h : b.Renumbered S N c) :
    (Emit.constUsize S.leftCapacity).Coupled b (Emit.constUsize S.rightCapacity) c fun v b' w c' =>
      b'.Renumbered S (N.add (.initial S.descriptor .capacity) (v, w)) c' := by
  have hcalled : ∀ {b : Builder} (n : UInt64), b.func.index < b.module.functions.size →
      b.CalledOut ∅ (Emit.constUsize n b).2 := fun n hv =>
    Emit.CallsOut.calledOut (.bind .get fun _ => .constInt ..) hv
  have hvalue : ∀ {b : Builder} {m : Ir.Module} (n : UInt64), b.Along m S.func →
      (Emit.constUsize n b).2.function.value? (Emit.constUsize n b).1 = some (m.word n) := by
    intro b m n hb
    have hword : m.word n = b.module.word n := by
      rw [Ir.Module.word, Ir.Module.word, Ir.Module.ptrInt, Ir.Module.ptrInt, hb.pointerBits]
    rw [hword]
    exact Emit.pushValue_value hb.valid ..
  have hb := hcalled S.leftCapacity h.left.valid
  have hc := hcalled S.rightCapacity h.right.valid
  refine callOut h hb hc (fun _ hd => hd.elim) (fun _ hd => hd.elim) (N.le_add _ _) ?_
  have hsize : ∀ {b : Builder} (n : UInt64), b.func.index < b.module.functions.size →
      (Emit.constUsize n b).2.function.values.size = b.function.values.size + 1 := by
    intro b n hv
    show (b.modifyFunction (·.addValue (b.module.word n))).function.values.size = _
    rw [Builder.function_modifyFunction hv]
    simp [Ir.Function.addValue]
  have hrel : (Role.initial S.descriptor .capacity).Relates S.contrast (Emit.constUsize S.leftCapacity b).2.module.shared
      (Emit.constUsize S.rightCapacity c).2.module.shared (S.left.word S.leftCapacity) (S.right.word S.rightCapacity) :=
    ⟨rfl, rfl, rfl⟩
  refine h.values.add hb.widens hc.widens hb.along.shared hc.along.shared (hvalue _ h.left) (hvalue _ h.right) hrel
    (fun ht => ?_) fun _ => ⟨Nat.le_refl _, Nat.le_refl _⟩
  rw [hsize _ h.left.valid, hsize _ h.right.valid]
  exact ht.capacity

/-- The field of a descriptor is set by two instructions in a row. -/
theorem storeField_eq {b : Builder} (hv : b.func.index < b.module.functions.size) (d : ValueId) (field : VectorField)
    (u : ValueId) : ∃ w, (v.storeField d field u b).2 =
      ((b.modifyFunction (·.addValue ⟨.ptr, .inst (b.current.getD Ir.Id.entry), field.label⟩)).place
        [⟨some ⟨b.function.values.size⟩, .fieldPtr v.struct d field.position⟩,
          ⟨none, .store u ⟨b.function.values.size⟩⟩]).breaking w := by
  have hv' := ((Builder.Along.refl hv).modifyFunction
    (F := (·.addValue ⟨.ptr, .inst (b.current.getD Ir.Id.entry), field.label⟩)) rfl).valid
  obtain ⟨hvalue, w, hfield⟩ := Emit.fieldPtr_placed b v.struct d field.position field.label
  obtain ⟨w', hstore⟩ := Emit.store_placed (Emit.fieldPtr v.struct d field.position field.label b).2 u
    ⟨b.function.values.size⟩
  refine ⟨w', ?_⟩
  show (Emit.store u (Emit.fieldPtr v.struct d field.position field.label b).1
    (Emit.fieldPtr v.struct d field.position field.label b).2).2 = _
  rw [hvalue, hstore, hfield, Builder.place_breaking, Builder.place_place hv']
  rfl

/-- The same field is set to values that correspond. -/
theorem storeField_coupled (h : b.Renumbered S N c) {d d' u u' : ValueId} (hd : (d, d') ∈ N.links)
    (field : VectorField) (hu : (u, u') ∈ N.links ∨ (u, u') ∈ N (.initial v.struct field)) :
    (v.storeField d field u).Coupled b ((v.on y).storeField d' field u') c fun _ b' _ c' =>
      ∃ M, N ≤ M ∧ b'.Renumbered S M c' := by
  obtain ⟨w, hb⟩ := storeField_eq (v := v) h.left.valid d field u
  obtain ⟨w', hc⟩ := storeField_eq (v := v.on y) h.right.valid d' field u'
  have hadd := h.addValue (x := ⟨.ptr, .inst (b.current.getD Ir.Id.entry), field.label⟩) (.same (by simp))
  let p : ValueId × ValueId := (⟨b.function.values.size⟩, ⟨c.function.values.size⟩)
  have hlinks := Numbering.links_mono (N.le_add .own p)
  have hcode : Ir.Code.Renumbered (N.add .own p)
      [⟨some p.1, .fieldPtr v.struct d field.position⟩, ⟨none, .store u p.1⟩]
      [⟨some p.2, .fieldPtr v.struct d' field.position⟩, ⟨none, .store u' p.2⟩] := by
    rcases hu with hu | hu
    · exact .cons (.some (N.mem_add ..)) (.fieldPtr _ (hlinks hd) _)
        (.cons .none (.store (hlinks hu) (.inl (N.mem_add ..))) .nil)
    · exact .initial v.struct field (N.mem_add ..) (hlinks hd) (N.le_add _ _ _ hu) .nil
  have hplace := hadd.place hcode (by
    rintro x hx
    rcases (by simpa using hx : x = _ ∨ x = _ ∨ x = _ ∨ x = _) with rfl | rfl | rfl | rfl <;> exact ⟨rfl, rfl, rfl⟩)
  refine ⟨_, N.le_add .own p, ?_⟩
  rw [hb, hc, h.current]
  exact hplace.breaking w w'

/-! ### The tandem -/

/-- What a failed bounds check calls is in between as well. -/
theorem callBoundsError_follows {known : List (ValueId × ValueId)} {i i' n n' : ValueId} (hi : Known known i i')
    (hn : Known known n n') : Follows S.Rel known (callBoundsError i n) (callBoundsError i' n') := by
  refine Setting.follows_of (fun _ _ => rfl) fun {N b c} hN h => ⟨(Linkable.same_unit ..).2 trivial, ?_⟩
  have hleft := callBoundsError_callsOut i n
  have hright := callBoundsError_callsOut i' n'
  have hb := hleft.calledOut h.left.valid
  have hc := hright.calledOut h.right.valid
  have hran := hright.ran h.right.valid
  rw [h.current] at hran
  have hv := h.values.grows hb.widens hc.widens hb.along.shared hc.along.shared fun ht =>
    ht.hook (hN _ hi) (hN _ hn) (hleft.ran h.left.valid) hran
  exact callOut h hb hc (fun _ => .inr) (fun _ => .inr) (le_refl N) hv

def lockstep (S : Setting) : Tandem where
  toTandem := S.tandem
  reports := Eq
  report h d := by rw [h]
  boundsError := callBoundsError_follows

/-- The allocators of two lowerings. -/
structure Allocates (V : Variation) : Prop where
  left : V.leftAllocator.CallsOut V.leftHosts
  right : V.rightAllocator.CallsOut V.rightHosts
  anew : V.anew → V.leftAllocator.GivesNew ∧ V.rightAllocator.GivesNew

namespace Allocates

variable {V : Variation} {known : List (ValueId × ValueId)}

theorem givesLeft (h : Allocates V) (size : ValueId) (kind : AllocKind) (name : String) :
    GivesAddress V.leftHosts V.anew (V.leftAllocator.allocate size kind name) :=
  h.left.givesAddress (fun ha => (h.anew ha).1) ..

theorem givesRight (h : Allocates V) (size : ValueId) (kind : AllocKind) (name : String) :
    GivesAddress V.rightHosts V.anew (V.rightAllocator.allocate size kind name) :=
  h.right.givesAddress (fun ha => (h.anew ha).2) ..

theorem follows (h : Allocates S.toVariation) : S.leftAllocator.Follows (lockstep S) S.rightAllocator := by
  intro known size size' kind name hsize
  refine ⟨fun {L b c} hL ⟨N, hN, hbc⟩ => ?_⟩
  have haddr := address_coupled hbc (h.givesLeft size kind name) (h.givesRight size' kind name) (.inl rfl)
    fun ht hf hg => ht.given (hN (hL _ hsize)) hf hg
  refine ⟨_, hN.trans (Numbering.links_mono (N.le_add _ _)), .of haddr, trivial, fun p hp => ?_⟩
  obtain rfl := List.mem_singleton.1 hp
  exact .inr (N.mem_add ..)

/-- Descriptors are filled in step: with addresses and capacities of their own, and with size zero. -/
theorem fill_coupled (h : Allocates S.toVariation) (hv : v.allocator = S.leftAllocator) (hs : v.struct = S.descriptor)
    (hbc : b.Renumbered S N c) {d d' : ValueId} (hd : (d, d') ∈ N.links) (t : Ir.Ty) :
    (v.newBuffer S.leftCapacity >>= fun elems => do
      let zero ← Emit.constInt t 0
      let cap ← Emit.constUsize S.leftCapacity
      v.storeField d .elems elems
      v.storeField d .size zero
      v.storeField d .capacity cap
      pure d).Coupled b ((v.on S.rightAllocator).newBuffer S.rightCapacity >>= fun elems => do
      let zero ← Emit.constInt t 0
      let cap ← Emit.constUsize S.rightCapacity
      (v.on S.rightAllocator).storeField d' .elems elems
      (v.on S.rightAllocator).storeField d' .size zero
      (v.on S.rightAllocator).storeField d' .capacity cap
      pure d') c fun r b' r' c' => r = d ∧ r' = d' ∧ ∃ M, N ≤ M ∧ b'.Renumbered S M c' := by
  have hleft := newBuffer_givesAddress (v := v) (by rw [hv]; exact h.givesLeft) S.leftCapacity
  have hright := newBuffer_givesAddress (v := v.on S.rightAllocator) h.givesRight S.rightCapacity
  refine Coupled.bind (address_coupled hbc hleft hright (.inr rfl) fun ht hf hg => ?_) ?_
  · obtain ⟨struct, elem, size, kind, allocator⟩ := v
    obtain rfl : allocator = S.leftAllocator := hv
    exact ht.elems hs hf hg
  intro elems b₁ elems' c₁ h₁
  have helems := N.mem_add (.initial S.descriptor .elems) (elems, elems')
  have hle₁ := N.le_add (.initial S.descriptor .elems) (elems, elems')
  generalize N.add (.initial S.descriptor .elems) (elems, elems') = N₁ at h₁ helems hle₁
  refine Coupled.bind (constInt_coupled h₁ t 0) ?_
  intro zero b₂ zero' c₂ h₂
  have hzero := N₁.mem_add .own (zero, zero')
  have hle₂ := N₁.le_add .own (zero, zero')
  generalize N₁.add .own (zero, zero') = N₂ at h₂ hzero hle₂
  refine Coupled.bind (capacity_coupled h₂) ?_
  intro cap b₃ cap' c₃ h₃
  have hcap := N₂.mem_add (.initial S.descriptor .capacity) (cap, cap')
  have hle₃ := N₂.le_add (.initial S.descriptor .capacity) (cap, cap')
  generalize N₂.add (.initial S.descriptor .capacity) (cap, cap') = N₃ at h₃ hcap hle₃
  have hle : N ≤ N₃ := (hle₁.trans hle₂).trans hle₃
  refine Coupled.bind (storeField_coupled h₃ (Numbering.links_mono hle hd) .elems
    (.inr (hs ▸ (hle₂.trans hle₃) _ helems))) ?_
  rintro - b₄ - c₄ ⟨N₄, hle₄, h₄⟩
  refine Coupled.bind (storeField_coupled h₄ (Numbering.links_mono (hle.trans hle₄) hd) .size
    (.inl (.inl ((hle₃.trans hle₄) _ hzero)))) ?_
  rintro - b₅ - c₅ ⟨N₅, hle₅, h₅⟩
  refine Coupled.bind (storeField_coupled h₅ (Numbering.links_mono ((hle.trans hle₄).trans hle₅) hd) .capacity
    (.inr (hs ▸ (hle₄.trans hle₅) _ hcap))) ?_
  rintro - b₆ - c₆ ⟨N₆, hle₆, h₆⟩
  exact ⟨rfl, rfl, N₆, ((hle.trans hle₄).trans hle₅).trans hle₆, h₆⟩

/-- A new vector is made in step. -/
theorem new_follows (h : Allocates S.toVariation) (hv : v.allocator = S.leftAllocator) (hs : v.struct = S.descriptor)
    (bytes : Nat) :
    (lockstep S).Follows known (v.new bytes S.leftCapacity) ((v.on S.rightAllocator).new bytes S.rightCapacity) := by
  refine .get_bind fun _ hst => ?_
  rw [(lockstep S).ptrInt hst]
  refine ((lockstep S).constUsize _).bind fun size size' _ => ?_
  refine (show (lockstep S).Follows _ (v.allocator.allocate size .general "vec")
    (S.rightAllocator.allocate size' .general "vec") by rw [hv]; exact h.follows _ _ (by simp)).bind fun desc desc' _ => ?_
  refine ⟨fun {L b c} hL ⟨N, hN, hbc⟩ => ?_⟩
  have hdesc : (desc, desc') ∈ N.links := hN (hL _ (by simp))
  obtain ⟨hr, hr', M, hM, hmade⟩ := h.fill_coupled hv hs hbc hdesc _
  refine ⟨M.links, hN.trans (Numbering.links_mono hM), .of hmade, trivial, fun p hp => ?_⟩
  rw [Linkable.pairs_value, List.mem_singleton] at hp
  rw [hp, hr, hr']
  exact Numbering.links_mono hM hdesc

end Allocates

end

end BlockForge.Lowering
