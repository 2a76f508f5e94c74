import BlockForge.Lowering.VectorCode
import BlockForge.Proofs.Ir.Emission

/-!
# What allocators may emit

An allocator runs in the middle of lowering, with the whole builder in its hands. One that keeps to constants and
to calls of host functions of its own leaves the blocks, and everything else that runs in them, to lowering.
-/

namespace BlockForge.Ir

/-- Code that reads the builder, enters constants, declares certain host functions and calls host functions, and does
nothing else. -/
inductive Emit.CallsOut (own : Set HostDecl) : {α : Type} → Emit α → Prop
  | pure {α : Type} (a : α) : CallsOut own (Pure.pure a)
  | bind {α β : Type} {x : Emit α} {f : α → Emit β} (hx : CallsOut own x) (hf : ∀ a, CallsOut own (f a)) :
      CallsOut own (x >>= f)
  | get : CallsOut own (MonadState.get : Emit Builder)
  | constInt (ty : Ty) (value : UInt64) : CallsOut own (Emit.constInt ty value)
  | constFloat (ty : Ty) (bits : UInt64) : CallsOut own (Emit.constFloat ty bits)
  | constNull : CallsOut own Emit.constNull
  | globalString (text : String) : CallsOut own (Emit.globalString text)
  | declareHost {name : String} {params : List Ty} {ret : Ty} (h : ⟨name, params, ret⟩ ∈ own) :
      CallsOut own (Emit.onModule (·.declareHost name params ret))
  | callHost (host : HostId) (args : List ValueId) (name : String) : CallsOut own (Emit.callHost host args name)

end BlockForge.Ir

namespace BlockForge.Lowering

open Ir (Builder Emit HostDecl Module ValueId)

/-- All host functions that are declared are some of an allocator's own, or the hook for failed bounds checks. -/
def HostsOf (own : Set HostDecl) (m : Module) : Prop := ∀ d ∈ m.hosts.toList, d ∈ own ∨ d.name = boundsErrorHook

/-- A value of the type of addresses that is not a number. -/
def IsAddress (b : Builder) (v : ValueId) : Prop := b.valueType v = .ptr ∧ b.constIntValue? v = none

/-- An allocator that calls out and gives an address, wherever the host functions of its name are its own. -/
structure Allocator.CallsOut (own : Set HostDecl) (a : Allocator) : Prop where
  code : ∀ size kind name, (a.allocate size kind name).CallsOut own
  address : ∀ size kind name (b : Builder), b.func.index < b.module.functions.size → HostsOf own b.module →
    (a.allocate size kind name).Sat b fun v b' => IsAddress b' v

/-! ### Calls of one host function -/

section

variable {own : Set HostDecl} {symbol : String}

theorem callAllocator_callsOut {params : List Ir.Ty} (h : ⟨symbol, params, .ptr⟩ ∈ own) (args : List ValueId)
    (name : String) : (Allocator.callAllocator symbol params args name).CallsOut own := by
  refine .bind (.declareHost h) fun host => .bind (.callHost ..) fun result => ?_
  cases result with
  | none => exact .constNull
  | some ptr => exact .pure ptr

/-- What a host function of one's own name gives is an address. -/
theorem declareHost_address {m : Module} (hm : HostsOf own m) (hown : ∀ d ∈ own, d.name = symbol → d.ret = .ptr)
    (hne : symbol ≠ boundsErrorHook) (params : List Ir.Ty) :
    ((m.declareHost symbol params .ptr).2.host? (m.declareHost symbol params .ptr).1).elim Ir.Ty.void (·.ret) = .ptr := by
  unfold Module.declareHost
  split
  · rename_i i hi
    obtain ⟨hlt, hn, -⟩ := Array.findIdx?_eq_some_iff_getElem.1 hi
    have hname : m.hosts[i].name = symbol := by simpa using hn
    have hmem := (hm m.hosts[i] (by simp)).resolve_right (hname ▸ hne)
    simp [Module.host?, hlt, hown _ hmem hname]
  · simp [Module.host?]

theorem insert_values {b : Builder} (hv : b.func.index < b.module.functions.size) (kind : Ir.InstKind)
    (r : Option ValueId) : (Emit.insert kind r b).2.function.values = b.function.values := by
  simp only [Emit.insert, modify, modifyGet, MonadStateOf.modifyGet, StateT.modifyGet, Pure.pure]
  split
  · rfl
  · rename_i block _
    split
    · rfl
    · show (b.modifyFunction (·.addInst block ⟨r, kind⟩)).function.values = _
      rw [Builder.function_modifyFunction hv]
      rfl

/-- The result of an instruction is entered as one. -/
theorem emit_value {b : Builder} (hv : b.func.index < b.module.functions.size) (ty : Ir.Ty) (kind : Ir.InstKind)
    (name : String) : (Emit.emit ty kind name).Sat b fun v b' =>
      b'.function.value? v = some ⟨ty, .inst (b.current.getD Ir.Id.entry), name⟩ := by
  have hadd := Builder.function_modifyFunction hv (·.addValue ⟨ty, .inst (b.current.getD Ir.Id.entry), name⟩)
  have hv' : (b.modifyFunction (·.addValue ⟨ty, .inst (b.current.getD Ir.Id.entry), name⟩)).func.index <
      (b.modifyFunction (·.addValue ⟨ty, .inst (b.current.getD Ir.Id.entry), name⟩)).module.functions.size := by
    simpa [Builder.modifyFunction, Module.modifyFunction] using hv
  have hvalues := insert_values hv' kind (some ⟨b.function.values.size⟩)
  rw [hadd] at hvalues
  show (Emit.insert kind (some ⟨b.function.values.size⟩) _).2.function.values[b.function.values.size]? = _
  refine (congrArg (·[b.function.values.size]?) hvalues).trans ?_
  simp [Ir.Function.addValue]

theorem callAllocator_address (hown : ∀ d ∈ own, d.name = symbol → d.ret = .ptr) (hne : symbol ≠ boundsErrorHook)
    {b : Builder} (hv : b.func.index < b.module.functions.size) (hb : HostsOf own b.module) (params : List Ir.Ty)
    (args : List ValueId) (name : String) :
    (Allocator.callAllocator symbol params args name).Sat b fun v b' => IsAddress b' v := by
  have hret := declareHost_address hb hown hne params
  have hfunctions := (Ir.Module.declareHost_grows b.module symbol params .ptr).2
  refine StateM.Sat.bind (P := fun host b' => (b'.module.host? host).elim Ir.Ty.void (·.ret) = .ptr ∧
    b'.func.index < b'.module.functions.size) ⟨hret, by rw [← hfunctions] at hv; exact hv⟩ ?_
  rintro host b' ⟨hret, hv'⟩
  refine StateM.Sat.bind (P := fun r b'' => ∃ v, r = some v ∧ IsAddress b'' v) ?_ ?_
  · refine StateM.Sat.get_bind ?_
    rw [hret]
    refine StateM.Sat.map ?_
    refine (emit_value hv' ..).imp fun v b'' hval => ⟨v, rfl, ?_, ?_⟩
    · simp [Builder.valueType, Ir.Function.valueType, hval]
    · simp [Builder.constIntValue?, hval]
  · rintro _ b'' ⟨v, rfl, h⟩
    exact h

end

/-! ### The collector, and an allocator with a flag -/

/-- The host functions of the collector. -/
def collectorHosts : Set HostDecl :=
  {d | (d.name = Machine.hostMalloc ∨ d.name = Machine.hostMallocAtomic) ∧ d.ret = .ptr}

theorem collector_callsOut : Allocator.CallsOut collectorHosts .collector where
  code size kind name := by
    have hown : ∀ params, (⟨Machine.hostMalloc, params, .ptr⟩ : HostDecl) ∈ collectorHosts ∧
        (⟨Machine.hostMallocAtomic, params, .ptr⟩ : HostDecl) ∈ collectorHosts :=
      fun _ => ⟨⟨.inl rfl, rfl⟩, .inr rfl, rfl⟩
    refine .bind .get fun b => ?_
    cases kind with
    | general => exact callAllocator_callsOut (hown _).1 ..
    | noReferences => exact callAllocator_callsOut (hown _).2 ..
  address size kind name b hv hb := by
    have hown : ∀ symbol, ∀ d ∈ collectorHosts, d.name = symbol → d.ret = .ptr := fun _ d hd _ => hd.2
    refine StateM.Sat.get_bind ?_
    cases kind with
    | general => exact callAllocator_address (hown _) (by decide) hv hb ..
    | noReferences => exact callAllocator_address (hown _) (by decide) hv hb ..

/-- The host function of the allocator with a flag. -/
def flaggedHosts : Set HostDecl := {d | d.name = "rt_alloc" ∧ d.ret = .ptr}

theorem flagged_callsOut : Allocator.CallsOut flaggedHosts .flagged where
  code size kind name := by
    have hown : ∀ params, (⟨"rt_alloc", params, .ptr⟩ : HostDecl) ∈ flaggedHosts := fun _ => ⟨rfl, rfl⟩
    exact .bind (.constInt ..) fun flag => .bind .get fun b => callAllocator_callsOut (hown _) ..
  address size kind name b hv hb := by
    refine StateM.Sat.bind (P := fun _ b' => b'.func.index < b'.module.functions.size ∧ HostsOf flaggedHosts b'.module)
      ⟨by simpa [Emit.constBool, Emit.constInt, Emit.pushValue, Builder.modifyFunction, Module.modifyFunction] using hv,
        hb⟩ ?_
    rintro flag b' ⟨hv', hb'⟩
    exact StateM.Sat.get_bind (callAllocator_address (fun d hd _ => hd.2) (by decide) hv' hb' ..)

end BlockForge.Lowering
