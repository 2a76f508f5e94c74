import BlockForge.Lowering.Program
import BlockForge.Proofs.Ir.Verified
import BlockForge.Proofs.Lowering.Statements
import BlockForge.Proofs.Lowering.Tables

/-!
# Lowering programs

A body starts from a declared function, binds its parameters, lowers its statements and ends every
block, and keeps to its own function on the way. So the functions of a program are lowered one after
the other without disturbing each other, and each of them verifies in the finished module, whatever
errors the program has.
-/

namespace BlockForge.Ir

open StateM

/-! ### Declared functions -/

namespace Function

theorem declare_ok (name : String) (params : List Ty) (ret : Ty) (m : Module) :
    (declare name params ret).Ok m where
  values val hval := by
    simp only [declare, List.mem_mapIdx] at hval
    obtain ⟨i, hi, rfl⟩ := hval
    trivial
  insts i inst hi := by simp [code, declare] at hi
  terms {i t} ht := by simp [ending, declare] at ht
  arranged := ⟨fun i => by simp [code, slots, body, declare], fun i _ => by
    simp [code, slots, declare]⟩
  slotIds := by simp [code, slots, declare]
  apart hx := by simp [code, slots, declare] at hx
  phiHead i inst hi := by simp [code, body, declare] at hi
  phiEntry inst hi := by simp [code, body, declare] at hi
  phiEdges hi := by simp [code, body, declare] at hi

theorem declare_hasParam (name : String) {params : List Ty} (ret : Ty) {i : Nat} {t : Ty}
    (hi : params[i]? = some t) (ht : t.isScalar = true) :
    (declare name params ret).HasParam (param i) t :=
  ⟨⟨i, "", by simp [value?, param, declare, hi], hi⟩, ht⟩

end Function

namespace Emit

open Builder

theorem start_eq {m : Module} {func : FuncId} {name : String} {params : List Ty} {ret : Ty}
    (hf : m.function? func = some (.declare name params ret)) :
    Builder.start m func = { module := m, func } := by
  have hdecl : ({ module := m, func } : Builder).function.isDeclaration = true := by
    simp [Builder.function, hf, Function.isDeclaration, Function.declare]
  simp [Builder.start, Builder.demand, hdecl]

/-- The position is at the entry block of a declared function. -/
structure Entered (m : Module) (func : FuncId) (b : Builder) : Prop where
  live : b.Live
  later : ({ module := m, func } : Builder).Later b
  current : b.current = some Id.entry
  ending : b.function.ending = fun _ => none
  code : b.function.code = fun _ => []

/-- A body starts at the entry block of its function. -/
theorem start_entered {m : Module} (hm : m.HostsKnown) {func : FuncId} {name : String}
    {params : List Ty} {ret : Ty} (hf : m.function? func = some (.declare name params ret)) :
    (appendBlock "entry").Sat (.start m func) fun entry b =>
      (positionAt entry).Sat b fun _ b' => Entered m func b' := by
  rw [start_eq hf]
  let b : Builder := { module := m, func }
  have hvalid : b.func.index < b.module.functions.size := (Array.getElem?_eq_some_iff.1 hf).1
  have hfun : b.function = .declare name params ret := by simp [b, Builder.function, hf]
  have hg := Function.grows_addBlock b.function "entry"
  have hadd := function_modifyFunction hvalid (·.addBlock "entry")
  have hok : (b.function.addBlock "entry").Ok b.module := by
    rw [hfun]
    exact (Function.declare_ok name params ret m).addBlock "entry"
  have hgrow : b.module.Grows (b.modifyFunction (·.addBlock "entry")).module :=
    module_grows_modifyFunction b hvalid hg
  have hsize : b.function.blocks.size = 0 := by simp [hfun, Function.declare]
  have hlt : Id.entry.index < (b.modifyFunction (·.addBlock "entry")).function.blocks.size := by
    rw [hadd]
    simp [Function.addBlock, Id.entry]
  have hend : (b.modifyFunction (·.addBlock "entry")).function.ending = fun _ => none := by
    rw [hadd, Function.ending_addBlock, hfun]
    funext i
    simp [Function.ending, Function.declare]
  show (positionAt ⟨b.function.blocks.size⟩).Sat (b.modifyFunction (·.addBlock "entry"))
    fun _ b' => Entered m func b'
  rw [hsize]
  refine demand_bind (decide_eq_true hlt) ?_
  have hsizes : (b.modifyFunction (·.addBlock "entry")).module.functions.size =
      m.functions.size := by
    simp [Builder.modifyFunction, Module.modifyFunction, b]
  refine ⟨⟨⟨?_, rfl, ⟨Id.entry, rfl, hlt⟩, hm, ?_⟩, Id.entry, rfl, ?_⟩, ⟨rfl, hgrow, ?_, ?_, ?_⟩,
    rfl, hend, ?_⟩
  · exact Nat.lt_of_lt_of_eq hvalid hsizes.symm
  · show (b.modifyFunction (·.addBlock "entry")).function.Ok _
    rw [hadd]
    exact hok.growModule hgrow
  · exact congrFun hend Id.entry
  · exact fun j hj => function?_modifyFunction_ne b _ hj
  · exact hsizes
  · show b.function.Grows (b.modifyFunction (·.addBlock "entry")).function
    rw [hadd]
    exact hg
  · show (b.modifyFunction (·.addBlock "entry")).function.code = fun _ => []
    rw [hadd, Function.code_addBlock, hfun]
    funext i
    simp [Function.code, Function.declare]

/-! ### Sealing -/

/-- A block is ended, if it has not ended already. -/
structure Sealed (s b : Builder) (i : BlockId) : Prop where
  ok : b.Ok
  later : s.Later b
  size : b.function.blocks.size = s.function.blocks.size
  ended : b.function.ending i ≠ none

theorem sealBlock_sealed {b : Builder} (h : b.Ok) {i : BlockId}
    (hi : i.index < b.function.blocks.size) :
    (sealBlock i).Sat b fun _ b' => Sealed b b' i := by
  unfold sealBlock closeBlock
  show Sealed b (if b.hasTerminator i = true then _ else _ : Bool × Builder).2 i
  rw [hasTerminator_eq]
  cases ht : b.function.ending i with
  | some t =>
    refine ⟨h, ⟨rfl, .refl _, fun _ _ => rfl, rfl, .refl _⟩, rfl, ?_⟩
    simp [ht]
  | none =>
    have hg := Function.grows_setEnding hi ht .unreachable
    have hfun := function_modifyFunction h.valid (·.setEnding i .unreachable)
    have hok : (b.modifyFunction (·.setEnding i .unreachable)).Ok :=
      h.modifyFunction hg (h.function.setEnding hi ht (t := .unreachable) trivial (by
        simp [Terminator.successors]))
    refine ⟨⟨hok.valid, hok.whole, hok.position, hok.hosts, hok.function⟩, ⟨rfl, ?_, ?_, ?_, ?_⟩,
      ?_, ?_⟩
    · exact module_grows_modifyFunction b h.valid hg
    · exact fun j hj => function?_modifyFunction_ne b _ hj
    · simp [Builder.modifyBlock, Builder.modifyFunction, Module.modifyFunction]
    · show b.function.Grows (b.modifyFunction (·.setEnding i .unreachable)).function
      rw [hfun]
      exact hg
    · show (b.modifyFunction (·.setEnding i .unreachable)).function.blocks.size = _
      rw [hfun]
      simp [Function.setEnding]
    · show (b.modifyFunction (·.setEnding i .unreachable)).function.ending i ≠ none
      rw [hfun, Function.ending_setEnding hi]
      simp

/-! ### Other functions -/

/-- Nothing but the body of the builder's own function has changed. -/
structure Aside (s b : Builder) : Prop where
  func : b.func = s.func
  pointerBits : b.module.pointerBits = s.module.pointerBits
  structs : b.module.structs = s.module.structs
  globals : b.module.globals = s.module.globals
  hosts : b.module.hosts = s.module.hosts
  others : ∀ j, j ≠ s.func → b.module.function? j = s.module.function? j

/-- Keeps to the builder's own function, whatever its operands are. -/
def Keeps {α : Type} (x : Emit α) : Prop := ∀ b, x.Sat b fun _ b' => Aside b b'

section

variable {α β : Type}

theorem Aside.refl (b : Builder) : Aside b b := ⟨rfl, rfl, rfl, rfl, rfl, fun _ _ => rfl⟩

theorem Aside.trans {s b d : Builder} (h : Aside s b) (k : Aside b d) : Aside s d :=
  ⟨k.func.trans h.func, k.pointerBits.trans h.pointerBits, k.structs.trans h.structs,
    k.globals.trans h.globals, k.hosts.trans h.hosts, fun j hj =>
    (k.others j (by rw [h.func]; exact hj)).trans (h.others j hj)⟩

theorem aside_modifyFunction (b : Builder) (F : Function → Function) :
    Aside b (b.modifyFunction F) :=
  ⟨rfl, rfl, rfl, rfl, rfl, fun _ hj => function?_modifyFunction_ne b F hj⟩

theorem aside_demand (b : Builder) (d : Demand) (met : Bool) : Aside b (b.demand d met) := by
  cases met <;> exact ⟨rfl, rfl, rfl, rfl, rfl, fun _ _ => rfl⟩

theorem Keeps.pure (a : α) : Keeps (Pure.pure a) := fun b => .refl b

theorem Keeps.bind {x : Emit α} {f : α → Emit β} (h : Keeps x) (k : ∀ a, Keeps (f a)) :
    Keeps (x >>= f) := fun b =>
  Sat.bind (h b) fun a b₁ h₁ => (k a b₁).imp fun _ _ h₂ => h₁.trans h₂

theorem Keeps.get_bind {f : Builder → Emit α} (h : ∀ b, Keeps (f b)) : Keeps (get >>= f) :=
  fun b => h b b

theorem demand_keeps (d : Demand) (met : Builder → Bool) : Keeps (demand d met) :=
  fun b => aside_demand b d (met b)

theorem appendBlock_keeps (name : String) : Keeps (appendBlock name) :=
  fun b => aside_modifyFunction b _

theorem positionAt_keeps (i : BlockId) : Keeps (positionAt i) :=
  (demand_keeps _ _).bind fun _ _ => ⟨rfl, rfl, rfl, rfl, rfl, fun _ _ => rfl⟩

theorem constInt_keeps (ty : Ty) (w : UInt64) : Keeps (constInt ty w) :=
  fun b => aside_modifyFunction b _

theorem insert_keeps (kind : InstKind) (r : Option ValueId) : Keeps (insert kind r) := by
  intro b
  simp only [Sat, insert, modify, modifyGet, MonadStateOf.modifyGet, StateT.modifyGet, pure]
  split
  · exact aside_demand b _ _
  · split
    · exact aside_demand b _ _
    · exact aside_modifyFunction b _

theorem emit_keeps (ty : Ty) (kind : InstKind) (name : String) : Keeps (emit ty kind name) :=
  .get_bind fun _ => Keeps.bind (fun b => aside_modifyFunction b _) fun r =>
    (insert_keeps kind (some r)).bind fun _ => .pure r

theorem terminate_keeps (t : Terminator) : Keeps (terminate t) := by
  refine .get_bind fun s => ?_
  cases s.current with
  | none => exact demand_keeps _ _
  | some c =>
    refine Keeps.bind (fun b => ?_) fun closed => demand_keeps _ _
    show Aside b (if b.hasTerminator c = true then _ else _ : Bool × Builder).2
    split
    · exact .refl b
    · exact ⟨rfl, rfl, rfl, rfl, rfl, fun _ hj => function?_modifyFunction_ne b _ hj⟩

theorem intResize_keeps (v : ValueId) (ty : Ty) (signed : Bool) (name : String) :
    Keeps (intResize v ty signed name) := by
  refine .get_bind fun b => ?_
  dsimp only
  split
  · exact .pure v
  · split <;> exact emit_keeps _ _ _

theorem call_keeps (func : FuncId) (args : List ValueId) (name : String) :
    Keeps (call func args name) := by
  refine (demand_keeps _ _).bind fun _ => .get_bind fun b => ?_
  unfold callAt
  dsimp only
  split
  · exact (insert_keeps _ _).bind fun _ => .pure none
  · exact fun b => emit_keeps _ _ _ b

end

end Emit

end BlockForge.Ir

namespace BlockForge.Lowering

open Diagnostic (Diag Queue)
open Ir (BlockId Builder Emit Module)
open Source (FunctionDef Program Span)
open StateM
open State
open BlockForge.Types (Ty)

/-! ### Bodies -/

section

variable {env : Env} {s : State}

theorem sealBlocks_ended {b : Builder} (h : b.Ok) {is : List BlockId}
    (hi : ∀ i ∈ is, i.index < b.function.blocks.size) :
    (Lower.sealBlocks is).Sat b fun _ b' => b'.Ok ∧ b.Later b' ∧
      b'.function.blocks.size = b.function.blocks.size ∧
      ∀ i ∈ is, b'.function.ending i ≠ none := by
  induction is generalizing b with
  | nil => exact ⟨h, ⟨rfl, .refl _, fun _ _ => rfl, rfl, .refl _⟩, rfl, by simp⟩
  | cons i rest ih =>
    refine Sat.bind (Emit.sealBlock_sealed h (hi i (by simp))) fun _ b₁ k₁ => ?_
    refine (ih k₁.ok fun j hj => ?_).imp ?_
    · rw [k₁.size]
      exact hi j (by simp [hj])
    · rintro - b₂ ⟨hok, hlater, hsize, hended⟩
      refine ⟨hok, k₁.later.trans hlater, hsize.trans k₁.size, fun j hj => ?_⟩
      rcases List.mem_cons.1 hj with rfl | hj
      · obtain ⟨t, ht⟩ := Option.ne_none_iff_exists'.1 k₁.ended
        rw [(hlater.grows.ended ht).1]
        simp
      · exact hended j hj

/-- What lowering a body leaves, from a builder and reports it started with: a well-formed function
all of whose blocks have ended. -/
structure Built (b : Builder) (q : Queue) (s : State) : Prop where
  builder : s.builder.Ok
  later : b.Later s.builder
  ended : ∀ i : BlockId, i.index < s.builder.function.blocks.size →
    s.builder.function.ending i ≠ none
  failed : q.kept.any (·.isError) = true → s.Failed

theorem finishBody_built (h : s.Ok env) (span : Span) :
    (Lower.finishBody env span).Sat s fun _ s' => Built s.builder s.diags s' := by
  -- whichever way the last block ends, all the others are ended after it
  have hseal : ∀ {s' : State}, After env s s' →
      (get >>= fun st : State => Lower.emit (Lower.sealBlocks
        ((List.range st.builder.function.blocks.size).map Ir.Id.mk))).Sat s' fun _ s'' =>
        Built s.builder s.diags s'' := by
    intro s' a
    refine Sat.get_bind (Lower.emit_sat (sealBlocks_ended a.ok.builder ?_) ?_)
    · intro i hi
      obtain ⟨n, hn, rfl⟩ := List.mem_map.1 hi
      exact List.mem_range.1 hn
    · rintro - b ⟨hok, hlater, hsize, hended⟩
      refine ⟨hok, a.ext.toLater.trans hlater, fun i hi => ?_, a.failed⟩
      exact hended i (List.mem_map.2 ⟨i.index, List.mem_range.2 (hsize ▸ hi), rfl⟩)
  refine Sat.bind (positionIsDead_sat h) ?_
  rintro dead _ ⟨⟨reach, rfl, hr⟩, hopen, -⟩
  have hreach : After env s { s with reach } := ⟨h.withReach hr, .refl _, rfl, rfl, rfl, id⟩
  cases dead with
  | true => exact hseal hreach
  | false =>
    have hlive : ({ s with reach } : State).Live env := ⟨h.withReach hr, h.builder, hopen rfl⟩
    simp only [Bool.not_false, if_true]
    split
    · rename_i hu
      have hr : s.builder.function.ret = .void := by
        rw [h.returns, Types.Layout.returnIrType, hu]
        rfl
      refine Sat.bind (emit_after hlive (Emit.retVoid_halted hlive.live hr)) fun _ s₁ a₁ => ?_
      exact hseal (hreach.trans a₁)
    · refine Sat.bind (Lower.report_goes hlive.live _) ?_
      rintro - s₁ ⟨o₁, -⟩
      have h₁ := hlive.onward o₁
      refine Sat.bind (emit_after h₁ (Emit.unreachable_halted h₁.live)) fun _ s₂ a₂ => ?_
      exact hseal ((hreach.trans (o₁.after hlive)).trans a₂)

/-! ### Parameters -/

theorem bind_builder (what name : String) (b : Binding) (span : Span) :
    (Lower.bind what name b span).Sat s fun _ s' => s'.builder = s.builder := by
  refine Sat.get_bind ?_
  split <;> rfl

/-- A parameter goes from the function's values into its slot. -/
theorem bindParam_live (h : s.Live env) {position : Nat} (name : String) {type : Ty} (span : Span)
    (hp : s.builder.function.HasParam (Ir.Function.param position) (env.ir type)) :
    (bindParam env position name type span).Sat s fun _ s' => After env s s' ∧ s'.Live env := by
  refine Sat.bind (entryAlloca_runs h type name) ?_
  rintro slot s₁ ⟨o₁, hslot⟩
  have h₁ := h.onward o₁
  have hp₁ := o₁.builder.ext.grows.hasParam hp
  refine Sat.bind (Lower.emit_runs (Emit.store_onward h₁.live (.inr ⟨_, hp₁⟩) hslot.1)) ?_
  rintro - s₂ ⟨o₂, -⟩
  have h₂ := h₁.onward o₂
  refine ((bind_after h₂ "parameter" name (hslot.ext o₂.builder.ext o₂.failed) span).and
    (bind_builder ..)).imp ?_
  rintro - s₃ ⟨a₃, hb₃⟩
  exact ⟨((o₁.trans o₂).after h).trans a₃, a₃.ok, hb₃ ▸ h₂.live⟩

theorem bindParams_live (h : s.Live env) {position : Nat} {params : List (String × Ty × Span)}
    (hp : ∀ i p, params[i]? = some p →
      s.builder.function.HasParam (Ir.Function.param (position + i)) (env.ir p.2.1)) :
    (bindParams env position params).Sat s fun _ s' => After env s s' ∧ s'.Live env := by
  induction params generalizing position s with
  | nil => exact Sat.pure ⟨.refl h.toOk, h⟩
  | cons p rest ih =>
    refine Sat.bind (bindParam_live h p.1 p.2.2 (hp 0 p rfl)) ?_
    rintro - s₁ ⟨a₁, h₁⟩
    refine (ih h₁ fun i q hq => ?_).imp ?_
    · have := hp (i + 1) q hq
      rw [show position + (i + 1) = position + 1 + i by omega] at this
      exact a₁.ext.grows.hasParam this
    · rintro - s₂ ⟨a₂, h₂⟩
      exact ⟨a₁.trans a₂, h₂⟩

/-- The declared parameters are those of the signature, with the receiver first. -/
theorem parameters_type {d : FunctionDef} {sig : Signature} {i : Nat} {p : String × Ty × Span}
    (h : (parameters d sig)[i]? = some p) :
    (sig.receiver.toList ++ sig.params)[i]? = some p.2.1 := by
  unfold parameters at h
  have hlen : (sig.receiver.toList.map fun t => ("self", t, d.span)).length =
      sig.receiver.toList.length := by simp
  by_cases hi : i < sig.receiver.toList.length
  · rw [List.getElem?_append_left (by simpa using hi)] at h
    rw [List.getElem?_append_left hi]
    obtain ⟨t, ht, rfl⟩ := by simpa using h
    exact ht
  · rw [List.getElem?_append_right (by simpa using hi), hlen] at h
    rw [List.getElem?_append_right (by simpa using hi)]
    simp only [List.getElem?_map, Option.map_eq_some_iff] at h
    obtain ⟨⟨q, t⟩, hq, rfl⟩ := h
    exact (List.getElem?_zip_eq_some.1 hq).2

/-! ### Functions -/

/-- A declared function is lowered to a finished one. -/
theorem lowerFunction_built {m : Module} {q : Queue} {d : FunctionDef} {sig : Signature}
    {name : String} (henv : env.Fits m) (hm : m.HostsKnown) (hret : env.returnType = sig.ret)
    (hf : m.function? sig.func = some (.declare name
      ((sig.receiver.toList ++ sig.params).map env.ir) (env.layout.returnIrType sig.ret)))
    (hpois : ∀ {symbol}, env.tables.isPoisoned symbol = true → q.kept.any (·.isError) = true) :
    (lowerFunction env d sig).Sat ⟨.start m sig.func, q, {}, [], false, {}⟩ fun _ s' =>
      Built { module := m, func := sig.func } q s' := by
  unfold lowerFunction
  have hentry := Emit.start_entered hm hf
  refine Lower.emit_sat_bind hentry fun entry b₀ hpos => ?_
  refine Lower.emit_sat_bind hpos fun _ b e => ?_
  have hfun : (Ir.Function.declare name ((sig.receiver.toList ++ sig.params).map env.ir)
      (env.layout.returnIrType sig.ret)).Grows b.function := by
    have := e.later.grows
    simpa [Builder.function, hf] using this
  refine Sat.modify_bind ?_
  let s : State := ⟨b, q, (Scope.push {}), [], false, {}⟩
  have hlive : s.Live env := by
    refine ⟨⟨e.live.ok, henv.grows e.later.module, ?_, ?_, by simp [s], hpois, by simp [s, ReachCache.Sound]⟩,
      e.live⟩
    · rw [hret]
      exact hfun.ret
    · intro frame hframe e he
      have : frame = [] := by simpa [s, Scope.push] using hframe
      subst this
      cases he
  refine Sat.bind (bindParams_live (s := s) hlive fun i p hp => ?_) ?_
  · rw [Nat.zero_add]
    refine hfun.hasParam (Ir.Function.declare_hasParam _ _ ?_ (Env.isScalar_ir _))
    rw [List.getElem?_map, parameters_type hp]
    rfl
  rintro - s₁ ⟨a₁, h₁⟩
  refine Sat.bind (lowerStmts_ok env d.body h₁.toOk) fun _ s₂ a₂ => ?_
  refine Sat.bind (finishBody_built a₂.ok d.span) fun _ s₃ f₃ => ?_
  have later : b.Later s₃.builder := (a₁.trans a₂).ext.toLater.trans f₃.later
  exact ⟨f₃.builder, e.later.trans later, f₃.ended, fun hq => f₃.failed (a₂.failed (a₁.failed hq))⟩

end

/-! ### Programs -/

/-- A function whose body is finished. -/
def Finished (m : Module) (func : Ir.FuncId) : Prop :=
  ∃ f, m.function? func = some f ∧ f.isDeclaration = false ∧ f.Ok m ∧
    ∀ i : BlockId, i.index < f.blocks.size → f.ending i ≠ none

theorem Finished.grows {m n : Module} {func : Ir.FuncId} (h : Finished m func) (hm : m.Grows n)
    (hf : n.function? func = m.function? func) : Finished n func := by
  obtain ⟨f, hfun, hdecl, hok, hended⟩ := h
  exact ⟨f, hf.trans hfun, hdecl, hok.growModule hm, hended⟩

theorem Built.finished {b : Builder} {q : Queue} {s : State} (h : Built b q s) :
    Finished s.builder.module b.func := by
  obtain ⟨c, -, hlt⟩ := h.builder.position
  refine ⟨s.builder.function, ?_, ?_, h.builder.function, h.ended⟩
  · rw [← h.later.func]
    exact Builder.function?_eq h.builder.valid
  · simp only [Ir.Function.isDeclaration, Array.isEmpty_eq_false_iff_exists_mem]
    exact ⟨_, Array.getElem_mem hlt⟩

/-- The definition at a position is the one declared under its symbol. -/
def Declares (p : Program) (t : Tables) (position : Nat) (d : FunctionDef) (sig : Signature) :
    Prop :=
  p.functions[position]? = some d ∧ t.function? d.symbol = some sig ∧ sig.definition = position

/-- The definitions before a position have been lowered, the others are only declared. -/
structure Progress (p : Program) (c : Collection) (position : Nat) (acc : Module × Queue) :
    Prop where
  grows : c.module.Grows acc.1
  hosts : acc.1.HostsKnown
  todo : ∀ r ∈ c.tables.functions, position ≤ r.2.definition →
    acc.1.function? r.2.func = c.module.function? r.2.func
  done : ∀ {i d sig}, i < position → Declares p c.tables i d sig → Finished acc.1 sig.func
  failed : c.Failed → acc.2.kept.any (·.isError) = true

section

variable {config : Config} {allocator : Allocator} {p : Program} {c : Collection}

theorem Progress.start (h : c.Fits config) : Progress p c 0 (c.module, c.diags) where
  grows := .refl _
  hosts d hd := by simp [h.hosts] at hd
  todo _ _ _ := rfl
  done hi := absurd hi (Nat.not_lt_zero _)
  failed := id

/-- What the lowering of the next definition starts and ends with. -/
theorem Progress.lowerBody (hc : c.Fits config)
    (hbits : config.pointerBits = 16 ∨ config.pointerBits = 32 ∨ config.pointerBits = 64)
    (ha : allocator.Sound) {position : Nat} {acc : Module × Queue}
    (h : Progress p c position acc) {d : FunctionDef} {sig : Signature}
    (hd : Declares p c.tables position d sig) :
    Built { module := acc.1, func := sig.func } acc.2
      (lowerBody config allocator c.tables acc d sig) := by
  obtain ⟨-, hsig, hdef⟩ := hd
  have hmem := mem_of_lookup hsig
  obtain ⟨name, hf⟩ := hc.functions _ hmem
  rw [← h.todo _ hmem (Nat.le_of_eq hdef.symm)] at hf
  refine lowerFunction_built ((hc.env hbits ha _ _).grows h.grows) h.hosts rfl hf ?_
  intro symbol hs
  exact h.failed (hc.poisoned symbol (by simpa [Tables.isPoisoned] using hs))

/-- One definition further. -/
theorem Progress.step (hc : c.Fits config)
    (hbits : config.pointerBits = 16 ∨ config.pointerBits = 32 ∨ config.pointerBits = 64)
    (ha : allocator.Sound) {position : Nat} {acc : Module × Queue}
    (h : Progress p c position acc) {d : FunctionDef} (hd : p.functions[position]? = some d) :
    Progress p c (position + 1) (lowerDefinition config allocator c.tables acc position d) := by
  -- a definition that is not the declared one leaves everything as it is
  have skip (hno : ∀ sig, ¬Declares p c.tables position d sig) : Progress p c (position + 1) acc :=
    { h with
      todo := fun r hr hle => h.todo r hr (Nat.le_of_succ_le hle)
      done := fun {i e sig} hi he => by
        rcases Nat.lt_succ_iff_lt_or_eq.1 hi with hi | rfl
        · exact h.done hi he
        · obtain rfl : d = e := Option.some.inj (hd.symm.trans he.1)
          exact absurd he (hno sig) }
  unfold lowerDefinition
  split
  · rename_i hnone
    refine skip fun sig hs => ?_
    have hsome := hs.2.1
    rw [hnone] at hsome
    cases hsome
  · rename_i sig hsig
    split
    · rename_i hne
      refine skip fun sig' hs => hne ?_
      obtain rfl : sig = sig' := Option.some.inj (hsig.symm.trans hs.2.1)
      exact hs.2.2
    · rename_i heq
      have hdecl : Declares p c.tables position d sig := ⟨hd, hsig, by simpa using heq⟩
      have b := h.lowerBody hc hbits ha hdecl
      -- another definition has another function
      have hother : ∀ {r}, r ∈ c.tables.functions → r.2.definition ≠ position →
          r.2.func ≠ sig.func := by
        intro r hr hne he
        have := hc.functionsApart r hr _ (mem_of_lookup hsig) he
        rw [this] at hne
        exact hne hdecl.2.2
      exact {
        grows := h.grows.trans b.later.module
        hosts := b.builder.hosts
        todo := fun r hr hle =>
          (b.later.others _ (hother hr (by omega))).trans (h.todo r hr (by omega))
        done := fun {i e sig'} hi he => by
          rcases Nat.lt_succ_iff_lt_or_eq.1 hi with hi | rfl
          · refine (h.done hi he).grows b.later.module (b.later.others _ ?_)
            exact hother (mem_of_lookup he.2.1) (by rw [he.2.2]; omega)
          · obtain rfl : d = e := Option.some.inj (hd.symm.trans he.1)
            obtain rfl : sig = sig' := Option.some.inj (hsig.symm.trans he.2.1)
            exact b.finished
        failed := fun hf => b.failed (h.failed hf) }

/-- The module and the reports after the first `n` definitions of a program. -/
def lowerFirst (config : Config) (allocator : Allocator) (p : Program) (n : Nat) : Module × Queue :=
  let c := Collection.ofProgram config p
  lowerDefinitions config allocator c.tables (c.module, c.diags) (p.functions.zipIdx.take n)

theorem lowerFirst_progress
    (hbits : config.pointerBits = 16 ∨ config.pointerBits = 32 ∨ config.pointerBits = 64)
    (ha : allocator.Sound) {n : Nat} (hn : n ≤ p.functions.length) :
    Progress p (.ofProgram config p) n (lowerFirst config allocator p n) := by
  have hc := Collection.ofProgram_fits config p
  induction n with
  | zero => exact .start hc
  | succ n ih =>
    have hlt : n < p.functions.length := hn
    have hget : p.functions.zipIdx[n]? = some (p.functions[n], n) := by simp [hlt]
    simp only [lowerFirst, lowerDefinitions, List.take_add_one, hget, Option.toList_some,
      List.foldl_append, List.foldl_cons, List.foldl_nil]
    exact (ih (Nat.le_of_lt hlt)).step hc hbits ha (List.getElem?_eq_getElem hlt)

/-! ### The entry point -/

theorem emitWrapper_keeps (sig : Signature) (name : String) : Emit.Keeps (emitWrapper sig name) := by
  refine (Emit.appendBlock_keeps _).bind fun entry => (Emit.positionAt_keeps _).bind fun _ =>
    (Emit.call_keeps _ _ _).bind fun result => ?_
  have hret : ∀ code, Emit.Keeps (Emit.ret code) := fun code => Emit.terminate_keeps _
  cases result with
  | none => exact (Emit.constInt_keeps _ _).bind hret
  | some v =>
    dsimp only
    split
    · exact (Emit.constInt_keeps _ _).bind hret
    · exact (Emit.intResize_keeps _ _ _ _).bind hret

theorem emitWrapper_grows (m : Module) (sig : Signature) (name : String) :
    let func := (m.declareFunction wrapperName [] .i32).1
    let b := (emitWrapper sig name (.start (m.declareFunction wrapperName [] .i32).2 func)).2
    m.Grows b.module ∧ ∀ {j f}, m.function? j = some f → b.module.function? j = some f := by
  intro func b
  let start : Builder := { module := (m.declareFunction wrapperName [] .i32).2, func }
  have haside : Emit.Aside start b :=
    (Emit.aside_demand start .noBody _).trans (emitWrapper_keeps sig name _)
  generalize b = b' at haside
  have hkept : ∀ {j f}, m.function? j = some f → b'.module.function? j = some f := by
    intro j f hj
    refine (haside.others j ?_).trans (Collection.function?_declareFunction _ _ _ _ hj)
    rintro rfl
    exact Nat.lt_irrefl _ (Array.getElem?_eq_some_iff.1 hj).1
  refine ⟨⟨haside.pointerBits, haside.structs, ?_, ?_, fun hj => ⟨_, hkept hj, rfl, rfl, rfl⟩⟩,
    hkept⟩
  · rw [haside.globals]
    exact List.prefix_refl _
  · rw [haside.hosts]
    exact List.prefix_refl _

/-- The wrapper is a function of its own; the others stay as they are. -/
theorem addEntryWrapper_grows (config : Config) (p : Program) (tables : Tables)
    (acc : Module × Queue) :
    acc.1.Grows (addEntryWrapper config p tables acc).1 ∧ ∀ {j f}, acc.1.function? j = some f →
      (addEntryWrapper config p tables acc).1.function? j = some f := by
  unfold addEntryWrapper
  dsimp only
  split
  · exact ⟨.refl _, id⟩
  · split
    · exact ⟨.refl _, id⟩
    · split
      · exact ⟨.refl _, id⟩
      · split
        · exact ⟨.refl _, id⟩
        · dsimp only
          exact emitWrapper_grows acc.1 _ _

/-! ### Verification -/

/-- The state in which the lowering of the definition at a position ends. -/
def definitionState (config : Config) (allocator : Allocator) (p : Program) (position : Nat)
    (d : FunctionDef) (sig : Signature) : State :=
  lowerBody config allocator (Collection.ofProgram config p).tables
    (lowerFirst config allocator p position) d sig

/-- Each definition that is lowered breaks no demand of the builder on its way and becomes a function
that verifies, in every program and with or without errors. -/
theorem lowerProgram_verifies
    (hbits : config.pointerBits = 16 ∨ config.pointerBits = 32 ∨ config.pointerBits = 64)
    (ha : allocator.Sound) {position : Nat} {d : FunctionDef} {sig : Signature}
    (hd : Declares p (Collection.ofProgram config p).tables position d sig) :
    (definitionState config allocator p position d sig).builder.broken = [] ∧
      ∃ f, (lowerProgram config allocator p).module.function? sig.func = some f ∧
        f.isDeclaration = false ∧ f.verify (lowerProgram config allocator p).module = [] := by
  have hc := Collection.ofProgram_fits config p
  have hlt : position < p.functions.length := (List.getElem?_eq_some_iff.1 hd.1).1
  have hbefore : Progress p (.ofProgram config p) position (lowerFirst config allocator p position) :=
    lowerFirst_progress hbits ha (Nat.le_of_lt hlt)
  refine ⟨(hbefore.lowerBody hc hbits ha hd).builder.whole, ?_⟩
  have hall : Progress p (.ofProgram config p) p.functions.length
      (lowerFirst config allocator p p.functions.length) :=
    lowerFirst_progress hbits ha (Nat.le_refl _)
  obtain ⟨f, hf, hdecl, hok, hended⟩ := hall.done hlt hd
  obtain ⟨hgrows, hkept⟩ := addEntryWrapper_grows config p (Collection.ofProgram config p).tables
    (lowerFirst config allocator p p.functions.length)
  have hmodule : (lowerProgram config allocator p).module = (addEntryWrapper config p
      (Collection.ofProgram config p).tables
      (lowerFirst config allocator p p.functions.length)).1 := by
    have htake : p.functions.zipIdx.take p.functions.length = p.functions.zipIdx :=
      List.take_of_length_le (by simp)
    simp only [lowerProgram, lowerFirst, htake]
  rw [hmodule]
  exact ⟨f, hkept hf, hdecl, (hok.growModule hgrows).verify hended⟩

/-- A program that returns an unknown name from a function. -/
def unknownNameProgram : Program where
  structs := []
  functions := [{
    symbol := "f", receiver := none, params := [], returnType := .named "i32"
    body := [.ret ⟨0, 1⟩ (some (.ident ⟨0, 1⟩ "x"))], span := ⟨0, 1⟩ }]

theorem lowerProgram_verifies_unknownName :
    ∃ d sig, (definitionState {} .collector unknownNameProgram 0 d sig).builder.broken = [] ∧
      ∃ f, (lowerProgram {} .collector unknownNameProgram).module.function? sig.func = some f ∧
        f.isDeclaration = false ∧
        f.verify (lowerProgram {} .collector unknownNameProgram).module = [] :=
  ⟨_, _, lowerProgram_verifies (.inr (.inr rfl)) collector_sound
    (⟨rfl, rfl, rfl⟩ : Declares unknownNameProgram _ 0 _ _)⟩

end

end BlockForge.Lowering
