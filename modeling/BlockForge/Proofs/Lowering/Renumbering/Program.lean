import BlockForge.Proofs.Lowering.Capacity
import BlockForge.Proofs.Lowering.EntryPoint
import BlockForge.Proofs.Lowering.Names
import BlockForge.Proofs.Lowering.Renumbering.Calls
import BlockForge.Proofs.Lowering.Tandem.Statements

/-!
# Programs with other allocators

How memory is allocated and with which capacity vectors start has no influence on what is reported, nor on the blocks
of any function and on what runs in them: all that differs is the numbers of values, the calls of the host, and the
elements and the capacity that new vectors start with.
-/

namespace BlockForge.Lowering

open Diagnostic (Queue)
open Ir (Builder FuncId HostDecl Module Numbering Setting ValueId Variation)
open Source (FunctionDef Param Program Span Stmt StructDef TypeExpr)
open StateM
open BlockForge.Types (Layout Ty)

/-! ### Names of modules -/

namespace Collection

/-- The same declarations in a module of another name. -/
def renamed (c : Collection) (name : String) : Collection := { c with module := { c.module with name } }

variable (c : Collection) (name : String)

theorem resolve_renamed (t : TypeExpr) (span : Span) :
    (c.renamed name).resolve t span = ((c.resolve t span).1, (c.resolve t span).2.renamed name) := by
  unfold resolve
  rw [show (c.renamed name).tables = c.tables from rfl]
  cases c.tables.resolve t <;> rfl

theorem resolveFields_renamed (before fields : List Param) : (c.renamed name).resolveFields before fields =
    ((c.resolveFields before fields).1, (c.resolveFields before fields).2.renamed name) := by
  induction fields generalizing c before with
  | nil => rfl
  | cons f rest ih =>
    unfold resolveFields
    cases before.find? (·.name == f.name) with
    | some first => exact ih (c.report _) _
    | none =>
      dsimp only
      rw [resolve_renamed, ih]

theorem resolveParams_renamed (params : List Param) : (c.renamed name).resolveParams params =
    ((c.resolveParams params).1, (c.resolveParams params).2.renamed name) := by
  induction params generalizing c with
  | nil => rfl
  | cons p rest ih =>
    unfold resolveParams
    dsimp only
    rw [resolve_renamed, ih]

theorem declareRecord_renamed (all : List StructDef) (d : StructDef) : declareRecord all (c.renamed name) d =
    ((declareRecord all c d).1, (declareRecord all c d).2.renamed name) := by
  unfold declareRecord
  rw [show (c.renamed name).tables = c.tables from rfl]
  split
  · rfl
  · split <;> rfl

theorem defineRecord_renamed (layout : Layout) (d : StructDef) :
    defineRecord layout (c.renamed name) d = (defineRecord layout c d).renamed name := by
  unfold defineRecord
  rw [resolveFields_renamed]
  generalize c.resolveFields [] d.fields = r
  obtain ⟨fields, c₁⟩ := r
  dsimp only
  rw [show (c₁.renamed name).tables = c₁.tables from rfl]
  cases c₁.tables.record? d.name <;> rfl

theorem declareRecords_renamed (layout : Layout) (all : List StructDef) :
    (c.renamed name).declareRecords layout all = (c.declareRecords layout all).renamed name := by
  unfold declareRecords
  let step (a : List StructDef × Collection) (d : StructDef) : List StructDef × Collection :=
    (if (declareRecord all a.2 d).1 then a.1 ++ [d] else a.1, (declareRecord all a.2 d).2)
  have hdeclared : all.foldl step ([], c.renamed name) =
      ((all.foldl step ([], c)).1, (all.foldl step ([], c)).2.renamed name) :=
    @List.foldl_hom _ _ _ (fun a => (a.1, a.2.renamed name)) step step all ([], c) fun a d => by
      simp only [step, declareRecord_renamed]
  rw [hdeclared]
  exact List.foldl_hom (·.renamed name) fun c d => defineRecord_renamed c name layout d

theorem declareFunction_renamed (config : Config) (all : List FunctionDef) (position : Nat) (d : FunctionDef) :
    (c.renamed name).declareFunction config all position d =
      (c.declareFunction config all position d).renamed name := by
  have hreceiver : (c.renamed name).resolveReceiver d =
      ((c.resolveReceiver d).1, (c.resolveReceiver d).2.renamed name) := by
    unfold resolveReceiver
    cases d.receiver with
    | none => rfl
    | some r =>
      dsimp only
      rw [resolve_renamed]
  have hmethod : ∀ (c : Collection) receiver,
      (c.renamed name).addMethod? receiver d = (c.addMethod? receiver d).map (·.renamed name) := by
    intro c receiver
    unfold addMethod?
    rw [show (c.renamed name).tables = c.tables from rfl]
    split
    · split <;> rfl
    · rfl
  unfold declareFunction
  rw [show (c.renamed name).tables = c.tables from rfl, hreceiver]
  split
  · rfl
  · generalize c.resolveReceiver d = r₁
    obtain ⟨receiver, c₁⟩ := r₁
    dsimp only
    rw [resolveParams_renamed]
    generalize c₁.resolveParams d.params = r₂
    obtain ⟨params, c₂⟩ := r₂
    dsimp only
    rw [resolve_renamed]
    generalize c₂.resolve d.returnType d.span = r₃
    obtain ⟨ret, c₃⟩ := r₃
    dsimp only
    split
    · rename_i receiver params ret
      rw [hmethod]
      cases c₃.addMethod? receiver d <;> rfl
    · rfl

/-- What is declared does not depend on the module's name or on the capacity of vectors. -/
theorem ofProgram_renamed (config : Config) (p : Program) (moduleName : String) (initialCapacity : UInt64) :
    ofProgram { config with moduleName, initialCapacity } p = (ofProgram config p).renamed moduleName := by
  have hstart : start { config with moduleName, initialCapacity } = (start config).renamed moduleName := rfl
  unfold ofProgram
  rw [hstart, declareRecords_renamed]
  exact (@List.foldl_hom _ _ _ (·.renamed moduleName)
    (fun c (e : FunctionDef × Nat) => c.declareFunction config p.functions e.2 e.1)
    (fun c (e : FunctionDef × Nat) => c.declareFunction config p.functions e.2 e.1) _ _
    fun c e => declareFunction_renamed c moduleName config _ e.2 e.1)

end Collection

/-! ### Two modules -/

/-- Functions of two modules that are the same up to the numbers of values. -/
def Corresponds (V : Variation) (m n : Module) (f g : Ir.Function) : Prop :=
  ∃ N : Numbering, f.Renumbered N g ∧ N.Fits (V.contrast m n) m.shared n.shared f g

/-- Modules whose functions correspond one by one. -/
structure Alongside (V : Variation) (m n : Module) : Prop where
  pointerBits : n.pointerBits = m.pointerBits
  structs : n.structs = m.structs
  heads : ∀ j, (n.function? j).map Ir.Function.head = (m.function? j).map Ir.Function.head
  leftHosts : HostsOf V.leftHosts m
  rightHosts : HostsOf V.rightHosts n
  functions : ∀ {j f g}, m.function? j = some f → n.function? j = some g → Corresponds V m n f g

theorem Variation.contrast_eq (V : Variation) {m m' n n' : Module} (hm : m'.pointerBits = m.pointerBits)
    (hn : n'.pointerBits = n.pointerBits) : V.contrast m' n' = V.contrast m n := by
  simp only [Variation.contrast, Module.word, Module.ptrInt, hm, hn]

theorem Corresponds.grows {V : Variation} {m m' n n' : Module} {f g : Ir.Function} (h : Corresponds V m n f g)
    (hm : m'.pointerBits = m.pointerBits) (hn : n'.pointerBits = n.pointerBits) (gm : m.shared.Grows m'.shared)
    (gn : n.shared.Grows n'.shared) : Corresponds V m' n' f g := by
  obtain ⟨N, hr, hf⟩ := h
  refine ⟨N, hr, ?_⟩
  rw [Variation.contrast_eq V hm hn]
  exact hf.keeps rfl rfl rfl rfl gm gn

/-- Functions that are only declared have their parameters in common. -/
theorem params_fits (C : Ir.Contrast) (S T : Ir.Shared) (name : String) (params : List Ir.Ty) (ret : Ir.Ty) :
    (Numbering.params params.length).Fits C S T (.declare name params ret) (.declare name params ret) := by
  have hdiag : ∀ role, ∀ p ∈ Numbering.params params.length role, p.2 = p.1 := by
    rintro (_ | _ | _) p hp
    · exact hp.1
    · exact hp.elim
    · exact hp.elim
  have hone : ∀ L : Ir.Links, (∀ p ∈ L, p.2 = p.1) → L.OneToOne := by
    intro L hL p hp q hq
    rw [hL p hp, hL q hq]
  refine ⟨?_, ?_, hone _ (hdiag _), fun _ => hone _ fun p ⟨role, hp⟩ => hdiag role p hp⟩
  · rintro (_ | _ | _) ⟨v, w⟩ hp
    · obtain ⟨rfl, hv⟩ : w = v ∧ v.index < params.length := hp
      have hvalue : (Ir.Function.declare name params ret).value? w = some ⟨params[w.index], .param w.index, ""⟩ := by
        simp [Ir.Function.declare, Ir.Function.value?, hv]
      exact ⟨_, _, hvalue, hvalue, .same (by simp)⟩
    · exact hp.elim
    · exact hp.elim
  · have hsize : (Ir.Function.declare name params ret).values.size = params.length := by simp [Ir.Function.declare]
    rw [hsize]
    exact .params rfl

theorem Corresponds.declared (V : Variation) (m n : Module) (name : String) (params : List Ir.Ty) (ret : Ir.Ty) :
    Corresponds V m n (.declare name params ret) (.declare name params ret) :=
  ⟨.params params.length, ⟨rfl, rfl, fun _ hi => ⟨rfl, hi⟩, rfl, .nil⟩, params_fits ..⟩

namespace Alongside

variable {V : Variation} {m n : Module} (h : Alongside V m n)

/-- One function of both. -/
def setting (func : FuncId) : Setting where
  left := m
  right := n
  func
  pointerBits := h.pointerBits
  structs := h.structs
  heads := h.heads
  toVariation := V

/-- Modules in which one function has been built. -/
theorem built {func : FuncId} {N : Numbering} {b c : Builder} (hbc : b.Renumbered (h.setting func) N c) :
    Alongside V b.module c.module where
  pointerBits := hbc.pointerBits
  structs := by rw [hbc.right.structs, hbc.left.structs]; exact h.structs
  heads := hbc.heads
  leftHosts := hbc.leftHosts
  rightHosts := hbc.rightHosts
  functions {j f g} hf hg := by
    by_cases hj : j = func
    · have hfunc : b.func = j ∧ c.func = j := ⟨hbc.left.func.trans hj.symm, hbc.right.func.trans hj.symm⟩
      have hb := Builder.function?_eq hbc.left.valid
      have hc := Builder.function?_eq hbc.right.valid
      rw [hfunc.1, hf] at hb
      rw [hfunc.2, hg] at hc
      obtain rfl := Option.some.inj hb
      obtain rfl := Option.some.inj hc
      have hhead := hbc.heads j
      rw [hf, hg] at hhead
      have hhead := Option.some.inj hhead
      refine ⟨N, ⟨congrArg (·.1) hhead, congrArg (·.2.1) hhead, hbc.values.traced.parameters,
        congrArg (·.2.2) hhead, ?_⟩, ?_⟩
      · exact hbc.blocks.imp fun _ _ hx => ⟨hx.name, hx.insts.own, hx.terminator⟩
      · rw [Variation.contrast_eq V hbc.left.pointerBits hbc.right.pointerBits]
        exact hbc.values
    · rw [hbc.left.others j (by rw [hbc.left.func]; exact hj)] at hf
      rw [hbc.right.others j (by rw [hbc.right.func]; exact hj)] at hg
      exact (h.functions hf hg).grows hbc.left.pointerBits hbc.right.pointerBits hbc.left.shared hbc.right.shared

/-- Both builders start at the same declared function. -/
theorem start {func : FuncId} {name : String} {params : List Ir.Ty} {ret : Ir.Ty}
    (hm : m.function? func = some (.declare name params ret))
    (hn : n.function? func = some (.declare name params ret)) :
    (Builder.start m func).Renumbered (h.setting func) (Numbering.params params.length) (Builder.start n func) := by
  have along : ∀ {m : Module}, m.function? func = some (.declare name params ret) →
      ({ module := m, func } : Builder).Along m func :=
    fun hf => ⟨rfl, (Array.getElem?_eq_some_iff.1 hf).1, rfl, rfl, fun _ => rfl, fun _ _ => rfl, .refl _⟩
  rw [Ir.Emit.start_eq hm, Ir.Emit.start_eq hn]
  refine ⟨rfl, rfl, along hm, along hn, h.leftHosts, h.rightHosts, ?_, ?_⟩
  · simp only [Builder.function, hm, hn, Option.getD_some]
    exact params_fits ..
  · simp only [Builder.function, hm, hn, Option.getD_some]
    exact .nil

/-- One definition has been lowered in both. -/
theorem lower {config config' : Config} (ha : Allocates V) (hbits : config'.pointerBits = config.pointerBits)
    (hleft : config.initialCapacity = V.leftCapacity) (hright : config'.initialCapacity = V.rightCapacity)
    {tables : Tables} (htables : tables.vector = V.descriptor) {sig : Signature} {name : String}
    {params : List Ir.Ty} {ret : Ir.Ty} (hm : m.function? sig.func = some (.declare name params ret))
    (hn : n.function? sig.func = some (.declare name params ret)) (d : FunctionDef)
    (hcount : (parameters d sig).length ≤ params.length) (q : Queue) :
    let s := lowerBody config V.leftAllocator tables (m, q) d sig
    let t := lowerBody config' V.rightAllocator tables (n, q) d sig
    t.diags = s.diags ∧ ∃ N, s.builder.Renumbered (h.setting sig.func) N t.builder := by
  have hallocates : Allocates (h.setting sig.func).toVariation := ha
  have henv : Env.Follows (lockstep (h.setting sig.func)) ⟨config, tables, V.leftAllocator, sig.ret, d.symbol⟩
      ⟨config', tables, V.rightAllocator, sig.ret, d.symbol⟩ := by
    refine ⟨hbits, rfl, rfl, rfl, hallocates.follows, fun v bytes hv hs => ?_⟩
    rw [hleft, hright]
    exact hallocates.new_follows hv (hs.trans htables) bytes
  have hstart : State.Linked (lockstep (h.setting sig.func)) (Numbering.params params.length).links
      ⟨.start m sig.func, q, {}, [], false, {}⟩ ⟨.start n sig.func, q, {}, [], false, {}⟩ :=
    ⟨.of (h.start hm hn), rfl, .nil, rfl, rfl, rfl⟩
  have hparams : ∀ p ∈ paramLinks (parameters d sig).length, p ∈ (Numbering.params params.length).links := by
    intro p hp
    obtain ⟨i, hi, rfl⟩ := List.mem_map.1 hp
    exact .inl ⟨rfl, Nat.lt_of_lt_of_le (List.mem_range.1 hi) hcount⟩
  obtain ⟨_, _, ⟨⟨N, _, hbuilder⟩, hdiags, _⟩, _⟩ := (lowerFunction_follows henv d sig).run hparams hstart
  exact ⟨Eq.symm hdiags, N, hbuilder⟩

end Alongside

/-! ### Two programs -/

/-- Modules and reports once the definitions before a position have been lowered in both. -/
structure InStep (V : Variation) (c : Collection) (position : Nat) (acc acc' : Module × Queue) : Prop where
  modules : Alongside V acc.1 acc'.1
  diags : acc'.2 = acc.2
  todo : ∀ r ∈ c.tables.functions, position ≤ r.2.definition →
    acc.1.function? r.2.func = c.module.function? r.2.func ∧ acc'.1.function? r.2.func = c.module.function? r.2.func

section

variable {V : Variation} {config : Config} {p : Program} {c : Collection}

theorem InStep.start (config : Config) (p : Program) (name : String) :
    InStep V (.ofProgram config p) 0 ((Collection.ofProgram config p).module, (Collection.ofProgram config p).diags)
      (((Collection.ofProgram config p).renamed name).module, ((Collection.ofProgram config p).renamed name).diags) := by
  have hhosts := (Collection.ofProgram_fits config p).hosts
  refine ⟨⟨rfl, rfl, fun _ => rfl, fun d hd => by simp [hhosts] at hd, fun d hd => ?_, fun {j f g} hf hg => ?_⟩, rfl,
    fun _ _ _ => ⟨rfl, rfl⟩⟩
  · simp [Collection.renamed, hhosts] at hd
  · obtain rfl : f = g := Option.some.inj (hf.symm.trans hg)
    obtain ⟨_, _, params, ret, -, -, -, -, -, rfl⟩ := (Collection.ofProgram_listed config p).source hf
    exact .declared ..

/-- One definition further. -/
theorem InStep.next (ha : Allocates V) (hleft : config.initialCapacity = V.leftCapacity) (moduleName : String)
    (hc : c.Fits config) (htables : c.tables.vector = V.descriptor) {position : Nat} {acc acc' : Module × Queue}
    (h : InStep V c position acc acc') {d : FunctionDef} (hd : p.functions[position]? = some d) :
    InStep V c (position + 1) (lowerDefinition config V.leftAllocator c.tables acc position d)
      (lowerDefinition { config with moduleName, initialCapacity := V.rightCapacity } V.rightAllocator c.tables acc'
        position d) := by
  rcases lowerDefinition_cases (c := c) config V.leftAllocator acc hd with ⟨sig, hdecl, heq⟩ | ⟨hno, heq⟩
  · rcases lowerDefinition_cases (c := c) { config with moduleName, initialCapacity := V.rightCapacity }
      V.rightAllocator acc' hd with
      ⟨sig', hdecl', heq'⟩ | ⟨hno', -⟩
    · obtain rfl : sig = sig' := Option.some.inj (hdecl.2.1.symm.trans hdecl'.2.1)
      rw [heq, heq']
      have hmem := mem_of_lookup hdecl.2.1
      obtain ⟨name, hf⟩ := hc.functions _ hmem
      obtain ⟨hm, hn⟩ := h.todo _ hmem (Nat.le_of_eq hdecl.2.2.symm)
      rw [hf] at hm hn
      have hcount : (parameters d sig).length ≤
          ((sig.receiver.toList ++ sig.params).map config.layout.irType).length := by
        simp [parameters]
      obtain ⟨m, q⟩ := acc
      obtain ⟨n, q'⟩ := acc'
      obtain rfl : q' = q := h.diags
      let config' : Config := { config with moduleName, initialCapacity := V.rightCapacity }
      obtain ⟨hdiags, N, hbuilt⟩ := h.modules.lower ha (show config'.pointerBits = config.pointerBits from rfl)
        hleft rfl htables hm hn d hcount q'
      refine ⟨h.modules.built hbuilt, hdiags, fun r hr hle => ?_⟩
      -- another definition has another function
      have hapart : r.2.func ≠ sig.func := by
        intro he
        rw [hc.functionsApart r hr _ hmem he, hdecl.2.2] at hle
        exact Nat.not_succ_le_self _ hle
      obtain ⟨hm', hn'⟩ := h.todo r hr (Nat.le_of_succ_le hle)
      exact ⟨(hbuilt.left.others _ (by rw [hbuilt.left.func]; exact hapart)).trans hm',
        (hbuilt.right.others _ (by rw [hbuilt.right.func]; exact hapart)).trans hn'⟩
    · exact absurd hdecl (hno' sig)
  · rcases lowerDefinition_cases (c := c) { config with moduleName, initialCapacity := V.rightCapacity }
      V.rightAllocator acc' hd with
      ⟨sig', hdecl', -⟩ | ⟨-, heq'⟩
    · exact absurd hdecl' (hno sig')
    · rw [heq, heq']
      exact ⟨h.modules, h.diags, fun r hr hle => h.todo r hr (Nat.le_of_succ_le hle)⟩

theorem lowerFirst_inStep (ha : Allocates V) (hleft : config.initialCapacity = V.leftCapacity)
    (htables : (Collection.ofProgram config p).tables.vector = V.descriptor) (moduleName : String) {n : Nat}
    (hn : n ≤ p.functions.length) :
    InStep V (.ofProgram config p) n (lowerFirst config V.leftAllocator p n)
      (lowerFirst { config with moduleName, initialCapacity := V.rightCapacity } V.rightAllocator p n) := by
  have hren := Collection.ofProgram_renamed config p moduleName V.rightCapacity
  induction n with
  | zero =>
    have hzero : lowerFirst { config with moduleName, initialCapacity := V.rightCapacity } V.rightAllocator p 0 =
        (((Collection.ofProgram config p).renamed moduleName).module,
          ((Collection.ofProgram config p).renamed moduleName).diags) := by
      rw [← hren]
      rfl
    rw [hzero]
    exact .start config p moduleName
  | succ n ih =>
    rw [lowerFirst_succ _ _ hn, lowerFirst_succ _ _ hn, hren]
    exact (ih (Nat.le_of_lt hn)).next ha hleft moduleName (Collection.ofProgram_fits config p) htables
      (List.getElem?_eq_getElem hn)

/-- As many functions. -/
theorem Alongside.size_eq {m n : Module} (h : Alongside V m n) : n.functions.size = m.functions.size := by
  have hhead : ∀ i : Nat, n.functions[i]?.isSome = m.functions[i]?.isSome := by
    intro i
    have := congrArg Option.isSome (h.heads ⟨i⟩)
    simpa [Module.function?] using this
  refine Nat.le_antisymm ?_ ?_
  · refine Nat.not_lt.1 fun hlt => ?_
    have := hhead m.functions.size
    simp [hlt] at this
  · refine Nat.not_lt.1 fun hlt => ?_
    have := hhead n.functions.size
    simp [hlt] at this

/-- A function is declared in both. -/
theorem Alongside.declare {m n : Module} (h : Alongside V m n) (name : String) (params : List Ir.Ty) (ret : Ir.Ty) :
    Alongside V (m.declareFunction name params ret).2 (n.declareFunction name params ret).2 where
  pointerBits := h.pointerBits
  structs := h.structs
  heads j := by
    have := h.heads j
    simp only [Module.function?, Module.declareFunction, Array.getElem?_push, h.size_eq] at this ⊢
    split <;> simp_all
  leftHosts := h.leftHosts
  rightHosts := h.rightHosts
  functions {j f g} hf hg := by
    simp only [Module.function?, Module.declareFunction, Array.getElem?_push, h.size_eq] at hf hg
    split at hf
    · rename_i hj
      rw [if_pos hj] at hg
      cases hf
      cases hg
      exact .declared ..
    · rename_i hj
      rw [if_neg hj] at hg
      exact (h.functions hf hg).grows rfl rfl (.refl _) (.refl _)

/-- The wrapper is built in both. -/
theorem Alongside.wrapper {m n : Module} (h : Alongside V m n) (sig : Signature) (name : String) :
    Alongside V
      (emitWrapper sig name (.start (m.declareFunction wrapperName [] .i32).2 ⟨m.functions.size⟩)).2.module
      (emitWrapper sig name (.start (n.declareFunction wrapperName [] .i32).2 ⟨n.functions.size⟩)).2.module := by
  have hdecl := h.declare wrapperName [] .i32
  have hlast : ∀ m : Module, (m.declareFunction wrapperName [] .i32).2.function? ⟨m.functions.size⟩ =
      some (.declare wrapperName [] .i32) := fun m => by simp [Module.function?, Module.declareFunction]
  have hsame := hlast n
  rw [h.size_eq] at hsame ⊢
  have hstart := hdecl.start (hlast m) hsame
  have hfollows : (lockstep (hdecl.setting ⟨m.functions.size⟩)).Follows [] (emitWrapper sig name)
      (emitWrapper sig name) := emitWrapper_follows sig name
  obtain ⟨_, _, ⟨N, _, hbuilt⟩, _⟩ := hfollows.run (by simp) (.of hstart)
  exact hdecl.built hbuilt

/-- The wrapper is added to both, or the same is reported. -/
theorem Alongside.addWrapper {m n : Module} (h : Alongside V m n) (config : Config) (p : Program)
    (tables : Tables) (q : Queue) :
    Alongside V (addEntryWrapper config p tables (m, q)).1 (addEntryWrapper config p tables (n, q)).1 ∧
      (addEntryWrapper config p tables (n, q)).2 = (addEntryWrapper config p tables (m, q)).2 := by
  unfold addEntryWrapper
  dsimp only
  cases p.functions.find? fun d => d.receiver.isNone && d.symbol == config.entryPoint with
  | none => exact ⟨h, rfl⟩
  | some d =>
    dsimp only
    cases tables.function? d.symbol with
    | none => exact ⟨h, rfl⟩
    | some sig =>
      dsimp only
      split
      · exact ⟨h, rfl⟩
      · split
        · exact ⟨h, rfl⟩
        · refine ⟨?_, rfl⟩
          have hwrapper := h.wrapper sig d.symbol
          dsimp only [Module.declareFunction] at hwrapper ⊢
          exact hwrapper

/-- Neither the allocator nor the capacity of new vectors nor the module's name has an influence on what is reported
or on the functions, up to the numbers of values. -/
theorem allocators_leave_code_alone (config config' : Config) (hbits : config'.pointerBits = config.pointerBits)
    (hentry : config'.entryPoint = config.entryPoint) {own own' : Set HostDecl} {x y : Allocator}
    (hx : x.CallsOut own) (hy : y.CallsOut own') (p : Program) :
    let o := lowerProgram config x p
    let o' := lowerProgram config' y p
    let V : Variation := ⟨own, own', x, y, config.initialCapacity, config'.initialCapacity,
      (Collection.ofProgram config p).tables.vector, x.GivesNew ∧ y.GivesNew⟩
    o'.diagnostics = o.diagnostics ∧ o'.module.functions.size = o.module.functions.size ∧
      ∀ {j f g}, o.module.function? j = some f → o'.module.function? j = some g →
        Corresponds V o.module o'.module f g := by
  intro o o' V
  obtain ⟨bits, capacity, entry, name⟩ := config
  obtain ⟨bits', capacity', entry', name'⟩ := config'
  dsimp only at hbits hentry
  subst hbits hentry
  let config : Config := ⟨bits', capacity, entry', name⟩
  have hall : InStep V (.ofProgram config p) p.functions.length (lowerFirst config x p p.functions.length)
      (lowerFirst { config with moduleName := name', initialCapacity := capacity' } y p p.functions.length) :=
    lowerFirst_inStep (V := V) ⟨hx, hy, id⟩ rfl rfl name' (Nat.le_refl _)
  have hren := Collection.ofProgram_renamed config p name' capacity'
  have ho := lowerProgram_eq config x p
  have ho' := lowerProgram_eq { config with moduleName := name', initialCapacity := capacity' } y p
  have hwrapper : ∀ acc, addEntryWrapper { config with moduleName := name', initialCapacity := capacity' } p
      (Collection.ofProgram config p).tables acc =
        addEntryWrapper config p (Collection.ofProgram config p).tables acc := fun _ => rfl
  rw [hren, show ((Collection.ofProgram config p).renamed name').tables = (Collection.ofProgram config p).tables from rfl,
    hwrapper] at ho'
  generalize lowerFirst config x p p.functions.length = acc at hall ho
  generalize lowerFirst { config with moduleName := name', initialCapacity := capacity' } y p p.functions.length = acc'
    at hall ho'
  obtain ⟨m, q⟩ := acc
  obtain ⟨n, q'⟩ := acc'
  obtain rfl : q' = q := hall.diags
  obtain ⟨hmodules, hdiags⟩ := hall.modules.addWrapper config p (Collection.ofProgram config p).tables q'
  have hm : o.module = (addEntryWrapper config p (Collection.ofProgram config p).tables (m, q')).1 :=
    congrArg Output.module ho
  have hn : o'.module = (addEntryWrapper config p (Collection.ofProgram config p).tables (n, q')).1 :=
    congrArg Output.module ho'
  rw [← hm, ← hn] at hmodules
  have hreports : o'.diagnostics = o.diagnostics := by
    refine (congrArg Output.diagnostics ho').trans (Eq.trans ?_ (congrArg Output.diagnostics ho).symm)
    exact congrArg (fun q : Queue => q.flush.1) hdiags
  exact ⟨hreports, hmodules.size_eq, hmodules.functions⟩

end

/-- One allocator makes room for four elements of a new vector, another one for none and takes a flag. -/
theorem new_vectors_correspond :
    let o := lowerProgram {} .collector vectorMaker
    let o' := lowerProgram { initialCapacity := 0, moduleName := "tight" } .flagged vectorMaker
    let V : Variation := ⟨collectorHosts, flaggedHosts, .collector, .flagged, 4, 0,
      (Collection.ofProgram {} vectorMaker).tables.vector,
      Allocator.GivesNew .collector ∧ Allocator.GivesNew .flagged⟩
    o'.diagnostics = o.diagnostics ∧ ∃ f g, o.module.function? ⟨0⟩ = some f ∧ o'.module.function? ⟨0⟩ = some g ∧
      f.instCount = 8 ∧ g.instCount = 7 ∧
      ∃ N : Numbering, f.Renumbered N g ∧ N.Fits (V.contrast o.module o'.module) o.module.shared o'.module.shared f g ∧
        N.all.OneToOne := by
  intro o o' V
  obtain ⟨hreports, -, hfunctions⟩ := allocators_leave_code_alone {} { initialCapacity := 0, moduleName := "tight" }
    rfl rfl collector_callsOut flagged_callsOut vectorMaker
  have hleft : (o.module.function? ⟨0⟩).map (·.instCount) = some 8 := by decide +kernel
  have hright : (o'.module.function? ⟨0⟩).map (·.instCount) = some 7 := by decide +kernel
  obtain ⟨f, hf, hfcount⟩ := Option.map_eq_some_iff.1 hleft
  obtain ⟨g, hg, hgcount⟩ := Option.map_eq_some_iff.1 hright
  obtain ⟨N, hsame, hfits⟩ := hfunctions hf hg
  exact ⟨hreports, f, g, hf, hg, hfcount, hgcount, N, hsame, hfits, hfits.anew ⟨collector_givesNew, flagged_givesNew⟩⟩

end BlockForge.Lowering
