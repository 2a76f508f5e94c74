import BlockForge.Proofs.Lowering.Definitions

/-!
# The functions of a module

Every function of a module comes from a definition of the program, but for the wrapper around the entry
point. It has the name of its definition, so in a program without errors two functions share a name only if
one of those names was made up for the entry point.
-/

namespace BlockForge.Lowering

open Diagnostic (Diag Queue)
open Ir (FuncId Module)
open Source (FunctionDef Program Span)

namespace Collection

variable {config : Config} {c : Collection}

/-- A definition is declared under a new symbol with the next function, or there is an error. -/
theorem declareFunction_cases (config : Config) (all : List FunctionDef) (c : Collection) (position : Nat)
    (d : FunctionDef) :
    ((c.declareFunction config all position d).module.functions = c.module.functions ∧
      (c.declareFunction config all position d).tables.functions = c.tables.functions ∧
      (c.declareFunction config all position d).Failed) ∨
    ∃ sig params ret, c.tables.function? d.symbol = none ∧
      (c.declareFunction config all position d).module.functions =
        c.module.functions.push (.declare (irName config d) params ret) ∧
      (c.declareFunction config all position d).tables.functions = (d.symbol, sig) :: c.tables.functions ∧
      sig.func = ⟨c.module.functions.size⟩ ∧ sig.definition = position ∧
      (d.receiver = none → sig.receiver = none) ∧
      (c.Failed → (c.declareFunction config all position d).Failed) := by
  unfold declareFunction
  split
  · exact .inl ⟨rfl, rfl, failed_report.2 (.inr rfl)⟩
  · rename_i hnew
    have hreceiver : d.receiver = none → (c.resolveReceiver d).1 = some none := fun hd => by
      rw [resolveReceiver, hd]
    obtain ⟨k₁, f₁⟩ := resolveReceiver_reports c d
    generalize c.resolveReceiver d = r₁ at k₁ f₁ hreceiver ⊢
    obtain ⟨receiver, c₁⟩ := r₁
    obtain ⟨k₂, f₂⟩ := resolveParams_reports c₁ d.params
    dsimp only at k₁ f₁ ⊢
    generalize c₁.resolveParams d.params = r₂ at k₂ f₂ ⊢
    obtain ⟨params, c₂⟩ := r₂
    obtain ⟨k₃, f₃⟩ := resolve_reports c₂ d.returnType d.span
    dsimp only at k₂ f₂ ⊢
    generalize c₂.resolve d.returnType d.span = r₃ at k₃ f₃ ⊢
    obtain ⟨ret, c₃⟩ := r₃
    dsimp only at k₃ f₃ ⊢
    have k := (k₁.trans k₂).trans k₃
    have hfunctions : c₃.module.functions = c.module.functions := congrArg Module.functions k.module
    have htables : c₃.tables.functions = c.tables.functions := congrArg Tables.functions k.tables
    split
    · rename_i receiver params ret
      split
      · exact .inl ⟨hfunctions, htables, failed_report.2 (.inr rfl)⟩
      · rename_i c₄ hadd
        obtain ⟨hm, hd, hfun, -⟩ := addMethod?_eq hadd
        have hsize : c₄.module.functions = c.module.functions := by rw [hm, hfunctions]
        refine .inr ⟨⟨⟨c₄.module.functions.size⟩, position, receiver, params, ret⟩,
          (receiver.toList ++ params).map config.layout.irType, config.layout.returnIrType ret, ?_, ?_, ?_,
          ?_, rfl, fun hd => Option.some.inj (hreceiver hd), fun hf => ?_⟩
        · simp only [Bool.or_eq_true, not_or, Option.not_isSome_iff_eq_none] at hnew
          exact hnew.1
        · show c₄.module.functions.push _ = _
          rw [hsize]
        · show (d.symbol, _) :: c₄.tables.functions = _
          rw [hfun, htables]
          rfl
        · rw [hsize]
        · show c₄.diags.kept.any (·.isError) = true
          rw [hd]
          exact k.failed hf
    · rename_i hnone
      refine .inl ⟨hfunctions, htables, ?_⟩
      show c₃.Failed
      cases receiver with
      | none => exact k₃.failed (k₂.failed (f₁ rfl))
      | some receiver =>
        cases params with
        | none => exact k₃.failed (f₂ rfl)
        | some params =>
          cases ret with
          | none => exact f₃ rfl
          | some ret => exact absurd rfl (hnone receiver params ret rfl rfl)

/-- The functions of the module are those of the definitions before a position, under different symbols;
without errors none of those definitions is left out. -/
structure Listed (config : Config) (all : List FunctionDef) (position : Nat) (c : Collection) : Prop where
  source : ∀ {j f}, c.module.function? j = some f → ∃ d sig params ret,
    (d.symbol, sig) ∈ c.tables.functions ∧ sig.func = j ∧ all[sig.definition]? = some d ∧
    sig.definition < position ∧ (d.receiver = none → sig.receiver = none) ∧
    f = .declare (irName config d) params ret
  symbols : c.tables.functions.Pairwise fun r q => r.1 ≠ q.1
  complete : ¬c.Failed → ∀ {i d}, i < position → all[i]? = some d →
    ∃ sig, (d.symbol, sig) ∈ c.tables.functions ∧ sig.definition = i

theorem Listed.step {all : List FunctionDef} {position : Nat} (h : c.Listed config all position)
    {d : FunctionDef} (hd : all[position]? = some d) :
    (c.declareFunction config all position d).Listed config all (position + 1) := by
  rcases declareFunction_cases config all c position d with ⟨hm, ht, hf⟩ | ⟨sig, params, ret, hnew, hm, ht,
    hfunc, hpos, hreceiver, hf⟩
  · refine ⟨fun {j f} hj => ?_, by rw [ht]; exact h.symbols, fun hn => absurd hf hn⟩
    rw [Module.function?, hm] at hj
    obtain ⟨e, sig, params, ret, hmem, hs, he, hlt, hrec, hfun⟩ := h.source hj
    exact ⟨e, sig, params, ret, by rw [ht]; exact hmem, hs, he, Nat.lt_succ_of_lt hlt, hrec, hfun⟩
  · refine ⟨fun {j f} hj => ?_, ?_, fun hn {i e} hi he => ?_⟩
    · rw [Module.function?, hm, Array.getElem?_push] at hj
      rw [ht]
      split at hj
      · rename_i hlast
        refine ⟨d, sig, params, ret, by simp, ?_, by rw [hpos]; exact hd, by omega,
          hreceiver, (Option.some.inj hj).symm⟩
        rw [hfunc]
        exact Ir.Id.ext hlast.symm
      · obtain ⟨e, sig', params', ret', hmem, hs, he, hlt, hrec, hfun⟩ := h.source hj
        exact ⟨e, sig', params', ret', by simp [hmem], hs, he, Nat.lt_succ_of_lt hlt, hrec, hfun⟩
    · rw [ht]
      refine List.Pairwise.cons (fun q hq he => ?_) h.symbols
      have : (c.tables.functions.lookup d.symbol).isSome = true :=
        List.lookup_isSome_iff.2 ⟨q, hq, by simp [← he]⟩
      rw [Tables.function?] at hnew
      rw [hnew] at this
      cases this
    · rw [ht]
      rcases Nat.lt_succ_iff_lt_or_eq.1 hi with hi | rfl
      · obtain ⟨sig', hmem, hs⟩ := h.complete (fun hc => hn (hf hc)) hi he
        exact ⟨sig', by simp [hmem], hs⟩
      · obtain rfl : d = e := Option.some.inj (hd.symm.trans he)
        exact ⟨sig, by simp, hpos⟩

/-- Record types are declared without functions. -/
structure SameFunctions (c d : Collection) : Prop where
  module : d.module.functions = c.module.functions
  tables : d.tables.functions = c.tables.functions
  methods : d.tables.methods = c.tables.methods
  poisoned : d.tables.poisoned = c.tables.poisoned

theorem SameFunctions.refl (c : Collection) : SameFunctions c c := ⟨rfl, rfl, rfl, rfl⟩

theorem SameFunctions.trans {c d e : Collection} (h : SameFunctions c d) (k : SameFunctions d e) :
    SameFunctions c e :=
  ⟨k.module.trans h.module, k.tables.trans h.tables, k.methods.trans h.methods,
    k.poisoned.trans h.poisoned⟩

theorem declareRecord_functions (all : List Source.StructDef) (c : Collection) (d : Source.StructDef) :
    SameFunctions c (c.declareRecord all d).2 := by
  unfold declareRecord
  split
  · exact ⟨rfl, rfl, rfl, rfl⟩
  · split
    · exact ⟨rfl, rfl, rfl, rfl⟩
    · exact ⟨rfl, rfl, rfl, rfl⟩

theorem defineRecord_functions (layout : Types.Layout) (c : Collection) (d : Source.StructDef) :
    SameFunctions c (defineRecord layout c d) := by
  have k := resolveFields_reports c [] d.fields
  have hk : SameFunctions c (c.resolveFields [] d.fields).2 :=
    ⟨congrArg Module.functions k.module, congrArg Tables.functions k.tables,
      congrArg Tables.methods k.tables, congrArg Tables.poisoned k.tables⟩
  unfold defineRecord
  generalize c.resolveFields [] d.fields = r at hk ⊢
  obtain ⟨fields, c₁⟩ := r
  dsimp only at hk ⊢
  split
  · exact hk
  · exact hk.trans ⟨rfl, rfl, rfl, rfl⟩

theorem declareRecords_functions (layout : Types.Layout) (c : Collection)
    (all : List Source.StructDef) : SameFunctions c (c.declareRecords layout all) := by
  have hdeclare : ∀ (ds : List Source.StructDef) (acc : List Source.StructDef × Collection),
      SameFunctions acc.2 (ds.foldl (fun acc d =>
        (if (declareRecord all acc.2 d).1 then acc.1 ++ [d] else acc.1,
          (declareRecord all acc.2 d).2)) acc).2 := by
    intro ds
    induction ds with
    | nil => exact fun acc => .refl acc.2
    | cons d rest ih =>
      intro acc
      refine (declareRecord_functions all acc.2 d).trans ?_
      exact ih (if (declareRecord all acc.2 d).1 then acc.1 ++ [d] else acc.1,
        (declareRecord all acc.2 d).2)
  have hdefine : ∀ (ds : List Source.StructDef) (c : Collection),
      SameFunctions c (ds.foldl (defineRecord layout) c) := by
    intro ds
    induction ds with
    | nil => exact fun c => .refl c
    | cons d rest ih => exact fun c => (defineRecord_functions layout c d).trans (ih (defineRecord layout c d))
  exact (hdeclare all ([], c)).trans (hdefine _ _)

/-- The functions of a program's module are those of its definitions. -/
theorem ofProgram_listed (config : Config) (p : Program) :
    (ofProgram config p).Listed config p.functions p.functions.length := by
  have hstart : ((start config).declareRecords config.layout p.structs).Listed config p.functions 0 := by
    have hsame := declareRecords_functions config.layout (start config) p.structs
    have hm : ((start config).declareRecords config.layout p.structs).module.functions = #[] :=
      hsame.module.trans rfl
    have ht : ((start config).declareRecords config.layout p.structs).tables.functions = [] :=
      hsame.tables.trans rfl
    refine ⟨fun {j f} hj => ?_, by rw [ht]; exact .nil, fun _ _ _ hi => absurd hi (Nat.not_lt_zero _)⟩
    rw [Module.function?, hm] at hj
    simp at hj
  exact ofProgram_induction (P := fun n c => c.Listed config p.functions n) hstart fun hd h => h.step hd

theorem Listed.lookup {all : List FunctionDef} {position : Nat} (h : c.Listed config all position)
    {symbol : String} {sig : Signature} (hm : (symbol, sig) ∈ c.tables.functions) :
    c.tables.function? symbol = some sig := by
  have hs := h.symbols
  rw [Tables.function?]
  generalize c.tables.functions = functions at hm hs ⊢
  induction functions with
  | nil => cases hm
  | cons r rest ih =>
    rw [List.pairwise_cons] at hs
    rw [List.lookup_cons]
    rcases List.mem_cons.1 hm with rfl | hm
    · simp
    · have hne : (symbol == r.1) = false := by
        rw [beq_eq_false_iff_ne]
        exact (hs.1 _ hm).symm
      rw [hne]
      exact ih hm hs.2

end Collection

section

variable {config : Config} {p : Program}

/-- Every declared function comes from a definition. -/
theorem ofProgram_declares {j : FuncId} {f : Ir.Function}
    (hj : (Collection.ofProgram config p).module.function? j = some f) : ∃ d sig,
      Declares p (Collection.ofProgram config p).tables sig.definition d sig ∧ sig.func = j := by
  have hlisted := Collection.ofProgram_listed config p
  obtain ⟨d, sig, params, ret, hmem, hfunc, hd, -⟩ := hlisted.source hj
  exact ⟨d, sig, ⟨hd, hlisted.lookup hmem, rfl⟩, hfunc⟩

/-- A definition is declared under its own name, with its receiver as the first parameter. -/
theorem Declares.declared {i : Nat} {d : FunctionDef} {sig : Signature}
    (h : Declares p (Collection.ofProgram config p).tables i d sig) :
    (Collection.ofProgram config p).module.function? sig.func = some (.declare
      (Collection.irName config d) ((sig.receiver.toList ++ sig.params).map config.layout.irType)
      (config.layout.returnIrType sig.ret)) ∧ (d.receiver = none → sig.receiver = none) := by
  have hc := Collection.ofProgram_fits config p
  have hmem := mem_of_lookup h.2.1
  obtain ⟨name, hf⟩ := hc.functions _ hmem
  obtain ⟨d', sig', params, ret, hmem', hfunc, hd, -, hreceiver, heq⟩ :=
    (Collection.ofProgram_listed config p).source hf
  obtain rfl : sig' = sig := congrArg Prod.snd (hc.functionsApart _ hmem' _ hmem hfunc)
  obtain rfl : d' = d := Option.some.inj (hd.symm.trans (h.2.2 ▸ h.1))
  refine ⟨?_, hreceiver⟩
  rw [hf]
  exact congrArg (fun f : Ir.Function => some (Ir.Function.declare f.name _ _)) heq

end

end BlockForge.Lowering
