import BlockForge.Proofs.Lowering.State

/-!
# Collecting declarations

The tables of a program agree with the module that holds its declarations, whatever was reported on
the way: a record's struct type has its fields, a signature's function is declared with its types, and
no two names share a struct type or a function.
-/

namespace BlockForge.Lowering

open Diagnostic (Diag)
open Ir (Module StructId)
open Source (FunctionDef Param Program Span StructDef TypeExpr)
open BlockForge.Types (Ty)

/-! ### Struct types -/

namespace Collection

theorem structFields_declareStruct (m : Module) (name : String) (i : StructId) :
    (m.declareStruct name).2.structFields i = m.structFields i := by
  simp only [Module.declareStruct, Module.structFields, Array.getElem?_push]
  by_cases h : i.index = m.structs.size
  · simp [h]
  · simp [h]

theorem structFields_setStructBody {m : Module} {i : StructId} (hi : i.index < m.structs.size)
    (fields : List Ir.Ty) (j : StructId) :
    (m.setStructBody i fields).structFields j = if j = i then fields else m.structFields j := by
  simp only [Module.setStructBody, Module.structFields, Array.getElem?_modify]
  by_cases h : j = i
  · subst h
    simp [hi]
  · have hne : i.index ≠ j.index := fun he => h (Ir.Id.ext he.symm)
    simp [h, hne]

/-! ### Reports -/

def Failed (c : Collection) : Prop := c.diags.kept.any (·.isError) = true

/-- Nothing but reports has been added. -/
structure Reports (c d : Collection) : Prop where
  module : d.module = c.module
  tables : d.tables = c.tables
  failed : c.Failed → d.Failed

namespace Reports

theorem refl (c : Collection) : c.Reports c := ⟨rfl, rfl, id⟩

theorem trans {c d e : Collection} (h : c.Reports d) (k : d.Reports e) : c.Reports e :=
  ⟨k.module.trans h.module, k.tables.trans h.tables, fun hf => k.failed (h.failed hf)⟩

end Reports

theorem failed_report {c : Collection} {d : Diag} :
    (c.report d).Failed ↔ c.Failed ∨ d.isError = true := by
  simp only [Failed, report, any_isError_add, Bool.or_eq_true]

theorem report_reports (c : Collection) (d : Diag) : c.Reports (c.report d) :=
  ⟨rfl, rfl, fun hf => failed_report.2 (.inl hf)⟩

/-- A type that does not resolve is reported. -/
theorem resolve_reports (c : Collection) (t : TypeExpr) (span : Span) :
    c.Reports (c.resolve t span).2 ∧ ((c.resolve t span).1 = none → (c.resolve t span).2.Failed) := by
  unfold Collection.resolve
  split
  · exact ⟨.refl c, by simp⟩
  · exact ⟨report_reports c _, fun _ => failed_report.2 (.inr rfl)⟩

theorem resolveFields_reports (c : Collection) (before fields : List Param) :
    c.Reports (c.resolveFields before fields).2 := by
  induction fields generalizing c before with
  | nil => exact .refl c
  | cons f rest ih =>
    simp only [resolveFields]
    split
    · exact (report_reports c _).trans (ih _ _)
    · exact (resolve_reports c f.type f.span).1.trans (ih _ _)

theorem resolveParams_reports (c : Collection) (params : List Param) :
    c.Reports (c.resolveParams params).2 ∧
      ((c.resolveParams params).1 = none → (c.resolveParams params).2.Failed) := by
  induction params generalizing c with
  | nil => exact ⟨.refl c, by simp [resolveParams]⟩
  | cons p rest ih =>
    obtain ⟨h₁, f₁⟩ := resolve_reports c p.type p.span
    obtain ⟨h₂, f₂⟩ := ih (c.resolve p.type p.span).2
    simp only [resolveParams]
    refine ⟨h₁.trans h₂, fun hn => ?_⟩
    cases ht : (c.resolve p.type p.span).1 with
    | none => exact h₂.failed (f₁ ht)
    | some t =>
      refine f₂ ?_
      simpa [ht] using hn

theorem resolveReceiver_reports (c : Collection) (d : FunctionDef) :
    c.Reports (c.resolveReceiver d).2 ∧
      ((c.resolveReceiver d).1 = none → (c.resolveReceiver d).2.Failed) := by
  unfold resolveReceiver
  split
  · exact ⟨.refl c, by simp⟩
  · rename_i t _ _
    obtain ⟨h, f⟩ := resolve_reports c t d.span
    exact ⟨h, fun hn => f (by simpa using hn)⟩

/-! ### Tables and module -/

/-- The tables agree with the module that holds the declarations. -/
structure Fits (config : Config) (c : Collection) : Prop where
  pointerBits : c.module.pointerBits = config.pointerBits
  hosts : c.module.hosts = #[]
  vectorSize : c.tables.vector.index < c.module.structs.size
  vector : c.module.structFields c.tables.vector = [.ptr, c.module.ptrInt, c.module.ptrInt]
  records : ∀ r ∈ c.tables.records, r.2.id.index < c.module.structs.size ∧
    r.2.id ≠ c.tables.vector ∧
    c.module.structFields r.2.id = r.2.fields.map fun f => config.layout.irType f.2
  recordsApart : ∀ r ∈ c.tables.records, ∀ q ∈ c.tables.records, r.1 = q.1 ↔ r.2.id = q.2.id
  functions : ∀ r ∈ c.tables.functions, ∃ name, c.module.function? r.2.func =
    some (.declare name ((r.2.receiver.toList ++ r.2.params).map config.layout.irType)
      (config.layout.returnIrType r.2.ret))
  functionsApart : ∀ r ∈ c.tables.functions, ∀ q ∈ c.tables.functions,
    r.2.func = q.2.func → r = q
  methods : ∀ r ∈ c.tables.methods,
    ∃ sig, c.tables.function? r.2 = some sig ∧ sig.receiver = some r.1.1
  poisoned : ∀ symbol ∈ c.tables.poisoned, c.Failed

variable {config : Config} {c : Collection}

theorem Fits.reports {d : Collection} (h : c.Fits config) (k : c.Reports d) : d.Fits config := by
  obtain ⟨module, diags, tables⟩ := d
  obtain ⟨hm, ht, hf⟩ := k
  dsimp only at hm ht
  subst hm ht
  exact { h with poisoned := fun symbol hs => hf (h.poisoned symbol hs) }

theorem start_fits (config : Config) : (start config).Fits config where
  pointerBits := rfl
  hosts := rfl
  vectorSize := by simp [start, Module.declareStruct, Module.setStructBody]
  vector := by simp [start, Module.declareStruct, Module.setStructBody, Module.structFields,
    Module.ptrInt]
  records := by simp [start]
  recordsApart := by simp [start]
  functions := by simp [start]
  functionsApart := by simp [start]
  methods := by simp [start]
  poisoned := by simp [start]

/-! ### Record types -/

theorem declareRecord_fits (h : c.Fits config) (all : List StructDef) (d : StructDef) :
    (c.declareRecord all d).2.Fits config := by
  unfold declareRecord
  split
  · exact h.reports (report_reports c _)
  · split
    · exact h.reports (report_reports c _)
    · rename_i hnew
      have hfresh : ∀ r ∈ c.tables.records, r.1 ≠ d.name := by
        intro r hr he
        refine hnew ?_
        rw [Tables.record?, ← he, List.lookup_isSome_iff]
        exact ⟨r, hr, by simp⟩
      have hid : ∀ r ∈ c.tables.records, r.2.id ≠ ⟨c.module.structs.size⟩ := by
        intro r hr he
        have := (h.records r hr).1
        rw [he] at this
        exact Nat.lt_irrefl _ this
      have hsize : (c.module.declareStruct d.name).2.structs.size = c.module.structs.size + 1 := by
        simp [Module.declareStruct]
      exact { h with
        vectorSize := by
          rw [hsize]
          exact Nat.lt_succ_of_lt h.vectorSize
        vector := (structFields_declareStruct ..).trans h.vector
        records := fun r hr => by
          rw [structFields_declareStruct, hsize]
          rcases List.mem_cons.1 hr with rfl | hr
          · refine ⟨Nat.lt_succ_self _, fun he => ?_, ?_⟩
            · have := h.vectorSize
              rw [← he] at this
              exact Nat.lt_irrefl _ this
            · simp [Module.structFields, Module.declareStruct]
          · obtain ⟨h₁, h₂, h₃⟩ := h.records r hr
            exact ⟨Nat.lt_succ_of_lt h₁, h₂, h₃⟩
        recordsApart := fun r hr q hq => by
          rcases List.mem_cons.1 hr with rfl | hr <;> rcases List.mem_cons.1 hq with rfl | hq
          · simp
          · exact iff_of_false (hfresh q hq).symm (hid q hq).symm
          · exact iff_of_false (hfresh r hr) (hid r hr)
          · exact h.recordsApart r hr q hq }

theorem defineRecord_fits (h : c.Fits config) (d : StructDef) :
    (defineRecord config.layout c d).Fits config := by
  have h := h.reports (resolveFields_reports c [] d.fields)
  unfold defineRecord
  generalize c.resolveFields [] d.fields = r at h ⊢
  obtain ⟨fields, c⟩ := r
  dsimp only at h ⊢
  split
  · exact h
  · rename_i info hinfo
    have hmem := mem_of_lookup hinfo
    obtain ⟨hlt, hvec, -⟩ := h.records _ hmem
    have hset := structFields_setStructBody hlt (fields.map fun f => config.layout.irType f.2)
    have hsize : (c.module.setStructBody info.id
        (fields.map fun f => config.layout.irType f.2)).structs.size = c.module.structs.size := by
      simp [Module.setStructBody]
    -- only the names and the numbers of the struct types matter for keeping records apart
    have hold : ∀ {r}, r ∈ c.tables.records.map (fun q =>
        if q.1 = d.name then (q.1, { q.2 with fields }) else (q.1, q.2)) →
        ∃ q ∈ c.tables.records, q.1 = r.1 ∧ q.2.id = r.2.id ∧
          r.2.fields = if q.1 = d.name then fields else q.2.fields := by
      intro r hr
      obtain ⟨q, hq, rfl⟩ := List.mem_map.1 hr
      refine ⟨q, hq, ?_⟩
      dsimp only
      split <;> simp
    exact { h with
      vectorSize := by
        rw [hsize]
        exact h.vectorSize
      vector := by
        rw [hset, if_neg hvec.symm]
        exact h.vector
      records := fun r hr => by
        obtain ⟨q, hq, hname, hid, hfields⟩ := hold hr
        obtain ⟨h₁, h₂, h₃⟩ := h.records q hq
        rw [← hid, hsize, hset, hfields]
        refine ⟨h₁, h₂, ?_⟩
        by_cases hn : q.1 = d.name
        · rw [if_pos hn, if_pos ((h.recordsApart q hq _ hmem).1 hn)]
        · rw [if_neg hn, if_neg fun he => hn ((h.recordsApart q hq _ hmem).2 he), h₃]
      recordsApart := fun r hr q hq => by
        obtain ⟨r', hr', hn, hid, -⟩ := hold hr
        obtain ⟨q', hq', hn', hid', -⟩ := hold hq
        rw [← hn, ← hn', ← hid, ← hid']
        exact h.recordsApart r' hr' q' hq' }

theorem declareRecords_fits (h : c.Fits config) (all : List StructDef) :
    (c.declareRecords config.layout all).Fits config := by
  have hdeclare : ∀ (ds : List StructDef) (acc : List StructDef × Collection),
      acc.2.Fits config → (ds.foldl (fun acc d =>
        (if (declareRecord all acc.2 d).1 then acc.1 ++ [d] else acc.1,
          (declareRecord all acc.2 d).2)) acc).2.Fits config := by
    intro ds
    induction ds with
    | nil => exact fun _ h => h
    | cons d rest ih => exact fun acc h => ih _ (declareRecord_fits h all d)
  have hdefine : ∀ (ds : List StructDef) {c : Collection}, c.Fits config →
      (ds.foldl (defineRecord config.layout) c).Fits config := by
    intro ds
    induction ds with
    | nil => exact fun h => h
    | cons d rest ih => exact fun h => ih (defineRecord_fits h d)
  exact hdefine _ (hdeclare all ([], c) h)

/-! ### Functions -/

theorem poison_fits (h : c.Fits config) (hf : c.Failed) (symbol : String) :
    (c.poison symbol).Fits config :=
  { h with poisoned := fun _ _ => hf }

/-- A method is entered under its receiver type, which is the one of its signature. -/
theorem addMethod?_eq {d : FunctionDef} {receiver : Option Ty} {c' : Collection}
    (h : c.addMethod? receiver d = some c') : c'.module = c.module ∧ c'.diags = c.diags ∧
      c'.tables.functions = c.tables.functions ∧ c'.tables.records = c.tables.records ∧
      c'.tables.vector = c.tables.vector ∧ c'.tables.poisoned = c.tables.poisoned ∧
      ∀ r ∈ c'.tables.methods, r ∈ c.tables.methods ∨ receiver = some r.1.1 ∧ r.2 = d.symbol := by
  unfold addMethod? at h
  split at h
  · split at h
    · cases h
    · cases h
      refine ⟨rfl, rfl, rfl, rfl, rfl, rfl, fun r hr => ?_⟩
      rcases List.mem_cons.1 hr with rfl | hr
      · exact .inr ⟨rfl, rfl⟩
      · exact .inl hr
  · cases h
    exact ⟨rfl, rfl, rfl, rfl, rfl, rfl, fun _ hr => .inl hr⟩

theorem function?_declareFunction (m : Module) (name : String) (params : List Ir.Ty) (ret : Ir.Ty)
    {j : Ir.FuncId} {f : Ir.Function} (hj : m.function? j = some f) :
    (m.declareFunction name params ret).2.function? j = some f := by
  have hlt : j.index < m.functions.size := (Array.getElem?_eq_some_iff.1 hj).1
  simp only [Module.declareFunction, Module.function?, Array.getElem?_push]
  rw [if_neg (Nat.ne_of_lt hlt)]
  exact hj

/-- Entering a signature together with the function it declares. -/
theorem enter_fits (h : c.Fits config) {d : FunctionDef} {receiver : Option Ty} {c' : Collection}
    (hc : c.addMethod? receiver d = some c') (hnew : c.tables.function? d.symbol = none)
    (name : String) (position : Nat) (params : List Ty) (ret : Ty) :
    ({ c' with
      module := (c'.module.declareFunction name
        ((receiver.toList ++ params).map config.layout.irType) (config.layout.returnIrType ret)).2
      tables := { c'.tables with
        functions := (d.symbol, ⟨⟨c'.module.functions.size⟩, position, receiver, params, ret⟩) ::
          c'.tables.functions } } : Collection).Fits config := by
  obtain ⟨hm, hd, hfun, hrec, hvec, hpois, hmeth⟩ := addMethod?_eq hc
  have hlt : ∀ r ∈ c.tables.functions, r.2.func.index < c.module.functions.size := by
    intro r hr
    obtain ⟨_, hf⟩ := h.functions r hr
    exact (Array.getElem?_eq_some_iff.1 hf).1
  have hlookup : ∀ {symbol sig}, c.tables.function? symbol = some sig → symbol ≠ d.symbol := by
    rintro symbol sig hs rfl
    rw [hnew] at hs
    cases hs
  constructor
  · rw [hm]
    exact h.pointerBits
  · rw [hm]
    exact h.hosts
  · rw [hvec, hm]
    exact h.vectorSize
  · rw [hvec, hm]
    exact h.vector
  · rw [hrec, hvec, hm]
    exact h.records
  · rw [hrec]
    exact h.recordsApart
  · rw [hm]
    intro r hr
    rcases List.mem_cons.1 hr with rfl | hr
    · exact ⟨name, by simp [Module.declareFunction, Module.function?]⟩
    · obtain ⟨n, hf⟩ := h.functions r (hfun ▸ hr)
      exact ⟨n, function?_declareFunction _ _ _ _ hf⟩
  · rw [hm, hfun]
    intro r hr q hq he
    rcases List.mem_cons.1 hr with rfl | hr <;> rcases List.mem_cons.1 hq with rfl | hq
    · rfl
    · have := hlt q hq
      rw [← he] at this
      exact absurd this (Nat.lt_irrefl _)
    · have := hlt r hr
      rw [he] at this
      exact absurd this (Nat.lt_irrefl _)
    · exact h.functionsApart r hr q hq he
  · intro r hr
    simp only [Tables.function?, List.lookup_cons]
    rcases hmeth r hr with hr | ⟨ht, hs⟩
    · obtain ⟨sig, hsig, hrecv⟩ := h.methods r hr
      have hne : (r.2 == d.symbol) = false := by simpa using hlookup hsig
      refine ⟨sig, ?_, hrecv⟩
      rw [hne, hfun]
      exact hsig
    · refine ⟨⟨⟨c'.module.functions.size⟩, position, receiver, params, ret⟩, ?_, ht⟩
      simp [hs]
  · rw [hpois]
    intro symbol hs
    show c'.diags.kept.any (·.isError) = true
    rw [hd]
    exact h.poisoned symbol hs

theorem declareFunction_fits (h : c.Fits config) (all : List FunctionDef) (position : Nat)
    (d : FunctionDef) : (c.declareFunction config all position d).Fits config := by
  unfold declareFunction
  split
  · exact h.reports (report_reports c _)
  · rename_i hnew
    obtain ⟨k₁, f₁⟩ := resolveReceiver_reports c d
    generalize c.resolveReceiver d = r₁ at k₁ f₁ ⊢
    obtain ⟨receiver, c₁⟩ := r₁
    obtain ⟨k₂, f₂⟩ := resolveParams_reports c₁ d.params
    dsimp only at k₁ f₁ ⊢
    generalize c₁.resolveParams d.params = r₂ at k₂ f₂ ⊢
    obtain ⟨params, c₂⟩ := r₂
    obtain ⟨k₃, f₃⟩ := resolve_reports c₂ d.returnType d.span
    dsimp only at k₂ f₂ ⊢
    generalize c₂.resolve d.returnType d.span = r₃ at k₃ f₃ ⊢
    obtain ⟨ret, c₃⟩ := r₃
    dsimp only at k₃ f₃ ⊢
    have h₃ := h.reports ((k₁.trans k₂).trans k₃)
    have htables : c₃.tables = c.tables := ((k₁.trans k₂).trans k₃).tables
    split
    · rename_i receiver params ret
      split
      · exact poison_fits (h₃.reports (report_reports c₃ _)) (failed_report.2 (.inr rfl)) _
      · rename_i c₄ hadd
        refine enter_fits h₃ hadd ?_ _ _ _ _
        rw [htables]
        simp only [Bool.or_eq_true, not_or, Option.not_isSome_iff_eq_none] at hnew
        exact hnew.1
    · rename_i hnone
      refine poison_fits h₃ ?_ _
      cases receiver with
      | none => exact k₃.failed (k₂.failed (f₁ rfl))
      | some receiver =>
        cases params with
        | none => exact k₃.failed (f₂ rfl)
        | some params =>
          cases ret with
          | none => exact f₃ rfl
          | some ret => exact absurd rfl (hnone receiver params ret rfl rfl)

/-- What holds of the record types alone and is kept by each declaration holds of a whole program. -/
theorem ofProgram_induction {config : Config} {p : Program} {P : Nat → Collection → Prop}
    (hzero : P 0 ((start config).declareRecords config.layout p.structs))
    (hstep : ∀ {n d c}, p.functions[n]? = some d → P n c →
      P (n + 1) (c.declareFunction config p.functions n d)) :
    P p.functions.length (ofProgram config p) := by
  have hfold : ∀ n ≤ p.functions.length, P n ((p.functions.zipIdx.take n).foldl
      (fun c e => c.declareFunction config p.functions e.2 e.1)
      ((start config).declareRecords config.layout p.structs)) := by
    intro n hn
    induction n with
    | zero => exact hzero
    | succ n ih =>
      have hget : p.functions.zipIdx[n]? = some (p.functions[n], n) := by simp [Nat.lt_of_succ_le hn]
      rw [List.take_add_one, hget, Option.toList_some, List.foldl_append]
      exact hstep (List.getElem?_eq_getElem hn) (ih (Nat.le_of_succ_le hn))
  have hall := hfold p.functions.length (Nat.le_refl _)
  rw [List.take_of_length_le (by simp)] at hall
  exact hall

theorem ofProgram_fits (config : Config) (p : Program) : (ofProgram config p).Fits config :=
  ofProgram_induction (P := fun _ c => c.Fits config)
    (declareRecords_fits (start_fits config) p.structs)
    fun {n d _} _ h => declareFunction_fits h p.functions n d

end Collection

/-- Bodies are lowered against tables that fit their module. -/
theorem Collection.Fits.env {config : Config} {c : Collection} (h : c.Fits config)
    (hbits : config.pointerBits = 16 ∨ config.pointerBits = 32 ∨ config.pointerBits = 64)
    {allocator : Allocator} (ha : allocator.Sound) (ret : Ty) (name : String) :
    (⟨config, c.tables, allocator, ret, name⟩ : Env).Fits c.module where
  pointerBits := h.pointerBits
  width := hbits
  allocator := ha
  vector := h.vector
  records hr := (h.records _ (mem_of_lookup hr)).2.2
  functions hs := by
    obtain ⟨name, hf⟩ := h.functions _ (mem_of_lookup hs)
    exact ⟨_, hf, rfl, rfl⟩
  methods hm := h.methods _ (mem_of_lookup hm)

end BlockForge.Lowering
