import BlockForge.Proofs.Lowering.Names

/-!
# Where declarations come from

Definitions are declared in order, and the first one of a symbol decides: it is entered with the types it
is written with, or its symbol is poisoned, and later ones of that symbol change nothing. So each entry of
the tables leads back to the definition it was made for, and a definition without types leaves none.
-/

namespace BlockForge.Lowering

open Source (FunctionDef Param Program Span TypeExpr)
open BlockForge.Types (Ty)

/-! ### Written types -/

/-- The types of a signature are those that its definition is written with. -/
structure Signature.Written (tables : Tables) (d : FunctionDef) (sig : Signature) : Prop where
  receiver : d.receiver.map (fun r => tables.resolve r.1) = sig.receiver.map .ok
  params : d.params.map (fun p => tables.resolve p.type) = sig.params.map .ok
  ret : tables.resolve d.returnType = .ok sig.ret

theorem Tables.resolve_congr {t t' : Tables} (h : t'.records = t.records) (e : TypeExpr) :
    t'.resolve e = t.resolve e := by
  induction e with
  | unit => rfl
  | named name =>
    have hr : t'.record? name = t.record? name := by simp only [Tables.record?, h]
    unfold Tables.resolve
    rw [hr]
  | vector elem ih => simp only [Tables.resolve, ih]

section

variable {tables : Tables} {d : FunctionDef} {sig : Signature}

theorem Signature.Written.congr {tables' : Tables} (hw : sig.Written tables d)
    (h : tables'.records = tables.records) : sig.Written tables' d := by
  obtain ⟨hr, hp, ht⟩ := hw
  constructor
  · simpa only [Tables.resolve_congr h] using hr
  · simpa only [Tables.resolve_congr h] using hp
  · rw [Tables.resolve_congr h]
    exact ht

theorem Signature.Written.receiver_of_method (hw : sig.Written tables d) {t : TypeExpr} {m : String}
    (hd : d.receiver = some (t, m)) : ∃ T, sig.receiver = some T ∧ tables.resolve t = .ok T := by
  have hr := hw.receiver
  rw [hd, Option.map_some] at hr
  obtain ⟨T, hT, ht⟩ := Option.map_eq_some_iff.1 hr.symm
  exact ⟨T, hT, ht.symm⟩

/-- A parameter or the result is written with a type that is unknown. -/
def Unresolved (tables : Tables) (d : FunctionDef) : Prop :=
  (∃ p ∈ d.params, ∃ name, tables.resolve p.type = .error name) ∨
    ∃ name, tables.resolve d.returnType = .error name

theorem Unresolved.not_written (h : Unresolved tables d) : ¬sig.Written tables d := by
  intro hw
  rcases h with ⟨p, hp, name, he⟩ | ⟨name, he⟩
  · have hmem : tables.resolve p.type ∈ sig.params.map (Except.ok (ε := String)) := by
      rw [← hw.params]
      exact List.mem_map_of_mem hp
    obtain ⟨T, -, hT⟩ := List.mem_map.1 hmem
    rw [he] at hT
    cases hT
  · rw [hw.ret] at he
    cases he

end

namespace Collection

variable {config : Config} {c : Collection}

theorem resolve_eq_some {t : TypeExpr} {span : Span} {ty : Ty} (h : (c.resolve t span).1 = some ty) :
    c.tables.resolve t = .ok ty := by
  unfold Collection.resolve at h
  split at h
  · rename_i ht
    rw [ht, Option.some.inj h]
  · cases h

theorem resolveParams_eq_some {params : List Param} {ts : List Ty}
    (h : (c.resolveParams params).1 = some ts) :
    params.map (fun p => c.tables.resolve p.type) = ts.map .ok := by
  induction params generalizing c ts with
  | nil =>
    cases h
    rfl
  | cons p rest ih =>
    have h : (c.resolve p.type p.span).1.bind (fun t =>
        ((c.resolve p.type p.span).2.resolveParams rest).1.map (t :: ·)) = some ts := h
    obtain ⟨t, ht, hrest⟩ := Option.bind_eq_some_iff.1 h
    obtain ⟨ts, hts, rfl⟩ := Option.map_eq_some_iff.1 hrest
    have hrest := ih hts
    rw [(resolve_reports c p.type p.span).1.tables] at hrest
    rw [List.map_cons, List.map_cons, resolve_eq_some ht, hrest]

theorem resolveReceiver_eq_some {d : FunctionDef} {receiver : Option Ty}
    (h : (c.resolveReceiver d).1 = some receiver) :
    d.receiver.map (fun r => c.tables.resolve r.1) = receiver.map .ok := by
  unfold resolveReceiver at h
  split at h
  · rename_i hd
    cases h
    rw [hd]
    rfl
  · rename_i t m hd
    obtain ⟨ty, hty, rfl⟩ := Option.map_eq_some_iff.1 h
    rw [hd, Option.map_some, Option.map_some, resolve_eq_some hty]

/-! ### One declaration -/

/-- Nothing has become of a symbol yet. -/
def Fresh (t : Tables) (symbol : String) : Prop :=
  t.function? symbol = none ∧ t.isPoisoned symbol = false

/-- The entry of a method under its receiver type; none for a function. -/
def methodEntry (d : FunctionDef) (sig : Signature) : List ((Ty × String) × String) :=
  match sig.receiver, d.receiver with
  | some T, some (_, name) => [((T, name), d.symbol)]
  | _, _ => []

/-- What becomes of a definition: its symbol is taken, is poisoned, or is declared. -/
inductive Outcome (t : Tables) (position : Nat) (d : FunctionDef) : Tables → Prop
  | taken (ht : ¬Fresh t d.symbol) : Outcome t position d t
  | poisoned (ht : Fresh t d.symbol) :
      Outcome t position d { t with poisoned := d.symbol :: t.poisoned }
  | declared (sig : Signature) (ht : Fresh t d.symbol) (hw : sig.Written t d)
      (hp : sig.definition = position)
      (hm : ∀ r ∈ methodEntry d sig, t.method? r.1.1 r.1.2 = none) :
      Outcome t position d { t with
        functions := (d.symbol, sig) :: t.functions, methods := methodEntry d sig ++ t.methods }

theorem addMethod?_tables {d : FunctionDef} {receiver : Option Ty} {c' : Collection} (sig : Signature)
    (hs : sig.receiver = receiver) (h : c.addMethod? receiver d = some c') :
    c'.tables = { c.tables with methods := methodEntry d sig ++ c.tables.methods } ∧
      ∀ r ∈ methodEntry d sig, c.tables.method? r.1.1 r.1.2 = none := by
  subst hs
  unfold addMethod? at h
  split at h
  · rename_i T e name hT hd
    have hentry : methodEntry d sig = [((T, name), d.symbol)] := by simp only [methodEntry, hT, hd]
    split at h
    · cases h
    · rename_i hnew
      cases h
      rw [hentry]
      refine ⟨rfl, fun r hr => ?_⟩
      rw [List.mem_singleton.1 hr]
      simpa using hnew
  · rename_i hno
    have hentry : methodEntry d sig = [] := by
      unfold methodEntry
      split
      · rename_i T e name hT hd
        exact absurd hd (hno T e name hT)
      · rfl
    cases h
    rw [hentry]
    exact ⟨rfl, by simp⟩

theorem declareFunction_outcome (config : Config) (all : List FunctionDef) (c : Collection)
    (position : Nat) (d : FunctionDef) :
    Outcome c.tables position d (c.declareFunction config all position d).tables := by
  unfold declareFunction
  split
  · rename_i htaken
    apply Outcome.taken
    rintro ⟨hnone, hclean⟩
    simp [hnone, hclean] at htaken
  · rename_i hfree
    have hfresh : Fresh c.tables d.symbol := by
      rw [Bool.or_eq_true, not_or, Option.not_isSome_iff_eq_none, Bool.not_eq_true] at hfree
      exact hfree
    have k₁ := (resolveReceiver_reports c d).1
    have v₁ := @resolveReceiver_eq_some c d
    generalize c.resolveReceiver d = r₁ at k₁ v₁ ⊢
    obtain ⟨receiver, c₁⟩ := r₁
    have k₂ := (resolveParams_reports c₁ d.params).1
    have v₂ := @resolveParams_eq_some c₁ d.params
    dsimp only at k₁ v₁ ⊢
    generalize c₁.resolveParams d.params = r₂ at k₂ v₂ ⊢
    obtain ⟨params, c₂⟩ := r₂
    have k₃ := (resolve_reports c₂ d.returnType d.span).1
    have v₃ := @resolve_eq_some c₂ d.returnType d.span
    dsimp only at k₂ v₂ ⊢
    generalize c₂.resolve d.returnType d.span = r₃ at k₃ v₃ ⊢
    obtain ⟨ret, c₃⟩ := r₃
    dsimp only at k₃ v₃ ⊢
    rw [k₁.tables] at v₂
    rw [k₂.tables, k₁.tables] at v₃
    have htables : c₃.tables = c.tables := ((k₁.trans k₂).trans k₃).tables
    split
    · rename_i receiver params ret
      split
      · rw [show (poison (report c₃ _) d.symbol).tables =
          { c₃.tables with poisoned := d.symbol :: c₃.tables.poisoned } from rfl, htables]
        exact .poisoned hfresh
      · rename_i c₄ hadd
        let sig : Signature := ⟨⟨c₄.module.functions.size⟩, position, receiver, params, ret⟩
        obtain ⟨ht, hnew⟩ := addMethod?_tables sig rfl hadd
        rw [htables] at ht hnew
        dsimp only
        rw [ht]
        exact .declared sig hfresh ⟨v₁ rfl, v₂ rfl, v₃ rfl⟩ rfl hnew
    · rw [show (poison c₃ d.symbol).tables =
        { c₃.tables with poisoned := d.symbol :: c₃.tables.poisoned } from rfl, htables]
      exact .poisoned hfresh

/-! ### All declarations -/

/-- Tables of the definitions before a position. A signature belongs to the first definition of its symbol,
and is entered as a method if that is one. -/
structure Sourced (all : List FunctionDef) (position : Nat) (t : Tables) : Prop where
  functions : ∀ {symbol sig}, t.function? symbol = some sig → ∃ d, all[sig.definition]? = some d ∧
    d.symbol = symbol ∧ sig.Written t d ∧ sig.definition < position ∧
    (∀ {j e}, j < sig.definition → all[j]? = some e → e.symbol ≠ symbol) ∧
    ∀ r ∈ methodEntry d sig, t.method? r.1.1 r.1.2 = some r.2
  methods : ∀ {T m symbol}, t.method? T m = some symbol → ∃ d sig, t.function? symbol = some sig ∧
    all[sig.definition]? = some d ∧ ((T, m), symbol) ∈ methodEntry d sig
  seen : ∀ {j d}, j < position → all[j]? = some d → ¬Fresh t d.symbol

theorem mem_methodEntry {d : FunctionDef} {sig : Signature} {r : (Ty × String) × String} :
    r ∈ methodEntry d sig ↔
      sig.receiver = some r.1.1 ∧ d.receiver.map (·.2) = some r.1.2 ∧ r.2 = d.symbol := by
  obtain ⟨⟨T, m⟩, symbol⟩ := r
  unfold methodEntry
  split
  · rename_i hT hd
    simp [hT, hd, eq_comm, and_assoc]
  · rename_i hno
    refine iff_of_false (by simp) ?_
    rintro ⟨hT, hd, -⟩
    obtain ⟨⟨e, name⟩, he, -⟩ := Option.map_eq_some_iff.1 hd
    exact hno T e name hT he

theorem lookup_methodEntry {d : FunctionDef} {sig : Signature} {r : (Ty × String) × String}
    (hr : r ∈ methodEntry d sig) : (methodEntry d sig).lookup r.1 = some r.2 := by
  obtain ⟨⟨T, m⟩, symbol⟩ := r
  obtain ⟨hT, hd, rfl⟩ := mem_methodEntry.1 hr
  obtain ⟨⟨e, name⟩, he, rfl⟩ := Option.map_eq_some_iff.1 hd
  simp [methodEntry, hT, he]

namespace Sourced

variable {all : List FunctionDef} {position : Nat} {t : Tables} {d : FunctionDef}

theorem taken (h : Sourced all position t) (hd : all[position]? = some d) (ht : ¬Fresh t d.symbol) :
    Sourced all (position + 1) t := by
  refine ⟨fun hs => ?_, h.methods, fun {j e} hj he => ?_⟩
  · obtain ⟨e, he, hsym, hw, hlt, hrest⟩ := h.functions hs
    exact ⟨e, he, hsym, hw, by omega, hrest⟩
  · rcases Nat.lt_succ_iff_lt_or_eq.1 hj with hj | rfl
    · exact h.seen hj he
    · obtain rfl : d = e := Option.some.inj (hd.symm.trans he)
      exact ht

theorem poisoned (h : Sourced all position t) (hd : all[position]? = some d) :
    Sourced all (position + 1) { t with poisoned := d.symbol :: t.poisoned } := by
  refine ⟨fun hs => ?_, h.methods, fun {j e} hj he hfresh => ?_⟩
  · obtain ⟨e, he, hsym, hw, hlt, hrest⟩ := h.functions hs
    exact ⟨e, he, hsym, hw.congr rfl, by omega, hrest⟩
  · have hclean : e.symbol ≠ d.symbol ∧ t.isPoisoned e.symbol = false := by
      simpa [Tables.isPoisoned] using hfresh.2
    rcases Nat.lt_succ_iff_lt_or_eq.1 hj with hj | rfl
    · exact h.seen hj he ⟨hfresh.1, hclean.2⟩
    · obtain rfl : d = e := Option.some.inj (hd.symm.trans he)
      exact hclean.1 rfl

theorem declared (h : Sourced all position t) (hd : all[position]? = some d) {sig : Signature}
    (ht : Fresh t d.symbol) (hw : sig.Written t d) (hp : sig.definition = position)
    (hm : ∀ r ∈ methodEntry d sig, t.method? r.1.1 r.1.2 = none) :
    Sourced all (position + 1) { t with
      functions := (d.symbol, sig) :: t.functions, methods := methodEntry d sig ++ t.methods } := by
  -- what was entered before stays
  have hfunction : ∀ {symbol sig'}, t.function? symbol = some sig' →
      ((d.symbol, sig) :: t.functions).lookup symbol = some sig' := by
    intro symbol sig' hs
    have hne : (symbol == d.symbol) = false := by
      rw [beq_eq_false_iff_ne]
      rintro rfl
      cases ht.1.symm.trans hs
    rw [List.lookup_cons, hne]
    exact hs
  have hmethod : ∀ {T m symbol}, t.method? T m = some symbol →
      (methodEntry d sig ++ t.methods).lookup (T, m) = some symbol := by
    intro T m symbol hs
    have hnone : (methodEntry d sig).lookup (T, m) = none := by
      rw [Option.eq_none_iff_forall_ne_some]
      intro symbol' hs'
      cases (hm _ (mem_of_lookup hs')).symm.trans hs
    rw [List.lookup_append, hnone]
    exact hs
  have hself : ((d.symbol, sig) :: t.functions).lookup d.symbol = some sig := by simp
  refine ⟨fun {symbol sig'} hs => ?_, fun {T m symbol} hs => ?_, fun {j e} hj he hfresh => ?_⟩
  · rw [Tables.function?, List.lookup_cons] at hs
    split at hs
    · rename_i heq
      obtain rfl : symbol = d.symbol := by simpa using heq
      obtain rfl := Option.some.inj hs
      refine ⟨d, hp ▸ hd, rfl, hw.congr rfl, by omega, fun {j e} hj he heq => ?_, fun r hr => ?_⟩
      · exact h.seen (hp ▸ hj) he (heq ▸ ht)
      · rw [Tables.method?, List.lookup_append, lookup_methodEntry hr]
        rfl
    · obtain ⟨e, he, hsym, hwe, hlt, hfirst, hentry⟩ := h.functions hs
      exact ⟨e, he, hsym, hwe.congr rfl, by omega, hfirst, fun r hr => hmethod (hentry r hr)⟩
  · rw [Tables.method?, List.lookup_append, Option.or_eq_some_iff] at hs
    rcases hs with hs | ⟨-, hs⟩
    · have hmem := mem_of_lookup hs
      obtain rfl := (mem_methodEntry.1 hmem).2.2
      exact ⟨d, sig, hself, hp ▸ hd, hmem⟩
    · obtain ⟨e, sig', hsig, he, hmem⟩ := h.methods hs
      exact ⟨e, sig', hfunction hsig, he, hmem⟩
  · rcases Nat.lt_succ_iff_lt_or_eq.1 hj with hj | rfl
    · refine h.seen hj he ⟨?_, hfresh.2⟩
      rw [Option.eq_none_iff_forall_ne_some]
      intro sig' hs
      cases hfresh.1.symm.trans (hfunction hs)
    · obtain rfl : d = e := Option.some.inj (hd.symm.trans he)
      cases hfresh.1.symm.trans hself

theorem step (h : Sourced all position t) (hd : all[position]? = some d) {t' : Tables}
    (k : Outcome t position d t') : Sourced all (position + 1) t' := by
  cases k with
  | taken ht => exact h.taken hd ht
  | poisoned ht => exact h.poisoned hd
  | declared sig ht hw hp hm => exact h.declared hd ht hw hp hm

end Sourced

theorem ofProgram_sourced (config : Config) (p : Program) :
    Sourced p.functions p.functions.length (ofProgram config p).tables := by
  apply ofProgram_induction (P := fun n c => Sourced p.functions n c.tables)
  · have hsame := declareRecords_functions config.layout (start config) p.structs
    refine ⟨fun {symbol sig} hs => ?_, fun {T m symbol} hs => ?_, fun hj => absurd hj (Nat.not_lt_zero _)⟩
    · rw [Tables.function?, hsame.tables.trans rfl] at hs
      cases hs
    · rw [Tables.method?, hsame.methods.trans rfl] at hs
      cases hs
  · intro n d c hd h
    exact h.step hd (declareFunction_outcome config p.functions c n d)

end Collection

/-! ### Declared definitions -/

section

variable {config : Config} {p : Program} {i : Nat} {d : FunctionDef} {sig : Signature}

/-- A declared method is found under the type and the name that it is written with. -/
theorem Declares.method (h : Declares p (Collection.ofProgram config p).tables i d sig) {t : TypeExpr}
    {m : String} (hd : d.receiver = some (t, m)) : ∃ T, sig.receiver = some T ∧
      (Collection.ofProgram config p).tables.resolve t = .ok T ∧
      (Collection.ofProgram config p).tables.method? T m = some d.symbol := by
  obtain ⟨e, he, -, hw, -, -, hentry⟩ := (Collection.ofProgram_sourced config p).functions h.2.1
  obtain rfl : d = e := Option.some.inj (h.1.symm.trans (h.2.2 ▸ he))
  obtain ⟨T, hT, ht⟩ := hw.receiver_of_method hd
  exact ⟨T, hT, ht, hentry ((T, m), d.symbol) (Collection.mem_methodEntry.2 ⟨hT, by rw [hd]; rfl, rfl⟩)⟩

theorem Declares.first (h : Declares p (Collection.ofProgram config p).tables i d sig) {j : Nat}
    {e : FunctionDef} (he : p.functions[j]? = some e) (hs : e.symbol = d.symbol) : i ≤ j := by
  obtain ⟨-, -, -, -, -, hfirst, -⟩ := (Collection.ofProgram_sourced config p).functions h.2.1
  apply Nat.le_of_not_lt
  intro hlt
  exact hfirst (h.2.2.symm ▸ hlt) he hs

theorem Declares.written (h : Declares p (Collection.ofProgram config p).tables i d sig) :
    sig.Written (Collection.ofProgram config p).tables d := by
  obtain ⟨e, he, -, hw, -⟩ := (Collection.ofProgram_sourced config p).functions h.2.1
  obtain rfl : d = e := Option.some.inj (h.1.symm.trans (h.2.2 ▸ he))
  exact hw

theorem declares_of_function? {symbol : String}
    (h : (Collection.ofProgram config p).tables.function? symbol = some sig) :
    ∃ d, Declares p (Collection.ofProgram config p).tables sig.definition d sig ∧ d.symbol = symbol := by
  obtain ⟨d, hd, hs, -⟩ := (Collection.ofProgram_sourced config p).functions h
  exact ⟨d, ⟨hd, hs.symm ▸ h, rfl⟩, hs⟩

theorem Declares.output {allocator : Allocator} (ha : allocator.IsInline)
    (h : Declares p (Collection.ofProgram config p).tables i d sig) :
    (lowerProgram config allocator p).module.function? sig.func =
      some (definitionState config allocator p i d sig).builder.function := by
  have hlt : i < p.functions.length := (List.getElem?_eq_some_iff.1 h.1).1
  rw [lowerProgram_eq]
  exact (addEntryWrapper_grows config p _ _).2 (lowerFirst_function? config ha h hlt (Nat.le_refl _))

/-! ### Definitions without types -/

section

variable (hd : p.functions[i]? = some d) (hu : Unresolved (Collection.ofProgram config p).tables d)

include hd hu

/-- A definition whose types are unknown leaves no signature, but a poisoned symbol. -/
theorem Unresolved.isPoisoned (hs : ∀ {j e}, p.functions[j]? = some e → e.symbol = d.symbol → j = i) :
    (Collection.ofProgram config p).tables.function? d.symbol = none ∧
      (Collection.ofProgram config p).tables.isPoisoned d.symbol = true := by
  have hsourced := Collection.ofProgram_sourced config p
  have hnone : (Collection.ofProgram config p).tables.function? d.symbol = none := by
    rw [Option.eq_none_iff_forall_ne_some]
    intro sig hsig
    obtain ⟨e, hdecl, he⟩ := declares_of_function? hsig
    obtain rfl := hs hdecl.1 he
    obtain rfl : d = e := Option.some.inj (hd.symm.trans hdecl.1)
    exact hu.not_written hdecl.written
  refine ⟨hnone, ?_⟩
  rw [← Bool.not_eq_false]
  intro hclean
  exact hsourced.seen (List.getElem?_eq_some_iff.1 hd).1 hd ⟨hnone, hclean⟩

theorem Unresolved.method?_eq_none {T : Ty} {m : String}
    (ho : ∀ {j e t}, p.functions[j]? = some e → e.receiver = some (t, m) →
      (Collection.ofProgram config p).tables.resolve t = .ok T → j = i) :
    (Collection.ofProgram config p).tables.method? T m = none := by
  have hsourced := Collection.ofProgram_sourced config p
  rw [Option.eq_none_iff_forall_ne_some]
  intro symbol hsymbol
  obtain ⟨e, sig, hsig, he, hmem⟩ := hsourced.methods hsymbol
  obtain ⟨hT, hname, rfl⟩ := Collection.mem_methodEntry.1 hmem
  obtain ⟨⟨t, m⟩, hr, rfl⟩ := Option.map_eq_some_iff.1 hname
  have hdecl : Declares p (Collection.ofProgram config p).tables sig.definition e sig := ⟨he, hsig, rfl⟩
  obtain ⟨T', hT', ht, -⟩ := hdecl.method hr
  obtain rfl : T' = T := Option.some.inj (hT'.symm.trans hT)
  obtain rfl := ho he hr ht
  obtain rfl : d = e := Option.some.inj (hd.symm.trans he)
  exact hu.not_written hdecl.written

end

end

end BlockForge.Lowering
