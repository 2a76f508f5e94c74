import BlockForge.Proofs.Lowering.Bodies

/-!
# The definitions of a program

Definitions are lowered in order, each into the function that was declared for it. Until then nothing
touches that function, and afterwards neither. What is reported stays reported, so a program without errors
has none in any of its definitions.
-/

namespace BlockForge.Lowering

open Diagnostic (Diag Queue)
open Ir (BlockId Builder Emit FuncId Module)
open Ir.Emit
open Source (FunctionDef Program Span Stmt)

/-- What is fixed while a definition is lowered. -/
def definitionEnv (config : Config) (allocator : Allocator) (tables : Tables) (d : FunctionDef)
    (sig : Signature) : Env := ⟨config, tables, allocator, sig.ret, d.symbol⟩

/-- Whether an error has been reported. -/
def hasError (q : Queue) : Bool := q.kept.any (·.isError)

theorem hasError_submit (q : Queue) (log : List Diag) :
    hasError (q.submit log) = (hasError q || log.any (·.isError)) := any_isError_submit q log

/-- The module and the reports of one definition further on. -/
structure Extends (c : Collection) (position : Nat) (acc acc' : Module × Queue) : Prop where
  others : ∀ r ∈ c.tables.functions, r.2.definition ≠ position →
    acc'.1.function? r.2.func = acc.1.function? r.2.func
  hosts : ∀ {id d}, acc.1.host? id = some d → acc'.1.host? id = some d
  errors : hasError acc.2 = true → hasError acc'.2 = true

/-- A declared definition has been lowered, at some time before now. -/
def LoweredBody (config : Config) (allocator : Allocator) (c : Collection) (d : FunctionDef) (sig : Signature)
    (acc : Module × Queue) : Prop :=
  ∃ m s log, Bodied (definitionEnv config allocator c.tables d sig) d sig m s log ∧
    acc.1.function? sig.func = some s.builder.function ∧
    (∀ {id d}, s.builder.module.host? id = some d → acc.1.host? id = some d) ∧
    (log.any (·.isError) = true → hasError acc.2 = true)

/-- The definitions before a position have been lowered; the others are declared. -/
structure Ready (config : Config) (allocator : Allocator) (p : Program) (c : Collection) (position : Nat)
    (acc : Module × Queue) : Prop where
  todo : ∀ r ∈ c.tables.functions, position ≤ r.2.definition →
    acc.1.function? r.2.func = c.module.function? r.2.func
  done : ∀ {i d sig}, i < position → Declares p c.tables i d sig →
    LoweredBody config allocator c d sig acc
  errors : c.Failed → hasError acc.2 = true
  pointerBits : acc.1.pointerBits = c.module.pointerBits
  heads : ∀ j, (acc.1.function? j).map (·.head) = (c.module.function? j).map (·.head)

section

variable {config : Config} {allocator : Allocator} {p : Program} {c : Collection}

theorem LoweredBody.extends {d : FunctionDef} {sig : Signature} {position : Nat} {acc acc' : Module × Queue}
    (h : LoweredBody config allocator c d sig acc) (k : Extends c position acc acc')
    (hm : (d.symbol, sig) ∈ c.tables.functions) (hne : sig.definition ≠ position) :
    LoweredBody config allocator c d sig acc' := by
  obtain ⟨m, s, log, hb, hf, hh, he⟩ := h
  exact ⟨m, s, log, hb, (k.others _ hm hne).trans hf, fun hd => k.hosts (hh hd), fun hl => k.errors (he hl)⟩

theorem definitionEnv_shaped (hc : c.Fits config) (ha : allocator.IsInline) (d : FunctionDef)
    (sig : Signature) : (definitionEnv config allocator c.tables d sig).Shaped where
  allocator := ha
  methods h := by
    obtain ⟨sig, hsig, -⟩ := hc.methods _ (mem_of_lookup h)
    exact Option.isSome_iff_exists.2 ⟨sig, hsig⟩

/-- The next definition is lowered by its structure. -/
theorem Ready.body (hc : c.Fits config) (ha : allocator.IsInline) {position : Nat}
    {acc : Module × Queue} (h : Ready config allocator p c position acc) {d : FunctionDef} {sig : Signature}
    (hd : Declares p c.tables position d sig) : ∃ s log,
      Bodied (definitionEnv config allocator c.tables d sig) d sig acc.1 s log ∧
      s.builder.module.function? sig.func = some s.builder.function ∧ ∀ q : Queue,
        (∃ reach, lowerBody config allocator c.tables (acc.1, q) d sig =
          { s with diags := q.submit log, reach }) ∧
        followFunction (definitionEnv config allocator c.tables d sig) d sig
          ⟨.start acc.1 sig.func, q, {}, [], false, {}⟩ =
            ((), { s with diags := q.submit log, reach := {} }) := by
  have hmem := mem_of_lookup hd.2.1
  obtain ⟨name, hf⟩ := hc.functions _ hmem
  rw [← h.todo _ hmem (Nat.le_of_eq hd.2.2.symm)] at hf
  obtain ⟨s, log, hb, hq⟩ := lowerFunction_bodied (definitionEnv_shaped hc ha d sig) d hf
  have hown := Builder.function?_eq (hb.inside.valid (Array.getElem?_eq_some_iff.1 hf).1)
  rw [hb.inside.func] at hown
  refine ⟨s, log, hb, hown, fun q => ⟨?_, (hq q).2⟩⟩
  obtain ⟨reach, hr⟩ := (hq q).1
  exact ⟨reach, congrArg Prod.snd hr⟩

theorem Ready.start : Ready config allocator p c 0 (c.module, c.diags) :=
  ⟨fun _ _ _ => rfl, fun hi => absurd hi (Nat.not_lt_zero _), id, rfl, fun _ => rfl⟩

/-- A definition that is not the declared one is passed over, the declared one is lowered. -/
theorem lowerDefinition_cases (config : Config) (allocator : Allocator) (acc : Module × Queue)
    {position : Nat} {d : FunctionDef} (hd : p.functions[position]? = some d) :
    (∃ sig, Declares p c.tables position d sig ∧
      lowerDefinition config allocator c.tables acc position d =
        ((lowerBody config allocator c.tables acc d sig).builder.module,
          (lowerBody config allocator c.tables acc d sig).diags)) ∨
    (∀ sig, ¬Declares p c.tables position d sig) ∧
      lowerDefinition config allocator c.tables acc position d = acc := by
  unfold lowerDefinition
  split
  · rename_i hnone
    refine .inr ⟨fun sig hs => ?_, rfl⟩
    rw [hs.2.1] at hnone
    cases hnone
  · rename_i sig hsig
    split
    · rename_i hne
      refine .inr ⟨fun sig' hs => hne ?_, rfl⟩
      obtain rfl : sig = sig' := Option.some.inj (hsig.symm.trans hs.2.1)
      exact hs.2.2
    · rename_i heq
      exact .inl ⟨sig, ⟨hd, hsig, by simpa using heq⟩, rfl⟩

/-- One definition further. -/
theorem Ready.step (hc : c.Fits config) (ha : allocator.IsInline) {position : Nat}
    {acc : Module × Queue} (h : Ready config allocator p c position acc) {d : FunctionDef}
    (hd : p.functions[position]? = some d) :
    Ready config allocator p c (position + 1) (lowerDefinition config allocator c.tables acc position d) ∧
      Extends c position acc (lowerDefinition config allocator c.tables acc position d) := by
  rcases lowerDefinition_cases config allocator acc hd with ⟨sig, hdecl, heq⟩ | ⟨hno, heq⟩
  · rw [heq]
    obtain ⟨s, log, hb, hown, hq⟩ := h.body hc ha hdecl
    obtain ⟨reach, hs⟩ := (hq acc.2).1
    rw [show (acc.1, acc.2) = acc from rfl] at hs
    rw [hs]
    have hin := hb.inside
    have herr : hasError acc.2 = true → hasError (acc.2.submit log) = true := fun he => by
      rw [hasError_submit, he, Bool.true_or]
    -- another definition has another function
    have hext : Extends c position acc (s.builder.module, acc.2.submit log) := by
      refine ⟨fun r hr hne => hin.others _ fun he => hne ?_, hin.hosts, herr⟩
      rw [hc.functionsApart r hr _ (mem_of_lookup hdecl.2.1) he]
      exact hdecl.2.2
    obtain ⟨name, hf⟩ := hc.functions _ (mem_of_lookup hdecl.2.1)
    rw [← h.todo _ (mem_of_lookup hdecl.2.1) (Nat.le_of_eq hdecl.2.2.symm)] at hf
    refine ⟨⟨fun r hr hle => ?_, fun {i e sig'} hi he => ?_, fun hf => herr (h.errors hf),
      hin.pointerBits.trans h.pointerBits, fun j => ?_⟩, hext⟩
    · exact (hext.others r hr (by omega)).trans (h.todo r hr (by omega))
    · rcases Nat.lt_succ_iff_lt_or_eq.1 hi with hi | rfl
      · refine (h.done hi he).extends hext (mem_of_lookup he.2.1) ?_
        rw [he.2.2]
        omega
      · obtain rfl : d = e := Option.some.inj (hd.symm.trans he.1)
        obtain rfl : sig = sig' := Option.some.inj (hdecl.2.1.symm.trans he.2.1)
        refine ⟨acc.1, s, log, hb, hown, id, fun hl => ?_⟩
        show hasError (acc.2.submit log) = true
        rw [hasError_submit, hl, Bool.or_true]
    · by_cases hj : j = sig.func
      · rw [← h.heads j, hj]
        show (s.builder.module.function? sig.func).map (·.head) = _
        rw [hown, hf, Option.map_some, hin.head, Builder.function, hf]
        rfl
      · rw [← h.heads j, ← hin.others j hj]
  · rw [heq]
    refine ⟨⟨fun r hr hle => h.todo r hr (Nat.le_of_succ_le hle), fun {i e sig} hi he => ?_, h.errors,
      h.pointerBits, h.heads⟩, ⟨fun _ _ _ => rfl, id, id⟩⟩
    rcases Nat.lt_succ_iff_lt_or_eq.1 hi with hi | rfl
    · exact h.done hi he
    · obtain rfl : d = e := Option.some.inj (hd.symm.trans he.1)
      exact absurd he (hno sig)

theorem lowerFirst_succ (config : Config) (allocator : Allocator) {n : Nat}
    (hn : n < p.functions.length) : lowerFirst config allocator p (n + 1) =
      lowerDefinition config allocator (Collection.ofProgram config p).tables
        (lowerFirst config allocator p n) n p.functions[n] := by
  have hget : p.functions.zipIdx[n]? = some (p.functions[n], n) := by simp [hn]
  simp only [lowerFirst, lowerDefinitions, List.take_add_one, hget, Option.toList_some,
    List.foldl_append, List.foldl_cons, List.foldl_nil]

theorem lowerFirst_ready (config : Config) (ha : allocator.IsInline) {n : Nat}
    (hn : n ≤ p.functions.length) : Ready config allocator p (.ofProgram config p) n
      (lowerFirst config allocator p n) := by
  have hc := Collection.ofProgram_fits config p
  induction n with
  | zero => exact .start
  | succ n ih =>
    rw [lowerFirst_succ config allocator hn]
    exact ((ih (Nat.le_of_lt hn)).step hc ha (List.getElem?_eq_getElem hn)).1

theorem lowerFirst_extends (config : Config) (ha : allocator.IsInline) {n : Nat}
    (hn : n < p.functions.length) : Extends (.ofProgram config p) n (lowerFirst config allocator p n)
      (lowerFirst config allocator p (n + 1)) := by
  rw [lowerFirst_succ config allocator hn]
  exact ((lowerFirst_ready config ha (Nat.le_of_lt hn)).step (Collection.ofProgram_fits config p) ha
    (List.getElem?_eq_getElem hn)).2

/-- What is reported stays reported. -/
theorem lowerFirst_errors (config : Config) (ha : allocator.IsInline) {n k : Nat} (hnk : n ≤ k)
    (hk : k ≤ p.functions.length) (he : hasError (lowerFirst config allocator p n).2 = true) :
    hasError (lowerFirst config allocator p k).2 = true := by
  induction hnk with
  | refl => exact he
  | step h ih => exact (lowerFirst_extends config ha hk).errors (ih (Nat.le_of_lt hk))

/-- What a definition is lowered to stays. -/
theorem lowerFirst_function? (config : Config) (ha : allocator.IsInline) {position n : Nat} {d : FunctionDef}
    {sig : Signature} (hd : Declares p (Collection.ofProgram config p).tables position d sig)
    (hlt : position < n) (hn : n ≤ p.functions.length) :
    (lowerFirst config allocator p n).1.function? sig.func =
      some (definitionState config allocator p position d sig).builder.function := by
  induction hlt with
  | refl =>
    have hc := Collection.ofProgram_fits config p
    obtain ⟨s, log, -, hown, hq⟩ := (lowerFirst_ready config ha (Nat.le_of_lt hn)).body hc ha hd
    obtain ⟨reach, hs⟩ : ∃ reach, definitionState config allocator p position d sig =
      { s with diags := (lowerFirst config allocator p position).2.submit log, reach } := (hq _).1
    have hget : p.functions[position] = d := (List.getElem?_eq_some_iff.1 hd.1).2
    rw [lowerFirst_succ config allocator hn, hget]
    rcases lowerDefinition_cases config allocator (lowerFirst config allocator p position) hd.1 with
      ⟨sig', hd', heq⟩ | ⟨hno, -⟩
    · obtain rfl : sig = sig' := Option.some.inj (hd.2.1.symm.trans hd'.2.1)
      rw [heq, hs]
      show (definitionState config allocator p position d sig).builder.module.function? sig.func = _
      rw [hs]
      exact hown
    · exact absurd hd (hno sig)
  | step h ih =>
    rw [(lowerFirst_extends config ha hn).others _ (mem_of_lookup hd.2.1) (by rw [hd.2.2]; exact Nat.ne_of_lt h)]
    exact ih (Nat.le_of_lt hn)

/-! ### Programs without errors -/

theorem any_isError_flush (q : Queue) : q.flush.1.any (·.isError) = hasError q := by
  rw [hasError, ← Array.any_toList]
  exact (List.mergeSort_perm ..).any_eq

theorem lowerProgram_eq (config : Config) (allocator : Allocator) (p : Program) :
    lowerProgram config allocator p =
      ⟨(addEntryWrapper config p (Collection.ofProgram config p).tables
          (lowerFirst config allocator p p.functions.length)).1,
        (addEntryWrapper config p (Collection.ofProgram config p).tables
          (lowerFirst config allocator p p.functions.length)).2.flush.1⟩ := by
  have htake : p.functions.zipIdx.take p.functions.length = p.functions.zipIdx :=
    List.take_of_length_le (by simp)
  simp only [lowerProgram, lowerFirst, htake]

theorem addEntryWrapper_errors (config : Config) (p : Program) (tables : Tables) (acc : Module × Queue)
    (h : hasError acc.2 = true) : hasError (addEntryWrapper config p tables acc).2 = true := by
  have hadd : ∀ d, hasError (acc.2.add d).2 = true := fun d => by
    rw [hasError, any_isError_add, Bool.or_eq_true]
    exact .inl h
  unfold addEntryWrapper
  dsimp only
  split
  · exact h
  · split
    · exact h
    · split
      · exact hadd _
      · split
        · exact hadd _
        · exact h

/-- In a program without errors nothing has been reported as one on the way. -/
theorem hasError_lowerFirst (ha : allocator.IsInline)
    (h : (lowerProgram config allocator p).hasErrors = false) {n : Nat} (hn : n ≤ p.functions.length) :
    hasError (lowerFirst config allocator p n).2 = false := by
  refine Bool.eq_false_iff.2 fun he => ?_
  have hend := addEntryWrapper_errors config p (Collection.ofProgram config p).tables _
    (lowerFirst_errors config ha hn (Nat.le_refl _) he)
  rw [Output.hasErrors, lowerProgram_eq, any_isError_flush, hend] at h
  cases h

end

end BlockForge.Lowering
