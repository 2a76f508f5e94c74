import BlockForge.Proofs.Lowering.Definitions
import BlockForge.Proofs.Lowering.Discreet.Statements

/-!
# Slots never escape

A declared function has no code, so it is discreet; a body starts from there, with parameters that are plain. Each
definition is lowered into a function of its own and leaves the others alone, so every function of a program keeps
its slots to itself in the finished module.
-/

namespace BlockForge.Ir

open StateM

/-! ### The start of a body -/

/-- A builder that works on one function of a module and leaves the others alone. -/
structure Builder.WorksOn (m : Module) (i : FuncId) (b : Builder) : Prop where
  func : b.func = i
  module : m.Grows b.module
  others : ∀ j, j ≠ i → b.module.function? j = m.function? j

theorem Builder.WorksOn.before {m : Module} {i : FuncId} {b d : Builder} (h : b.WorksOn m i) (hb : b.Before d) :
    d.WorksOn m i where
  func := hb.func.trans h.func
  module := h.module.trans hb.module
  others j hj := (hb.others j (by rw [h.func]; exact hj)).trans (h.others j hj)

/-- A body starts at the entry block of a declared function, with plain parameters. -/
theorem Emit.start_discreet {hosts : Set HostDecl} {m : Module} (hm : ∀ d ∈ m.hosts.toList, d ∈ hosts) {func : FuncId}
    {name : String} {params : List Ty} {ret : Ty} (hf : m.function? func = some (.declare name params ret)) :
    (appendBlock "entry").Sat (.start m func) fun entry b => (positionAt entry).Sat b fun _ b =>
      b.Discreet hosts m.ptrInt ∧ b.WorksOn m func ∧
        ∀ {i t}, params[i]? = some t → ∀ p ∈ Fact.value (Function.param i) t, b.Satisfies p := by
  rw [start_eq hf]
  let b : Builder := { module := m, func }
  have hvalid : b.func.index < b.module.functions.size := (Array.getElem?_eq_some_iff.1 hf).1
  have hfun : b.function = .declare name params ret := by simp [b, Builder.function, hf]
  let entered : Builder := b.modifyFunction (·.addBlock "entry")
  have hadd : entered.function = (Function.declare name params ret).addBlock "entry" := by
    rw [Builder.function_modifyFunction hvalid, hfun]
  have hgrows : m.Grows entered.module := Builder.grows_modifyFunction (b := b) rfl
  have hbefore := Function.before_addBlock (.declare name params ret) "entry"
  have hlt : b.function.blocks.size < entered.function.blocks.size := by
    rw [hadd, hfun]
    simp [Function.addBlock]
  have hvalid' : entered.func.index < entered.module.functions.size := by
    simpa [entered, Builder.modifyFunction, Module.modifyFunction] using hvalid
  show (positionAt ⟨b.function.blocks.size⟩).Sat entered fun _ b => b.Discreet hosts m.ptrInt ∧ b.WorksOn m func ∧
    ∀ {i t}, params[i]? = some t → ∀ p ∈ Fact.value (Function.param i) t, b.Satisfies p
  refine demand_bind (decide_eq_true hlt) ⟨⟨hvalid', Nat.zero_lt_of_lt hlt, hm, hgrows.ptrInt, ?_⟩,
    ⟨rfl, hgrows, fun _ hj => Builder.function?_modifyFunction_ne b _ hj⟩, fun {i t} hi => ?_⟩
  · show entered.function.Discreet
    rw [hadd]
    exact (Function.declare_discreet ..).addBlock _
  · have hplain : (Function.declare name params ret).Plain (Function.param i) :=
      Function.declare_plain name ret (List.getElem?_eq_some_iff.1 hi).1
    have hvalue : entered.function.Plain (Function.param i) ∧ entered.function.valueType (Function.param i) = t := by
      rw [hadd, hbefore.valueType_eq hplain.entered]
      exact ⟨hbefore.plain hplain, Function.declare_valueType name ret hi⟩
    simp only [Fact.mem_value, forall_eq_or_imp, forall_eq]
    exact ⟨hvalue.1, hvalue.1.entered, hvalue.2⟩

end BlockForge.Ir

namespace BlockForge.Lowering

open Diagnostic (Queue)
open Ir (Builder Emit Fact HostDecl Knows Module)
open Source (FunctionDef Program Span)
open StateM
open BlockForge.Types (Ty)

variable {own : Set HostDecl}

/-! ### Functions -/

section

variable {env : Env} {known : List Fact}

theorem bindParams_obeys {params : List (String × Ty × Span)} {position : Nat}
    (hk : ∀ i p, params[i]? = some p → Knows known (Ir.Function.param (position + i)) (env.ir p.2.1)) :
    Lower.Obeys own env known (bindParams env position params) fun _ => [] := by
  induction params generalizing known position with
  | nil => exact .pure (by simp)
  | cons p rest ih =>
    refine StateM.Discipline.Obeys.bind (bindSlot_obeys _ _ (hk 0 p rfl) _) fun _ => ih fun i q hq => ?_
    have hnext := hk (i + 1) q hq
    rwa [Nat.add_comm i 1, ← Nat.add_assoc] at hnext

/-- What is known of parameters. -/
def paramFacts (env : Env) (params : List (String × Ty × Span)) : List Fact :=
  params.zipIdx.flatMap fun e => Fact.value (Ir.Function.param e.2) (env.ir e.1.2.1)

theorem mem_paramFacts {params : List (String × Ty × Span)} {p : Fact} : p ∈ paramFacts env params ↔
    ∃ i q, params[i]? = some q ∧ p ∈ Fact.value (Ir.Function.param i) (env.ir q.2.1) := by
  simp only [paramFacts, List.mem_flatMap, List.mem_zipIdx_iff_getElem?, Prod.exists]
  exact ⟨fun ⟨a, b, c, i, h, hp⟩ => ⟨i, a, b, c, h, hp⟩, fun ⟨i, a, b, c, h, hp⟩ => ⟨a, b, c, i, h, hp⟩⟩

/-- A declared function is lowered to a discreet one. -/
theorem lowerFunction_discreet (ha : env.allocator.Discreet own) {m : Module} {q : Queue} {d : FunctionDef}
    {sig : Signature} {name : String} (henv : env.Declared m) (hm : HostsOf own m) (hp : m.ptrInt = env.ir .usize)
    (hf : m.function? sig.func = some (.declare name ((sig.receiver.toList ++ sig.params).map env.ir)
      (env.layout.returnIrType sig.ret))) :
    (lowerFunction env d sig).Sat ⟨.start m sig.func, q, {}, [], false, {}⟩ fun _ s =>
      s.Discreet own env ∧ s.builder.WorksOn m sig.func := by
  have hbody : Lower.Obeys own env (paramFacts env (parameters d sig)) (do
      Lower.onScope Scope.push
      bindParams env 0 (parameters d sig)
      lowerStmts env d.body
      Lower.finishBody env d.span
      Lower.onScope Scope.pop) fun _ => [] := by
    refine Lower.push_obeys.bind fun _ => (bindParams_obeys fun i p hp => ?_).bind fun _ => ?_
    · have hfacts : ∀ f ∈ Fact.value (Ir.Function.param i) (env.ir p.2.1), f ∈ paramFacts env (parameters d sig) :=
        fun f hf => mem_paramFacts.2 ⟨i, p, hp, hf⟩
      rw [Nat.zero_add]
      exact ⟨hfacts _ (by simp), hfacts _ (by simp)⟩
    · exact (lowerStmts_obeys ha d.body).bind fun _ => (finishBody_obeys _).bind fun _ => Lower.pop_obeys
  refine Lower.emit_sat_bind (Emit.start_discreet hm hf) fun entry b hpos => ?_
  refine Lower.emit_sat_bind hpos fun _ b ⟨hb, hworks, hparams⟩ => ?_
  have hstart : (⟨b, q, {}, [], false, {}⟩ : State).Discreet own env :=
    ⟨hp ▸ hb, henv.grows hworks.module, by simp, by simp⟩
  refine (hbody.sat hstart fun p hp => ?_).imp fun _ s ⟨hs, hbefore, _⟩ => ⟨hs, hworks.before hbefore⟩
  obtain ⟨i, e, he, hp⟩ := mem_paramFacts.1 hp
  refine hparams (i := i) ?_ p hp
  rw [List.getElem?_map, parameters_type he]
  rfl

end

/-! ### Programs -/

/-- The definitions before a position have been lowered to discreet functions, the others are only declared. -/
structure Settled (own : Set HostDecl) (p : Program) (c : Collection) (position : Nat) (acc : Module × Queue) :
    Prop where
  hosts : HostsOf own acc.1
  grows : c.module.Grows acc.1
  todo : ∀ r ∈ c.tables.functions, position ≤ r.2.definition →
    acc.1.function? r.2.func = c.module.function? r.2.func
  done : ∀ {i d sig}, i < position → Declares p c.tables i d sig →
    ∃ f, acc.1.function? sig.func = some f ∧ f.isDeclaration = false ∧ f.Discreet

section

variable {config : Config} {allocator : Allocator} (hk : allocator.Discreet own) {p : Program} {c : Collection}

include hk

theorem Settled.lowerBody (hc : c.Fits config) {position : Nat} {acc : Module × Queue}
    (h : Settled own p c position acc) {d : FunctionDef} {sig : Signature} (hd : Declares p c.tables position d sig) :
    let s := lowerBody config allocator c.tables acc d sig
    s.Discreet own (definitionEnv config allocator c.tables d sig) ∧ s.builder.WorksOn acc.1 sig.func := by
  have hmem := mem_of_lookup hd.2.1
  obtain ⟨name, hf⟩ := hc.functions _ hmem
  rw [← h.todo _ hmem (Nat.le_of_eq hd.2.2.symm)] at hf
  have hdeclared : (definitionEnv config allocator c.tables d sig).Declared acc.1 := by
    refine Env.Declared.grows (m := c.module) (fun symbol s hs => ?_) h.grows
    obtain ⟨name, hs⟩ := hc.functions _ (mem_of_lookup hs)
    refine ⟨(s.receiver.toList ++ s.params).map config.layout.irType, ?_⟩
    show (c.module.function? s.func).map _ = _
    rw [hs]
    rfl
  have hptr : acc.1.ptrInt = (definitionEnv config allocator c.tables d sig).ir .usize := by
    rw [h.grows.ptrInt, Module.ptrInt, hc.pointerBits]
    rfl
  exact lowerFunction_discreet hk hdeclared h.hosts hptr hf

/-- One definition further. -/
theorem Settled.step (hc : c.Fits config) {position : Nat} {acc : Module × Queue} (h : Settled own p c position acc)
    {d : FunctionDef} (hd : p.functions[position]? = some d) :
    Settled own p c (position + 1) (lowerDefinition config allocator c.tables acc position d) := by
  rcases lowerDefinition_cases (c := c) config allocator acc hd with ⟨sig, hdecl, heq⟩ | ⟨hno, heq⟩
  · obtain ⟨hs, hworks⟩ := h.lowerBody hk hc hdecl
    rw [heq]
    -- another definition has another function
    have hother : ∀ r ∈ c.tables.functions, r.2.definition ≠ position → r.2.func ≠ sig.func := fun r hr hne he =>
      hne (by rw [hc.functionsApart r hr _ (mem_of_lookup hdecl.2.1) he]; exact hdecl.2.2)
    refine ⟨hs.builder.hosts, h.grows.trans hworks.module, fun r hr hle => ?_, fun {i e sig'} hi he => ?_⟩
    · exact (hworks.others _ (hother r hr (by omega))).trans (h.todo r hr (by omega))
    · rcases Nat.lt_succ_iff_lt_or_eq.1 hi with hi | rfl
      · obtain ⟨f, hf, hf'⟩ := h.done hi he
        refine ⟨f, (hworks.others _ (hother _ (mem_of_lookup he.2.1) ?_)).trans hf, hf'⟩
        rw [he.2.2]
        omega
      · obtain rfl : d = e := Option.some.inj (hd.symm.trans he.1)
        obtain rfl : sig = sig' := Option.some.inj (hdecl.2.1.symm.trans he.2.1)
        have hown := Builder.function?_eq hs.builder.valid
        rw [hworks.func] at hown
        refine ⟨_, hown, ?_, hs.builder.function⟩
        simpa [Ir.Function.isDeclaration, Array.size_pos_iff] using hs.builder.entry
  · rw [heq]
    refine ⟨h.hosts, h.grows, fun r hr hle => h.todo r hr (Nat.le_of_succ_le hle), fun {i e sig} hi he => ?_⟩
    rcases Nat.lt_succ_iff_lt_or_eq.1 hi with hi | rfl
    · exact h.done hi he
    · obtain rfl : d = e := Option.some.inj (hd.symm.trans he.1)
      exact absurd he (hno sig)

theorem lowerFirst_settled (config : Config) {n : Nat} (hn : n ≤ p.functions.length) :
    Settled own p (.ofProgram config p) n (lowerFirst config allocator p n) := by
  have hc := Collection.ofProgram_fits config p
  induction n with
  | zero =>
    refine ⟨fun d hd => ?_, .refl _, fun _ _ _ => rfl, fun hi => absurd hi (Nat.not_lt_zero _)⟩
    simp [lowerFirst, lowerDefinitions, hc.hosts] at hd
  | succ n ih =>
    rw [lowerFirst_succ config allocator hn]
    exact (ih (Nat.le_of_lt hn)).step hk hc (List.getElem?_eq_getElem hn)

/-- In every program, with or without errors, each definition that is lowered becomes a function whose slots all lead
its entry block, which runs once, and whose slots are used only to load and to store values of their types. -/
theorem slots_never_escape {position : Nat} {d : FunctionDef} {sig : Signature}
    (hd : Declares p (Collection.ofProgram config p).tables position d sig) :
    ∃ f, (lowerProgram config allocator p).module.function? sig.func = some f ∧ f.isDeclaration = false ∧
      f.OwnsSlots := by
  have hlt : position < p.functions.length := (List.getElem?_eq_some_iff.1 hd.1).1
  obtain ⟨f, hf, hdecl, hdiscreet⟩ := (lowerFirst_settled hk config (Nat.le_refl _)).done hlt hd
  refine ⟨f, ?_, hdecl, hdiscreet.ownsSlots⟩
  rw [lowerProgram_eq]
  exact (addEntryWrapper_grows config p _ _).2 hf

end

/-- A function that counts its parameter down in a loop which declares a variable, twice in one scope. -/
def countDown : FunctionDef where
  symbol := "f"
  receiver := none
  params := [⟨"n", .named "i32", ⟨0, 1⟩⟩]
  returnType := .named "i32"
  body := [
    .loop ⟨2, 9⟩ (.binary ⟨3, 4⟩ .gt (.ident ⟨3, 4⟩ "n") (.int ⟨3, 4⟩ 0)) [
      .var ⟨4, 5⟩ "step" none (.int ⟨4, 5⟩ 1),
      .var ⟨5, 6⟩ "step" none (.int ⟨5, 6⟩ 2),
      .assign ⟨6, 7⟩ (.ident ⟨6, 7⟩ "n") (.binary ⟨6, 7⟩ .sub (.ident ⟨6, 7⟩ "n") (.ident ⟨6, 7⟩ "step"))],
    .ret ⟨8, 9⟩ (some (.ident ⟨8, 9⟩ "n"))]
  span := ⟨0, 9⟩

def countDownProgram : Program := ⟨[], [countDown]⟩

theorem slots_never_escape_countDown :
    (lowerProgram {} .collector countDownProgram).hasErrors = true ∧
    ∃ f, (lowerProgram {} .collector countDownProgram).module.function? ⟨0⟩ = some f ∧
      (f.slots Ir.Id.entry).length = 3 ∧ f.OwnsSlots := by
  have hd : Declares countDownProgram (Collection.ofProgram {} countDownProgram).tables 0 countDown
      ⟨⟨0⟩, 0, none, [.i32], .i32⟩ := ⟨rfl, rfl, rfl⟩
  obtain ⟨f, hf, -, hown⟩ := slots_never_escape collector_discreet hd
  have hslots : ((lowerProgram {} .collector countDownProgram).module.function? ⟨0⟩).map
      (fun f => (f.slots Ir.Id.entry).length) = some 3 := by decide +kernel
  rw [hf] at hslots
  exact ⟨by decide +kernel, f, hf, by simpa using hslots, hown⟩

end BlockForge.Lowering
