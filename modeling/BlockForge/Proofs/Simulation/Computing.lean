import BlockForge.Proofs.Machine.Branching
import BlockForge.Proofs.Machine.Ending
import BlockForge.Proofs.Machine.Slots
import BlockForge.Proofs.Simulation.Folding

/-!
# Functions on their own

The lowering of an expression can be put alone into a function, with variables for parameters. If what it emits
runs to a value or to a fault wherever the variables are in scope, then a call of that function with their
values returns the value or ends in the fault.
-/

namespace BlockForge.Simulation

open Ir (Builder Emit Module ValueId)
open Ir.Emit (Onward)
open Lowering (Attempt Env Lower Scope Typed)
open Machine (At Ending Exec Fault Holds Keeps Moved Part Slotted Toward World maxBlocks)
open StateM
open BlockForge.Types (Ty)
open Word (encode)

/-! ### The function -/

/-- A body that moves its parameters into slots and returns what a lowering gives. -/
def lowerComputing (env : Env) (params : List (String × Ty)) (code : Attempt Typed) : Lower Unit := do
  let entry ← Lower.emit (Emit.appendBlock "entry")
  Lower.emit (Emit.positionAt entry)
  Lower.onScope Scope.push
  Lowering.bindParams env 0 (params.map fun p => (p.1, p.2, default))
  match ← code.run with
  | some v => Lower.emit (Emit.ret v.value)
  | none => Lower.emit Emit.unreachable

def computingName : String := "code"

def declaration (env : Env) (params : List (String × Ty)) (ret : Ty) : Module :=
  { name := computingName, pointerBits := env.config.pointerBits,
    functions := #[.declare computingName (params.map fun p => env.ir p.2) (env.ir ret)] }

/-- A module with a function of the given parameters that returns what a lowering gives. -/
def computing (env : Env) (params : List (String × Ty)) (ret : Ty) (code : Attempt Typed) : Module :=
  (lowerComputing env params code ⟨.start (declaration env params ret) ⟨0⟩, {}, {}, [], false, {}⟩).2.builder.module

/-- An environment in which nothing is declared. -/
def bareEnv (pointerBits : Nat) : Env := ⟨{ pointerBits }, default, .collector, .unit, computingName⟩

/-! ### Variables -/

/-- An integer variable and its value. -/
structure Variable where
  name : String
  type : Ty
  value : Int

/-- The word of an integer of a type. -/
def wordOf (env : Env) (t : Ty) (n : Int) : UInt64 := encode ((env.ir t).intBits?.getD 64) n

theorem Integral.wordOf_eq {env : Env} {t : Ty} {bits : Nat} (h : Integral env.layout t bits) (n : Int) :
    wordOf env t n = encode bits n := by
  have hir : (env.ir t).intBits? = some bits := h.ir
  rw [wordOf, hir]
  rfl

/-- Variables are in scope, and code can be emitted. -/
structure Sited (env : Env) (vars : List Variable) (s : Lowering.State) : Prop where
  live : s.builder.Live
  name : s.builder.function.name = computingName
  pointerBits : s.builder.module.pointerBits = env.config.pointerBits
  seen : ∀ x ∈ vars, ∃ slot, s.scope.lookup? x.name = some (.slot slot x.type) ∧ s.BindingOk env (.slot slot x.type)

/-- Every name but the given ones can be declared. -/
def Free (scope : Scope) (names : List String) : Prop :=
  ∀ name, name ∉ names → ∀ b, (scope.declare? name b).isSome = true

theorem Free.declare {scope scope' : Scope} {names : List String} (h : Free scope names) {name : String}
    {b : Lowering.Binding} (hd : scope.declare? name b = some scope') : Free scope' (names ++ [name]) := by
  intro other hother b'
  rw [List.mem_append, List.mem_singleton, not_or] at hother
  have hold := h other hother.1 b'
  obtain ⟨frames⟩ := scope
  cases frames with
  | nil => simp [Scope.declare?] at hd
  | cons frame rest =>
    have hfree := Scope.declare?_isSome_iff.1 hold
    simp only [Scope.declare?] at hd
    split at hd
    · cases hd
    · cases hd
      refine Scope.declare?_isSome_iff.2 ?_
      rw [List.lookup_cons, beq_false_of_ne hother.2]
      exact hfree

/-- Nothing but variables was declared so far. -/
structure Opened (env : Env) (vars : List Variable) (s : Lowering.State) : Prop extends Sited env vars s where
  free : Free s.scope (vars.map (·.name))
  slots : (s.builder.function.slots Ir.Id.entry).length = vars.length

/-- The slots of variables keep their values. -/
structure Known (env : Env) (vars : List Variable) (s : Lowering.State) (w : World) (base : Nat)
    (M : Machine.State) : Prop where
  slotted : Slotted w base M
  kept : ∀ x ∈ vars, ∀ {slot t}, s.scope.lookup? x.name = some (.slot slot t) →
    Keeps w base M slot (env.ir x.type) (wordOf env x.type x.value)

section

variable {env : Env} {vars : List Variable} {s s' : Lowering.State} {w : World} {base : Nat} {M M' : Machine.State}

theorem Sited.onward (h : Sited env vars s) (o : Onward s.builder s'.builder) (hs : s'.scope = s.scope) :
    Sited env vars s' where
  live := o.live
  name := o.ext.grows.name.trans h.name
  pointerBits := o.ext.module.pointerBits.trans h.pointerBits
  seen x hx := by
    obtain ⟨slot, hslot, hok⟩ := h.seen x hx
    exact ⟨slot, by rw [hs]; exact hslot, o.has hok.1, (o.ext.grows.slots _).subset hok.2⟩

/-- Code that leaves scope and store as they are keeps what is known. -/
theorem Known.moved (h : Known env vars s w base M) (m : Moved w.func s.builder M s'.builder M')
    (hst : M'.store = M.store) (hs : s'.scope = s.scope) : Known env vars s' w base M' where
  slotted := h.slotted.moved m hst
  kept x hx _ _ hslot := (h.kept x hx (by rw [← hs]; exact hslot)).store_eq hst

end

/-! ### Reading variables -/

/-- A lowering that does not fail, followed state by state. -/
theorem sat_bind_of_some {α β γ : Type} {x : Attempt α} {f : α → Attempt β} {g : γ → α}
    {P : γ → Lowering.State → Prop} {Q : Option β → Lowering.State → Prop} {s : Lowering.State}
    (h : x.run.Sat s fun r s' => ∃ c, r = some (g c) ∧ P c s')
    (k : ∀ c s', P c s' → (f (g c)).run.Sat s' Q) : (x >>= f).run.Sat s Q := by
  refine Sat.bind h ?_
  rintro _ s' ⟨c, rfl, hc⟩
  exact k c s' hc

theorem emit_some_sat {α : Type} {e : Emit α} {R : α → Builder → Prop} {Q : Option α → Lowering.State → Prop}
    {s : Lowering.State} (h : e.Sat s.builder R) (k : ∀ a b, R a b → Q (some a) { s with builder := b }) :
    (liftM (Lower.emit e) : Attempt α).run.Sat s Q := k _ _ h

/-- Code from `s` to `s'`, with variables in scope, whose value `v` is a word of a type. -/
structure Yields (env : Env) (vars : List Variable) (t : Ty) (z : UInt64) (s s' : Lowering.State) (v : ValueId) :
    Prop where
  onward : Onward s.builder s'.builder
  has : s'.builder.function.Has v (env.ir t)
  scope : s'.scope = s.scope
  runs : ∀ {w : World} {base : Nat} {M : Machine.State}, Part s'.builder w → At w.func s.builder M →
    Known env vars s w base M → w.Reaches s.builder M s'.builder (Holds s'.builder · v (.int z))

section

variable {env : Env} {vars : List Variable} {s s₁ : Lowering.State}

theorem Yields.emit {t t' : Ty} {z z' : UInt64} {v u : ValueId} {b : Builder} (h : Yields env vars t z s s₁ v)
    (o : Onward s₁.builder b) (hu : b.function.Has u (env.ir t'))
    (run : ∀ {w : World} {M : Machine.State}, Part b w → At w.func s₁.builder M →
      Holds s₁.builder M v (.int z) → w.Reaches s₁.builder M b (Holds b · u (.int z'))) :
    Yields env vars t' z' s { s₁ with builder := b } u where
  onward := h.onward.trans o
  has := hu
  scope := h.scope
  runs hp hM hknown := (h.runs (hp.back o) hM hknown).bind fun _ m hv => run hp m.toAt hv

/-- A variable yields its word, which is no constant. -/
theorem lowerIdent_yields (h : Sited env vars s) {x : Variable} (hx : x ∈ vars) (span : Source.Span) :
    (Lowering.lowerIdent env x.name span).run.Sat s fun r s' =>
      ∃ v, r = some ⟨v, x.type⟩ ∧ Yields env vars x.type (wordOf env x.type x.value) s s' v ∧
        s'.builder.constIntValue? v = none := by
  obtain ⟨slot, hslot, hok⟩ := h.seen x hx
  refine Lowering.Attempt.get_sat_bind ?_
  rw [hslot]
  refine Lowering.Attempt.emit_sat_bind ((Ir.Emit.load_onward h.live hok.1 (Env.isScalar_ir x.type)).and
    (Machine.load_emits h.live (t := env.ir x.type) hok.1 x.name)) ?_
  rintro v b ⟨⟨o, hv⟩, emits⟩
  refine Sat.pure ⟨v, rfl, ⟨o, hv, rfl, fun hp hM hknown => ?_⟩, ?_⟩
  · obtain ⟨addr, haddr, hload⟩ := hknown.slotted.keeps_address (hknown.kept x hx hslot)
    exact emits.run hp hM rfl (Machine.perform_load haddr hload)
  · obtain ⟨_, _, _, hval⟩ := emits.value
    simp [Builder.constIntValue?, hval]

end

/-! ### How code finishes -/

/-- Running what was emitted from `s` to `b` leads to a state in which `v` holds a word, or to a fault. -/
def Finishes (w : World) (s : Builder) (M : Machine.State) (b : Builder) (v : ValueId) :
    Except Fault UInt64 → Prop
  | .ok z => (∀ M', Moved w.func s M b M' → Holds b M' v (.int z) → w.goal M') → w.goal M
  | .error f => (∀ M' M'', Exec.step w.module w.limit M' = .error f M'' → w.goal M') → w.goal M

section

variable {w : World} {s b d : Builder} {M : Machine.State} {v : ValueId}

/-- Code after code that leads to a state. -/
theorem Finishes.after {P : Machine.State → Prop} {r : Except Fault UInt64}
    (h : (∀ M', Moved w.func s M b M' → P M' → w.goal M') → w.goal M)
    (k : ∀ M', Moved w.func s M b M' → P M' → Finishes w b M' d v r) : Finishes w s M d v r := by
  cases r with
  | error f => exact fun e => h fun M' m hP => k M' m hP e
  | ok z => exact fun e => h fun M' m hP => k M' m hP fun M'' m' hz => e M'' (m.trans m') hz

/-- Code after code that reaches a state with the store as it is. -/
theorem Finishes.of_reaches {P : Machine.State → Prop} {r : Except Fault UInt64} (h : w.Reaches s M b P)
    (k : ∀ M', Moved w.func s M b M' → M'.store = M.store → P M' → Finishes w b M' d v r) :
    Finishes w s M d v r :=
  .after (P := fun M' => M'.store = M.store ∧ P M') (fun e => h fun M' m hst hP => e M' m ⟨hst, hP⟩)
    fun M' m hP => k M' m hP.1 hP.2

/-- Code of an operator finishes with its word, or as a division by zero. -/
theorem Finishes.of_ends {o : Option UInt64} (h : Ends w s M b v o) :
    Finishes w s M b v (o.elim (.error (.divisionByZero w.func.name)) .ok) := by
  cases o with
  | none => exact fun e => e M M h.1
  | some z => exact fun e => h fun M' m _ hz => e M' m hz

end

/-- A lowering, with nothing but variables declared, whose code computes a word of a type or ends in a fault. It
takes no more than `more` stack slots of its own. -/
def Computes (env : Env) (vars : List Variable) (more : Nat) (code : Attempt Typed) (t : Ty)
    (r : Except Fault UInt64) : Prop :=
  ∀ s : Lowering.State, Opened env vars s → code.run.Sat s fun x s' => ∃ v, x = some ⟨v, t⟩ ∧
    (Onward s.builder s'.builder ∧ s'.builder.function.Has v (env.ir t)) ∧
    ∀ {w : World} {base : Nat} {M : Machine.State}, ¬w.watched → Toward s.builder s'.builder w →
      At w.func s.builder M → Known env vars s w base M → base + (vars.length + more) ≤ maxBlocks →
      Finishes w s.builder M s'.builder v r

/-! ### Declarations -/

theorem store_slots {b : Builder} (h : b.Live) {v p : ValueId} (hp : b.function.Has p .ptr) :
    (Emit.store v p).Sat b fun _ b' => b'.function.slots = b.function.slots := by
  obtain ⟨c, hc, ho⟩ := h.isOpen
  refine Ir.Emit.demand_bind (by simp [Builder.valueType, hp.valueType_eq, Ir.Ty.isPtr]) ?_
  unfold Emit.emitVoid Sat
  rw [Ir.Emit.insert_eq hc ho]
  show (b.modifyFunction (·.addInst c ⟨none, .store v p⟩)).function.slots = _
  rw [Ir.Builder.function_modifyFunction h.ok.valid,
    Ir.Function.slots_addInst (Ir.Emit.lt_size_of_ending h hc) rfl]

/-- A name is bound to a new slot that a value is stored in. -/
structure Declares (env : Env) (name : String) (t : Ty) (value : ValueId) (s s' : Lowering.State)
    (slot : ValueId) : Prop where
  onward : Onward s.builder s'.builder
  isNew : slot = ⟨s.builder.function.values.size⟩
  ok : s'.BindingOk env (.slot slot t)
  scope : s.scope.declare? name (.slot slot t) = some s'.scope
  slots : s'.builder.function.slots Ir.Id.entry =
    s.builder.function.slots Ir.Id.entry ++ [⟨some slot, .alloca (env.ir t)⟩]
  runs : ∀ {w : World} {base : Nat} {M : Machine.State} {bits : Nat} {n : Int}, ¬w.watched →
    Part s'.builder w → At w.func s.builder M → Slotted w base M →
    base + (s.builder.function.slots Ir.Id.entry).length < maxBlocks → (env.ir t).intBits? = some bits → 8 ≤ bits →
    M.frame.value? value = some (.int (encode bits n)) → w.func.valueType value = env.ir t →
    (∀ M', Moved w.func s.builder M s'.builder M' → Slotted w base M' →
      Keeps w base M' slot (env.ir t) (encode bits n) →
      (∀ {other u x}, other ≠ slot → Keeps w base M other u x → Keeps w base M' other u x) → w.goal M') →
    w.goal M

theorem bindSlot_declares {env : Env} {s : Lowering.State} (h : s.builder.Live) (what name : String) (t : Ty)
    {value : ValueId} (hv : (∃ u, s.builder.function.Has value u) ∨ ∃ u, s.builder.function.HasParam value u)
    (span : Source.Span) (hfree : ∀ b, (s.scope.declare? name b).isSome = true) :
    (do
      let slot ← Lower.emit (Emit.entryAlloca (env.ir t) name)
      Lower.emit (Emit.store value slot)
      Lower.bind what name (.slot slot t) span : Lower Unit).Sat s fun _ s' =>
      ∃ slot, Declares env name t value s s' slot := by
  have hne : 0 < s.builder.function.blocks.size := by
    obtain ⟨c, -, hlt⟩ := h.ok.position
    omega
  refine Lower.emit_sat_bind (Ir.Emit.entryAlloca_onward h (Env.isScalar_ir t) name) ?_
  rintro slot b₁ ⟨o₁, hslot, hcur, hnew, hfun, hmem⟩
  have hv₁ : (∃ u, b₁.function.Has value u) ∨ ∃ u, b₁.function.HasParam value u :=
    hv.imp (Exists.imp fun _ => o₁.has) (Exists.imp fun _ => o₁.ext.grows.hasParam)
  refine Lower.emit_sat_bind ((Ir.Emit.store_onward o₁.live hv₁ hslot).and
    ((Machine.store_acts o₁.live (l := value) hslot).and (store_slots o₁.live (v := value) hslot))) ?_
  rintro - b₂ ⟨⟨o₂, -⟩, acts, hslots₂⟩
  have harr : (s.builder.function.addValue ⟨.ptr, .inst Ir.Id.entry, name⟩).Arranged := by
    have := h.ok.function.arranged
    exact ⟨this.lead, this.entryOnly⟩
  have hslots : b₂.function.slots Ir.Id.entry =
      s.builder.function.slots Ir.Id.entry ++ [⟨some slot, .alloca (env.ir t)⟩] := by
    rw [hslots₂, hfun, Ir.Function.slots_addSlot harr hne rfl, if_pos rfl, Ir.Function.slots_addValue]
  have hbody : ∀ {c}, b₁.function.body c = s.builder.function.body c := by
    intro c
    rw [hfun, Ir.Function.body_addSlot harr hne rfl, Ir.Function.body_addValue]
  obtain ⟨scope, hscope⟩ := Option.isSome_iff_exists.1 (hfree (.slot slot t))
  have hbind : (Lower.bind what name (.slot slot t) span).Sat { s with builder := b₂ } fun _ s' =>
      s' = { s with builder := b₂, scope := scope } := by
    refine Sat.get_bind ?_
    dsimp only
    rw [hscope]
    rfl
  refine hbind.imp ?_
  rintro - _ rfl
  refine ⟨slot, ⟨o₁.trans o₂, hnew, ⟨o₂.has hslot, ?_⟩, hscope, hslots, ?_⟩⟩
  · rw [hslots]
    simp
  · intro w base M bits n hw hp hM hslotted hroom hbits h8 hvalue hty k
    have hle := Ir.Emit.intBits?_le hbits
    have m₁ : Moved w.func s.builder M b₁ M := hM.stay hcur (fun _ => hbody) o₁.ext.grows.valuesSize
    have hi : (w.func.slots Ir.Id.entry)[(s.builder.function.slots Ir.Id.entry).length]? =
        some ⟨some slot, .alloca (env.ir t)⟩ := by
      obtain ⟨rest, hrest⟩ := hp.function.slots Ir.Id.entry
      rw [← hrest]
      show (b₂.function.slots Ir.Id.entry ++ rest)[_]? = _
      rw [hslots]
      simp
    refine hslotted.store hw acts hp m₁.toAt hi hroom hbits h8 hvalue hty fun M' m₂ hs hkeep hothers => ?_
    rw [Word.mask_encode hle (le_refl _) hle] at hkeep
    exact k M' (m₁.trans m₂) hs hkeep hothers

section

variable {env : Env} {vars : List Variable} {s s' : Lowering.State} {x : Variable} {value slot : ValueId}

/-- A variable that is declared is in scope with those before. -/
theorem Sited.declare (h : Sited env vars s) (hx : x.name ∉ vars.map (·.name))
    (d : Declares env x.name x.type value s s' slot) : Sited env (vars ++ [x]) s' where
  live := d.onward.live
  name := d.onward.ext.grows.name.trans h.name
  pointerBits := d.onward.ext.module.pointerBits.trans h.pointerBits
  seen y hy := by
    rcases List.mem_append.1 hy with hy | hy
    · obtain ⟨old, hold, hok⟩ := h.seen y hy
      refine ⟨old, ?_, d.onward.has hok.1, (d.onward.ext.grows.slots _).subset hok.2⟩
      rw [Scope.lookup?_of_declare? d.scope, if_neg, hold]
      rintro he
      exact hx (he ▸ List.mem_map_of_mem hy)
    · obtain rfl := List.mem_singleton.1 hy
      exact ⟨slot, by rw [Scope.lookup?_of_declare? d.scope, if_pos rfl], d.ok⟩

theorem Opened.declare (h : Opened env vars s) (hx : x.name ∉ vars.map (·.name))
    (d : Declares env x.name x.type value s s' slot) : Opened env (vars ++ [x]) s' where
  toSited := h.toSited.declare hx d
  free := by
    rw [List.map_append]
    exact h.free.declare d.scope
  slots := by
    rw [d.slots, List.length_append, h.slots, List.length_append]
    rfl

/-- The declaration of a variable keeps what is known of the others. -/
theorem Known.declare {w : World} {base : Nat} {M M' : Machine.State} (h : Known env vars s w base M)
    (hs : Sited env vars s) (hx : x.name ∉ vars.map (·.name)) (d : Declares env x.name x.type value s s' slot)
    (hslotted : Slotted w base M') (hkeep : Keeps w base M' slot (env.ir x.type) (wordOf env x.type x.value))
    (hothers : ∀ {other u z}, other ≠ slot → Keeps w base M other u z → Keeps w base M' other u z) :
    Known env (vars ++ [x]) s' w base M' where
  slotted := hslotted
  kept y hy old u hold := by
    rcases List.mem_append.1 hy with hy | hy
    · have hne : y.name ≠ x.name := fun he => hx (he ▸ List.mem_map_of_mem hy)
      rw [Scope.lookup?_of_declare? d.scope, if_neg hne] at hold
      refine hothers ?_ (h.kept y hy hold)
      -- the slot of an older variable is an older value
      obtain ⟨slot', hslot', hok⟩ := hs.seen y hy
      rw [hold] at hslot'
      cases hslot'
      obtain ⟨val, hval, -⟩ := hok.1.entry
      have hlt : old.index < s.builder.function.values.size := (Array.getElem?_eq_some_iff.1 hval).1
      rintro rfl
      rw [d.isNew] at hlt
      exact Nat.lt_irrefl _ hlt
    · obtain rfl := List.mem_singleton.1 hy
      rw [Scope.lookup?_of_declare? d.scope, if_pos rfl] at hold
      cases hold
      exact hkeep

end

/-! ### Parameters -/

def Variable.Integral (env : Env) (x : Variable) : Prop :=
  ∃ bits, Simulation.Integral env.layout x.type bits ∧ 8 ≤ bits

theorem Variable.integral {env : Env} (hl : env.config.pointerBits ∈ [16, 32, 64]) {x : Variable} {w : Types.IntWidth}
    (hw : x.type.intWidth? = some w) : x.Integral env := by
  have hbits : env.layout.pointerBits ∈ [16, 32, 64] := hl
  refine ⟨_, integral_of_width hl hw, ?_⟩
  cases w <;> simp_all [Types.Layout.intBits, Types.IntWidth.bits]
  omega

def parameters (vars : List Variable) : List (String × Ty) := vars.map fun x => (x.name, x.type)

def arguments (env : Env) (vars : List Variable) : List Machine.Val :=
  vars.map fun x => .int (wordOf env x.type x.value)

/-- Parameters are moved into slots one by one. -/
theorem bindParams_known {env : Env} {done rest : List Variable} {s : Lowering.State} (h : Opened env done s)
    (hnames : ((done ++ rest).map (·.name)).Nodup) (hint : ∀ x ∈ rest, x.Integral env)
    (hparams : ∀ i x, rest[i]? = some x →
      s.builder.function.value? (Ir.Function.param (done.length + i)) =
        some ⟨env.ir x.type, .param (done.length + i), ""⟩ ∧
      s.builder.function.params[done.length + i]? = some (env.ir x.type)) :
    (Lowering.bindParams env done.length (rest.map fun x => (x.name, x.type, default))).Sat s fun _ s' =>
      Opened env (done ++ rest) s' ∧ Onward s.builder s'.builder ∧
      ∀ {w : World} {base : Nat} {M : Machine.State}, ¬w.watched → Part s'.builder w → At w.func s.builder M →
        Known env done s w base M → base + (done ++ rest).length ≤ maxBlocks →
        M.frame.args = (arguments env (done ++ rest)).toArray →
        (∀ M', Moved w.func s.builder M s'.builder M' → Known env (done ++ rest) s' w base M' → w.goal M') →
        w.goal M := by
  -- on the parameters that are left, while those before are known
  induction rest generalizing done s with
  | nil =>
    refine Sat.pure ⟨by rwa [List.append_nil], .refl h.live, fun _ _ hM hknown _ _ k => ?_⟩
    exact k _ (.refl hM) (by rwa [List.append_nil])
  | cons x rest ih =>
    obtain ⟨bits, hx, h8⟩ := hint x (by simp)
    obtain ⟨hvalue, htype⟩ := hparams 0 x rfl
    rw [Nat.add_zero] at hvalue htype
    have hfresh : x.name ∉ done.map (·.name) := by
      rw [List.map_append, List.map_cons, List.nodup_append] at hnames
      exact fun hmem => hnames.2.2 _ hmem _ (by simp) rfl
    have hhas : s.builder.function.HasParam (Ir.Function.param done.length) (env.ir x.type) :=
      ⟨⟨_, _, hvalue, htype⟩, Env.isScalar_ir _⟩
    refine Sat.bind (bindSlot_declares (t := x.type) h.live "parameter" x.name (.inr ⟨_, hhas⟩) default
      (h.free x.name hfresh)) ?_
    rintro - s₁ ⟨slot, d⟩
    have happend : done ++ x :: rest = (done ++ [x]) ++ rest := by simp
    have hlength : (done ++ [x]).length = done.length + 1 := by simp
    rw [happend] at hnames ⊢
    rw [← hlength]
    refine (ih (h.declare hfresh d) hnames (fun y hy => hint y (by simp [hy])) ?_).imp ?_
    · intro i y hy
      have := hparams (i + 1) y hy
      rw [hlength, show done.length + 1 + i = done.length + (i + 1) by omega, d.onward.ext.grows.params]
      exact ⟨d.onward.ext.grows.value? this.1, this.2⟩
    · rintro - s₂ ⟨h₂, o₂, run⟩
      refine ⟨h₂, d.onward.trans o₂, fun {w base M} hw hp hM hknown hroom hargs k => ?_⟩
      have hp₁ := hp.back o₂
      have hval := hp₁.function.value? (d.onward.ext.grows.value? hvalue)
      have harg : M.frame.value? (Ir.Function.param done.length) = some (.int (encode bits x.value)) := by
        rw [Machine.Frame.value?, hM.func, hval]
        show M.frame.args[done.length]? = _
        rw [hargs]
        simp [arguments, hx.wordOf_eq]
      have hty : w.func.valueType (Ir.Function.param done.length) = env.ir x.type := by
        simp [Ir.Function.valueType, hval]
      have hlt : base + (s.builder.function.slots Ir.Id.entry).length < maxBlocks := by
        rw [h.slots]
        simp only [List.length_append, List.length_cons, List.length_nil] at hroom
        omega
      refine d.runs hw hp₁ hM hknown.slotted hlt hx.ir h8 harg hty fun M₁ m₁ hslotted hkeep hothers => ?_
      rw [← hx.wordOf_eq] at hkeep
      refine run hw hp m₁.toAt (hknown.declare h.toSited hfresh d hslotted hkeep hothers) hroom ?_
        fun M₂ m₂ hknown₂ => ?_
      · rw [m₁.stays.args]
        exact hargs
      · exact k M₂ (m₁.trans m₂) hknown₂

/-- There are allocations, and addresses for more of them. -/
def Roomy (store : Machine.Store) (n : Nat) : Prop :=
  0 < store.memory.blocks.size ∧ store.memory.blocks.size + n ≤ maxBlocks

/-- A module in which the function is declared and has no body yet. -/
structure Declared (env : Env) (vars : List Variable) (t : Ty) (m : Module) : Prop where
  function : m.function? ⟨0⟩ =
    some (.declare computingName ((parameters vars).map fun p => env.ir p.2) (env.ir t))
  pointerBits : m.pointerBits = env.config.pointerBits
  hosts : m.HostsKnown

theorem declaration_declared (env : Env) (vars : List Variable) (t : Ty) :
    Declared env vars t (declaration env (parameters vars) t) :=
  ⟨rfl, rfl, fun _ hd => by cases hd⟩

section

variable {env : Env} {vars : List Variable} {t : Ty} {m : Module} (hm : Declared env vars t m)

include hm

/-- A body starts with nothing declared, and with its parameters at hand. -/
theorem Declared.opened {b : Builder} (e : Ir.Emit.Entered m ⟨0⟩ b) :
    Opened env [] ⟨b, {}, Scope.push {}, [], false, {}⟩ ∧ b.function.ret = env.ir t ∧
    ∀ i x, vars[i]? = some x →
      b.function.value? (Ir.Function.param i) = some ⟨env.ir x.type, .param i, ""⟩ ∧
      b.function.params[i]? = some (env.ir x.type) := by
  have hgrows : (Ir.Function.declare computingName ((parameters vars).map fun p => env.ir p.2) (env.ir t)).Grows
      b.function := by
    simpa [Builder.function, hm.function] using e.later.grows
  refine ⟨⟨⟨e.live, hgrows.name, e.later.module.pointerBits.trans hm.pointerBits, by simp⟩, fun _ _ _ => rfl, ?_⟩,
    hgrows.ret, fun i x hx => ⟨hgrows.value? ?_, ?_⟩⟩
  · simp [Ir.Function.slots, e.code]
  · simp [Ir.Function.value?, Ir.Function.declare, Ir.Function.param, parameters, hx]
  · rw [hgrows.params]
    simp [Ir.Function.declare, parameters, hx]

/-- The body runs as its lowering computes. -/
theorem Declared.lowered (hl : env.config.pointerBits ≤ 64) {more : Nat} {code : Attempt Typed}
    {r : Except Fault UInt64} (h : Computes env vars more code t r) (hnames : (vars.map (·.name)).Nodup)
    (hint : ∀ x ∈ vars, x.Integral env) {limit : Nat} (hlimit : 0 < limit) {store : Machine.Store}
    (hroom : Roomy store (vars.length + more)) :
    (lowerComputing env (parameters vars) code).Sat ⟨.start m ⟨0⟩, {}, {}, [], false, {}⟩ fun _ s =>
      ∃ n, ∀ fuel, n ≤ fuel →
        (Machine.invoke s.builder.module limit fuel store ⟨0⟩ (arguments env vars)).result =
          r.map fun z => some (.int z) := by
  refine Lower.emit_sat_bind (Ir.Emit.start_entered hm.hosts hm.function) fun _ _ h₁ => ?_
  refine Lower.emit_sat_bind h₁ fun _ b₁ entered => ?_
  refine Sat.modify_bind ?_
  obtain ⟨hopened, hret, hparams⟩ := hm.opened entered
  rw [parameters, List.map_map]
  refine Sat.bind (bindParams_known hopened hnames hint ?_) ?_
  · simpa using hparams
  rintro - s₂ ⟨h₂, o₂, moves⟩
  refine Sat.bind (h s₂ h₂) ?_
  rintro _ s₃ ⟨v, rfl, ⟨o₃, hv⟩, runs⟩
  have hv' : s₃.builder.function.Has v s₃.builder.function.ret := by
    rw [o₃.ext.grows.ret, o₂.ext.grows.ret, hret]
    exact hv
  refine Lower.emit_sat (Ir.Emit.ret_halted o₃.live hv') fun _ b₄ halted => ?_
  have hlater := (o₂.trans o₃).ext.toLater.trans halted.ext.toLater
  refine Machine.invoke_ends hm.function entered hlater halted.ok (hm.pointerBits ▸ hl) hlimit
    (by simp [arguments, parameters]) ?_
  intro M M' hmem hargs hcallers prepared hat
  let w := Ending b₄ halted.ok limit (r.map fun z => some (.int z))
  -- from behind its slots the function moves the parameters, runs the code and returns
  have htoward : Toward s₂.builder s₃.builder w :=
    Toward.before ⟨⟨.refl _, .refl _⟩, fun _ _ _ hn => hn⟩ halted.ext
  have hslotted := prepared.slotted (by rw [hmem]; exact hroom.1)
  rw [hmem] at hslotted
  refine moves (w := w) id (htoward.toPart.back o₃) hat ⟨hslotted, by simp⟩ ?_ hargs fun M₂ m₂ hknown => ?_
  · exact Nat.le_trans (by simp) hroom.2
  have hrun := runs (w := w) id htoward m₂.toAt hknown hroom.2
  cases r with
  | error f => exact hrun fun _ _ hstep => Machine.ends_of_error hstep
  | ok z =>
    refine hrun fun M₃ m₃ hz => Machine.ends_of_ret halted m₃.toAt hz ?_
    rw [m₃.stays.callers, m₂.stays.callers, hcallers]

end

/-- What a lowering computes of variables is what a call with their values returns. -/
theorem Computes.invoked {env : Env} (hl : env.config.pointerBits ∈ [16, 32, 64]) {vars : List Variable} {more : Nat}
    {code : Attempt Typed} {t : Ty} {r : Except Fault UInt64} (h : Computes env vars more code t r)
    (hnames : (vars.map (·.name)).Nodup) (hint : ∀ x ∈ vars, x.Integral env) {limit : Nat} (hlimit : 0 < limit)
    {store : Machine.Store} (hroom : Roomy store (vars.length + more)) :
    ∃ n, ∀ fuel, n ≤ fuel →
      (Machine.invoke (computing env (parameters vars) t code) limit fuel store ⟨0⟩ (arguments env vars)).result =
        r.map fun z => some (.int z) :=
  (declaration_declared env vars t).lowered (by simp at hl; omega) h hnames hint hlimit hroom

end BlockForge.Simulation
