import BlockForge.Lowering.State
import BlockForge.Proofs.Ir.Flow
import BlockForge.Proofs.Ir.Reach
import BlockForge.Proofs.Lowering.VectorCode

/-!
# Well-formed lowering states

`State.Live` is what holds whenever an expression or statement is about to be lowered, and
`State.Onward` what lowering an expression does to the state. A lowering that fails leaves an error
behind; `Attempt.Runs` says so, next to what holds of a result.
-/

namespace BlockForge.Lowering

open Diagnostic (Diag Queue)
open Ir (Builder Emit Module ValueId)
open StateM
open BlockForge.Types (Ty)

theorem mem_of_lookup {α β : Type} [BEq α] [LawfulBEq α] {l : List (α × β)} {k : α} {b : β}
    (h : l.lookup k = some b) : (k, b) ∈ l := by
  obtain ⟨l₁, l₂, rfl, -⟩ := List.lookup_eq_some_iff.1 h
  simp

/-! ### Representations -/

namespace Env

variable {env : Env}

theorem isInt_of_isInteger {t : Ty} (h : t.isInteger = true) : (env.ir t).isInt = true := by
  cases t <;> simp [Ty.isInteger] at h
  all_goals
    simp only [ir, Types.Layout.irType, Ir.Ty.int?]
    split <;> rfl

theorem isFloat_ir (t : Ty) : (env.ir t).isFloat = t.isFloat := by
  cases t with
  | signed w | unsigned w =>
    simp only [ir, Types.Layout.irType, Ir.Ty.int?]
    split <;> rfl
  | float w => cases w <;> rfl
  | _ => rfl

theorem isScalar_ir (t : Ty) : (env.ir t).isScalar = true := by
  cases t with
  | signed w => exact Emit.isScalar_of_isInt (isInt_of_isInteger rfl)
  | unsigned w => exact Emit.isScalar_of_isInt (isInt_of_isInteger rfl)
  | float w => cases w <;> rfl
  | _ => rfl

theorem numeric_ir {t : Ty} (h : t.isNumeric = true) :
    (env.ir t).isFloat = true ∨ (env.ir t).isInt = true := by
  rcases (by simpa [Ty.isNumeric] using h : t.isInteger = true ∨ t.isFloat = true) with h | h
  · exact .inr (isInt_of_isInteger h)
  · exact .inl ((isFloat_ir t).trans h)

end Env

section

variable {l : Types.Layout}

theorem irType_ne_void (t : Ty) : l.irType t ≠ .void := by
  have hint : ∀ bits, (Ir.Ty.int? bits).getD .i64 ≠ .void := by
    intro bits
    unfold Ir.Ty.int?
    split <;> simp
  cases t with
  | signed w => exact hint _
  | unsigned w => exact hint _
  | float w => cases w <;> simp [Types.Layout.irType]
  | _ => simp [Types.Layout.irType]

theorem returnIrType_eq_void (t : Ty) : l.returnIrType t = .void ↔ t.isUnit = true := by
  rw [Types.Layout.returnIrType]
  split
  · rename_i hu
    simp [hu]
  · rename_i hu
    exact iff_of_false (irType_ne_void t) hu

end

/-! ### Well-formed states -/

/-- What is fixed while a body is lowered agrees with the module. -/
structure Env.Fits (env : Env) (m : Module) : Prop where
  pointerBits : m.pointerBits = env.config.pointerBits
  width : env.config.pointerBits = 16 ∨ env.config.pointerBits = 32 ∨ env.config.pointerBits = 64
  allocator : env.allocator.Sound
  vector : m.structFields env.tables.vector = [.ptr, m.ptrInt, m.ptrInt]
  records : ∀ {name info}, env.tables.record? name = some info →
    m.structFields info.id = info.fields.map fun f => env.ir f.2
  functions : ∀ {symbol sig}, env.tables.function? symbol = some sig →
    ∃ f, m.function? sig.func = some f ∧
      f.params = (sig.receiver.toList ++ sig.params).map env.ir ∧
      f.ret = env.layout.returnIrType sig.ret
  methods : ∀ {t name symbol}, env.tables.method? t name = some symbol →
    ∃ sig, env.tables.function? symbol = some sig ∧ sig.receiver = some t

theorem Env.Fits.grows {env : Env} {m n : Module} (h : env.Fits m) (hm : m.Grows n) :
    env.Fits n where
  pointerBits := hm.pointerBits.trans h.pointerBits
  width := h.width
  allocator := h.allocator
  vector := by rw [hm.structFields, hm.ptrInt]; exact h.vector
  records hr := by rw [hm.structFields]; exact h.records hr
  functions hs := by
    obtain ⟨f, hf, hp, hr⟩ := h.functions hs
    obtain ⟨g, hg, -, hp', hr'⟩ := hm.header hf
    exact ⟨g, hg, hp'.trans hp, hr'.trans hr⟩
  methods := h.methods

/-- The word of the target is `usize`. -/
theorem Env.Fits.ptrInt {env : Env} {m : Module} (h : env.Fits m) : m.ptrInt = env.ir .usize := by
  simp [Module.ptrInt, h.pointerBits, Env.ir, Env.layout, Types.Layout.irType, Config.layout,
    Types.Layout.intBits, Types.IntWidth.bits]

/-- The marks of a cache that is up to date are on every block that control can get to. -/
def ReachCache.Sound (cache : ReachCache) (b : Builder) : Prop :=
  ∀ n, cache.terminators = some n → n ≤ b.terminators ∧
    (n = b.terminators → ∀ i, b.function.Path Ir.Id.entry i → Ir.Marked cache.seen i.index)

theorem ReachCache.Sound.ext {cache : ReachCache} {s b : Builder} (h : cache.Sound s)
    (he : s.Ext b) : cache.Sound b := by
  intro n hn
  obtain ⟨hle, hmarked⟩ := h n hn
  have hterm := he.terminators
  refine ⟨by omega, fun heq i hi => hmarked (by omega) i ?_⟩
  have hend := he.steady (by omega)
  simp only [Ir.Function.Path, Ir.Function.succs, hend] at hi
  exact hi

namespace State

/-- An error has been reported. -/
def Failed (s : State) : Prop := s.diags.kept.any (·.isError) = true

/-- A variable has its slot, or its declaration was an error. -/
def BindingOk (env : Env) (s : State) : Binding → Prop
  | .slot a t => s.builder.function.Has a .ptr ∧
      ⟨some a, .alloca (env.ir t)⟩ ∈ s.builder.function.slots Ir.Id.entry
  | .poisoned => s.Failed

/-- A state of lowering whose position may have ended. -/
structure Ok (env : Env) (s : State) : Prop where
  builder : s.builder.Ok
  fits : env.Fits s.builder.module
  returns : s.builder.function.ret = env.layout.returnIrType env.returnType
  scope : ∀ frame ∈ s.scope.frames, ∀ e ∈ frame, s.BindingOk env e.2
  loops : ∀ t ∈ s.loops, t.test.index < s.builder.function.blocks.size ∧
    s.builder.function.NoPhi t.test ∧ t.stop.index < s.builder.function.blocks.size ∧
    s.builder.function.NoPhi t.stop
  poisoned : ∀ {symbol}, env.tables.isPoisoned symbol = true → s.Failed
  reach : s.reach.Sound s.builder

/-- A state of lowering in which code can be emitted. -/
structure Live (env : Env) (s : State) : Prop extends Ok env s where
  live : s.builder.Live

/-- What lowering an expression does. -/
structure Onward (s s' : State) : Prop where
  builder : Emit.Onward s.builder s'.builder
  scope : s'.scope = s.scope
  loops : s'.loops = s.loops
  reach : s'.reach = s.reach
  failed : s.Failed → s'.Failed

namespace Onward

theorem refl {s : State} (h : s.builder.Live) : Onward s s := ⟨.refl h, rfl, rfl, rfl, id⟩

theorem trans {s t u : State} (h : Onward s t) (k : Onward t u) : Onward s u :=
  ⟨h.builder.trans k.builder, k.scope.trans h.scope, k.loops.trans h.loops,
    k.reach.trans h.reach, fun hs => k.failed (h.failed hs)⟩

theorem has {s t : State} (h : Onward s t) {v : ValueId} {ty : Ir.Ty}
    (hv : s.builder.function.Has v ty) : t.builder.function.Has v ty := h.builder.has hv

end Onward

theorem BindingOk.ext {env : Env} {s s' : State} {b : Binding} (h : s.BindingOk env b)
    (he : s.builder.Ext s'.builder) (hf : s.Failed → s'.Failed) : s'.BindingOk env b := by
  cases b with
  | slot a t => exact ⟨he.has h.1, (he.grows.slots _).subset h.2⟩
  | poisoned => exact hf h

/-- A later state is well-formed if its builder, scope and loops are. -/
theorem Ok.ext {env : Env} {s s' : State} (h : s.Ok env) (hb : s'.builder.Ok)
    (he : s.builder.Ext s'.builder) (hs : s'.scope = s.scope) (hl : s'.loops = s.loops)
    (hf : s.Failed → s'.Failed) (hr : s'.reach.Sound s'.builder) : s'.Ok env where
  builder := hb
  fits := h.fits.grows he.module
  returns := he.grows.ret.trans h.returns
  scope frame hframe e hmem := (h.scope frame (hs ▸ hframe) e hmem).ext he hf
  loops t ht := by
    obtain ⟨h₁, h₂, h₃, h₄⟩ := h.loops t (hl ▸ ht)
    exact ⟨Nat.lt_of_lt_of_le h₁ he.grows.size, he.noPhi _ h₁ h₂,
      Nat.lt_of_lt_of_le h₃ he.grows.size, he.noPhi _ h₃ h₄⟩
  poisoned hp := hf (h.poisoned hp)
  reach := hr

theorem Ok.withBuilder {env : Env} {s : State} (h : s.Ok env) {b : Builder} (hb : b.Live)
    (he : s.builder.Ext b) : ({ s with builder := b } : State).Live env :=
  ⟨h.ext hb.ok he rfl rfl id (h.reach.ext he), hb⟩

theorem Live.onward {env : Env} {s s' : State} (o : Onward s s') (h : s.Live env) : s'.Live env :=
  ⟨h.toOk.ext o.builder.live.ok o.builder.ext o.scope o.loops o.failed
    (o.reach ▸ h.reach.ext o.builder.ext), o.builder.live⟩

end State

/-! ### Reports -/

theorem any_isError_add (q : Queue) (d : Diag) :
    (q.add d).2.kept.any (·.isError) = (q.kept.any (·.isError) || d.isError) := by
  unfold Queue.add
  split
  · rename_i h
    cases hd : d.isError with
    | false => simp
    | true =>
      obtain ⟨e, he, hk⟩ := Queue.hasKey_iff.1 h
      have hcode : e.code = d.code := congrArg Diagnostic.Key.code hk
      have herr : e.isError = true := by
        rw [← hd, Diag.isError, Diag.isError, e.agrees, d.agrees, hcode]
      simp only [Bool.or_true]
      exact Array.any_eq_true'.2 ⟨e, he, herr⟩
  · simp

theorem failed_report {s : State} {d : Diag} :
    ({ s with diags := (s.diags.add d).2 } : State).Failed ↔ s.Failed ∨ d.isError = true := by
  simp only [State.Failed, any_isError_add, Bool.or_eq_true]

/-! ### Postconditions -/

open State

namespace Lower

/-- Goes on at a live position with a result for which `P` holds. -/
abbrev Runs {α : Type} (x : Lower α) (s : State) (P : α → State → Prop) : Prop :=
  x.Sat s fun a s' => Onward s s' ∧ P a s'

abbrev Goes {α : Type} (x : Lower α) (s : State) : Prop := x.Runs s fun _ _ => True

variable {α β : Type} {s : State}

theorem Runs.bind {x : Lower α} {f : α → Lower β} {P : α → State → Prop} {Q : β → State → Prop}
    (h : x.Runs s P) (k : ∀ a s', Onward s s' → P a s' → (f a).Runs s' Q) :
    (x >>= f).Runs s Q :=
  Sat.bind h fun a s' ha => (k a s' ha.1 ha.2).imp fun _ _ hr => ⟨ha.1.trans hr.1, hr.2⟩

theorem Runs.imp {x : Lower α} {P Q : α → State → Prop} (h : x.Runs s P)
    (k : ∀ a s', P a s' → Q a s') : x.Runs s Q := Sat.imp h fun a s' hs => ⟨hs.1, k a s' hs.2⟩

theorem Runs.pure {a : α} {P : α → State → Prop} (h : s.builder.Live) (ha : P a s) :
    (Pure.pure a : Lower α).Runs s P := ⟨.refl h, ha⟩

theorem emit_runs {e : Emit α} {P : α → Builder → Prop} (h : e.Runs s.builder P) :
    (emit e).Runs s fun a s' => P a s'.builder := ⟨⟨h.1, rfl, rfl, rfl, id⟩, h.2⟩

theorem emit_sat {e : Emit α} {R : α → Builder → Prop} {Q : α → State → Prop}
    (h : e.Sat s.builder R) (k : ∀ a b, R a b → Q a { s with builder := b }) :
    (emit e).Sat s Q := k _ _ h

/-- Code that does not go on where it started is followed state by state. -/
theorem emit_sat_bind {e : Emit α} {f : α → Lower β} {R : α → Builder → Prop}
    {Q : β → State → Prop} (h : e.Sat s.builder R)
    (k : ∀ a b, R a b → (f a).Sat { s with builder := b } Q) : (emit e >>= f).Sat s Q := k _ _ h

theorem report_goes (h : s.builder.Live) (d : Diag) : (report d).Goes s :=
  ⟨⟨.refl h, rfl, rfl, rfl, fun hf => failed_report.2 (.inl hf)⟩, trivial⟩

theorem report_runs (h : s.builder.Live) {d : Diag} (hd : d.isError = true) :
    (report d).Runs s fun _ s' => s'.Failed :=
  ⟨⟨.refl h, rfl, rfl, rfl, fun hf => failed_report.2 (.inl hf)⟩, failed_report.2 (.inr hd)⟩

end Lower

namespace Attempt

/-- A result for which `P` holds, or an error reported. -/
def Post {α : Type} (P : α → State → Prop) : Option α → State → Prop
  | some a, s => P a s
  | none, s => s.Failed

/-- Goes on at a live position, with a result for which `P` holds or with an error reported. -/
def Runs {α : Type} (x : Attempt α) (s : State) (P : α → State → Prop) : Prop :=
  x.run.Runs s (Post P)

variable {α β : Type} {s : State} {P : α → State → Prop} {Q : β → State → Prop}

theorem Runs.run {x : Attempt α} (h : x.Runs s P) : x.run.Runs s (Post P) := h

theorem runs_of_sat {x : Attempt α} (h : x.run.Sat s fun r s' => Onward s s' ∧ Post P r s') :
    x.Runs s P := h

theorem Runs.bind {x : Attempt α} {f : α → Attempt β} (h : x.Runs s P)
    (k : ∀ a s', Onward s s' → P a s' → (f a).Runs s' Q) : (x >>= f).Runs s Q := by
  refine Lower.Runs.bind h.run fun r s' o hr => ?_
  cases r with
  | none => exact Lower.Runs.pure o.builder.live hr
  | some a => exact k a s' o hr

theorem Runs.pure {a : α} (h : s.builder.Live) (ha : P a s) :
    (Pure.pure a : Attempt α).Runs s P := ⟨.refl h, ha⟩

theorem Runs.imp {x : Attempt α} {P' : α → State → Prop} (h : x.Runs s P)
    (k : ∀ a s', P a s' → P' a s') : x.Runs s P' := by
  refine Lower.Runs.imp h.run fun r s' hr => ?_
  cases r with
  | none => exact hr
  | some a => exact k a s' hr

theorem lift_runs {x : Lower α} (h : x.Runs s P) : (liftM x : Attempt α).Runs s P := h

/-- Code that gives a value, in a lowering that may fail. -/
theorem emit_runs {e : Emit α} {P : α → Builder → Prop} (h : e.Runs s.builder P) :
    (liftM (Lower.emit e) : Attempt α).Runs s fun a s' => P a s'.builder := Lower.emit_runs h

theorem emit_goes {e : Emit α} (h : e.Goes s.builder) :
    (liftM (Lower.emit e) : Attempt α).Runs s fun _ _ => True := Lower.emit_runs h

theorem emit_sat_bind {e : Emit α} {f : α → Attempt β} {R : α → Builder → Prop}
    {Q : Option β → State → Prop} (h : e.Sat s.builder R)
    (k : ∀ a b, R a b → (f a).run.Sat { s with builder := b } Q) :
    (liftM (Lower.emit e) >>= f : Attempt β).run.Sat s Q := k _ _ h

theorem lift_sat_bind {x : Lower α} {f : α → Attempt β} {R : α → State → Prop}
    {Q : Option β → State → Prop} (h : x.Sat s R) (k : ∀ a s', R a s' → (f a).run.Sat s' Q) :
    (liftM x >>= f : Attempt β).run.Sat s Q := k _ _ h

/-- A lowering that may fail, followed state by state. -/
theorem sat_bind {x : Attempt α} {f : α → Attempt β} {R : Option α → State → Prop}
    {Q : Option β → State → Prop} (h : x.run.Sat s R)
    (k : ∀ a s', R (some a) s' → (f a).run.Sat s' Q) (hn : ∀ s', R none s' → Q none s') :
    (x >>= f).run.Sat s Q := by
  refine Sat.bind h fun r s' hr => ?_
  cases r with
  | none => exact hn s' hr
  | some a => exact k a s' hr

theorem of_some_sat_bind {a : α} {f : α → Attempt β} {Q : Option β → State → Prop}
    (h : (f a).run.Sat s Q) : (of (some a) >>= f).run.Sat s Q := h

theorem get_sat_bind {f : State → Attempt β} {Q : Option β → State → Prop}
    (h : (f s).run.Sat s Q) : (get >>= f : Attempt β).run.Sat s Q := h

theorem of_some_bind {a : α} {f : α → Attempt β} (h : (f a).Runs s Q) :
    (of (some a) >>= f).Runs s Q := h

theorem get_bind {f : State → Attempt β} (h : (f s).Runs s Q) : (get >>= f).Runs s Q := h

theorem fail_runs (h : s.builder.Live) (hf : s.Failed) : (fail : Attempt α).Runs s P :=
  ⟨.refl h, hf⟩

theorem reject_runs (h : s.builder.Live) {d : Diag} (hd : d.isError = true) :
    (reject d : Attempt α).Runs s P :=
  Runs.bind (lift_runs (Lower.report_runs h hd)) fun _ _ o hf => fail_runs o.builder.live hf

end Attempt

/-! ### Operands -/

/-- The value is represented like its type. -/
def Typed.Fits (env : Env) (v : Typed) (s : State) : Prop :=
  s.builder.function.Has v.value (env.ir v.ty)

theorem Typed.Fits.onward {env : Env} {v : Typed} {s s' : State} (o : Onward s s')
    (h : v.Fits env s) : v.Fits env s' := o.has h

/-- An operand that lowers well from every live state. -/
def Operand.Ok (env : Env) (o : Operand) : Prop :=
  ∀ {s : State} (expected : Option Ty), s.Live env → (o.lower expected).Runs s (Typed.Fits env)

section Operands

variable {env : Env} {s : State} {o : Operand}

theorem visit_goes (ho : o.Ok env) (h : s.Live env) : o.visit.Goes s :=
  Lower.Runs.bind (ho none h).run fun _ _ o _ => Lower.Runs.pure o.builder.live trivial

theorem visitAll_goes {os : List Operand} (hos : ∀ o ∈ os, o.Ok env) (h : s.Live env) :
    (visitAll os).Goes s := by
  induction os generalizing s with
  | nil => exact Lower.Runs.pure h.live trivial
  | cons o rest ih =>
    refine Lower.Runs.bind (visit_goes (hos o (by simp)) h) fun _ s₁ o₁ _ => ?_
    exact ih (fun o ho => hos o (by simp [ho])) (h.onward o₁)

/-- References are represented alike, so `null` may stand in for one. -/
theorem ir_of_assignable {a b : Ty} (h : Types.assignable a b = true) : env.ir a = env.ir b := by
  simp only [Types.assignable, Bool.or_eq_true, Bool.and_eq_true, beq_iff_eq] at h
  rcases h with rfl | ⟨rfl, hb⟩
  · rfl
  · cases b <;> simp [Ty.isNullable] at hb <;> rfl

theorem coerce_runs {v : Typed} (h : s.Live env) (hv : v.Fits env s) (target : Ty)
    (span : Source.Span) (context : String) :
    (Attempt.coerce v target span context).Runs s fun r s' => r.ty = target ∧ r.Fits env s' := by
  unfold Attempt.coerce
  split
  · rename_i ha
    refine Attempt.Runs.pure h.live ⟨rfl, ?_⟩
    show s.builder.function.Has v.value (env.ir target)
    rw [← ir_of_assignable ha]
    exact hv
  · exact Attempt.reject_runs h.live rfl

theorem lowerAs_runs (ho : o.Ok env) (h : s.Live env) (target : Ty) (context : String) :
    (o.lowerAs target context).Runs s fun r s' => r.ty = target ∧ r.Fits env s' :=
  Attempt.Runs.bind (ho (some target) h) fun _ _ o hv => coerce_runs (h.onward o) hv _ _ _

theorem resolve_runs (h : s.Live env) (t : Source.TypeExpr) (span : Source.Span) :
    (Attempt.resolve env t span).Runs s fun _ _ => True := by
  unfold Attempt.resolve
  split
  · exact Attempt.Runs.pure h.live trivial
  · exact Attempt.reject_runs h.live rfl

theorem unit_runs (h : s.Live env) : Lower.unit.Runs s (Typed.Fits env) :=
  Lower.Runs.bind (Lower.emit_runs (Emit.constInt_onward h.live rfl 0)) fun _ _ o hv =>
    Lower.Runs.pure o.builder.live hv

end Operands

end BlockForge.Lowering
