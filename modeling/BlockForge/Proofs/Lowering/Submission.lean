import BlockForge.Lowering.State
import BlockForge.Proofs.Ir.Shape
import BlockForge.Proofs.Lowering.State

/-!
# What lowering submits

A queue drops a diagnostic that it has already, so what is in it does not tell what was submitted on
the way. `Lower.Yields` gives the submissions themselves: those that lead from every queue to the one
that is left. Lowering an expression reads nothing but the builder and the scope, changes nothing but
the builder, and either gives a value and submits nothing, or fails and has submitted an error.
-/

namespace BlockForge.Diagnostic

/-- Submits diagnostics in order. -/
def Queue.submit (q : Queue) (log : List Diag) : Queue := log.foldl (fun q d => (q.add d).2) q

@[simp] theorem Queue.submit_nil (q : Queue) : q.submit [] = q := rfl

theorem Queue.submit_append (q : Queue) (l₁ l₂ : List Diag) :
    q.submit (l₁ ++ l₂) = (q.submit l₁).submit l₂ := List.foldl_append ..

end BlockForge.Diagnostic

namespace BlockForge.Lowering

open Diagnostic (Diag Queue)
open Ir (Builder Emit)

/-- A queue has an error after some submissions exactly if it had one or one was submitted. -/
theorem any_isError_submit (q : Queue) (log : List Diag) :
    (q.submit log).kept.any (·.isError) = (q.kept.any (·.isError) || log.any (·.isError)) := by
  induction log generalizing q with
  | nil => simp
  | cons d rest ih =>
    show ((q.add d).2.submit rest).kept.any (·.isError) = _
    rw [ih, any_isError_add, List.any_cons, Bool.or_assoc]

/-- A mistake in an expression, or anything else but a finding about the paths of the function. -/
def isPlain (d : Diag) : Bool := d.code != .w2001 && d.code != .e2030

theorem isError_of_isPlain {d : Diag} (h : isPlain d = true) : d.isError = true := by
  have hne : d.code ≠ .w2001 := by
    rintro he
    simp [isPlain, he] at h
  rw [Diag.isError, d.agrees]
  cases hc : d.code <;> first | rfl | exact absurd hc hne

/-- Submissions of the kind that expressions make. -/
def Plain (log : List Diag) : Prop := ∀ d ∈ log, isPlain d = true

theorem Plain.nil : Plain [] := by simp [Plain]

theorem Plain.append {l₁ l₂ : List Diag} (h₁ : Plain l₁) (h₂ : Plain l₂) : Plain (l₁ ++ l₂) :=
  fun d hd => (List.mem_append.1 hd).elim (h₁ d) (h₂ d)

theorem Plain.any_isError {log : List Diag} (h : Plain log) : log.any (·.isError) = true ↔ log ≠ [] := by
  cases log with
  | nil => simp
  | cons d rest => simp [isError_of_isPlain (h d (by simp))]

/-- A state with nothing but a builder and a scope. -/
def State.plain (b : Builder) (scope : Scope) : State := { builder := b, diags := {}, scope }

namespace Lower

variable {α β : Type} {scope : Scope} {b : Builder}

/-- In every state with this scope and builder, gives `a`, leaves the builder `b'` and submits `log`. -/
def Yields (x : Lower α) (scope : Scope) (b : Builder) (a : α) (b' : Builder) (log : List Diag) :
    Prop :=
  ∀ s : State, s.scope = scope → s.builder = b →
    x s = (a, { s with builder := b', diags := s.diags.submit log })

theorem Yields.bind {x : Lower α} {f : α → Lower β} {a : α} {c : β} {b₁ b₂ : Builder}
    {l₁ l₂ : List Diag} (h : x.Yields scope b a b₁ l₁) (k : (f a).Yields scope b₁ c b₂ l₂) :
    (x >>= f).Yields scope b c b₂ (l₁ ++ l₂) := by
  intro s hs hb
  have hk := k { s with builder := b₁, diags := s.diags.submit l₁ } hs rfl
  show f (x s).1 (x s).2 = _
  rw [h s hs hb, Queue.submit_append]
  exact hk

theorem Yields.pure (a : α) : (Pure.pure a : Lower α).Yields scope b a b [] := by
  rintro s rfl rfl
  rfl

theorem Yields.map {x : Lower α} {f : α → β} {a : α} {b' : Builder} {log : List Diag}
    (h : x.Yields scope b a b' log) : (f <$> x).Yields scope b (f a) b' log := by
  intro s hs hb
  show (f (x s).1, (x s).2) = _
  rw [h s hs hb]

theorem yields_emit {e : Emit α} {a : α} {b' : Builder} (h : e b = (a, b')) :
    (emit e).Yields scope b a b' [] := by
  rintro s rfl rfl
  show (_, _) = _
  rw [h]
  rfl

theorem yields_report (d : Diag) : (report d).Yields scope b () b [d] := by
  rintro s rfl rfl
  rfl

theorem yields_get {f : State → Lower β} {c : β} {b' : Builder} {log : List Diag}
    (hf : ∀ s : State, f s = f (.plain s.builder s.scope))
    (h : (f (.plain b scope)).Yields scope b c b' log) : (get >>= f).Yields scope b c b' log := by
  rintro s rfl rfl
  show f s s = _
  rw [hf s]
  exact h s rfl rfl

/-- Submits nothing but mistakes in expressions. -/
def Traces (x : Lower α) (scope : Scope) (b : Builder) (Q : α → Builder → List Diag → Prop) : Prop :=
  ∃ a b' log, x.Yields scope b a b' log ∧ Plain log ∧ Q a b' log

theorem Traces.bind {x : Lower α} {f : α → Lower β} {Q : α → Builder → List Diag → Prop}
    {R : β → Builder → List Diag → Prop} (h : x.Traces scope b Q)
    (k : ∀ a b₁ log, Q a b₁ log → (f a).Traces scope b₁ fun c b₂ log' => R c b₂ (log ++ log')) :
    (x >>= f).Traces scope b R := by
  obtain ⟨a, b₁, l₁, hy₁, hp₁, hq⟩ := h
  obtain ⟨c, b₂, l₂, hy₂, hp₂, hr⟩ := k a b₁ l₁ hq
  exact ⟨c, b₂, l₁ ++ l₂, hy₁.bind hy₂, hp₁.append hp₂, hr⟩

theorem Traces.imp {x : Lower α} {Q R : α → Builder → List Diag → Prop} (h : x.Traces scope b Q)
    (k : ∀ a b' log, Q a b' log → R a b' log) : x.Traces scope b R := by
  obtain ⟨a, b', log, hy, hp, hq⟩ := h
  exact ⟨a, b', log, hy, hp, k a b' log hq⟩

theorem Traces.map {x : Lower α} {f : α → β} {Q : β → Builder → List Diag → Prop}
    (h : x.Traces scope b fun a => Q (f a)) : (f <$> x).Traces scope b Q := by
  obtain ⟨a, b', log, hy, hp, hq⟩ := h
  exact ⟨f a, b', log, hy.map, hp, hq⟩

theorem traces_emit (e : Emit α) :
    (emit e).Traces scope b fun a b' log => log = [] ∧ e b = (a, b') :=
  ⟨(e b).1, (e b).2, [], yields_emit rfl, .nil, rfl, rfl⟩

theorem traces_get {f : State → Lower β} {Q : β → Builder → List Diag → Prop}
    (hf : ∀ s : State, f s = f (.plain s.builder s.scope))
    (h : (f (.plain b scope)).Traces scope b Q) : (get >>= f).Traces scope b Q := by
  obtain ⟨a, b', log, hy, hrest⟩ := h
  exact ⟨a, b', log, yields_get hf hy, hrest⟩

/-- From an open block to an open block, submitting nothing but mistakes in expressions. -/
def Works (x : Lower α) (scope : Scope) (b : Builder) (Q : α → Builder → List Diag → Prop) : Prop :=
  x.Traces scope b fun a b' log => Emit.Advances b b' ∧ Q a b' log

theorem Works.bind {x : Lower α} {f : α → Lower β} {Q : α → Builder → List Diag → Prop}
    {R : β → Builder → List Diag → Prop} (h : x.Works scope b Q)
    (k : ∀ a b₁ log, Emit.Advances b b₁ → Q a b₁ log →
      (f a).Works scope b₁ fun c b₂ log' => R c b₂ (log ++ log')) : (x >>= f).Works scope b R :=
  Traces.bind h fun a b₁ log hq => (k a b₁ log hq.1 hq.2).imp fun _ _ _ hr =>
    ⟨hq.1.trans hr.1, hr.2⟩

theorem Works.imp {x : Lower α} {Q R : α → Builder → List Diag → Prop} (h : x.Works scope b Q)
    (k : ∀ a b' log, Emit.Advances b b' → Q a b' log → R a b' log) : x.Works scope b R :=
  Traces.imp h fun a b' log hq => ⟨hq.1, k a b' log hq.1 hq.2⟩

theorem Works.pure (h : b.Opened) {a : α} {Q : α → Builder → List Diag → Prop} (ha : Q a b []) :
    (Pure.pure a : Lower α).Works scope b Q := ⟨a, b, [], .pure a, .nil, .refl h, ha⟩

/-- Code that advances submits nothing. -/
theorem works_emit (h : b.Opened) {e : Emit α} (he : Emit.IsAdvance e) :
    (emit e).Works scope b fun a b' log => log = [] ∧ e b = (a, b') := by
  have ha : Emit.Advances b (e b).2 := he.sat b h
  refine (traces_emit e).imp fun a b' log hr => ⟨?_, hr⟩
  rw [hr.2] at ha
  exact ha

theorem works_report (h : b.Opened) {d : Diag} (hd : isPlain d = true) :
    (report d).Works scope b fun _ b' log => log = [d] ∧ b' = b :=
  ⟨(), b, [d], yields_report d, by simpa [Plain] using hd, .refl h, rfl, rfl⟩

end Lower

/-! ### Attempts -/

namespace Attempt

variable {α β : Type} {scope : Scope} {b : Builder} {B : Prop}

/-- Success submits nothing. A failure has submitted something, unless there is an excuse. -/
def Verdict (B : Prop) (P : α → Builder → Prop) : Option α → Builder → List Diag → Prop
  | some a, b, log => log = [] ∧ P a b
  | none, _, log => log ≠ [] ∨ B

/-- Gives a value for which `P` holds and submits nothing, or fails for a reason that has been submitted
or with the excuse `B`. -/
def Judged (x : Attempt α) (scope : Scope) (b : Builder) (B : Prop) (P : α → Builder → Prop) : Prop :=
  x.run.Works scope b (Verdict B P)

variable {P : α → Builder → Prop} {Q : β → Builder → Prop}

theorem Judged.run {x : Attempt α} (h : x.Judged scope b B P) : x.run.Works scope b (Verdict B P) := h

/-- Goes on after something that cannot fail. -/
theorem traces_bind {x : Lower α} {f : α → Attempt β} {R : α → Builder → List Diag → Prop}
    {S : Option β → Builder → List Diag → Prop} (h : x.Traces scope b R)
    (k : ∀ a b' log, R a b' log → (f a).run.Traces scope b' fun r b'' log' => S r b'' (log ++ log')) :
    (liftM x >>= f : Attempt β).run.Traces scope b S :=
  Lower.Traces.bind (Lower.Traces.map (Q := fun r b' log => ∃ a, r = some a ∧ R a b' log)
    (h.imp fun a _ _ hr => ⟨a, rfl, hr⟩)) (by
      rintro _ b' log ⟨a, rfl, hr⟩
      exact k a b' log hr)

theorem traces_of_some {a : α} {f : α → Attempt β} {S : Option β → Builder → List Diag → Prop}
    (h : (f a).run.Traces scope b S) : (of (some a) >>= f).run.Traces scope b S := h

theorem traces_get_bind {f : State → Attempt β} {S : Option β → Builder → List Diag → Prop}
    (hf : ∀ s : State, f s = f (.plain s.builder s.scope))
    (h : (f (.plain b scope)).run.Traces scope b S) : (get >>= f : Attempt β).run.Traces scope b S :=
  Lower.traces_get (f := fun s => (f s).run) (fun s => congrArg Attempt.run (hf s)) h

theorem works_bind {x : Lower α} {f : α → Attempt β} {R : α → Builder → List Diag → Prop}
    {S : Option β → Builder → List Diag → Prop} (h : x.Works scope b R)
    (k : ∀ a b' log, Emit.Advances b b' → R a b' log →
      (f a).run.Works scope b' fun r b'' log' => S r b'' (log ++ log')) :
    (liftM x >>= f : Attempt β).run.Works scope b S :=
  traces_bind h fun a b' log hr => Lower.Traces.imp (k a b' log hr.1 hr.2) fun _ _ _ hs =>
    ⟨hr.1.trans hs.1, hs.2⟩

theorem Judged.bind {x : Attempt α} {f : α → Attempt β} (h : x.Judged scope b B P)
    (k : ∀ a b', Emit.Advances b b' → P a b' → (f a).Judged scope b' B Q) :
    (x >>= f).Judged scope b B Q := by
  refine Lower.Works.bind h.run fun r b' log ha hv => ?_
  cases r with
  | none => exact Lower.Works.pure ha.opened (by simpa [Verdict] using hv)
  | some a =>
    obtain ⟨rfl, hp⟩ := hv
    exact k a b' ha hp

theorem Judged.imp {x : Attempt α} {P' : α → Builder → Prop} {B' : Prop} (h : x.Judged scope b B P)
    (hb : B → B') (k : ∀ a b', Emit.Advances b b' → P a b' → P' a b') : x.Judged scope b B' P' := by
  refine Lower.Works.imp h.run fun r b' log ha hv => ?_
  cases r with
  | none => exact hv.imp id hb
  | some a => exact ⟨hv.1, k a b' ha hv.2⟩

theorem Judged.pure (h : b.Opened) {a : α} (ha : P a b) :
    (Pure.pure a : Attempt α).Judged scope b B P := Lower.Works.pure h ⟨rfl, ha⟩

theorem judged_fail (h : b.Opened) (hb : B) : (fail : Attempt α).Judged scope b B P :=
  Lower.Works.pure h (.inr hb)

theorem judged_get {f : State → Attempt β}
    (hf : ∀ s : State, f s = f (.plain s.builder s.scope))
    (h : (f (.plain b scope)).Judged scope b B Q) : (get >>= f : Attempt β).Judged scope b B Q :=
  traces_get_bind hf h

theorem judged_reject (h : b.Opened) {d : Diag} (hd : isPlain d = true) :
    (reject d : Attempt α).Judged scope b B P := by
  refine works_bind (Lower.works_report h hd) fun _ b' log ha hr => ?_
  exact Lower.Works.pure ha.opened (.inl (by simp [hr.1]))

theorem lift_judged {x : Lower α} (h : x.Works scope b fun a b' log => log = [] ∧ P a b') :
    (liftM x : Attempt α).Judged scope b B P := Lower.Traces.map h

/-- Code that advances, followed by more. -/
theorem judged_emit {e : Emit α} {f : α → Attempt β} (h : b.Opened) (he : Emit.IsAdvance e)
    (k : ∀ a b', Emit.Advances b b' → e b = (a, b') → (f a).Judged scope b' B Q) :
    (liftM (Lower.emit e) >>= f : Attempt β).Judged scope b B Q := by
  refine works_bind (Lower.works_emit h he) fun a b' log ha hr => ?_
  obtain ⟨rfl, hr⟩ := hr
  exact k a b' ha hr

/-- Goes on whether or not there is a result; what cannot be done without one fails for the same reason. -/
theorem Judged.run_bind {x : Attempt α} {f : Option α → Attempt β} (h : x.Judged scope b B P)
    (hnone : ∀ b', Emit.Advances b b' → (f none).Judged scope b' True fun _ _ => False)
    (hsome : ∀ a b', Emit.Advances b b' → P a b' → (f (some a)).Judged scope b' B Q) :
    (liftM x.run >>= f : Attempt β).Judged scope b B Q := by
  refine works_bind h.run fun r b' log ha hv => ?_
  cases r with
  | none =>
    refine (hnone b' ha).run.imp fun r _ log' _ hr => ?_
    cases r with
    | none => exact hv.imp (fun hne he => hne (List.append_eq_nil_iff.1 he).1) id
    | some c => exact absurd hr.2 id
  | some a =>
    obtain ⟨rfl, hp⟩ := hv
    exact hsome a b' ha hp

end Attempt

end BlockForge.Lowering
