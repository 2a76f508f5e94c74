import BlockForge.Lowering.Program
import BlockForge.Proofs.Ir.Discipline
import BlockForge.Proofs.Lowering.Allocators
import BlockForge.Proofs.Lowering.State

/-!
# Lowering keeps functions discreet

Variables are the only slots: their names are bound to the slots' addresses, which only reading and assigning a
variable gets at. What expressions are lowered to are plain values of the types that the expressions have.
-/

namespace BlockForge.Lowering

open Diagnostic (Diag)
open Ir (Builder Emit Fact HostDecl Knows Module ValueId)
open Source (BinaryOp Chain Expr FunctionDef Span Stmt TypeExpr UnaryOp)
open StateM
open BlockForge.Types (CastKind LitKind Ty)

/-! ### States -/

/-- The host functions that a module may have: an allocator's own, and the hook for failed bounds checks. -/
def allowedHosts (own : Set HostDecl) : Set HostDecl :=
  {d | d ∈ own ∨ d.name = boundsErrorHook}

/-- The functions of a program are declared with their return types. -/
def Env.Declared (env : Env) (m : Module) : Prop :=
  ∀ symbol sig, env.tables.function? symbol = some sig →
    ∃ params, m.signature? (.func sig.func) = some (params, env.layout.returnIrType sig.ret)

theorem Env.Declared.grows {env : Env} {m n : Module} (h : env.Declared m) (hm : m.Grows n) : env.Declared n :=
  fun symbol sig hs => (h symbol sig hs).imp fun _ hp => hm.signature? hp

/-- The name stands for a slot of its type, or for none. -/
def Binding.HasSlot (env : Env) (f : Ir.Function) : Binding → Prop
  | .slot a t => f.HasSlot a (env.ir t)
  | .poisoned => True

/-- A state of lowering at work on a discreet function, in which names are bound to slots and loops go on in blocks
of their own. -/
structure State.Discreet (own : Set HostDecl) (env : Env) (s : State) : Prop where
  builder : s.builder.Discreet (allowedHosts own) (env.ir .usize)
  declared : env.Declared s.builder.module
  scope : ∀ frame ∈ s.scope.frames, ∀ e ∈ frame, e.2.HasSlot env s.builder.function
  loops : ∀ targets ∈ s.loops, targets.test ≠ Ir.Id.entry ∧ targets.stop ≠ Ir.Id.entry

theorem Binding.HasSlot.before {env : Env} {f g : Ir.Function} (h : f.Before g) {b : Binding} (hb : b.HasSlot env f) :
    b.HasSlot env g := by
  cases b with
  | slot a t => exact h.slots hb
  | poisoned => trivial

variable {own : Set HostDecl} {env : Env}

theorem State.Discreet.withBuilder {s : State} (h : s.Discreet own env) {b : Builder}
    (hb : b.Discreet (allowedHosts own) (env.ir .usize)) (hs : s.builder.Before b) :
    ({ s with builder := b } : State).Discreet own env where
  builder := hb
  declared := h.declared.grows hs.module
  scope frame hf e he := (h.scope frame hf e he).before hs.function
  loops := h.loops

theorem State.Discreet.lookup? {s : State} (h : s.Discreet own env) {name : String} {b : Binding}
    (hb : s.scope.lookup? name = some b) : b.HasSlot env s.builder.function := by
  obtain ⟨frame, hf, hl⟩ := List.exists_of_findSome?_eq_some hb
  exact h.scope frame hf (name, b) (mem_of_lookup hl)

theorem State.Discreet.scope_declare? {s : State} (h : s.Discreet own env) {name : String} {b : Binding}
    (hb : b.HasSlot env s.builder.function) {scope : Scope} (hd : s.scope.declare? name b = some scope) :
    ∀ frame ∈ scope.frames, ∀ e ∈ frame, e.2.HasSlot env s.builder.function := by
  have hscope := h.scope
  unfold Scope.declare? at hd
  split at hd
  · cases hd
  · rename_i frame rest hframes
    rw [hframes] at hscope
    split at hd
    · cases hd
    · cases hd
      simp only [List.mem_cons, forall_eq_or_imp] at hscope ⊢
      exact ⟨⟨hb, hscope.1⟩, hscope.2⟩

/-- The discipline of the builder, for a state around it. -/
def Env.discipline (own : Set HostDecl) (env : Env) : Discipline State Fact where
  Inv := State.Discreet own env
  Before s t := s.builder.Before t.builder
  Holds s := s.builder.Satisfies
  refl s := .refl s.builder
  trans h k := h.trans k
  holds h := h.holds

/-- Keeps functions discreet. -/
abbrev Lower.Obeys {α : Type} (own : Set HostDecl) (env : Env) (known : List Fact) (x : Lower α)
    (gives : α → List Fact) : Prop := (env.discipline own).Obeys known x gives

/-- Keeps functions discreet; only a result that is there gives facts. -/
abbrev Attempt.Obeys {α : Type} (own : Set HostDecl) (env : Env) (known : List Fact) (x : Attempt α)
    (gives : α → List Fact) : Prop := Lower.Obeys own env known x.run fun r => r.elim [] gives

/-- What is known of a lowered expression. -/
def Typed.facts (env : Env) (v : Typed) : List Fact := Fact.value v.value (env.ir v.ty)

@[simp] theorem Typed.mem_facts {env : Env} {v : Typed} {p : Fact} :
    p ∈ v.facts env ↔ p = .plain v.value ∨ p = .typed v.value (env.ir v.ty) := Fact.mem_value

/-- An operand that is lowered to a plain value of its type. -/
def Operand.Discreet (own : Set HostDecl) (env : Env) (o : Operand) : Prop :=
  ∀ expected, Attempt.Obeys own env [] (o.lower expected) (Typed.facts env)

/-- An allocator that keeps functions discreet wherever the host functions of its names are its own, and gives a plain
address. -/
def Allocator.Discreet (own : Set HostDecl) (a : Allocator) : Prop :=
  ∀ {word : Ir.Ty} {known : List Fact} {size : ValueId} (kind : AllocKind) (name : String), Fact.plain size ∈ known →
    Emit.Obeys (allowedHosts own) word known (a.allocate size kind name) fun v => Fact.value v .ptr

variable {known : List Fact} {α β : Type} {gives : α → List Fact} {more : β → List Fact}

/-! ### Parts of the state -/

namespace Lower

theorem emit_obeys {x : Emit α} (h : Emit.Obeys (allowedHosts own) (env.ir .usize) known x gives) :
    Lower.Obeys own env known (emit x) gives := by
  refine ⟨fun {s} hs hp => ?_⟩
  obtain ⟨hb, hbefore, hg⟩ := h.sat hs.builder hp
  exact ⟨hs.withBuilder hb hbefore, hbefore, hg⟩

/-- A change of the state around the builder. -/
theorem modify_obeys {f : State → State} (hb : ∀ s, (f s).builder = s.builder)
    (hs : ∀ s, s.Discreet own env → (∀ p ∈ known, s.builder.Satisfies p) → (f s).Discreet own env) :
    Lower.Obeys own env known (modify f) fun _ => [] := by
  refine .modify fun s h hp => ⟨hs s h hp, ?_⟩
  show s.builder.Before (f s).builder
  rw [hb]
  exact .refl _

theorem report_obeys (d : Diag) : Lower.Obeys own env known (report d) fun _ => [] :=
  modify_obeys (fun _ => rfl) fun _ h _ => ⟨h.builder, h.declared, h.scope, h.loops⟩

theorem push_obeys : Lower.Obeys own env known (onScope Scope.push) fun _ => [] :=
  modify_obeys (fun _ => rfl) fun _ h _ => ⟨h.builder, h.declared, List.forall_mem_cons.2 ⟨by simp, h.scope⟩, h.loops⟩

theorem pop_obeys : Lower.Obeys own env known (onScope Scope.pop) fun _ => [] :=
  modify_obeys (fun _ => rfl) fun _ h _ =>
    ⟨h.builder, h.declared, fun frame hf => h.scope frame (List.mem_of_mem_tail hf), h.loops⟩

theorem enterLoop_obeys (targets : LoopTargets) (ht : Fact.inner targets.test ∈ known)
    (hs : Fact.inner targets.stop ∈ known) :
    Lower.Obeys own env known (modify fun s => { s with loops := targets :: s.loops }) fun _ => [] :=
  modify_obeys (fun _ => rfl) fun _ h hp =>
    ⟨h.builder, h.declared, h.scope, List.forall_mem_cons.2 ⟨⟨hp _ ht, hp _ hs⟩, h.loops⟩⟩

theorem leaveLoop_obeys : Lower.Obeys own env known (modify fun s => { s with loops := s.loops.tail }) fun _ => [] :=
  modify_obeys (fun _ => rfl) fun _ h _ =>
    ⟨h.builder, h.declared, h.scope, fun targets ht => h.loops targets (List.mem_of_mem_tail ht)⟩

theorem setDeadReported_obeys (reported : Bool) :
    Lower.Obeys own env known (modify fun s => { s with deadReported := reported }) fun _ => [] :=
  modify_obeys (fun _ => rfl) fun _ h _ => ⟨h.builder, h.declared, h.scope, h.loops⟩

theorem unit_obeys : Lower.Obeys own env known unit (Typed.facts env) :=
  (emit_obeys (Emit.constInt_obeys ..)).bind fun _ => .pure fun _ hp => List.mem_append_left _ hp

theorem bind_obeys (what name : String) {b : Binding} (span : Span)
    (hb : ∀ s : State, (∀ p ∈ known, s.builder.Satisfies p) → b.HasSlot env s.builder.function) :
    Lower.Obeys own env known (bind what name b span) fun _ => [] := by
  refine ⟨fun {s} h hp => StateM.Sat.get_bind ?_⟩
  split
  · rename_i scope hd
    exact ⟨⟨h.builder, h.declared, h.scope_declare? (hb s hp) hd, h.loops⟩, .refl _, by simp⟩
  · exact (report_obeys _).sat h hp

end Lower

open Lower

namespace Attempt

theorem fail_obeys : Attempt.Obeys own env known (fail : Attempt α) gives := .pure (by simp)

/-- Going on with a result gives what was known of it if it is there. -/
theorem of_obeys (gives : α → List Fact) {r : Option α} (h : ∀ p ∈ r.elim [] gives, p ∈ known) :
    Attempt.Obeys own env known (of r) gives := .pure h

theorem pure_obeys {a : α} (h : ∀ p ∈ gives a, p ∈ known) : Attempt.Obeys own env known (pure a) gives :=
  StateM.Discipline.Obeys.pure h

theorem Obeys.bind {x : Attempt α} {f : α → Attempt β} (h : x.Obeys own env known gives)
    (k : ∀ a, (f a).Obeys own env (gives a ++ known) more) : (x >>= f).Obeys own env known more := by
  refine StateM.Discipline.Obeys.bind h fun r => ?_
  cases r with
  | none => exact .pure (by simp)
  | some a => exact k a

theorem lift_obeys {x : Lower α} (h : Lower.Obeys own env known x gives) :
    Attempt.Obeys own env known (liftM x : Attempt α) gives :=
  h.map fun _ _ hp => List.mem_append_left _ hp

theorem emit_obeys {x : Emit α} (h : Emit.Obeys (allowedHosts own) (env.ir .usize) known x gives) :
    Attempt.Obeys own env known (liftM (Lower.emit x) : Attempt α) gives :=
  lift_obeys (Lower.emit_obeys h)

/-- What is emitted for a value of a type. -/
theorem typed_obeys {x : Emit ValueId} {t : Ty}
    (h : Emit.Obeys (allowedHosts own) (env.ir .usize) known x (Fact.value · (env.ir t))) :
    (do let value ← Lower.emit x; pure ⟨value, t⟩ : Attempt Typed).Obeys own env known (Typed.facts env) :=
  (emit_obeys h).bind fun _ => pure_obeys fun _ hp => List.mem_append_left _ hp

theorem get_obeys {f : State → Attempt α} (h : ∀ s, s.Discreet own env → (∀ p ∈ known, s.builder.Satisfies p) →
    (f s).Obeys own env known gives) : (get >>= f : Attempt α).Obeys own env known gives :=
  StateM.Discipline.Obeys.get_bind h

theorem get_facts {f : State → Attempt α} (h : ∀ s, s.Discreet own env → (∀ p ∈ known, s.builder.Satisfies p) →
      ∃ facts, (∀ p ∈ facts, s.builder.Satisfies p) ∧ (f s).Obeys own env (facts ++ known) gives) :
    (get >>= f : Attempt α).Obeys own env known gives :=
  StateM.Discipline.Obeys.get_facts h

theorem reject_obeys (d : Diag) : Attempt.Obeys own env known (reject d : Attempt α) gives :=
  (lift_obeys (report_obeys d)).bind fun _ => fail_obeys

theorem ite_obeys {c : Prop} [Decidable c] {x y : Attempt α} (h : x.Obeys own env known gives)
    (k : y.Obeys own env known gives) : (if c then x else y).Obeys own env known gives := by
  split
  · exact h
  · exact k

theorem resolve_obeys (ty : TypeExpr) (span : Span) : (resolve env ty span).Obeys own env known fun _ => [] := by
  unfold resolve
  split
  · exact pure_obeys (by simp)
  · exact reject_obeys _

/-- A value that is coerced has the type that it is coerced to. -/
theorem coerce_obeys {v : Typed} (hv : Knows known v.value (env.ir v.ty)) (target : Ty) (span : Span)
    (context : String) : (coerce v target span context).Obeys own env known
      fun r => r.facts env ++ Fact.value r.value (env.ir target) := by
  unfold coerce
  split
  · rename_i h
    rw [ir_of_assignable h] at hv
    exact pure_obeys (by simpa using hv)
  · exact reject_obeys _

end Attempt

open Attempt

/-! ### Operands -/

theorem Operand.Discreet.obeys {o : Operand} (h : o.Discreet own env) (expected : Option Ty) :
    (o.lower expected).Obeys own env known (Typed.facts env) := (h expected).mono (by simp)

theorem Operand.visit_obeys {o : Operand} (h : o.Discreet own env) : Lower.Obeys own env known o.visit fun _ => [] :=
  StateM.Discipline.Obeys.bind (h.obeys none) fun _ => .pure (by simp)

theorem Operand.lowerAs_obeys {o : Operand} (h : o.Discreet own env) (target : Ty) (context : String) :
    (o.lowerAs target context).Obeys own env known fun r => r.facts env ++ Fact.value r.value (env.ir target) :=
  Attempt.Obeys.bind (h.obeys (some target)) fun _ => coerce_obeys (by simp) _ _ _

theorem visitAll_obeys {os : List Operand} (h : ∀ o ∈ os, o.Discreet own env) :
    Lower.Obeys own env known (visitAll os) fun _ => [] := by
  induction os with
  | nil => exact .pure (by simp)
  | cons o rest ih =>
    exact (Operand.visit_obeys (h o (by simp))).bind fun _ => ih fun o ho => h o (by simp [ho])

end BlockForge.Lowering
