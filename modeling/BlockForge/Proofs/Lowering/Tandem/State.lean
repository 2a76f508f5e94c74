import BlockForge.Lowering.Program
import BlockForge.Proofs.Ir.Tandem

/-!
# Two lowerings in tandem

Lowering reads of its state only what a tandem keeps the same, and of values only their types and whether they
are a certain constant. So two lowerings of one program keep every tandem that the allocator and the construction
of vectors keep.
-/

namespace BlockForge.Lowering

open Diagnostic (Diag Queue)
open Ir (BlockId Emit Known Linkable Links ValueId)
open Source (BinaryOp Chain Expr FunctionDef Span Stmt TypeExpr UnaryOp)
open StateM
open BlockForge.Types (CastKind LitKind Ty)

/-! ### Results -/

instance : Linkable Ty := .exact Ty
instance : Linkable Nat := .exact Nat

instance : Linkable Typed where
  same v w := v.ty = w.ty
  pairs v w := [(v.value, w.value)]

instance : Linkable VectorShape.Access where
  same _ _ := True
  pairs a b := [(a.size, b.size), (a.elems, b.elems), (a.slot, b.slot)]

instance : Linkable Initialised where
  same a b := a.seen = b.seen ∧ a.ok = b.ok ∧ Linkable.same a.values b.values
  pairs a b := Linkable.pairs a.values b.values

@[simp] theorem same_ty (a b : Ty) : Linkable.same a b ↔ a = b := .rfl
@[simp] theorem pairs_ty (a b : Ty) : Linkable.pairs a b = [] := rfl
@[simp] theorem same_typed (v w : Typed) : Linkable.same v w ↔ v.ty = w.ty := .rfl
@[simp] theorem pairs_typed (v w : Typed) : Linkable.pairs v w = [(v.value, w.value)] := rfl
@[simp] theorem pairs_access (a b : VectorShape.Access) :
    Linkable.pairs a b = [(a.size, b.size), (a.elems, b.elems), (a.slot, b.slot)] := rfl
@[simp] theorem same_access (a b : VectorShape.Access) : Linkable.same a b ↔ True := .rfl

/-! ### States -/

/-- The same binding of linked slots. -/
inductive Binding.Linked (L : Links) : Binding → Binding → Prop
  | slot {a a' : ValueId} (ha : (a, a') ∈ L) (ty : Ty) : Linked L (.slot a ty) (.slot a' ty)
  | poisoned : Linked L .poisoned .poisoned

/-- The same names bound to linked slots. -/
def Scope.Linked (L : Links) (s t : Scope) : Prop :=
  List.Forall₂ (List.Forall₂ fun e e' => e'.1 = e.1 ∧ e.2.Linked L e'.2) s.frames t.frames

/-- A tandem of builders, with a relation between the reports and calls of the hook for failed bounds checks. -/
structure Tandem extends Ir.Tandem where
  reports : Queue → Queue → Prop
  report {q r : Queue} : reports q r → ∀ d, reports (q.add d).2 (r.add d).2
  boundsError {known : List (ValueId × ValueId)} {i i' n n' : ValueId} : Known known i i' → Known known n n' →
    Follows Rel known (callBoundsError i n) (callBoundsError i' n')

/-- States of two lowerings at the same point. -/
structure State.Linked (T : Tandem) (L : Links) (s t : State) : Prop where
  builder : T.Rel L s.builder t.builder
  diags : T.reports s.diags t.diags
  scope : s.scope.Linked L t.scope
  loops : t.loops = s.loops
  deadReported : t.deadReported = s.deadReported
  reach : t.reach = s.reach

theorem Binding.Linked.mono {L L' : Links} (h : L ⊆ L') {b b' : Binding} (hb : b.Linked L b') : b.Linked L' b' := by
  cases hb with
  | slot ha => exact .slot (h ha) _
  | poisoned => exact .poisoned

namespace Scope.Linked

variable {L L' : Links} {s t : Scope}

theorem mono (h : L ⊆ L') (hs : s.Linked L t) : s.Linked L' t :=
  List.Forall₂.imp (fun _ _ hf => hf.imp fun _ _ ⟨hn, hb⟩ => ⟨hn, hb.mono h⟩) hs

theorem push (h : s.Linked L t) : s.push.Linked L t.push := .cons .nil h

theorem pop (h : s.Linked L t) : s.pop.Linked L t.pop := by
  obtain ⟨frames⟩ := s
  obtain ⟨frames'⟩ := t
  cases h with
  | nil => exact .nil
  | cons _ hrest => exact hrest

theorem lookup_frame {f g : List (String × Binding)}
    (h : List.Forall₂ (fun e e' => e'.1 = e.1 ∧ e.2.Linked L e'.2) f g) (name : String) :
    Option.Rel (Binding.Linked L) (f.lookup name) (g.lookup name) := by
  induction h with
  | nil => exact .none
  | @cons e e' _ _ he _ ih =>
    obtain ⟨n, b⟩ := e
    obtain ⟨n', b'⟩ := e'
    obtain ⟨hn, hb⟩ := he
    cases hn
    rw [List.lookup_cons, List.lookup_cons]
    cases name == n with
    | true => exact .some hb
    | false => exact ih

theorem lookup? (h : s.Linked L t) (name : String) :
    Option.Rel (Binding.Linked L) (s.lookup? name) (t.lookup? name) := by
  obtain ⟨frames⟩ := s
  obtain ⟨frames'⟩ := t
  simp only [Scope.lookup?]
  change List.Forall₂ _ frames frames' at h
  induction h with
  | nil => exact .none
  | @cons f g _ _ hf _ ih =>
    rw [List.findSome?_cons, List.findSome?_cons]
    have hl := lookup_frame hf name
    generalize f.lookup name = x, g.lookup name = y at hl
    cases hl with
    | none => exact ih
    | some hb => exact .some hb

theorem declare? (h : s.Linked L t) (name : String) {b b' : Binding} (hb : b.Linked L b') :
    Option.Rel (Scope.Linked L) (s.declare? name b) (t.declare? name b') := by
  obtain ⟨frames⟩ := s
  obtain ⟨frames'⟩ := t
  simp only [Scope.declare?]
  cases h with
  | nil => exact .none
  | @cons f g _ _ hf hrest =>
    have hsome : (g.lookup name).isSome = (f.lookup name).isSome := by
      have hl := lookup_frame hf name
      generalize f.lookup name = x, g.lookup name = y at hl ⊢
      cases hl <;> rfl
    dsimp only
    rw [hsome]
    split
    · exact .none
    · exact .some (.cons (.cons ⟨rfl, hb⟩ hf) hrest)

end Scope.Linked

/-- Follows from related states to related states. -/
abbrev Lower.Follows {α : Type} [Linkable α] (T : Tandem) (known : List (ValueId × ValueId)) (x y : Lower α) : Prop :=
  StateM.Follows (State.Linked T) known x y

abbrev Attempt.Follows {α : Type} [Linkable α] (T : Tandem) (known : List (ValueId × ValueId)) (x y : Attempt α) :
    Prop := Lower.Follows T known x.run y.run

/-- Two lowerings of one expression. -/
structure Operand.Follows (T : Tandem) (o o' : Operand) : Prop where
  expr : o'.expr = o.expr
  lower : ∀ expected, (o.lower expected).Follows T [] (o'.lower expected)

def Allocator.Follows (T : Tandem) (a a' : Allocator) : Prop :=
  ∀ {known : List (ValueId × ValueId)} {size size' : ValueId} (kind : AllocKind) (name : String),
    Known known size size' → T.Follows known (a.allocate size kind name) (a'.allocate size' kind name)

/-- The same operations on vectors with another allocator. -/
def VectorShape.on (v : VectorShape) (a : Allocator) : VectorShape := { v with allocator := a }

/-- Environments for one body, up to what concerns the allocation of memory. -/
structure Env.Follows (T : Tandem) (env env' : Env) : Prop where
  pointerBits : env'.config.pointerBits = env.config.pointerBits
  tables : env'.tables = env.tables
  returnType : env'.returnType = env.returnType
  functionName : env'.functionName = env.functionName
  allocator : env.allocator.Follows T env'.allocator
  new : ∀ (v : VectorShape) (bytes : Nat), v.allocator = env.allocator → v.struct = env.tables.vector →
    T.Follows [] (v.new bytes env.config.initialCapacity)
      ((v.on env'.allocator).new bytes env'.config.initialCapacity)

variable {T : Tandem} {known : List (ValueId × ValueId)} {α β : Type} [Linkable α] [Linkable β]

/-! ### Parts of the state -/

namespace Lower

theorem emit_follows {x y : Emit α} (h : T.Follows known x y) : Lower.Follows T known (emit x) (emit y) := by
  refine ⟨fun hL hst => ?_⟩
  obtain ⟨L', hsub, hb, hs, hp⟩ := h.run hL hst.builder
  exact ⟨L', hsub, ⟨hb, hst.diags, hst.scope.mono hsub, hst.loops, hst.deadReported, hst.reach⟩, hs, hp⟩

theorem report_follows (d : Diag) : Lower.Follows T known (report d) (report d) :=
  .modify fun _ h => ⟨h.builder, T.report h.diags d, h.scope, h.loops, h.deadReported, h.reach⟩

theorem push_follows : Lower.Follows T known (onScope Scope.push) (onScope Scope.push) :=
  .modify fun _ h => ⟨h.builder, h.diags, h.scope.push, h.loops, h.deadReported, h.reach⟩

theorem pop_follows : Lower.Follows T known (onScope Scope.pop) (onScope Scope.pop) :=
  .modify fun _ h => ⟨h.builder, h.diags, h.scope.pop, h.loops, h.deadReported, h.reach⟩

theorem sizeOf_eq {L : Links} {s t : State} (h : s.Linked T L t) (ty : Ir.Ty) :
    t.builder.module.sizeOf ty = s.builder.module.sizeOf ty :=
  Ir.Module.sizeOf_congr (T.structs h.builder) (T.pointerBits h.builder) ty

theorem unit_follows : Lower.Follows T known unit unit :=
  (emit_follows (T.constInt ..).weaken).bind fun _ _ _ => .pure (by simp) (by simp)

theorem setLoops_follows (f : List LoopTargets → List LoopTargets) :
    Lower.Follows T known (modify fun s => { s with loops := f s.loops })
      (modify fun s => { s with loops := f s.loops }) :=
  .modify fun _ h => ⟨h.builder, h.diags, h.scope, congrArg f h.loops, h.deadReported, h.reach⟩

theorem setDeadReported_follows (reported : Bool) :
    Lower.Follows T known (modify fun s => { s with deadReported := reported })
      (modify fun s => { s with deadReported := reported }) :=
  .modify fun _ h => ⟨h.builder, h.diags, h.scope, h.loops, rfl, h.reach⟩

theorem bind_run (what name : String) (b : Binding) (span : Span) (s : State) : bind what name b span s =
    (match s.scope.declare? name b with
      | some scope => modify fun s : State => { s with scope }
      | none => report (Problem.alreadyDefined span what name)) s := rfl

/-- A name is bound in both runs, to slots that are linked, or reported in both. -/
theorem bind_follows (what name : String) {b b' : Binding} (hb : ∀ L : Links, (∀ p ∈ known, p ∈ L) → b.Linked L b')
    (span : Span) : Lower.Follows T known (bind what name b span) (bind what name b' span) := by
  refine ⟨fun {L s t} hL h => ?_⟩
  have hd := h.scope.declare? name (hb L hL)
  rw [bind_run, bind_run]
  generalize s.scope.declare? name b = x, t.scope.declare? name b' = y at hd
  cases hd with
  | none => exact (report_follows _).run hL h
  | some hscope =>
    exact ⟨L, subset_rfl, ⟨h.builder, h.diags, hscope, h.loops, h.deadReported, h.reach⟩, rfl, by simp⟩

end Lower

open Lower

namespace Attempt

theorem fail_follows : (fail : Attempt α).Follows T known fail := .pure (by simp) (by simp)

theorem of_follows {r r' : Option α} (hs : Linkable.same r r') (hp : ∀ p ∈ Linkable.pairs r r', p ∈ known) :
    (of r).Follows T known (of r') := .pure hs hp

theorem pure_follows {a a' : α} (hs : Linkable.same a a') (hp : ∀ p ∈ Linkable.pairs a a', p ∈ known) :
    (pure a : Attempt α).Follows T known (pure a') := StateM.Follows.pure hs hp

theorem Follows.bind {x y : Attempt α} {f g : α → Attempt β} (h : x.Follows T known y)
    (k : ∀ a b, Linkable.same a b → (f a).Follows T (Linkable.pairs a b ++ known) (g b)) :
    (x >>= f).Follows T known (y >>= g) := by
  refine StateM.Follows.bind h fun r r' hr => ?_
  rcases Linkable.same_option hr with ⟨rfl, rfl⟩ | ⟨a, b, rfl, rfl, hab⟩
  · exact .pure (by simp) (by simp)
  · exact k a b hab

theorem lift_follows {x y : Lower α} (h : Lower.Follows T known x y) :
    (liftM x : Attempt α).Follows T known (liftM y) :=
  h.map (by simp) fun _ _ _ p hp => by simp_all

theorem emit_follows {x y : Emit α} (h : T.Follows known x y) :
    (liftM (Lower.emit x) : Attempt α).Follows T known (liftM (Lower.emit y)) :=
  lift_follows (Lower.emit_follows h)

theorem get_follows {f g : State → Attempt α}
    (h : ∀ {L s t}, (∀ p ∈ known, p ∈ L) → s.Linked T L t → (f s).Follows T known (g t)) :
    (get >>= f : Attempt α).Follows T known (get >>= g) := StateM.Follows.get_bind h

theorem get_links {f g : State → Attempt α}
    (h : ∀ {L s t}, (∀ p ∈ known, p ∈ L) → s.Linked T L t →
      ∃ more : List (ValueId × ValueId), (∀ p ∈ more, p ∈ L) ∧ (f s).Follows T (more ++ known) (g t)) :
    (get >>= f : Attempt α).Follows T known (get >>= g) := StateM.Follows.get_links h

theorem reject_follows (d : Diag) : (reject d : Attempt α).Follows T known (reject d) :=
  (lift_follows (report_follows d)).bind fun _ _ _ => fail_follows

theorem ite_follows {c : Prop} [Decidable c] {x y x' y' : Attempt α} (h : x.Follows T known y)
    (k : x'.Follows T known y') : (if c then x else x').Follows T known (if c then y else y') := by
  split
  · exact h
  · exact k

theorem resolve_follows {env env' : Env} (h : env.Follows T env') (ty : TypeExpr) (span : Span) :
    (resolve env ty span).Follows T known (resolve env' ty span) := by
  unfold resolve
  rw [h.tables]
  split
  · exact pure_follows (by simp) (by simp)
  · exact reject_follows _

theorem coerce_follows {v v' : Typed} (hty : v.ty = v'.ty) (hv : Known known v.value v'.value) (target : Ty)
    (span : Span) (context : String) : (coerce v target span context).Follows T known (coerce v' target span context) := by
  unfold coerce
  rw [← hty]
  exact ite_follows (pure_follows rfl (by simpa using hv)) (reject_follows _)

end Attempt

open Attempt

/-! ### Operands -/

namespace Env.Follows

variable {env env' : Env} (h : env.Follows T env')

include h

theorem layout : env'.layout = env.layout := congrArg Types.Layout.mk h.pointerBits

theorem ir : env'.ir = env.ir := by
  funext t
  rw [Env.ir, Env.ir, h.layout]

end Env.Follows

theorem Operand.visit_follows {o o' : Operand} (h : o.Follows T o') : Lower.Follows T known o.visit o'.visit :=
  (h.lower none).weaken.bind fun _ _ _ => .pure (by simp) (by simp)

theorem Operand.lowerAs_follows {o o' : Operand} (h : o.Follows T o') (target : Ty) (context : String) :
    (o.lowerAs target context).Follows T known (o'.lowerAs target context) := by
  refine Attempt.Follows.bind (h.lower (some target)).weaken fun v v' hv => ?_
  rw [Operand.span, Operand.span, h.expr]
  exact coerce_follows hv (by simp) _ _ _

theorem visitAll_follows {os os' : List Operand} (h : List.Forall₂ (Operand.Follows T) os os') :
    Lower.Follows T known (visitAll os) (visitAll os') := by
  induction h with
  | nil => exact .pure (by simp) (by simp)
  | cons ho _ ih => exact (Operand.visit_follows ho).bind fun _ _ _ => ih

end BlockForge.Lowering
