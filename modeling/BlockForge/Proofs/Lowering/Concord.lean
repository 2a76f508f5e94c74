import BlockForge.Lowering.Expr
import BlockForge.Proofs.Lowering.Confined

/-!
# Two lowerings from different states

Lowering code reads the builder, but only to name values, blocks and sizes: whether it succeeds, and with
which type, is the same in all states with one scope. `Concords` says this of two pieces of code that are
run from two states; both keep to the blocks that are theirs since two given builders.
-/

namespace BlockForge.Lowering

open Diagnostic (Diag)
open Ir (BlockId Builder Emit FuncId ValueId ValueKind)
open Ir.Emit
open StateM
open BlockForge.Types (Ty)

/-! ### Builders -/

/-- A builder with a position in a function. -/
structure Positioned (b : Builder) : Prop where
  valid : b.func.index < b.module.functions.size
  current : b.current.isSome = true

/-- Two builders with a position, whose functions return the same types. -/
structure Matched (b c : Builder) : Prop where
  left : Positioned b
  right : Positioned c
  returns : ∀ f, (b.module.function? f).elim Ir.Ty.void (·.ret) = (c.module.function? f).elim Ir.Ty.void (·.ret)

section

variable {b b' c c' : Builder}

theorem Positioned.confined (h : Positioned b) (k : Confined b b') : Positioned b' :=
  ⟨k.valid h.valid, k.isSome h.current⟩

theorem returns_confined (k : Confined b b') (f : FuncId) :
    (b'.module.function? f).elim Ir.Ty.void (·.ret) = (b.module.function? f).elim Ir.Ty.void (·.ret) := by
  have hret : ∀ o : Option Ir.Function,
      o.elim Ir.Ty.void (·.ret) = (o.map Ir.Function.head).elim Ir.Ty.void (·.2.2) := by
    rintro (_ | f) <;> rfl
  rw [hret, k.heads, ← hret]

theorem Matched.confined (h : Matched b c) (k : Confined b b') (l : Confined c c') : Matched b' c' :=
  ⟨h.left.confined k, h.right.confined l, fun f => by
    rw [returns_confined k, returns_confined l, h.returns]⟩

/-- What later code does not undo. -/
def Persistent (P : Builder → Builder → Prop) : Prop :=
  ∀ {b b' c c' : Builder}, Confined b b' → Confined c c' → P b c → P b' c'

end

/-! ### Typed values -/

/-- Values that are both in their tables, and both the constant zero or neither. -/
def ZeroAlike (v : ValueId) (b : Builder) (w : ValueId) (c : Builder) : Prop :=
  ∃ x y, b.function.value? v = some x ∧ c.function.value? w = some y ∧
    (x.kind = .constInt 0 ↔ y.kind = .constInt 0)

/-- One type; and if a division might look at the values, it sees the same. -/
structure Same (v : Typed) (b : Builder) (w : Typed) (c : Builder) : Prop where
  ty : v.ty = w.ty
  zero : v.ty.isConvertible = true → ZeroAlike v.value b w.value c

/-- Pairs of typed values, side by side. -/
def SameBoth (p : Typed × Typed) (b : Builder) (q : Typed × Typed) (c : Builder) : Prop :=
  Same p.1 b q.1 c ∧ Same p.2 b q.2 c

section

variable {v w : Typed} {b c : Builder}

theorem constIntValue?_eq_zero {v : ValueId} {x : Ir.Value} (hx : b.function.value? v = some x) :
    b.constIntValue? v = some 0 ↔ x.kind = .constInt 0 := by
  obtain ⟨ty, kind, name⟩ := x
  rw [Builder.constIntValue?, hx]
  cases kind <;> simp

theorem ZeroAlike.iff {v w : ValueId} (h : ZeroAlike v b w c) :
    b.constIntValue? v = some 0 ↔ c.constIntValue? w = some 0 := by
  obtain ⟨x, y, hx, hy, hxy⟩ := h
  rw [constIntValue?_eq_zero hx, constIntValue?_eq_zero hy, hxy]

theorem same_persistent (v w : Typed) : Persistent fun b c => Same v b w c := by
  rintro b b' c c' k l ⟨ht, hz⟩
  refine ⟨ht, fun hc => ?_⟩
  obtain ⟨x, y, hx, hy, hxy⟩ := hz hc
  exact ⟨x, y, k.values hx, l.values hy, hxy⟩

/-- Code whose results are of kinds that agree on being zero. -/
theorem zeroAlike_of_kinds {K : ValueKind → Prop} (hK : ∀ k l, K k → K l → (k = .constInt 0 ↔ l = .constInt 0))
    {x y : Emit ValueId} (hx : OfKind K x) (hy : OfKind K y) (h : Matched b c) :
    ZeroAlike (x b).1 (x b).2 (y c).1 (y c).2 := by
  obtain ⟨p, hp, hpk⟩ := hx.sat b h.left.valid
  obtain ⟨q, hq, hqk⟩ := hy.sat c h.right.valid
  exact ⟨p, q, hp, hq, hK _ _ hpk hqk⟩

theorem zeroAlike_of_results {x y : Emit ValueId} (hx : OfKind IsResult x) (hy : OfKind IsResult y)
    (h : Matched b c) : ZeroAlike (x b).1 (x b).2 (y c).1 (y c).2 := by
  refine zeroAlike_of_kinds ?_ hx hy h
  rintro _ _ ⟨i, rfl⟩ ⟨j, rfl⟩
  simp

/-- A constant that depends on nothing but the source. -/
theorem zeroAlike_pushValue (h : Matched b c) (ty : Ir.Ty) (kind : ValueKind) (name : String) :
    ZeroAlike (pushValue ty kind name b).1 (pushValue ty kind name b).2 (pushValue ty kind name c).1
      (pushValue ty kind name c).2 := by
  have hkind : OfKind (· = kind) (pushValue ty kind name) :=
    pushValue_ofKind (K := (· = kind)) rfl ty name
  refine zeroAlike_of_kinds ?_ hkind hkind h
  rintro _ _ rfl rfl
  rfl

end

/-! ### States -/

/-- Two states of lowering in one scope, with the builders from which they are judged. -/
structure Aligned (scope : Scope) (b₀ c₀ : Builder) (s t : State) : Prop where
  matched : Matched b₀ c₀
  leftScope : s.scope = scope
  rightScope : t.scope = scope
  left : Confined b₀ s.builder
  right : Confined c₀ t.builder

theorem Aligned.self {s : State} (h : Positioned s.builder) : Aligned s.scope s.builder s.builder s s :=
  ⟨⟨h, h, fun _ => rfl⟩, rfl, rfl, .refl _, .refl _⟩

theorem Aligned.now {scope : Scope} {b₀ c₀ : Builder} {s t : State} (h : Aligned scope b₀ c₀ s t) :
    Matched s.builder t.builder := h.matched.confined h.left h.right

theorem Aligned.rebase {scope : Scope} {b₀ c₀ : Builder} {s t : State} (h : Aligned scope b₀ c₀ s t) :
    Aligned scope s.builder t.builder s t := ⟨h.now, h.leftScope, h.rightScope, .refl _, .refl _⟩

namespace Lower

/-- From aligned states with `P`, both pieces of code lead to aligned states, with results for which `V`
holds. -/
structure Concords {α β : Type} (scope : Scope) (b₀ c₀ : Builder) (P : Builder → Builder → Prop)
    (V : α → Builder → β → Builder → Prop) (x : Lower α) (y : Lower β) : Prop where
  run : ∀ {s t : State}, Aligned scope b₀ c₀ s t → P s.builder t.builder →
    Aligned scope b₀ c₀ (x s).2 (y t).2 ∧ V (x s).1 (x s).2.builder (y t).1 (y t).2.builder

namespace Concords

variable {α β γ δ : Type} {scope : Scope} {b₀ c₀ : Builder} {P Q : Builder → Builder → Prop}
  {V : α → Builder → β → Builder → Prop} {W : γ → Builder → δ → Builder → Prop}

theorem imp {V' : α → Builder → β → Builder → Prop} {x : Lower α} {y : Lower β}
    (h : Concords scope b₀ c₀ P V x y) (hp : ∀ b c, Q b c → P b c)
    (hv : ∀ a b d c, V a b d c → V' a b d c) : Concords scope b₀ c₀ Q V' x y :=
  ⟨fun hst hq => (h.run hst (hp _ _ hq)).imp id (hv _ _ _ _)⟩

theorem bind {x : Lower α} {y : Lower β} {f : α → Lower γ} {g : β → Lower δ}
    (h : Concords scope b₀ c₀ P V x y) (k : ∀ a d, Concords scope b₀ c₀ (V a · d ·) W (f a) (g d)) :
    Concords scope b₀ c₀ P W (x >>= f) (y >>= g) := by
  refine ⟨fun {s t} hst hp => ?_⟩
  obtain ⟨hst', hv⟩ := h.run hst hp
  exact (k _ _).run hst' hv

theorem pure {a : α} {d : β} (h : ∀ b c, P b c → V a b d c) :
    Concords scope b₀ c₀ P V (Pure.pure a) (Pure.pure d) := ⟨fun hst hp => ⟨hst, h _ _ hp⟩⟩

theorem map {x : Lower α} {y : Lower β} {f : α → γ} {g : β → δ}
    (h : Concords scope b₀ c₀ P (fun a b d c => W (f a) b (g d) c) x y) :
    Concords scope b₀ c₀ P W (f <$> x) (g <$> y) := ⟨fun hst hp => h.run hst hp⟩

/-- A fact about the builders that does not depend on them. -/
theorem of_pre {x : Lower α} {y : Lower β} {p : Prop} (hp : ∀ b c, P b c → p)
    (h : p → Concords scope b₀ c₀ P V x y) : Concords scope b₀ c₀ P V x y :=
  ⟨fun hst hP => (h (hp _ _ hP)).run hst hP⟩

theorem get_bind {f : State → Lower γ} {g : State → Lower δ}
    (h : ∀ s t, Aligned scope b₀ c₀ s t → P s.builder t.builder → Concords scope b₀ c₀ P W (f s) (g t)) :
    Concords scope b₀ c₀ P W (get >>= f) (get >>= g) :=
  ⟨fun hst hp => (h _ _ hst hp).run hst hp⟩

/-- Code that need not be confined, as long as it keeps to new blocks. -/
theorem emit_after {x : Emit α} {y : Emit β} {A : α → Prop} {B : β → Prop}
    (hx : ∀ b, Confined b₀ b → x.Sat b fun a b' => Confined b₀ b' ∧ A a)
    (hy : ∀ c, Confined c₀ c → y.Sat c fun d c' => Confined c₀ c' ∧ B d) :
    Concords scope b₀ c₀ P (fun a _ d _ => A a ∧ B d) (emit x) (emit y) := by
  refine ⟨fun {s t} hst _ => ?_⟩
  obtain ⟨hl, ha⟩ := hx _ hst.left
  obtain ⟨hr, hb⟩ := hy _ hst.right
  exact ⟨⟨hst.matched, hst.leftScope, hst.rightScope, hl, hr⟩, ha, hb⟩

theorem emit {x : Emit α} {y : Emit β} (hx : IsConfined x) (hy : IsConfined y)
    (hv : ∀ b c, Matched b c → P b c → V (x b).1 (x b).2 (y c).1 (y c).2) :
    Concords scope b₀ c₀ P V (emit x) (emit y) :=
  ⟨fun hst hp => ⟨⟨hst.matched, hst.leftScope, hst.rightScope, hx.after hst.left, hy.after hst.right⟩,
    hv _ _ hst.now hp⟩⟩

theorem report (d e : Diag) : Concords scope b₀ c₀ P (fun _ b _ c => P b c) (report d) (report e) :=
  ⟨fun hst hp => ⟨⟨hst.matched, hst.leftScope, hst.rightScope, hst.left, hst.right⟩, hp⟩⟩

/-- What holds before and persists holds afterwards. -/
theorem frame {x : Lower α} {y : Lower β} (h : ∀ b₀ c₀, Concords scope b₀ c₀ P V x y) (hQ : Persistent Q) :
    Concords scope b₀ c₀ (fun b c => P b c ∧ Q b c) (fun a b d c => V a b d c ∧ Q b c) x y := by
  refine ⟨fun {s t} hst hp => ?_⟩
  obtain ⟨hst', hv⟩ := (h _ _).run hst.rebase hp.1
  refine ⟨⟨hst.matched, hst'.leftScope, hst'.rightScope, hst.left.trans hst'.left, hst.right.trans hst'.right⟩,
    hv, hQ hst'.left hst'.right hp.2⟩

/-- Code that concords with itself is confined, and leaves the scope. -/
theorem keeps {x : Lower α} {V : α → Builder → α → Builder → Prop}
    (h : ∀ b₀ c₀, Concords scope b₀ c₀ (fun _ _ => True) V x x) {s : State} (hs : s.scope = scope)
    (hp : Positioned s.builder) : Confined s.builder (x s).2.builder ∧ (x s).2.scope = scope := by
  subst hs
  obtain ⟨hst, -⟩ := (h _ _).run (.self hp) trivial
  exact ⟨hst.left, hst.leftScope⟩

end Concords

end Lower

/-! ### Attempts -/

/-- Both succeed, with results for which `V` holds, or both fail. -/
def Accord {α β : Type} (V : α → Builder → β → Builder → Prop) : Option α → Builder → Option β → Builder → Prop
  | some a, b, some d, c => V a b d c
  | none, _, none, _ => True
  | _, _, _, _ => False

theorem accord_persistent (x y : Option Typed) : Persistent fun b c => Accord Same x b y c := by
  rcases x with _ | v <;> rcases y with _ | w <;> intro b b' c c' k l h
  · exact h
  · exact h
  · exact h
  · exact same_persistent v w k l h

namespace Attempt

/-- Two attempts that succeed alike. -/
structure Concords {α β : Type} (scope : Scope) (b₀ c₀ : Builder) (P : Builder → Builder → Prop)
    (V : α → Builder → β → Builder → Prop) (x : Attempt α) (y : Attempt β) : Prop where
  run : Lower.Concords scope b₀ c₀ P (Accord V) x.run y.run

namespace Concords

variable {α β γ δ : Type} {scope : Scope} {b₀ c₀ : Builder} {P Q : Builder → Builder → Prop}
  {V : α → Builder → β → Builder → Prop} {W : γ → Builder → δ → Builder → Prop}

theorem imp {V' : α → Builder → β → Builder → Prop} {x : Attempt α} {y : Attempt β}
    (h : Concords scope b₀ c₀ P V x y) (hp : ∀ b c, Q b c → P b c)
    (hv : ∀ a b d c, V a b d c → V' a b d c) : Concords scope b₀ c₀ Q V' x y := by
  refine ⟨h.run.imp hp ?_⟩
  rintro (_ | a) b (_ | d) c hr
  · trivial
  · exact hr
  · exact hr
  · exact hv _ _ _ _ hr

theorem fail : Concords scope b₀ c₀ P V fail fail := ⟨.pure fun _ _ _ => trivial⟩

theorem pure {a : α} {d : β} (h : ∀ b c, P b c → V a b d c) :
    Concords scope b₀ c₀ P V (Pure.pure a) (Pure.pure d) := ⟨.pure h⟩

theorem of {r : Option α} {q : Option β} (h : ∀ b c, P b c → Accord V r b q c) :
    Concords scope b₀ c₀ P V (of r) (of q) := ⟨.pure h⟩

theorem of_pre {x : Attempt α} {y : Attempt β} {p : Prop} (hp : ∀ b c, P b c → p)
    (h : p → Concords scope b₀ c₀ P V x y) : Concords scope b₀ c₀ P V x y :=
  ⟨.of_pre hp fun hq => (h hq).run⟩

theorem bind {x : Attempt α} {y : Attempt β} {f : α → Attempt γ} {g : β → Attempt δ}
    (h : Concords scope b₀ c₀ P V x y) (k : ∀ a d, Concords scope b₀ c₀ (V a · d ·) W (f a) (g d)) :
    Concords scope b₀ c₀ P W (x >>= f) (y >>= g) := by
  refine ⟨.bind h.run ?_⟩
  rintro (_ | a) (_ | d)
  · exact .pure fun _ _ _ => trivial
  · exact ⟨fun _ hv => absurd hv id⟩
  · exact ⟨fun _ hv => absurd hv id⟩
  · exact (k a d).run

theorem lift {x : Lower α} {y : Lower β} (h : Lower.Concords scope b₀ c₀ P V x y) :
    Concords scope b₀ c₀ P V (liftM x : Attempt α) (liftM y : Attempt β) :=
  ⟨.map (h.imp (fun _ _ => id) fun _ _ _ _ => id)⟩

/-- Goes on after something that cannot fail. -/
theorem lift_bind {x : Lower α} {y : Lower β} {f : α → Attempt γ} {g : β → Attempt δ}
    (h : Lower.Concords scope b₀ c₀ P V x y) (k : ∀ a d, Concords scope b₀ c₀ (V a · d ·) W (f a) (g d)) :
    Concords scope b₀ c₀ P W (liftM x >>= f) (liftM y >>= g) := (lift h).bind k

theorem get_bind {f : State → Attempt γ} {g : State → Attempt δ}
    (h : ∀ s t, Aligned scope b₀ c₀ s t → P s.builder t.builder → Concords scope b₀ c₀ P W (f s) (g t)) :
    Concords scope b₀ c₀ P W (get >>= f) (get >>= g) :=
  ⟨.get_bind fun s t hst hp => (h s t hst hp).run⟩

theorem reject (d e : Diag) : Concords scope b₀ c₀ P V (reject d) (reject e) :=
  lift_bind (.report d e) fun _ _ => .fail

theorem frame {x : Attempt α} {y : Attempt β} (h : ∀ b₀ c₀, Concords scope b₀ c₀ P V x y) (hQ : Persistent Q) :
    Concords scope b₀ c₀ (fun b c => P b c ∧ Q b c) (fun a b d c => V a b d c ∧ Q b c) x y := by
  refine ⟨(Lower.Concords.frame (fun b₀ c₀ => (h b₀ c₀).run) hQ).imp (fun _ _ => id) ?_⟩
  rintro (_ | a) b (_ | d) c hr
  · trivial
  · exact hr.1
  · exact hr.1
  · exact hr

end Concords

end Attempt

end BlockForge.Lowering
