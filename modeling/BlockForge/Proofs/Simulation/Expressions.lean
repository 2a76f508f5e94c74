import BlockForge.Proofs.Simulation.Records
import BlockForge.Proofs.Simulation.ShortCircuit

/-!
# Expressions

Running the code of an expression does what the expression means: the operations on vectors with their arguments, and
then all expressions, by induction on the rules by which they are lowered.
-/

namespace BlockForge.Simulation

open Ir (Builder Emit ValueId)
open Ir.Emit (Onward)
open Lowering (Env Lowers LowersArgs LowersBoth LowersIndex LowersInits LowersVector RecordInfo Scope Typed VectorOp
  VectorShape)
open Machine (At State Toward)
open Reference (Caller Datum Eval Heap Locals Sem Value keptAs)
open Source (BinaryOp Expr)
open StateM
open BlockForge.Types (Ty)

/-! ### Values that are kept -/

/-- What was lowered from `b` to `b'` gives a value of a type, and running it does what the expression means, up to
what is lost when the value is kept. -/
structure FollowsKept (env : Env) (scope : Scope) (t : Ty) (b : Builder) (a : ValueId) (b' : Builder)
    (mean : Caller → String → Locals → Sem Value) : Prop where
  onward : Onward b b'
  has : b'.function.Has a (env.ir t)
  runs : ∀ {S : Scene} {ρ : Locals} {g : Ground} {H : Heap} {M : State}, S.Open → S.env = env → Toward b b' S.world →
    At S.world.func b M → Stands S scope ρ g H M →
    Leads S scope ρ b M g b' (mean S.call S.world.func.name ρ H) fun y g' M' =>
      ∃ x, y = keptAs t x ∧ Denotes S b' M' g' a ⟨x, t⟩

section

variable {env : Env} {scope : Scope} {elem t : Ty} {b b₁ b₂ b₃ b' : Builder} {v : Typed} {desc a i x : ValueId}

theorem Follows.kept {f : Caller → String → Locals → Eval}
    (h : Follows env scope b v b' fun call func ρ => f call func ρ (some t))
    (ha : Types.assignable v.ty t = true) :
    FollowsKept env scope t b v.value b' fun call func ρ => Reference.evalKept (f call func ρ) t where
  onward := h.onward
  has := (show env.ir v.ty = env.ir t from Lowering.ir_of_assignable ha) ▸ h.has
  runs hS he ht hM hst := by
    refine (h.runs hS he ht hM hst).bind fun {d H₁ g₁ M₁} a₁ hd => ?_
    obtain ⟨u, tu⟩ := d
    obtain ⟨rfl, hu⟩ := hd
    exact Leads.pure (.refl a₁.moved.toAt a₁.stands) ⟨u, rfl, hu.coerce ha⟩

/-! ### Operations with their arguments -/

/-- An operation without arguments that gives a value. -/
theorem FollowsVector.of_operates {f : Value → Sem Value} (o : Onward b b' ∧ b'.function.Has a (env.ir t))
    (h : Operates env elem desc b b' (fun _ _ _ => True) f fun S y g M => Denotes S b' M g a ⟨y, t⟩) :
    FollowsVector env scope elem desc b ⟨a, t⟩ b' fun _ _ _ u => do return ⟨← f u, t⟩ where
  onward := o.1
  has := o.2
  runs hS he ht hM hst hdesc := (h hS he ht hM hst hdesc trivial).bind fun a₁ hv =>
    Leads.pure (.refl a₁.moved.toAt a₁.stands) ⟨rfl, hv⟩

/-- An operation at an index that gives a value. -/
theorem FollowsVector.at_index {f : Value → Nat → Sem Value} {index : Caller → String → Locals → Sem Nat}
    (hi : FollowsIndex env scope b i b₁ index) (o : Onward b₁ b' ∧ b'.function.Has a (env.ir t))
    (h : ∀ n, Operates env elem desc b₁ b' (IndexAt b₁ i n) (f · n) fun S y g M => Denotes S b' M g a ⟨y, t⟩) :
    FollowsVector env scope elem desc b ⟨a, t⟩ b' fun call func ρ u => do
      return ⟨← f u (← index call func ρ), t⟩ where
  onward := hi.onward.trans o.1
  has := o.2
  runs hS he ht hM hst hdesc := by
    refine (hi.runs hS he (ht.before o.1.ext) hM hst).bind fun {n H₁ g₁ M₁} a₁ hn => ?_
    refine (h n hS he (ht.since hi.onward.ext.toLater) a₁.moved.toAt a₁.stands (hdesc.mono a₁.moved a₁.grows) hn).bind
      fun a₂ hv => ?_
    exact Leads.pure (.refl a₂.moved.toAt a₂.stands) ⟨rfl, hv⟩

/-- An operation with an index and an element, and what comes after it. -/
theorem put_leads {f : Value → Nat → Value → Sem Unit} {index : Caller → String → Locals → Sem Nat}
    {value : Caller → String → Locals → Sem Value} (hi : FollowsIndex env scope b i b₁ index)
    (hx : FollowsKept env scope elem b₁ x b₂ value) (o : Onward b₂ b₃)
    (h : ∀ n y, Operates env elem desc b₂ b₃ (fun S M g => IndexAt b₂ i n S M g ∧ Denotes S b₂ M g x ⟨y, elem⟩)
      (f · n (keptAs elem y)) fun _ _ _ _ => True)
    {S : Scene} {ρ : Locals} {g : Ground} {H : Heap} {M : State} {u : Value} (hS : S.Open) (he : S.env = env)
    (ht : Toward b b₃ S.world) (hM : At S.world.func b M) (hst : Stands S scope ρ g H M)
    (hdesc : Denotes S b M g desc ⟨u, .vector elem⟩) {α : Type} {next : Sem α} {R : α → Ground → State → Prop}
    (k : ∀ {g₃ H₃ M₃}, Arrives S scope ρ b M g b₃ H₃ g₃ M₃ → Leads S scope ρ b₃ M₃ g₃ b' (next H₃) R) :
    Leads S scope ρ b M g b' ((do
      let n ← index S.call S.world.func.name ρ
      let y ← value S.call S.world.func.name ρ
      f u n y
      next) H) R := by
  refine (hi.runs hS he (ht.before (hx.onward.trans o).ext) hM hst).bind fun {n H₁ g₁ M₁} a₁ hn => ?_
  have ht₁ := ht.since hi.onward.ext.toLater
  refine (hx.runs hS he (ht₁.before o.ext) a₁.moved.toAt a₁.stands).bind fun {y H₂ g₂ M₂} a₂ hy => ?_
  obtain ⟨z, rfl, hz⟩ := hy
  have a₁₂ := a₁.trans a₂
  refine (h n z hS he (ht₁.since hx.onward.ext.toLater) a₂.moved.toAt a₂.stands (hdesc.mono a₁₂.moved a₁₂.grows)
    ⟨⟨hn.1, a₂.moved.holds hn.2⟩, hz⟩).bind fun {_ H₃ g₃ M₃} a₃ _ => ?_
  exact k (a₁₂.trans a₃)

/-- An operation without a value gives `()`. -/
theorem unit_leads (hu : Emit.constInt .i8 0 b₃ = (a, b')) (hb : b₃.Live) {S : Scene} {ρ : Locals} {g : Ground} {H : Heap}
    {M : State} (hS : S.Open) (ht : Toward b₃ b' S.world) (hM : At S.world.func b₃ M) (hst : Stands S scope ρ g H M) :
    Leads S scope ρ b₃ M g b' ((pure ⟨.unit, .unit⟩ : Sem Datum) H) fun d g' M' =>
      d.type = .unit ∧ Denotes S b' M' g' a d := by
  obtain ⟨-, hr⟩ := (constInt_reaches hb (show Ir.Ty.intBits? .i8 = some 8 from rfl) 0).of_eq hu
  exact (Leads.of_reaches hS.toReady hst (hr ht.toPart hM)).value fun _ hv => ⟨rfl, .of_holds hv ⟨rfl, _, rfl⟩⟩

/-- An operation with an index and an element. -/
theorem FollowsVector.put {f : Value → Nat → Value → Sem Unit} {index : Caller → String → Locals → Sem Nat}
    {value : Caller → String → Locals → Sem Value} (hi : FollowsIndex env scope b i b₁ index)
    (hx : FollowsKept env scope elem b₁ x b₂ value) (o : Onward b₂ b₃)
    (h : ∀ n y, Operates env elem desc b₂ b₃ (fun S M g => IndexAt b₂ i n S M g ∧ Denotes S b₂ M g x ⟨y, elem⟩)
      (f · n (keptAs elem y)) fun _ _ _ _ => True) (hu : Emit.constInt .i8 0 b₃ = (a, b')) :
    FollowsVector env scope elem desc b ⟨a, .unit⟩ b' (fun call func ρ u => do
      let n ← index call func ρ
      let y ← value call func ρ
      f u n y
      pure ⟨.unit, .unit⟩) := by
  obtain ⟨o', hv⟩ := (Ir.Emit.constInt_onward o.live rfl 0).of_eq hu
  have o₃ := (hi.onward.trans hx.onward).trans o
  exact ⟨o₃.trans o', hv, fun hS he ht hM hst hdesc => put_leads hi hx o h hS he (ht.before o'.ext) hM hst hdesc fun a₃ =>
    unit_leads hu o.live hS (ht.since o₃.ext.toLater) a₃.moved.toAt a₃.stands⟩

/-- An operation with an element. -/
theorem FollowsVector.add {f : Value → Value → Sem Unit} {value : Caller → String → Locals → Sem Value}
    (hx : FollowsKept env scope elem b x b₂ value) (o : Onward b₂ b₃)
    (h : ∀ y, Operates env elem desc b₂ b₃ (fun S M g => Denotes S b₂ M g x ⟨y, elem⟩) (f · (keptAs elem y))
      fun _ _ _ _ => True) (hu : Emit.constInt .i8 0 b₃ = (a, b')) :
    FollowsVector env scope elem desc b ⟨a, .unit⟩ b' (fun call func ρ u => do
      let y ← value call func ρ
      f u y
      pure ⟨.unit, .unit⟩) := by
  obtain ⟨o', hv⟩ := (Ir.Emit.constInt_onward o.live rfl 0).of_eq hu
  refine ⟨(hx.onward.trans o).trans o', hv, fun {S ρ g H M u} hS he ht hM hst hdesc => ?_⟩
  refine (hx.runs hS he (ht.before (o.trans o').ext) hM hst).bind fun {y H₂ g₂ M₂} a₂ hy => ?_
  obtain ⟨z, rfl, hz⟩ := hy
  have ht₂ := ht.since hx.onward.ext.toLater
  refine (h z hS he (ht₂.before o'.ext) a₂.moved.toAt a₂.stands (hdesc.mono a₂.moved a₂.grows) hz).bind
    fun {_ H₃ g₃ M₃} a₃ _ => ?_
  exact unit_leads hu o.live hS (ht₂.since o.ext.toLater) a₃.moved.toAt a₃.stands

end

/-! ### All expressions -/

section

variable {env : Env} {scope : Scope} {call : Caller} {func : String} {ρ : Locals}

theorem literalKind_binary {s : Source.Span} {op : BinaryOp} (h : op.isComparison = true ∨ op.isLogical = true)
    (l r : Expr) : Lowering.literalKind (.binary s op l r) = none := by
  cases op <;> simp_all [Lowering.literalKind, BinaryOp.isComparison, BinaryOp.isLogical, BinaryOp.isArithmetic,
    BinaryOp.isBitwise]

/-- An operator that needs both operands and gives what it computes of them. -/
theorem follows_binary {b b' : Builder} {v : Typed} {s : Source.Span} {op : BinaryOp} {l r : Expr} {expected : Option Ty}
    (hn : Lowering.literalKind (.binary s op l r) = none) (hop : op.isLogical = false)
    (h : Follows env scope b v b' fun call func ρ =>
      Reference.evalBoth l r (Reference.eval env call func ρ l) (Reference.eval env call func ρ r) >>= fun p =>
        Reference.applyBinary env.layout func op p.1 p.2) :
    Follows env scope b v b' fun call func ρ => Reference.eval env call func ρ (.binary s op l r) expected := by
  simp only [Reference.eval, hn]
  exact h.binary hop

end

section

variable {env : Env} {scope : Scope}

theorem eq_vector_of_element? {t elem : Ty} (h : t.element? = some elem) : t = .vector elem := by
  cases t <;> cases h
  rfl

/-- An operation on the value of an expression. -/
theorem Follows.vector {b b₁ b' : Builder} {recv v : Typed} {elem : Ty} {mean : Caller → String → Locals → Sem Datum}
    (h : Follows env scope b recv b₁ mean) (ht : recv.ty = .vector elem)
    {op : Caller → String → Locals → Value → Sem Datum} (k : FollowsVector env scope elem recv.value b₁ v b' op)
    {next : Caller → String → Locals → Datum → Sem Datum}
    (hnext : ∀ call func ρ u, next call func ρ ⟨u, .vector elem⟩ = op call func ρ u) :
    Follows env scope b v b' fun call func ρ => mean call func ρ >>= next call func ρ where
  onward := h.onward.trans k.onward
  has := k.has
  runs {S ρ g H M} hS he htoward hM hst := by
    refine (h.runs hS he (htoward.before k.onward.ext) hM hst).bind fun {d H₁ g₁ M₁} a₁ hd => ?_
    obtain ⟨u, tu⟩ := d
    obtain ⟨rfl, hu⟩ := hd
    rw [ht] at hu ⊢
    rw [hnext]
    exact k.runs hS he (htoward.since h.onward.ext.toLater) a₁.moved.toAt a₁.stands hu

theorem isLogical_of_class {op : BinaryOp}
    (h : op.isArithmetic = true ∨ op.isComparison = true ∨ op.isShift = true ∨ op.isBitwise = true) :
    op.isLogical = false := by
  revert h
  cases op <;> decide

theorem isComparison_of_isOrdering {op : BinaryOp} (h : op.isOrdering = true) : op.isComparison = true := by
  revert h
  cases op <;> decide

/-- Wherever an expression is lowered, running its code does what the expression means. -/
def Simulated (env : Env) (scope : Scope) (e : Expr) : Prop :=
  ∀ {expected : Option Ty} {b b' : Builder} {v : Typed}, Lowers env scope e expected b v b' → Placed env scope b →
    Follows env scope b v b' fun call func ρ => Reference.eval env call func ρ e expected

theorem follows_both {l r : Expr} (hleft : Simulated env scope l) (hright : Simulated env scope r) {b b' : Builder}
    {x y : Typed} (h : LowersBoth env scope l r b x y b') (hb : Placed env scope b) :
    FollowsBoth env scope b x y b' fun call func ρ =>
      Reference.evalBoth l r (Reference.eval env call func ρ l) (Reference.eval env call func ρ r) := by
  cases h with
  | literals hl hr hk hx hy =>
    have hfollows := hleft hx hb
    simp only [Reference.evalBoth, hl, hr, hk]
    exact hfollows.pair (F := fun _ => _) (hright hy (hb.onward hfollows.onward))
  | left hl hr hy hx =>
    have hfollows := hright hy hb
    simp only [Reference.evalBoth, hl, hr]
    have hboth := (hfollows.pair (F := fun t call func ρ => Reference.eval env call func ρ l (some t))
      (hleft hx (hb.onward hfollows.onward))).swap
    simpa only [Sem.bind_assoc, Sem.pure_bind] using hboth
  | right hl hr hx hy =>
    have hfollows := hleft hx hb
    simp only [Reference.evalBoth, hl, hr]
    exact hfollows.pair (F := fun t call func ρ => Reference.eval env call func ρ r (some t))
      (hright hy (hb.onward hfollows.onward))
  | neither hl hr hx hy =>
    have hfollows := hleft hx hb
    simp only [Reference.evalBoth, hl, hr]
    exact hfollows.pair (F := fun _ => _) (hright hy (hb.onward hfollows.onward))

theorem follows_args {args : List Expr} {ts : List Ty} (hn : args.length = ts.length)
    (hargs : ∀ e ∈ args, Simulated env scope e) {b b' : Builder} {vs : List ValueId}
    (h : LowersArgs env scope (args.zip ts) b vs b') (hb : Placed env scope b) :
    FollowsAll env scope b ts vs b' fun call func ρ =>
      Reference.evalArgs ((Reference.evalAll env call func ρ args).zip ts) := by
  induction args generalizing ts b vs with
  | nil =>
    obtain rfl : ts = [] := List.length_eq_zero_iff.1 hn.symm
    cases h
    exact .nil hb.live
  | cons e args ih =>
    obtain ⟨t, ts, rfl⟩ := List.exists_cons_of_length_eq_add_one hn.symm
    cases h with
    | cons he ht hrest =>
      have hfollows := hargs e (List.mem_cons_self ..) he hb
      exact .cons hfollows ht (ih (Nat.succ.inj hn) (fun e he => hargs e (List.mem_cons_of_mem _ he)) hrest
        (hb.onward hfollows.onward))

theorem follows_inits {info : RecordInfo} {inits : List (String × Expr)}
    (hinits : ∀ i ∈ inits, Simulated env scope i.2) {values values' : List (Nat × ValueId)} {b b' : Builder}
    (h : LowersInits env scope info values inits b values' b') (hb : Placed env scope b) :
    FollowsInits env scope info values b values' b' fun call func ρ =>
      Reference.evalInits info (Reference.evalFields env call func ρ inits) := by
  induction inits generalizing values b with
  | nil =>
    cases h
    exact .nil hb.live
  | cons i inits ih =>
    cases h with
    | cons hf hnew he ht hrest =>
      have hfollows := hinits _ (List.mem_cons_self ..) he hb
      exact .cons hf hnew hfollows ht (ih (fun i hi => hinits i (List.mem_cons_of_mem _ hi)) hrest
        (hb.onward hfollows.onward))

variable (hl : env.config.pointerBits = 64)

include hl

theorem follows_position {e : Expr} (he : Simulated env scope e) {b b' : Builder} {a : ValueId}
    (h : LowersIndex env scope e b a b') (hb : Placed env scope b) :
    FollowsIndex env scope b a b' fun call func ρ => Reference.evalIndex (Reference.eval env call func ρ e) := by
  cases h with
  | intro h ht ha => exact follows_index hl (ptrInt_eq (hb.fits.pointerBits.trans hl)) (he h hb) ht ha

/-- A method of a vector. -/
theorem follows_vector {shape : VectorShape} {elem : Ty} {desc : ValueId} {op : VectorOp} {args : List Expr}
    (hargs : ∀ e ∈ args, Simulated env scope e) {b b' : Builder} {v : Typed}
    (h : LowersVector env scope shape elem desc op args b v b') (hv : Shaped env elem shape)
    (hd : b.function.Has desc .ptr) (hb : Placed env scope b) :
    FollowsVector env scope elem desc b v b' fun call func ρ u =>
      Reference.evalVectorOp env.layout elem u op (Reference.evalAll env call func ρ args) := by
  have hfits : ∀ {b₁ : Builder}, Placed env scope b₁ → shape.Fits b₁ .i64 := fun hb₁ => hv.fits hl hb₁.fits
  cases h with
  | size ha =>
    obtain ⟨o, hop⟩ := (loadSize_operates hb.live hv (hfits hb) hl hd).of_eq ha
    exact .of_operates o hop
  | capacity ha =>
    obtain ⟨o, hop⟩ := (loadCapacity_operates hb.live hv (hfits hb) hl hd).of_eq ha
    exact .of_operates o hop
  | get hi ha =>
    have hindex := follows_position hl (hargs _ (by simp)) hi hb
    have hb₁ := hb.onward hindex.onward
    obtain ⟨o, hop⟩ := (getAt_operates hb₁.live hv (hfits hb₁) (hindex.onward.has hd) hindex.has).of_eq ha
    exact .at_index (f := Reference.getAt) hindex o hop
  | @set _ _ _ i e _ _ _ _ _ _ _ _ hi he ht hs ha =>
    have hindex := follows_position hl (hargs i (by simp)) hi hb
    have hb₁ := hb.onward hindex.onward
    have hkept := (hargs e (by simp) he hb₁).kept (f := fun call func ρ => Reference.eval env call func ρ e) ht
    have hb₂ := hb₁.onward hkept.onward
    have o₂ := hindex.onward.trans hkept.onward
    obtain ⟨o, hop⟩ := (setAt_operates hb₂.live hv (hfits hb₂) (o₂.has hd) (hkept.onward.has hindex.has) hkept.has).of_eq hs
    exact .put (f := Reference.setAt) hindex hkept o hop ha
  | @add _ _ _ e _ _ _ _ _ _ he ht hs ha =>
    have hkept := (hargs e (by simp) he hb).kept (f := fun call func ρ => Reference.eval env call func ρ e) ht
    have hb₂ := hb.onward hkept.onward
    obtain ⟨o, hop⟩ := (append_operates hb₂.live hv (hfits hb₂) (hkept.onward.has hd) hkept.has).of_eq hs
    exact .add (f := Reference.append env.layout) hkept o hop ha
  | @insert _ _ _ i e _ _ _ _ _ _ _ _ hi he ht hs ha =>
    have hindex := follows_position hl (hargs i (by simp)) hi hb
    have hb₁ := hb.onward hindex.onward
    have hkept := (hargs e (by simp) he hb₁).kept (f := fun call func ρ => Reference.eval env call func ρ e) ht
    have hb₂ := hb₁.onward hkept.onward
    have o₂ := hindex.onward.trans hkept.onward
    obtain ⟨o, hop⟩ :=
      (insertAt_operates hb₂.live hv (hfits hb₂) (o₂.has hd) (hkept.onward.has hindex.has) hkept.has).of_eq hs
    exact .put (f := Reference.insertAt env.layout) hindex hkept o hop ha
  | remove hi ha =>
    have hindex := follows_position hl (hargs _ (by simp)) hi hb
    have hb₁ := hb.onward hindex.onward
    obtain ⟨o, hop⟩ := (removeAt_operates hb₁.live hv (hfits hb₁) (hindex.onward.has hd) hindex.has).of_eq ha
    exact .at_index (f := Reference.removeAt) hindex o hop

variable (hc : env.allocator = .collector)

include hc

/-- An element of a vector. -/
theorem follows_element {r i : Expr} (hr : Simulated env scope r) (hi : Simulated env scope i) {recv : Typed} {elem : Ty}
    {b b₁ b₂ b' : Builder} {x a : ValueId} (h : Lowers env scope r none b recv b₁) (ht : recv.ty.element? = some elem)
    (hindex : LowersIndex env scope i b₁ x b₂) (ha : (env.shapeAt elem b₂).getAt recv.value x b₂ = (a, b'))
    (hb : Placed env scope b) {s : Source.Span} {expected : Option Ty} :
    Follows env scope b ⟨a, elem⟩ b' fun call func ρ => Reference.eval env call func ρ (.index s r i) expected := by
  have hrecv := hr h hb
  have hb₁ := hb.onward hrecv.onward
  have hvector := eq_vector_of_element? ht
  have hd := hrecv.has
  rw [hvector] at hd
  have hx := follows_position hl hi hindex hb₁
  have hb₂ := hb₁.onward hx.onward
  have hv : Shaped env elem (env.shapeAt elem b₂) := shaped_shapeAt hl hc hb₂.fits
  obtain ⟨o, hget⟩ := (getAt_operates hb₂.live hv (hv.fits hl hb₂.fits) (hx.onward.has hd) hx.has).of_eq ha
  exact hrecv.vector hvector (.at_index (f := Reference.getAt) hx o hget) fun call func ρ u => rfl

/-- A new vector. -/
theorem follows_vectorNew {t : Source.TypeExpr} {elem : Ty} {b b' : Builder} {a : ValueId}
    (ht : env.tables.resolve t = .ok elem) (ha : (env.shapeAt elem b).new (b.module.sizeOf (.struct env.tables.vector))
      env.config.initialCapacity b = (a, b')) (hb : Placed env scope b) {s : Source.Span} {expected : Option Ty} :
    Follows env scope b ⟨a, .vector elem⟩ b' fun call func ρ =>
      Reference.eval env call func ρ (.vectorNew s t) expected := by
  have hv : Shaped env elem (env.shapeAt elem b) := shaped_shapeAt hl hc hb.fits
  have hbits := hb.fits.pointerBits.trans hl
  rw [sizeOf_descriptor hbits (by rw [hb.fits.vector, ptrInt_eq hbits])] at ha
  obtain ⟨o, hnew⟩ := (new_leads hb.live hv (hv.fits hl hb.fits) _).of_eq ha
  refine ⟨o.1, o.2, fun {S ρ g H M} hS he htoward hM hst => ?_⟩
  simp only [Reference.eval, ht]
  exact (hnew hS he htoward.toPart hM hst).bind fun a₁ hx => Leads.pure (.refl a₁.moved.toAt a₁.stands) ⟨rfl, hx⟩

omit hl hc in
/-- `and` and `or`. -/
theorem follows_logical {op : BinaryOp} {l r : Expr} (hleft : Simulated env scope l) (hright : Simulated env scope r)
    (hop : op.isLogical = true) {x y : Typed} {origin exit rhs merge : Ir.BlockId}
    {b b₁ b₂ b₃ b₄ b₅ b₆ b₇ b₈ b₉ b' : Builder} {short a : ValueId} {m n word : String}
    (h : Lowers env scope l (some .bool) b x b₁) (hx : x.ty = .bool) (hcur : b₁.current = some origin)
    (h₂ : Emit.appendBlock m b₁ = (rhs, b₂)) (h₃ : Emit.appendBlock n b₂ = (merge, b₃))
    (h₄ : (if op == .and then Emit.condBr x.value rhs merge else Emit.condBr x.value merge rhs) b₃ = ((), b₄))
    (h₅ : Emit.positionAt rhs b₄ = ((), b₅)) (hr : Lowers env scope r (some .bool) b₅ y b₆) (hy : y.ty = .bool)
    (hexit : b₆.current = some exit) (h₇ : Emit.br merge b₆ = ((), b₇)) (h₈ : Emit.positionAt merge b₇ = ((), b₈))
    (h₉ : Emit.constBool (!(op == .and)) b₈ = (short, b₉))
    (ha : Emit.phi .i1 [(short, origin), (y.value, exit)] word b₉ = (a, b')) (hb : Placed env scope b)
    {s : Source.Span} {expected : Option Ty} :
    Follows env scope b ⟨a, .bool⟩ b' fun call func ρ => Reference.eval env call func ρ (.binary s op l r) expected := by
  have hfollows := hleft h hb
  have hx₁ := hfollows.has
  rw [hx] at hx₁
  have opens := opens_of_eq hfollows.onward.live hx₁ h₂ h₃ h₄ h₅
  have hfollows' := hright hr ((hb.onward hfollows.onward).onward opens.onward)
  have hy₆ := hfollows'.has
  rw [hy] at hy₆
  obtain ⟨closes, o, hhas⟩ := opens.closes hfollows.onward.live hcur hfollows'.onward hy₆ hexit h₇ h₈ h₉ ha
  simp only [Reference.eval, literalKind_binary (.inr hop), Reference.evalBinary, hop, if_true]
  exact follows_shortCircuit hfollows hx hfollows' hy
    ⟨hfollows.onward.live, hcur, opens, hfollows'.onward, hexit, closes, o⟩ hhas

/-- An expression does what it means if its operands do. -/
theorem simulated_of_smaller {e : Expr} (ih : ∀ e' : Expr, sizeOf e' < sizeOf e → Simulated env scope e') :
    Simulated env scope e := by
  intro expected b b' v h hb
  cases h with
  | literal hk hconst ha =>
    simp only [eval_of_literalKind hk]
    exact follows_literal hb hk hconst ha
  | bool ha => exact follows_bool hb ha
  | char ha => exact follows_char hb ha
  | str ha => exact follows_text hb ha
  | unit ha => exact follows_unit hb ha
  | null ha => exact follows_null hb ha
  | ident hs ha => exact follows_ident hb hs ha
  | plus hn he ht =>
    simp only [Reference.eval, hn]
    exact follows_plus (ih _ (by decreasing_tactic) he hb)
  | fneg hn he ht ha =>
    simp only [Reference.eval, hn]
    exact follows_fneg (ih _ (by decreasing_tactic) he hb) ht ha
  | neg hn he ht ha =>
    simp only [Reference.eval, hn]
    exact follows_neg (ih _ (by decreasing_tactic) he hb) hl ht ha
  | not he ht ha => exact follows_not (ih _ (by decreasing_tactic) he hb) ht ha
  | bitNot he ht ha => exact follows_bitNot (ih _ (by decreasing_tactic) he hb) hl ht ha
  | folded hop hleft hright hk hx hy ha =>
    simp only [Reference.eval, literalKind_binary (.inl hop)]
    exact follows_folded hb hop hleft hright hk hx hy ha
  | arithmetic hn hop ho hx hy hz ha =>
    exact follows_binary hn (isLogical_of_class (.inl hop))
      (follows_arithmetic (follows_both (ih _ (by decreasing_tactic)) (ih _ (by decreasing_tactic)) ho hb) hl hop hx hy ha)
  | ordering hop ho hy hx ha =>
    have hcomparison := isComparison_of_isOrdering hop
    exact follows_binary (literalKind_binary (.inl hcomparison) ..) (isLogical_of_class (.inr (.inl hcomparison)))
      (follows_ordering (follows_both (ih _ (by decreasing_tactic)) (ih _ (by decreasing_tactic)) ho hb) hl hop hx hy ha)
  | equality hop hno ho hx ha =>
    exact follows_binary (literalKind_binary (.inl hop) ..) (isLogical_of_class (.inr (.inl hop)))
      (follows_equality (follows_both (ih _ (by decreasing_tactic)) (ih _ (by decreasing_tactic)) ho hb) hl hop hno hx ha)
  | shift hn hop ho hx hy ha =>
    exact follows_binary hn (isLogical_of_class (.inr (.inr (.inl hop))))
      (follows_shift (follows_both (ih _ (by decreasing_tactic)) (ih _ (by decreasing_tactic)) ho hb) hl hop hx hy ha)
  | bitwise hn hop hno ho hy hx ha =>
    exact follows_binary hn (isLogical_of_class (.inr (.inr (.inr hop))))
      (follows_bitwise (follows_both (ih _ (by decreasing_tactic)) (ih _ (by decreasing_tactic)) ho hb) hl hop hno hy hx ha)
  | shortCircuit hop hleft hx hcur h₂ h₃ h₄ h₅ hr hy hexit h₇ h₈ h₉ ha =>
    exact follows_logical (ih _ (by decreasing_tactic)) (ih _ (by decreasing_tactic)) hop hleft hx hcur h₂ h₃ h₄ h₅
      hr hy hexit h₇ h₈ h₉ ha hb
  | cast ht he hk ha =>
    simp only [Reference.eval, Reference.evalCast, ht]
    exact follows_cast (ih _ (by decreasing_tactic) he hb) hl hk ha
  | call hs hf hn ha hcalls =>
    exact follows_call hb hs hf (follows_args hn (fun e he => ih e (by decreasing_tactic)) ha hb) hcalls
  | method hr ht hm hs hn ha hcalls =>
    have hrecv := ih _ (by decreasing_tactic) hr hb
    exact follows_method hb hrecv ht hm hs
      (follows_args hn (fun e he => ih e (by decreasing_tactic)) ha (hb.onward hrecv.onward)) hcalls
  | vectorMethod hr ht hm ho =>
    have hrecv := ih _ (by decreasing_tactic) hr hb
    have hb₁ := hb.onward hrecv.onward
    have hd := hrecv.has
    rw [ht] at hd
    refine hrecv.vector ht (follows_vector hl (fun e he => ih e (by decreasing_tactic)) ho (shaped_shapeAt hl hc hb₁.fits) hd hb₁)
      fun call func ρ u => ?_
    simp only [Reference.evalMethod, Ty.element?, hm]
  | field hr hf hp ha => exact follows_field hb (ih _ (by decreasing_tactic) hr hb) hf hp ha
  | index hr ht hi ha =>
    exact follows_element hl hc (ih _ (by decreasing_tactic)) (ih _ (by decreasing_tactic)) hr ht hi ha hb
  | @record s name inits info values _ _ b₁ _ _ _ _ _ hn hi hall hs ho hf =>
    refine follows_record hl hc hb hn (follows_inits (fun i hmem => ih i.2 ?_) hi hb) hall hs ho hf
    obtain ⟨field, e⟩ := i
    have hlt := List.sizeOf_lt_of_mem hmem
    simp only [Prod.mk.sizeOf_spec, Expr.record.sizeOf_spec] at hlt ⊢
    omega
  | vectorNew ht ha => exact follows_vectorNew hl hc ht ha hb

/-- Running the code of an expression does what the expression means. -/
theorem simulated_expr (e : Expr) : Simulated env scope e := simulated_of_smaller hl hc fun e' _ => simulated_expr e'
termination_by sizeOf e

end

end BlockForge.Simulation
