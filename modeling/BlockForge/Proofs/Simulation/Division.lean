import BlockForge.Proofs.Reference.Literals
import BlockForge.Proofs.Simulation.Computing

/-!
# Division

Of two integers of a type, `div` computes the quotient that is cut off toward zero, `rem` the remainder that
belongs to it, and `mod` the remainder with the sign of the divisor. Only the quotient of the least integer by
minus one wraps.
-/

namespace BlockForge.Simulation

open Ir (ValueId)
open Lowering (Attempt Env lowerExpr)
open Reference (InRange inRange_iff_wrapInt intArithmetic)
open Source (BinaryOp Span)
open StateM
open BlockForge.Types (IntWidth Ty)
open Word (encode)

/-! ### Operators on variables -/

theorem Integral.isNumeric {l : Types.Layout} {t : Ty} {bits : Nat} (h : Integral l t bits) :
    t.isNumeric = true := by
  have := h.width
  cases t <;> first | rfl | cases this

section

variable {env : Env} {vars : List Variable} {x y : Variable} (hx : x ∈ vars) (hy : y ∈ vars)

include hx hy

/-- The operands are read from left to right. -/
theorem lowerOperands_yields {st : Lowering.State} (h : Sited env vars st) (op : BinaryOp) (s s₁ s₂ : Span) :
    (Lowering.lowerOperands op ⟨.ident s₁ x.name, lowerExpr env (.ident s₁ x.name)⟩
      ⟨.ident s₂ y.name, lowerExpr env (.ident s₂ y.name)⟩ s).run.Sat st fun r st₂ =>
      ∃ p : ValueId × ValueId, r = some (⟨p.1, x.type⟩, ⟨p.2, y.type⟩) ∧ ∃ st₁,
        Yields env vars x.type (wordOf env x.type x.value) st st₁ p.1 ∧
        Yields env vars y.type (wordOf env y.type y.value) st₁ st₂ p.2 ∧
        st₂.builder.constIntValue? p.2 = none := by
  simp only [Lowering.lowerOperands, Lowering.literalKind, Lowering.lowerBoth, lowerExpr]
  refine Attempt.lift_sat_bind (lowerIdent_yields h hx s₁) ?_
  rintro _ st₁ ⟨u, rfl, hu, -⟩
  refine Attempt.lift_sat_bind (lowerIdent_yields (h.onward hu.onward hu.scope) hy s₂) ?_
  rintro _ st₂ ⟨v, rfl, hv, hdynamic⟩
  exact Sat.pure ⟨⟨u, v⟩, rfl, st₁, hu, hv, hdynamic⟩

theorem arithmetic_computes (hty : y.type = x.type) {bits : Nat} (hi : Integral env.layout x.type bits)
    (hxr : wrapInt x.type.isSignedInt bits x.value = x.value)
    (hyr : wrapInt x.type.isSignedInt bits y.value = y.value) {op : BinaryOp} (hop : op.isArithmetic = true)
    (s s₁ s₂ : Span) :
    Computes env vars 0 (lowerExpr env (.binary s op (.ident s₁ x.name) (.ident s₂ y.name)) none) x.type
      (((intArithmetic op x.type.isSignedInt bits x.value y.value).map (encode bits)).elim
        (.error (.divisionByZero computingName)) .ok) := by
  intro st hst
  have hlower : lowerExpr env (.binary s op (.ident s₁ x.name) (.ident s₂ y.name)) none = (do
      let p ← Lowering.lowerOperands op ⟨.ident s₁ x.name, lowerExpr env (.ident s₁ x.name)⟩
        ⟨.ident s₂ y.name, lowerExpr env (.ident s₂ y.name)⟩ s
      Lowering.lowerArithmetic env op p.1 p.2 s) := by
    cases op <;> first | rfl | cases hop
  rw [hlower]
  refine sat_bind_of_some (lowerOperands_yields hx hy hst.toSited op s s₁ s₂) ?_
  rintro ⟨u, v⟩ st₂ ⟨st₁, hu, hv, hdynamic⟩
  have hzero : (st₂.builder.constIntValue? v == some 0) = false := by rw [hdynamic]; rfl
  simp only [Lowering.lowerArithmetic, hty, hi.isNumeric, Bool.not_true, Bool.or_self, Bool.false_eq_true, if_false,
    ne_eq, not_true_eq_false]
  refine Attempt.get_sat_bind ?_
  rw [hzero, Bool.and_false, if_neg Bool.false_ne_true]
  refine Attempt.emit_sat_bind (emitArithmetic_ends hv.onward.live hi.ir hi.pos (hv.onward.has hu.has)
    (hty ▸ hv.has) hop hi.isFloat) ?_
  rintro _ b₃ ⟨z, rfl, ⟨o₃, hz⟩, run⟩
  refine Sat.pure ⟨z, rfl, ⟨(hu.onward.trans hv.onward).trans o₃, hz⟩, ?_⟩
  intro w base M _ htoward hM hknown _
  have p₂ := htoward.toPart.back o₃
  have hname : w.func.name = computingName := by
    rw [htoward.function.name]
    exact (o₃.ext.grows.name.trans hv.onward.ext.grows.name).trans (hu.onward.ext.grows.name.trans hst.name)
  refine Finishes.of_reaches (hu.runs (p₂.back hv.onward) hM hknown) fun M₁ m₁ hst₁ hux => ?_
  have hknown₁ := hknown.moved m₁ hst₁ hu.scope
  refine Finishes.of_reaches (hv.runs p₂ m₁.toAt hknown₁) fun M₂ m₂ _ hvy => ?_
  rw [hi.wordOf_eq] at hux
  rw [(hty ▸ hi : Integral env.layout y.type bits).wordOf_eq] at hvy
  rw [← hname]
  exact .of_ends (run htoward.toPart m₂.toAt hxr hyr (m₂.holds hux) hvy)

end

/-! ### The laws -/

/-- Quotient, remainder and modulus at a width. -/
structure Divided (bits : Nat) (a b q r m : Int) : Prop where
  restores : q * b + r ≡ a [ZMOD (2 ^ bits : Nat)]
  rem_sign : r = 0 ∨ r.sign = a.sign
  rem_lt : r.natAbs < b.natAbs
  mod_eq : m = a.fmod b
  mod_sign : m = 0 ∨ m.sign = b.sign
  mod_lt : m.natAbs < b.natAbs
  agree : 0 ≤ a * b → r = m

theorem sign_eq_sign {x y : Int} (h : 0 < x ∧ 0 < y ∨ x < 0 ∧ y < 0) : x.sign = y.sign := by
  rcases h with ⟨hx, hy⟩ | ⟨hx, hy⟩
  · rw [Int.sign_eq_one_of_pos hx, Int.sign_eq_one_of_pos hy]
  · rw [Int.sign_eq_neg_one_of_neg hx, Int.sign_eq_neg_one_of_neg hy]

section

variable (a : Int) {b : Int} (hb : b ≠ 0)

include hb

theorem natAbs_tmod_lt : (a.tmod b).natAbs < b.natAbs := by
  rw [Int.natAbs_tmod]
  exact Nat.mod_lt _ (Int.natAbs_pos.2 hb)

/-- The modulus is the remainder, or the remainder had the other sign and the divisor is added. -/
theorem fmod_cases : a.fmod b = a.tmod b + b ∧ a.tmod b ≠ 0 ∧ (a.tmod b < 0 ↔ 0 < b) ∨
    a.fmod b = a.tmod b ∧ (a.tmod b = 0 ∨ (a.tmod b < 0 ↔ b < 0)) := by
  rw [fmod_eq_adjusted]
  split <;> rename_i h <;> simp only [ne_eq, decide_eq_decide, not_and, not_not] at h <;> omega

/-- The modulus lies between zero and the divisor. -/
theorem fmod_between : 0 ≤ b ∧ 0 ≤ a.fmod b ∧ a.fmod b < b ∨ b ≤ 0 ∧ b < a.fmod b ∧ a.fmod b ≤ 0 := by
  have hlt := natAbs_tmod_lt a hb
  have hcases := fmod_cases a hb
  omega

/-- The laws of truncated and floor division, of which only the quotient wraps. -/
theorem divided_of_ne_zero (signed : Bool) (bits : Nat) :
    Divided bits a b (wrapInt signed bits (a.tdiv b)) (a.tmod b) (a.fmod b) := by
  have hrem := tmod_between a b
  have hmod := fmod_between a hb
  refine ⟨?_, ?_, natAbs_tmod_lt a hb, rfl, ?_, by omega, fun hsame => ?_⟩
  · have hq := (wrapInt_modEq signed bits (a.tdiv b)).mul_right b
    have hsum := hq.add_right (a.tmod b)
    rwa [Int.tdiv_mul_add_tmod] at hsum
  · refine or_iff_not_imp_left.2 fun hr => sign_eq_sign ?_
    omega
  · refine or_iff_not_imp_left.2 fun hm => sign_eq_sign ?_
    omega
  · have hcases := fmod_cases a hb
    rcases mul_nonneg_iff.1 hsame with h | h <;> omega

end

/-! ### Calls -/

/-- A function of two parameters that returns what an operator makes of them. -/
def operating (env : Env) (op : BinaryOp) (t : Ty) (s s₁ s₂ : Span) : Ir.Module :=
  computing env [("a", t), ("b", t)] t (lowerExpr env (.binary s op (.ident s₁ "a") (.ident s₂ "b")) none)

theorem operating_invoked {env : Env} (hl : env.config.pointerBits ∈ [16, 32, 64]) {t : Ty} {w : IntWidth}
    (ht : t.intWidth? = some w) {a b : Int} (ha : InRange t.isSignedInt (env.layout.intBits w) a)
    (hb : InRange t.isSignedInt (env.layout.intBits w) b) {op : BinaryOp} (hop : op.isArithmetic = true)
    (s s₁ s₂ : Span) {limit : Nat} (hlimit : 0 < limit) {store : Machine.Store} (hroom : Roomy store 2) :
    ∃ n, ∀ fuel, n ≤ fuel → (Machine.invoke (operating env op t s s₁ s₂) limit fuel store ⟨0⟩
        [.int (encode (env.layout.intBits w) a), .int (encode (env.layout.intBits w) b)]).result =
      ((intArithmetic op t.isSignedInt (env.layout.intBits w) a b).elim
        (.error (.divisionByZero computingName)) fun z => .ok (some (.int (encode (env.layout.intBits w) z)))) := by
  have hi : Integral env.layout t (env.layout.intBits w) := integral_of_width hl ht
  let x : Variable := ⟨"a", t, a⟩
  let y : Variable := ⟨"b", t, b⟩
  have hcomputes := arithmetic_computes (show x ∈ [x, y] by simp) (show y ∈ [x, y] by simp) rfl hi
    ((inRange_iff_wrapInt hi.pos).1 ha) ((inRange_iff_wrapInt hi.pos).1 hb) hop s s₁ s₂
  have hint : ∀ z ∈ [x, y], z.Integral env := by
    rw [List.forall_mem_cons, List.forall_mem_singleton]
    exact ⟨Variable.integral hl ht, Variable.integral hl ht⟩
  obtain ⟨n, hn⟩ := hcomputes.invoked hl (by simp [x, y]) hint hlimit hroom
  refine ⟨n, fun fuel hfuel => ?_⟩
  have hresult := hn fuel hfuel
  rw [arguments, List.map_cons, List.map_singleton, hi.wordOf_eq, hi.wordOf_eq] at hresult
  refine hresult.trans ?_
  cases intArithmetic op t.isSignedInt (env.layout.intBits w) a b <;> rfl

/-- Division of any two integers of a type: `div`, `rem` and `mod` return quotient, remainder and modulus, or all
end in a division by zero. -/
theorem division_laws {env : Env} (hl : env.config.pointerBits ∈ [16, 32, 64]) {t : Ty} {w : IntWidth}
    (ht : t.intWidth? = some w) {a b : Int} (ha : InRange t.isSignedInt (env.layout.intBits w) a)
    (hb : InRange t.isSignedInt (env.layout.intBits w) b) (s s₁ s₂ : Span) {limit : Nat} (hlimit : 0 < limit)
    {store : Machine.Store} (hroom : Roomy store 2) :
    let bits := env.layout.intBits w
    let ends (op : BinaryOp) (r : Except Machine.Fault (Option Machine.Val)) : Prop :=
      ∃ n, ∀ fuel, n ≤ fuel → (Machine.invoke (operating env op t s s₁ s₂) limit fuel store ⟨0⟩
        [.int (encode bits a), .int (encode bits b)]).result = r
    (b ≠ 0 → ∃ q r m : Int,
      (InRange t.isSignedInt bits q ∧ InRange t.isSignedInt bits r ∧ InRange t.isSignedInt bits m) ∧
      (ends .div (.ok (some (.int (encode bits q)))) ∧ ends .rem (.ok (some (.int (encode bits r)))) ∧
        ends .mod (.ok (some (.int (encode bits m))))) ∧ Divided bits a b q r m) ∧
    (b = 0 → ∀ op, op.isDivision = true → ends op (.error (.divisionByZero computingName))) := by
  intro bits ends
  have hi : Integral env.layout t bits := integral_of_width hl ht
  have run (op : BinaryOp) (hop : op.isArithmetic = true) :
      ends op ((intArithmetic op t.isSignedInt bits a b).elim (.error (.divisionByZero computingName))
        fun z => .ok (some (.int (encode bits z)))) :=
    operating_invoked hl ht ha hb hop s s₁ s₂ hlimit hroom
  constructor
  · intro hne
    have hdivided := divided_of_ne_zero a hne t.isSignedInt bits
    have hr : InRange t.isSignedInt bits (a.tmod b) := ha.between (tmod_between a b)
    have hm : InRange t.isSignedInt bits (a.fmod b) := by
      refine hb.between ?_
      have := fmod_between a hne
      omega
    have hwrap : ∀ {z : Int}, InRange t.isSignedInt bits z → wrapInt t.isSignedInt bits z = z :=
      (inRange_iff_wrapInt hi.pos).1
    refine ⟨_, _, _, ⟨(inRange_iff_wrapInt hi.pos).2 (wrapInt_wrapInt ..), hr, hm⟩, ⟨?_, ?_, ?_⟩, hdivided⟩
    · simpa [intArithmetic, hne] using run .div rfl
    · simpa [intArithmetic, hne, hwrap hr] using run .rem rfl
    · simpa [intArithmetic, hne, hwrap hm] using run .mod rfl
  · rintro rfl op hop
    have hnone : intArithmetic op t.isSignedInt bits a 0 = none := by
      cases op <;> first | rfl | cases hop
    have := run op (by cases op <;> first | rfl | cases hop)
    rwa [hnone] at this

/-- The least integer of eight bits, divided by minus one and by zero: the quotient wraps to the dividend, and
nothing remains. -/
theorem division_laws_minimum :
    let ends (op : BinaryOp) (b : UInt64) (r : Except Machine.Fault (Option Machine.Val)) : Prop :=
      ∃ n, ∀ fuel, n ≤ fuel →
        (Machine.invoke (operating (bareEnv 16) op (.signed .w8) default default default) 1 fuel ⟨{}, #[], #[]⟩ ⟨0⟩
          [.int 128, .int b]).result = r
    (ends .div 255 (.ok (some (.int 128))) ∧ ends .rem 255 (.ok (some (.int 0))) ∧
      ends .mod 255 (.ok (some (.int 0)))) ∧ ends .mod 0 (.error (.divisionByZero computingName)) := by
  intro ends
  have hl : (bareEnv 16).config.pointerBits ∈ [16, 32, 64] := by decide
  have hroom : Roomy ⟨{}, #[], #[]⟩ 2 := ⟨by decide, by decide⟩
  have laws {b : Int} (hb : InRange true 8 b) := division_laws hl (t := .signed .w8) (w := .w8) rfl (a := -128)
    (by decide) hb default default default Nat.one_pos hroom
  refine ⟨?_, (laws (b := 0) (by decide)).2 rfl .mod rfl⟩
  obtain ⟨q, r, m, ⟨hq, -, -⟩, ⟨hdiv, hrem, hmod⟩, hdivided⟩ := (laws (b := -1) (by decide)).1 (by decide)
  have hrzero : r = 0 := Int.natAbs_eq_zero.1 (Nat.lt_one_iff.1 hdivided.rem_lt)
  have hmzero : m = 0 := Int.natAbs_eq_zero.1 (Nat.lt_one_iff.1 hdivided.mod_lt)
  have hqmin : q = -128 := by
    have hsum : (q * -1 + r) % 256 = -128 % 256 := hdivided.restores
    have hrange : -128 ≤ q ∧ q < 128 := hq
    omega
  subst hrzero hmzero hqmin
  exact ⟨hdiv, hrem, hmod⟩

end BlockForge.Simulation
