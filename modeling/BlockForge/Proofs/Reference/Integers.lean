import BlockForge.Proofs.Numeric.Words
import BlockForge.Source.Operator

/-!
# Integer operators

What the operators of the source language do to integers of a type: they compute exactly and wrap at the
width of the type.
-/

namespace BlockForge

/-! ### Ranges -/

theorem wrapInt_true_iff {bits : Nat} (hpos : 0 < bits) {n : Int} :
    wrapInt true bits n = n ↔ -(2 ^ (bits - 1) : Nat) ≤ n ∧ n < (2 ^ (bits - 1) : Nat) := by
  have hhalf : 2 ^ bits = 2 * 2 ^ (bits - 1) := by
    rw [← Nat.pow_succ']
    congr 1
    omega
  rw [show wrapInt true bits n = n.bmod (2 ^ bits) from rfl, Int.bmod_eq_iff (by positivity)]
  simp only [sub_self, dvd_zero, and_true, hhalf]
  omega

theorem wrapInt_false_iff {bits : Nat} {n : Int} : wrapInt false bits n = n ↔ 0 ≤ n ∧ n < (2 ^ bits : Nat) := by
  have hpos : (0 : Int) < (2 ^ bits : Nat) := by positivity
  constructor
  · intro h
    have h₁ := Int.emod_nonneg n hpos.ne'
    have h₂ := Int.emod_lt_of_pos n hpos
    have : n % (2 ^ bits : Nat) = n := h
    omega
  · rintro ⟨h₁, h₂⟩
    exact Int.emod_eq_of_lt h₁ h₂

/-- A remainder lies between zero and the dividend. -/
theorem tmod_between (a b : Int) : 0 ≤ a ∧ 0 ≤ a.tmod b ∧ a.tmod b ≤ a ∨ a ≤ 0 ∧ a ≤ a.tmod b ∧ a.tmod b ≤ 0 := by
  have habs : (a.tmod b).natAbs ≤ a.natAbs := by
    rw [Int.natAbs_tmod]
    exact Nat.mod_le _ _
  rcases le_total 0 a with ha | ha
  · have := Int.tmod_nonneg b ha
    omega
  · have := Int.tmod_nonneg b (a := -a) (by omega)
    rw [Int.neg_tmod] at this
    omega

theorem wrapInt_tmod {signed : Bool} {bits : Nat} (hpos : 0 < bits) {a : Int} (ha : wrapInt signed bits a = a)
    (b : Int) : wrapInt signed bits (a.tmod b) = a.tmod b := by
  have := tmod_between a b
  cases signed with
  | false =>
    rw [wrapInt_false_iff] at ha ⊢
    omega
  | true =>
    rw [wrapInt_true_iff hpos] at ha ⊢
    omega

/-- The remainder with the sign of the divisor, from the one with the sign of the dividend. -/
theorem fmod_eq_adjusted (a b : Int) :
    a.fmod b = if a.tmod b ≠ 0 ∧ (decide (a.tmod b < 0) ≠ decide (b < 0)) then a.tmod b + b else a.tmod b := by
  have hbetween := tmod_between a b
  have hdvd : b ∣ a ↔ a.tmod b = 0 := Int.dvd_iff_tmod_eq_zero
  rw [Int.fmod_eq_tmod]
  by_cases hz : a.tmod b = 0
  · simp [hdvd, hz]
  · simp only [hdvd, hz, if_false, ne_eq, not_false_eq_true, true_and, decide_eq_decide]
    split <;> split <;> split <;> omega

namespace Reference

open Source (BinaryOp)

/-! ### Operators -/

/-- Arithmetic at a width; nothing for a division by zero. `div` truncates, `rem` has the sign of the
dividend and `mod` that of the divisor. -/
def intArithmetic (op : BinaryOp) (signed : Bool) (bits : Nat) (a b : Int) : Option Int :=
  match op with
  | .add => some (wrapInt signed bits (a + b))
  | .sub => some (wrapInt signed bits (a - b))
  | .mul => some (wrapInt signed bits (a * b))
  | .div => if b = 0 then none else some (wrapInt signed bits (a.tdiv b))
  | .rem => if b = 0 then none else some (wrapInt signed bits (a.tmod b))
  | .mod => if b = 0 then none else some (wrapInt signed bits (a.fmod b))
  | _ => none

/-- A shift. The amount is read at the width of the shifted integer; where it is not below the width, all
bits are shifted out. -/
def shiftInt (op : BinaryOp) (signed : Bool) (bits : Nat) (a amount : Int) : Int :=
  let n := intBits bits amount
  if op = .shl then if n < bits then wrapInt signed bits (a * (2 ^ n : Nat)) else 0
  else if n < bits then a / (2 ^ n : Nat)
  else if signed ∧ a < 0 then -1
  else 0

/-- `&`, `|` and `^` on the bits of two integers. -/
def bitwiseInt (op : BinaryOp) (signed : Bool) (bits : Nat) (a b : Int) : Int :=
  let x := intBits bits a
  let y := intBits bits b
  match op with
  | .bitAnd => wrapInt signed bits (x &&& y : Nat)
  | .bitOr => wrapInt signed bits (x ||| y : Nat)
  | _ => wrapInt signed bits (x ^^^ y : Nat)

def orderInt (op : BinaryOp) (a b : Int) : Bool :=
  match op with
  | .lt => a < b
  | .le => a ≤ b
  | .gt => b < a
  | _ => b ≤ a

end Reference

end BlockForge
