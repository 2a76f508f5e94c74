import BlockForge.Proofs.Reference.Integers
import BlockForge.Source.Tree

/-!
# Literal expressions

The exact value of a literal expression, computed on unbounded integers, and the condition under which it has
one at a width: every node is in range, no divisor is zero, and every shift amount is below the width.
-/

namespace BlockForge

/-! ### Bits of integers -/

/-- The bits below a width, of an integer in two's complement. -/
theorem testBit_intBits (bits : Nat) (z : Int) (i : Nat) :
    (intBits bits z).testBit i = (decide (i < bits) && z.testBit i) := by
  have hpos : 0 < 2 ^ bits := by positivity
  cases z with
  | ofNat n =>
    have hmod : intBits bits (.ofNat n) = n % 2 ^ bits := by
      rw [intBits, Int.ofNat_eq_natCast, ← Int.natCast_mod, Int.toNat_natCast]
    rw [hmod, Nat.testBit_mod_two_pow]
    rfl
  | negSucc n =>
    have hlt : n % 2 ^ bits < 2 ^ bits := Nat.mod_lt _ hpos
    have hmod : intBits bits (.negSucc n) = 2 ^ bits - (n % 2 ^ bits + 1) := by
      rw [intBits, Int.negSucc_emod _ (by exact_mod_cast hpos)]
      omega
    rw [hmod, Nat.testBit_two_pow_sub_succ hlt, Nat.testBit_mod_two_pow]
    show (decide (i < bits) && !(decide (i < bits) && n.testBit i)) = (decide (i < bits) && !n.testBit i)
    cases decide (i < bits) <;> rfl

theorem intBits_land (bits : Nat) (a b : Int) : intBits bits (a.land b) = intBits bits a &&& intBits bits b := by
  refine Nat.eq_of_testBit_eq fun i => ?_
  rw [Nat.testBit_and, testBit_intBits, testBit_intBits, testBit_intBits, Int.testBit_land]
  cases decide (i < bits) <;> simp

theorem intBits_lor (bits : Nat) (a b : Int) : intBits bits (a.lor b) = intBits bits a ||| intBits bits b := by
  refine Nat.eq_of_testBit_eq fun i => ?_
  rw [Nat.testBit_or, testBit_intBits, testBit_intBits, testBit_intBits, Int.testBit_lor]
  cases decide (i < bits) <;> simp

theorem intBits_xor (bits : Nat) (a b : Int) : intBits bits (a.xor b) = intBits bits a ^^^ intBits bits b := by
  refine Nat.eq_of_testBit_eq fun i => ?_
  rw [Nat.testBit_xor, testBit_intBits, testBit_intBits, testBit_intBits, Int.testBit_lxor]
  cases decide (i < bits) <;> simp

theorem intBits_modEq (bits : Nat) (z : Int) : (intBits bits z : Int) ≡ z [ZMOD (2 ^ bits : Nat)] := by
  rw [intBits, Int.toNat_of_nonneg (Int.emod_nonneg z (by positivity))]
  exact Int.mod_modEq z _

/-- A bitwise operation on signed integers of a width gives one of that width. -/
theorem bitwise_range {k : Nat} {a b : Int} (f : Bool → Bool → Bool) (ha : -(2 ^ k : Nat) ≤ a ∧ a < (2 ^ k : Nat))
    (hb : -(2 ^ k : Nat) ≤ b ∧ b < (2 ^ k : Nat)) :
    -(2 ^ k : Nat) ≤ Int.bitwise f a b ∧ Int.bitwise f a b < (2 ^ k : Nat) := by
  have hnat : ∀ (g : Bool → Bool → Bool) {m n : Nat}, m < 2 ^ k → n < 2 ^ k →
      -(2 ^ k : Nat) ≤ Int.natBitwise g m n ∧ Int.natBitwise g m n < (2 ^ k : Nat) := by
    intro g m n hm hn
    have hpos := Nat.bitwise_lt_two_pow (f := g) hm hn
    have hneg := Nat.bitwise_lt_two_pow (f := fun x y => !g x y) hm hn
    unfold Int.natBitwise
    cases g false false <;> simp only [cond_true, cond_false] <;> omega
  have hlt : ∀ {z : Int}, -(2 ^ k : Nat) ≤ z ∧ z < (2 ^ k : Nat) → ∀ m : Nat, z = m ∨ z = -(m + 1) → m < 2 ^ k := by
    omega
  rcases a with m | m <;> rcases b with n | n
  · exact hnat _ (hlt ha m (.inl rfl)) (hlt hb n (.inl rfl))
  · exact hnat (fun x y => f x !y) (hlt ha m (.inl rfl)) (hlt hb n (.inr (Int.negSucc_eq n)))
  · exact hnat (fun x y => f (!x) y) (hlt ha m (.inr (Int.negSucc_eq m))) (hlt hb n (.inl rfl))
  · exact hnat (fun x y => f (!x) !y) (hlt ha m (.inr (Int.negSucc_eq m))) (hlt hb n (.inr (Int.negSucc_eq n)))

namespace Reference

open Source (BinaryOp Expr)

/-! ### Values -/

/-- An operator on unbounded integers. Only a left shift looks at the width, at which it wraps. -/
def exactInt (op : BinaryOp) (signed : Bool) (bits : Nat) (a b : Int) : Int :=
  match op with
  | .add => a + b
  | .sub => a - b
  | .mul => a * b
  | .div => a.tdiv b
  | .rem => a.tmod b
  | .mod => a.fmod b
  | .bitAnd => a.land b
  | .bitOr => a.lor b
  | .bitXor => a.xor b
  | .shl => wrapInt signed bits (a * (2 ^ b.toNat : Nat))
  | .shr => a / (2 ^ b.toNat : Nat)
  | _ => 0

/-- The exact value of an integer literal expression. -/
def literalValue (signed : Bool) (bits : Nat) : Expr → Int
  | .int _ v => v.toNat
  | .unary _ .neg e => -literalValue signed bits e
  | .unary _ _ e => literalValue signed bits e
  | .binary _ op a b => exactInt op signed bits (literalValue signed bits a) (literalValue signed bits b)
  | _ => 0

/-! ### Where folding is defined -/

/-- The integers of a width. -/
def InRange (signed : Bool) (bits : Nat) (z : Int) : Prop :=
  if signed then -(2 ^ (bits - 1) : Nat) ≤ z ∧ z < (2 ^ (bits - 1) : Nat) else 0 ≤ z ∧ z < (2 ^ bits : Nat)

instance (signed : Bool) (bits : Nat) (z : Int) : Decidable (InRange signed bits z) :=
  inferInstanceAs (Decidable (if signed then _ else _))

/-- An operator is defined on a right operand: a divisor is not zero, a shift amount is below the width. -/
def OperatorDefined (op : BinaryOp) (bits : Nat) (b : Int) : Prop :=
  (op.isDivision = true → b ≠ 0) ∧ (op.isShift = true → 0 ≤ b ∧ b < bits)

instance (op : BinaryOp) (bits : Nat) (b : Int) : Decidable (OperatorDefined op bits b) :=
  inferInstanceAs (Decidable (_ ∧ _))

/-- The operator at the root, if there is one, is defined on its right operand. -/
def RootDefined (signed : Bool) (bits : Nat) : Expr → Prop
  | .binary _ op _ b => OperatorDefined op bits (literalValue signed bits b)
  | _ => True

instance (signed : Bool) (bits : Nat) (e : Expr) : Decidable (RootDefined signed bits e) := by
  unfold RootDefined
  split <;> infer_instance

/-- The nodes that are judged: all of them, but an integer literal directly under a minus sign only together
with its sign. -/
def judged : Expr → List Expr
  | .unary s .neg (.int s' v) => [.unary s .neg (.int s' v)]
  | .unary s op e => .unary s op e :: judged e
  | .binary s op a b => .binary s op a b :: (judged a ++ judged b)
  | e => [e]

/-- Every judged node has a value in range and is defined. -/
def Foldable (signed : Bool) (bits : Nat) (e : Expr) : Prop :=
  ∀ n ∈ judged e, InRange signed bits (literalValue signed bits n) ∧ RootDefined signed bits n

instance (signed : Bool) (bits : Nat) (e : Expr) : Decidable (Foldable signed bits e) :=
  inferInstanceAs (Decidable (∀ n ∈ judged e, _))

section

variable {signed : Bool} {bits : Nat}

theorem inRange_iff_wrapInt (hpos : 0 < bits) {z : Int} : InRange signed bits z ↔ wrapInt signed bits z = z := by
  cases signed with
  | false => exact wrapInt_false_iff.symm
  | true => exact (wrapInt_true_iff hpos).symm

/-- What lies between zero and an integer of a width is of that width. -/
theorem InRange.between {x z : Int} (hx : InRange signed bits x)
    (h : 0 ≤ x ∧ 0 ≤ z ∧ z ≤ x ∨ x ≤ 0 ∧ x ≤ z ∧ z ≤ 0) : InRange signed bits z := by
  cases signed <;> simp only [InRange, if_true, if_false, Bool.false_eq_true] at hx ⊢ <;> omega

theorem foldable_binary {s : Source.Span} {op : BinaryOp} {a b : Expr} :
    Foldable signed bits (.binary s op a b) ↔
      (InRange signed bits (exactInt op signed bits (literalValue signed bits a) (literalValue signed bits b)) ∧
        OperatorDefined op bits (literalValue signed bits b)) ∧ Foldable signed bits a ∧ Foldable signed bits b := by
  rw [Foldable, judged, List.forall_mem_cons, List.forall_mem_append]
  rfl

theorem foldable_unary {s : Source.Span} {op : Source.UnaryOp} {e : Expr}
    (hne : ∀ s' v, op = .neg → e = .int s' v → False) :
    Foldable signed bits (.unary s op e) ↔
      InRange signed bits (literalValue signed bits (.unary s op e)) ∧ Foldable signed bits e := by
  rw [Foldable, judged.eq_2 s op e hne, List.forall_mem_cons]
  exact and_congr_left' (and_iff_left trivial)

theorem Foldable.inRange {e : Expr} (h : Foldable signed bits e) :
    InRange signed bits (literalValue signed bits e) := by
  refine (h e ?_).1
  unfold judged
  split <;> simp

end

end Reference

end BlockForge
