import BlockForge.Proofs.Lowering.Sequence
import BlockForge.Proofs.Machine.Kinds
import BlockForge.Proofs.Machine.Position
import BlockForge.Proofs.Reference.Integers

/-!
# Running the operators on integers

What the code of an operator computes on the words of two integers is the word of what the operator gives on
the integers; a division by zero faults.
-/

namespace BlockForge.Simulation

open Ir (Builder Emit ValueId)
open Ir.Emit (Onward)
open Lowering (emitArithmetic emitBitwise emitEquality emitOrdering emitShift emitSignedMod)
open Machine (At Exec Holds Moved Part World intBinary intCompare)
open Reference (bitwiseInt intArithmetic orderInt shiftInt)
open Source (BinaryOp)
open StateM
open BlockForge.Types (Ty)
open Word (encode)

/-! ### Single instructions -/

/-- The end of an integer operation, by its result: the value `v` holds it, or it faults for a division by
zero. -/
def Ends (w : World) (s : Builder) (M : Machine.State) (b : Builder) (v : ValueId) : Option UInt64 → Prop
  | some z => w.Reaches s M b (Holds b · v (.int z))
  | none => Exec.step w.module w.limit M = .error (.divisionByZero w.func.name) M ∧
      ∀ A K, Machine.Careful w.module A K M

section

variable {b : Builder} (h : b.Live) {ir : Ir.Ty} {bits : Nat} (hi : ir.intBits? = some bits) {x y : ValueId}

include h hi

omit h in
theorem opBits_of_has {w : World} {M : Machine.State} {b' : Builder} (hx : b.function.Has x ir) (o : Onward b b')
    (hp : Part b' w) (hM : At w.func b M) : Machine.opBits (M.frame.func.valueType x) = .ok bits := by
  rw [hM.func, (hp.function.has (o.has hx)).valueType_eq]
  exact Machine.opBits_eq hi

omit h in
theorem isInt_of_intBits? : ir.isInt = true := by simp [Ir.Ty.isInt, hi]

theorem binary_ends {op : Ir.BinOp} (hop : op.isFloat = false) (hx : b.function.Has x ir)
    (hy : b.function.Has y ir) (name : String) :
    (Emit.binary op x y name).Sat b fun v b' => (Onward b b' ∧ b'.function.Has v ir) ∧
      ∀ {w : World} {M : Machine.State} {m n : UInt64}, Part b' w → At w.func b M → Holds b M x (.int m) →
        Holds b M y (.int n) → Ends w b M b' v (intBinary op bits m n) := by
  have hfloat : op.isFloat = ir.isFloat := by
    cases ir <;> simp_all [Ir.Ty.intBits?, Ir.Ty.isFloat]
  refine ((Ir.Emit.binaryInt_onward h hx hy (isInt_of_intBits? hi) hop).and
    (Machine.binary_emits h hx hy hfloat name)).imp ?_
  rintro v b' ⟨⟨o, hv⟩, e⟩
  refine ⟨⟨o, hv⟩, fun {w M m n} hp hM hm hn => ?_⟩
  have hbinary := Machine.binary_eq (m := w.module) hop (opBits_of_has hi hx o hp hM) hm.value hn.value
  cases hr : intBinary op bits m n with
  | some z =>
    rw [hr] at hbinary
    exact e.run hp hM rfl (Machine.perform_binary hbinary)
  | none =>
    rw [hr] at hbinary
    refine ⟨?_, fun A K => Machine.careful_of_quiet (e.inst hp hM) rfl⟩
    rw [← hM.func]
    exact Machine.step_error (e.inst hp hM) (Machine.bind_error hbinary)

theorem icmp_reaches (p : Ir.IntPred) (hx : b.function.Has x ir) (hy : b.function.Has y ir) (name : String) :
    (Emit.icmp p x y name).Sat b fun v b' => (Onward b b' ∧ b'.function.Has v .i1) ∧
      ∀ {w : World} {M : Machine.State} {m n : UInt64}, Part b' w → At w.func b M → Holds b M x (.int m) →
        Holds b M y (.int n) → w.Reaches b M b' (Holds b' · v (.bool (intCompare p bits m n))) := by
  refine ((Ir.Emit.icmp_onward h hx hy (.inl (isInt_of_intBits? hi))).and
    (Machine.icmp_emits h hx hy name)).imp ?_
  rintro v b' ⟨⟨o, hv⟩, e⟩
  refine ⟨⟨o, hv⟩, fun {w M m n} hp hM hm hn => ?_⟩
  exact e.run hp hM rfl (Machine.perform_icmp
    (Machine.compare_eq (opBits_of_has hi hx o hp hM) hm.value hn.value))

/-- A constant is known at once. -/
theorem constInt_reaches (n : UInt64) :
    (Emit.constInt ir n).Sat b fun v b' => (Onward b b' ∧ b'.function.Has v ir) ∧
      ∀ {w : World} {M : Machine.State}, Part b' w → At w.func b M →
        w.Reaches b M b' (Holds b' · v (.int (Word.mask n bits))) := by
  refine ((Ir.Emit.constInt_onward h (isInt_of_intBits? hi) n).and
    (Ir.Emit.pushValue_declared h _ _ _)).imp ?_
  rintro v b' ⟨o, d⟩
  refine ⟨o, fun {w M} hp hM => .of_moved (Machine.Declared.moved d hM) ?_⟩
  have := Machine.Declared.int d hp hM.func
  rwa [hi] at this

omit hi in
theorem select_reaches {t : Ir.Ty} {c : ValueId} (hc : b.function.Has c .i1) (hx : b.function.Has x t)
    (hy : b.function.Has y t) (name : String) :
    (Emit.select c x y name).Sat b fun v b' => (Onward b b' ∧ b'.function.Has v t) ∧
      ∀ {w : World} {M : Machine.State} {q : Bool} {m n : Machine.Val}, Part b' w → At w.func b M →
        Holds b M c (.bool q) → Holds b M x m → Holds b M y n →
        w.Reaches b M b' (Holds b' · v (if q then m else n)) := by
  refine ((Ir.Emit.select_onward h hc hx hy).and (Machine.select_emits h name)).imp ?_
  rintro v b' ⟨o, e⟩
  refine ⟨o, fun {w M q m n} hp hM hq hm hn => ?_⟩
  have hselect := Machine.perform_select (m := w.module) hq.value hm.value hn.value
  have htest : ((if q then 1 else 0 : UInt64) &&& 1 == 1) = q := by cases q <;> rfl
  rw [htest] at hselect
  exact e.run hp hM rfl hselect

omit hi in
theorem cast_reaches {op : Ir.CastOp} {t target : Ir.Ty} (hx : b.function.Has x t) (hop : op.Fits t target)
    (hs : target.isScalar = true) (name : String) :
    (Emit.cast op x target name).Sat b fun v b' => (Onward b b' ∧ b'.function.Has v target) ∧
      ∀ {w : World} {M : Machine.State} {m n : Machine.Val}, Part b' w → At w.func b M → Holds b M x m →
        Machine.convert op t target m = .ok n → w.Reaches b M b' (Holds b' · v n) := by
  refine ((Ir.Emit.cast_onward h hx hop hs).and (Machine.cast_emits h op name)).imp ?_
  rintro v b' ⟨⟨o, hv⟩, e⟩
  refine ⟨⟨o, hv⟩, fun {w M m n} hp hM hm hn => ?_⟩
  refine e.run hp hM rfl (Machine.perform_cast hm.value ?_)
  rw [hM.func, (hp.function.has (o.has hx)).valueType_eq]
  exact hn

end

/-! ### Comparison of words -/

section

variable {bits : Nat} (hle : bits ≤ 64) (hpos : 0 < bits) {signed : Bool} {m n : Int}
  (hm : wrapInt signed bits m = m) (hn : wrapInt signed bits n = n)

include hle hm hn

theorem intCompare_eq_encode : intCompare .eq bits (encode bits m) (encode bits n) = decide (m = n) := by
  show (encode bits m == encode bits n) = _
  rw [beq_eq_decide, decide_eq_decide]
  exact Word.encode_inj hle hm hn

theorem intCompare_ne_encode : intCompare .ne bits (encode bits m) (encode bits n) = decide (m ≠ n) := by
  show (!(encode bits m == encode bits n)) = _
  rw [beq_eq_decide, ← decide_not, decide_eq_decide]
  exact not_congr (Word.encode_inj hle hm hn)

include hpos

/-- The predicate of an ordering orders the words as their integers. -/
theorem intCompare_order_encode (op : BinaryOp) :
    intCompare (Lowering.orderingIntPred op signed) bits (encode bits m) (encode bits n) = orderInt op m n := by
  cases signed with
  | false =>
    have hlt {a b : Int} := @Machine.encode_lt_iff bits hle a b
    have hleq {a b : Int} := @Machine.encode_le_iff bits hle a b
    cases op <;> simp [Lowering.orderingIntPred, intCompare, orderInt, hlt, hleq, hm, hn]
  | true =>
    have hlt {a b : Int} := @Machine.signExtend_lt_iff bits hle hpos a b
    have hleq {a b : Int} := @Machine.signExtend_le_iff bits hle hpos a b
    cases op <;> simp [Lowering.orderingIntPred, intCompare, orderInt, hlt, hleq, hm, hn]

end

/-- Operations on truth values. -/
theorem intBinary_bool (p q : Bool) :
    intBinary .xor 1 (if p then 1 else 0) (if q then 1 else 0) = some (if p != q then 1 else 0) ∧
    intBinary .and 1 (if p then 1 else 0) (if q then 1 else 0) = some (if p && q then 1 else 0) ∧
    intBinary .or 1 (if p then 1 else 0) (if q then 1 else 0) = some (if p || q then 1 else 0) := by
  cases p <;> cases q <;> decide

/-! ### Operators -/

section

variable {b : Builder} (h : b.Live) {ir : Ir.Ty} {bits : Nat} (hi : ir.intBits? = some bits) (hpos : 0 < bits)
  {x y : ValueId} (hx : b.function.Has x ir) (hy : b.function.Has y ir)

include h hi hpos hx hy

/-- The remainder is adjusted by the divisor if it is not zero and has the other sign. -/
theorem emitSignedMod_ends :
    (emitSignedMod ir x y).Sat b fun v b' => (Onward b b' ∧ b'.function.Has v ir) ∧
      ∀ {w : World} {M : Machine.State} {m n : Int}, Part b' w → At w.func b M → wrapInt true bits m = m →
        wrapInt true bits n = n → Holds b M x (.int (encode bits m)) → Holds b M y (.int (encode bits n)) →
        Ends w b M b' v ((intArithmetic .mod true bits m n).map (encode bits)) := by
  have hle := Ir.Emit.intBits?_le hi
  refine Sat.bind (binary_ends h hi rfl hx hy _) ?_
  rintro rem b₁ ⟨⟨o₁, hrem⟩, r₁⟩
  refine Sat.bind (constInt_reaches o₁.live hi 0) ?_
  rintro zero b₂ ⟨⟨o₂, hzero⟩, r₂⟩
  have hrem₂ := o₂.has hrem
  refine Sat.bind (icmp_reaches o₂.live hi .ne hrem₂ hzero _) ?_
  rintro nonzero b₃ ⟨⟨o₃, hnonzero⟩, r₃⟩
  have hrem₃ := o₃.has hrem₂
  have hzero₃ := o₃.has hzero
  refine Sat.bind (icmp_reaches o₃.live hi .slt hrem₃ hzero₃ _) ?_
  rintro remNeg b₄ ⟨⟨o₄, hremNeg⟩, r₄⟩
  have o₁₄ := ((o₁.trans o₂).trans o₃).trans o₄
  refine Sat.bind (icmp_reaches o₄.live hi .slt (o₁₄.has hy) (o₄.has hzero₃) _) ?_
  rintro divNeg b₅ ⟨⟨o₅, hdivNeg⟩, r₅⟩
  refine Sat.bind (binary_ends o₅.live (show Ir.Ty.i1.intBits? = some 1 from rfl) rfl (o₅.has hremNeg) hdivNeg _) ?_
  rintro differ b₆ ⟨⟨o₆, hdiffer⟩, r₆⟩
  have o₃₆ := (o₄.trans o₅).trans o₆
  refine Sat.bind (binary_ends o₆.live (show Ir.Ty.i1.intBits? = some 1 from rfl) rfl (o₃₆.has hnonzero) hdiffer _) ?_
  rintro adjust b₇ ⟨⟨o₇, hadjust⟩, r₇⟩
  have o₃₇ := o₃₆.trans o₇
  have o₁₇ := o₁₄.trans ((o₅.trans o₆).trans o₇)
  refine Sat.bind (binary_ends o₇.live hi rfl (o₃₇.has hrem₃) (o₁₇.has hy) _) ?_
  rintro fixed b₈ ⟨⟨o₈, hfixed⟩, r₈⟩
  have o₃₈ := o₃₇.trans o₈
  refine (select_reaches o₈.live (o₈.has hadjust) hfixed (o₃₈.has hrem₃) _).imp ?_
  rintro v b₉ ⟨⟨o₉, hv⟩, r₉⟩
  have o₁₉ := ((o₁₇.trans o₈).trans o₉)
  refine ⟨⟨o₁₉, hv⟩, fun {w M m n} hp hM hm hn hmx hny => ?_⟩
  have p₈ := hp.back o₉
  have p₇ := p₈.back o₈
  have p₆ := p₇.back o₇
  have p₅ := p₆.back o₆
  have p₄ := p₅.back o₅
  have p₃ := p₄.back o₄
  have p₂ := p₃.back o₃
  have p₁ := p₂.back o₂
  have run₁ := r₁ p₁ hM hmx hny
  rw [Machine.intBinary_srem hle hpos hm hn] at run₁
  simp only [intArithmetic]
  by_cases hz : n = 0
  · rw [if_pos hz] at run₁ ⊢
    exact run₁
  rw [if_neg hz] at run₁ ⊢
  have hr : wrapInt true bits (m.tmod n) = m.tmod n := wrapInt_tmod hpos hm n
  have h0 : wrapInt true bits 0 = 0 := by simp [wrapInt]
  have hmask : Word.mask 0 bits = encode bits 0 := Word.mask_ofInt hle 0
  have hslt : ∀ {p q : Int}, wrapInt true bits p = p → wrapInt true bits q = q →
      intCompare .slt bits (encode bits p) (encode bits q) = decide (p < q) := fun hp hq =>
    intCompare_order_encode hle hpos hp hq .lt
  refine run₁.bind fun M₁ m₁ hrem₁ => (r₂ p₂ m₁.toAt).bind fun M₂ m₂ hzero₂ => ?_
  rw [hmask] at hzero₂
  refine (r₃ p₃ m₂.toAt (m₂.holds hrem₁) hzero₂).bind fun M₃ m₃ hnonzero₃ => ?_
  rw [intCompare_ne_encode hle hr h0] at hnonzero₃
  have hrem₃' := m₃.holds (m₂.holds hrem₁)
  refine (r₄ p₄ m₃.toAt hrem₃' (m₃.holds hzero₂)).bind fun M₄ m₄ hremNeg₄ => ?_
  rw [hslt hr h0] at hremNeg₄
  have hdiv₄ := m₄.holds (m₃.holds (m₂.holds (m₁.holds hny)))
  refine (r₅ p₅ m₄.toAt hdiv₄ (m₄.holds (m₃.holds hzero₂))).bind fun M₅ m₅ hdivNeg₅ => ?_
  rw [hslt hn h0] at hdivNeg₅
  have run₆ := r₆ p₆ m₅.toAt (m₅.holds hremNeg₄) hdivNeg₅
  rw [(intBinary_bool _ _).1] at run₆
  refine run₆.bind fun M₆ m₆ hdiffer₆ => ?_
  have run₇ := r₇ p₇ m₆.toAt (m₆.holds (m₅.holds (m₄.holds hnonzero₃))) hdiffer₆
  rw [(intBinary_bool _ _).2.1] at run₇
  refine run₇.bind fun M₇ m₇ hadjust₇ => ?_
  have hrem₇ := m₇.holds (m₆.holds (m₅.holds (m₄.holds hrem₃')))
  have run₈ := r₈ p₈ m₇.toAt hrem₇ (m₇.holds (m₆.holds (m₅.holds hdiv₄)))
  rw [Machine.intBinary_add hle] at run₈
  refine run₈.bind fun M₈ m₈ hfixed₈ => ?_
  refine (r₉ hp m₈.toAt (m₈.holds hadjust₇) hfixed₈ (m₈.holds hrem₇)).imp fun M₉ hv₉ => ?_
  have hresult : (if (decide (m.tmod n ≠ 0) && (decide (m.tmod n < 0) != decide (n < 0))) = true
      then Machine.Val.int (encode bits (m.tmod n + n)) else .int (encode bits (m.tmod n))) =
      .int (encode bits (wrapInt true bits (m.fmod n))) := by
    rw [Word.encode_wrapInt, fmod_eq_adjusted]
    by_cases hadj : m.tmod n ≠ 0 ∧ (decide (m.tmod n < 0) ≠ decide (n < 0))
    · rw [if_pos hadj, if_pos (by simpa using hadj)]
    · rw [if_neg hadj, if_neg (by simpa using hadj)]
  rw [hresult] at hv₉
  exact hv₉

/-- An arithmetic operator on integers of a type. -/
theorem emitArithmetic_ends {op : BinaryOp} (hop : op.isArithmetic = true) {t : Ty} (ht : t.isFloat = false) :
    (emitArithmetic op t ir x y).Sat b fun r b' => ∃ v, r = some v ∧ (Onward b b' ∧ b'.function.Has v ir) ∧
      ∀ {w : World} {M : Machine.State} {m n : Int}, Part b' w → At w.func b M →
        wrapInt t.isSignedInt bits m = m → wrapInt t.isSignedInt bits n = n →
        Holds b M x (.int (encode bits m)) → Holds b M y (.int (encode bits n)) →
        Ends w b M b' v ((intArithmetic op t.isSignedInt bits m n).map (encode bits)) := by
  have hle := Ir.Emit.intBits?_le hi
  -- one instruction that computes the operator on words
  have single : ∀ {signed : Bool} {o : Ir.BinOp} {name : String}, o.isFloat = false →
      (∀ {m n : Int}, wrapInt signed bits m = m → wrapInt signed bits n = n →
        intBinary o bits (encode bits m) (encode bits n) = (intArithmetic op signed bits m n).map (encode bits)) →
      (some <$> Emit.binary o x y name).Sat b fun r b' => ∃ v, r = some v ∧
        (Onward b b' ∧ b'.function.Has v ir) ∧ ∀ {w : World} {M : Machine.State} {m n : Int}, Part b' w →
          At w.func b M → wrapInt signed bits m = m → wrapInt signed bits n = n →
          Holds b M x (.int (encode bits m)) → Holds b M y (.int (encode bits n)) →
          Ends w b M b' v ((intArithmetic op signed bits m n).map (encode bits)) := by
    intro signed o name ho hword
    refine Sat.map ((binary_ends h hi ho hx hy name).imp fun v b' ⟨hv, run⟩ => ⟨v, rfl, hv, ?_⟩)
    intro w M m n hp hM hm hn hmx hny
    rw [← hword hm hn]
    exact run hp hM hmx hny
  have hencode : ∀ (signed : Bool) (z : Int), encode bits (wrapInt signed bits z) = encode bits z :=
    fun signed z => Word.encode_wrapInt signed bits z
  have hdivide : ∀ (signed : Bool) (n z : Int), (if n = 0 then none else some (encode bits z)) =
      (if n = 0 then none else some (wrapInt signed bits z)).map (encode bits) := by
    intro signed n z
    split
    · rfl
    · rw [Option.map_some, hencode]
  cases op <;> simp only [BinaryOp.isArithmetic, Bool.false_eq_true] at hop <;>
    simp only [emitArithmetic, ht, Bool.false_eq_true, if_false, ite_self] <;>
    generalize t.isSignedInt = signed
  case add =>
    refine single rfl fun _ _ => ?_
    rw [Machine.intBinary_add hle, intArithmetic, Option.map_some, hencode]
  case sub =>
    refine single rfl fun _ _ => ?_
    rw [Machine.intBinary_sub hle, intArithmetic, Option.map_some, hencode]
  case mul =>
    refine single rfl fun _ _ => ?_
    rw [Machine.intBinary_mul hle, intArithmetic, Option.map_some, hencode]
  case div =>
    cases signed with
    | false => exact single rfl fun hm hn => (Machine.intBinary_udiv hle hm hn).trans (hdivide ..)
    | true => exact single rfl fun hm hn => (Machine.intBinary_sdiv hle hpos hm hn).trans (hdivide ..)
  case rem =>
    cases signed with
    | false => exact single rfl fun hm hn => (Machine.intBinary_urem hle hm hn).trans (hdivide ..)
    | true => exact single rfl fun hm hn => (Machine.intBinary_srem hle hpos hm hn).trans (hdivide ..)
  case mod =>
    cases signed with
    | false =>
      refine single rfl fun {m n} hm hn => ?_
      have hmod : m.tmod n = m.fmod n := by
        rw [Int.tmod_eq_emod_of_nonneg (wrapInt_false_iff.1 hm).1,
          Int.fmod_eq_emod_of_nonneg m (wrapInt_false_iff.1 hn).1]
      rw [Machine.intBinary_urem hle hm hn, hmod]
      exact hdivide ..
    | true => exact Sat.map ((emitSignedMod_ends h hi hpos hx hy).imp fun v b' hv => ⟨v, rfl, hv⟩)

theorem emitOrdering_reaches (op : BinaryOp) {t : Ty} (ht : t.isFloat = false) :
    (emitOrdering op t x y).Sat b fun v b' => (Onward b b' ∧ b'.function.Has v .i1) ∧
      ∀ {w : World} {M : Machine.State} {m n : Int}, Part b' w → At w.func b M →
        wrapInt t.isSignedInt bits m = m → wrapInt t.isSignedInt bits n = n →
        Holds b M x (.int (encode bits m)) → Holds b M y (.int (encode bits n)) →
        w.Reaches b M b' (Holds b' · v (.bool (orderInt op m n))) := by
  unfold emitOrdering
  rw [ht, if_neg (by simp)]
  refine (icmp_reaches h hi _ hx hy _).imp fun v b' ⟨hv, run⟩ => ⟨hv, fun {w M m n} hp hM hm hn hmx hny => ?_⟩
  have := run hp hM hmx hny
  rwa [intCompare_order_encode (Ir.Emit.intBits?_le hi) hpos hm hn] at this

omit hpos in
theorem emitEquality_reaches (equal : Bool) {t : Ty} (ht : t.isFloat = false) {signed : Bool} :
    (emitEquality equal t x y).Sat b fun v b' => (Onward b b' ∧ b'.function.Has v .i1) ∧
      ∀ {w : World} {M : Machine.State} {m n : Int}, Part b' w → At w.func b M →
        wrapInt signed bits m = m → wrapInt signed bits n = n →
        Holds b M x (.int (encode bits m)) → Holds b M y (.int (encode bits n)) →
        w.Reaches b M b' (Holds b' · v (.bool (decide (m = n) == equal))) := by
  have hle := Ir.Emit.intBits?_le hi
  unfold emitEquality
  rw [ht, if_neg (by simp)]
  refine (icmp_reaches h hi _ hx hy _).imp fun v b' ⟨hv, run⟩ => ⟨hv, fun {w M m n} hp hM hm hn hmx hny => ?_⟩
  have := run hp hM hmx hny
  cases equal with
  | true =>
    rw [if_pos rfl, intCompare_eq_encode hle hm hn] at this
    simpa using this
  | false =>
    rw [if_neg (by simp), intCompare_ne_encode hle hm hn] at this
    simpa using this

omit hpos in
theorem emitBitwise_reaches (op : BinaryOp) (signed : Bool) :
    (emitBitwise op x y).Sat b fun v b' => (Onward b b' ∧ b'.function.Has v ir) ∧
      ∀ {w : World} {M : Machine.State} {m n : Int}, Part b' w → At w.func b M →
        Holds b M x (.int (encode bits m)) → Holds b M y (.int (encode bits n)) →
        w.Reaches b M b' (Holds b' · v (.int (encode bits (bitwiseInt op signed bits m n)))) := by
  have hle := Ir.Emit.intBits?_le hi
  -- one instruction for each operator
  have single : ∀ {o : Ir.BinOp} {name : String} {f : Int → Int → Nat}, o.isFloat = false →
      (∀ m n, intBinary o bits (encode bits m) (encode bits n) = some (encode bits (f m n : Nat))) →
      (∀ m n, bitwiseInt op signed bits m n = wrapInt signed bits (f m n : Nat)) →
      (Emit.binary o x y name).Sat b fun v b' => (Onward b b' ∧ b'.function.Has v ir) ∧
        ∀ {w : World} {M : Machine.State} {m n : Int}, Part b' w → At w.func b M →
          Holds b M x (.int (encode bits m)) → Holds b M y (.int (encode bits n)) →
          w.Reaches b M b' (Holds b' · v (.int (encode bits (bitwiseInt op signed bits m n)))) := by
    intro o name f ho hword hf
    refine (binary_ends h hi ho hx hy name).imp fun v b' ⟨hv, run⟩ => ⟨hv, fun {w M m n} hp hM hmx hny => ?_⟩
    have := run hp hM hmx hny
    rw [hword] at this
    rw [hf, Word.encode_wrapInt]
    exact this
  unfold emitBitwise
  split
  · exact single rfl (Machine.intBinary_and hle) fun _ _ => rfl
  · exact single rfl (Machine.intBinary_or hle) fun _ _ => rfl
  · rename_i hand hor
    refine single rfl (Machine.intBinary_xor hle) fun m n => ?_
    unfold bitwiseInt
    split
    · exact absurd rfl hand
    · exact absurd rfl hor
    · rfl

end

/-! ### Signs and shifts -/

section

variable {source target : Ir.Ty} {bits width : Nat} (hs : source.intBits? = some bits)
  (ht : target.intBits? = some width) (m : Int)

include hs ht

theorem convert_trunc_encode (h : width ≤ bits) :
    Machine.convert .trunc source target (.int (encode bits m)) = .ok (.int (encode width m)) := by
  have hmask := Word.mask_encode (Ir.Emit.intBits?_le ht) h (Ir.Emit.intBits?_le hs) m
  show (Machine.opBits target).bind _ = _
  rw [Machine.opBits_eq ht]
  exact congrArg (fun w => Except.ok (Machine.Val.int w)) hmask

theorem convert_extend_encode (hpos : 0 < bits) {signed : Bool} {m : Int} (hm : wrapInt signed bits m = m)
    (h : bits ≤ width) :
    Machine.convert (if signed then .sext else .zext) source target (.int (encode bits m)) =
      .ok (.int (encode width m)) := by
  cases signed with
  | false => exact congrArg (fun w => Except.ok (Machine.Val.int w)) (Word.encode_of_le h hm)
  | true =>
    have hmask := Machine.mask_signExtend (Ir.Emit.intBits?_le hs) hpos (Ir.Emit.intBits?_le ht) hm
    show (Machine.opBits source).bind _ = _
    rw [Machine.opBits_eq hs]
    show (Machine.opBits target).bind _ = _
    rw [Machine.opBits_eq ht]
    exact congrArg (fun w => Except.ok (Machine.Val.int w)) hmask

end

/-- A shift of words is the shift of their integers. -/
theorem intBinary_shift {bits : Nat} (hle : bits ≤ 64) (hpos : 0 < bits) (op : BinaryOp) {signed : Bool} {m : Int}
    (hm : wrapInt signed bits m = m) (n : Int) :
    intBinary (if op = .shl then .shl else if signed then .ashr else .lshr) bits (encode bits m) (encode bits n) =
      some (encode bits (shiftInt op signed bits m n)) := by
  unfold shiftInt
  dsimp only
  by_cases hop : op = .shl
  · rw [if_pos hop, if_pos hop, Machine.intBinary_shl hle]
    split
    · rw [Word.encode_wrapInt]
    · rfl
  · rw [if_neg hop, if_neg hop]
    cases signed with
    | false =>
      rw [if_neg (by simp), Machine.intBinary_lshr hle hm]
      simp
    | true =>
      rw [if_pos rfl, Machine.intBinary_ashr hle hpos hm]
      split
      · rename_i hlt
        rw [Nat.min_eq_left (by omega)]
      · rename_i hge
        have hrange := (wrapInt_true_iff hpos).1 hm
        rw [Nat.min_eq_right (by omega)]
        by_cases hneg : m < 0
        · rw [if_pos ⟨rfl, hneg⟩]
          congr 2
          rw [Int.ediv_eq_iff_of_pos (by positivity)]
          omega
        · rw [if_neg (fun h => hneg h.2), Int.ediv_eq_zero_of_lt (by omega) (by omega)]

section

variable {b : Builder} (h : b.Live) {ir : Ir.Ty} {bits : Nat} (hi : ir.intBits? = some bits) {x y : ValueId}
  (hx : b.function.Has x ir)

include h hi hx

/-- A minus sign subtracts from zero. -/
theorem neg_reaches (name : String) :
    (Emit.neg x name).Sat b fun v b' => (Onward b b' ∧ b'.function.Has v ir) ∧
      ∀ {w : World} {M : Machine.State} {m : Int}, Part b' w → At w.func b M →
        Holds b M x (.int (encode bits m)) → w.Reaches b M b' (Holds b' · v (.int (encode bits (-m)))) := by
  have hle := Ir.Emit.intBits?_le hi
  refine Sat.get_bind ?_
  rw [Builder.valueType, hx.valueType_eq]
  refine Sat.bind (constInt_reaches h hi 0) ?_
  rintro zero b₁ ⟨⟨o₁, hzero⟩, r₁⟩
  refine (binary_ends o₁.live hi rfl hzero (o₁.has hx) name).imp ?_
  rintro v b₂ ⟨⟨o₂, hv⟩, r₂⟩
  refine ⟨⟨o₁.trans o₂, hv⟩, fun {w M m} hp hM hmx => ?_⟩
  refine (r₁ (hp.back o₂) hM).bind fun M₁ m₁ hzero₁ => ?_
  have hmask : Word.mask 0 bits = encode bits 0 := Word.mask_ofInt hle 0
  rw [hmask] at hzero₁
  have := r₂ hp m₁.toAt hzero₁ (m₁.holds hmx)
  rw [Machine.intBinary_sub hle, zero_sub] at this
  exact this

/-- An integer keeps its value in a wider type and wraps in a narrower one. -/
theorem intResize_reaches {target : Ir.Ty} {width : Nat} (ht : target.intBits? = some width) (hpos : 0 < bits)
    (signed : Bool) (name : String) :
    (Emit.intResize x target signed name).Sat b fun v b' => (Onward b b' ∧ b'.function.Has v target) ∧
      ∀ {w : World} {M : Machine.State} {m : Int}, Part b' w → At w.func b M → wrapInt signed bits m = m →
        Holds b M x (.int (encode bits m)) → w.Reaches b M b' (Holds b' · v (.int (encode width m))) := by
  have hscalar := Ir.Emit.isScalar_of_isInt (isInt_of_intBits? ht)
  refine Sat.get_bind ?_
  simp only [Builder.valueType, hx.valueType_eq, hi, ht, Option.getD_some]
  split
  · rename_i he
    subst he
    rw [Ir.Emit.eq_of_intBits? hi ht] at hx
    exact Sat.pure ⟨⟨.refl h, hx⟩, fun _ hM _ hmx => .of_moved (.refl hM) hmx⟩
  · split
    · rename_i hlt
      have hfits : (if signed then Ir.CastOp.sext else .zext).Fits ir target := by
        cases signed <;> exact ⟨bits, width, hi, ht, Nat.le_of_lt hlt⟩
      refine (cast_reaches h hx hfits hscalar name).imp ?_
      rintro v b' ⟨hv, run⟩
      refine ⟨hv, fun hp hM hm hmx => ?_⟩
      exact run hp hM hmx (convert_extend_encode hi ht hpos hm (Nat.le_of_lt hlt))
    · rename_i hge
      have hfits : Ir.CastOp.trunc.Fits ir target := ⟨isInt_of_intBits? hi, isInt_of_intBits? ht⟩
      refine (cast_reaches h hx hfits hscalar name).imp ?_
      rintro v b' ⟨hv, run⟩
      refine ⟨hv, fun hp hM _ hmx => ?_⟩
      exact run hp hM hmx (convert_trunc_encode hi ht _ (by omega))

theorem emitShift_reaches (op : BinaryOp) {t : Ty} (hpos : 0 < bits) {amount : Ir.Ty} {width : Nat}
    (ha : amount.intBits? = some width) (hwidth : 0 < width) (hy : b.function.Has y amount) (signed : Bool) :
    (emitShift op t ir x y signed).Sat b fun v b' => (Onward b b' ∧ b'.function.Has v ir) ∧
      ∀ {w : World} {M : Machine.State} {m n : Int}, Part b' w → At w.func b M →
        wrapInt t.isSignedInt bits m = m → wrapInt signed width n = n →
        Holds b M x (.int (encode bits m)) → Holds b M y (.int (encode width n)) →
        w.Reaches b M b' (Holds b' · v (.int (encode bits (shiftInt op t.isSignedInt bits m n)))) := by
  refine Sat.bind (intResize_reaches h ha hy hi hwidth signed _) ?_
  rintro z b₁ ⟨⟨o₁, hz⟩, r₁⟩
  have hfloat : (if op = .shl then Ir.BinOp.shl else if t.isSignedInt then .ashr else .lshr).isFloat = false := by
    split
    · rfl
    · split <;> rfl
  refine (binary_ends o₁.live hi hfloat (o₁.has hx) hz _).imp ?_
  rintro v b₂ ⟨⟨o₂, hv⟩, r₂⟩
  refine ⟨⟨o₁.trans o₂, hv⟩, fun {w M m n} hp hM hm hn hmx hny => ?_⟩
  refine (r₁ (hp.back o₂) hM hn hny).bind fun M₁ m₁ hz₁ => ?_
  have := r₂ hp m₁.toAt (m₁.holds hmx) hz₁
  rw [intBinary_shift (Ir.Emit.intBits?_le hi) hpos op hm] at this
  exact this

end

/-- Between integers a conversion is a change of width. -/
theorem emitCast_betweenInts {b : Builder} {a : ValueId} {sbits tbits : Nat} {ir target : Ir.Ty}
    (hs : ir.intBits? = some sbits) (ht : target.intBits? = some tbits) (hx : b.function.Has a ir) (signed : Bool) :
    Lowering.emitCast (.betweenInts sbits tbits signed) a target b = Emit.intResize a target signed "conv" b := by
  have hresize : Emit.intResize a target signed "conv" b =
      (if sbits = tbits then (pure a : Emit ValueId)
        else if sbits < tbits then Emit.cast (if signed then .sext else .zext) a target "conv"
        else Emit.cast .trunc a target "conv") b := by
    show (if ((b.valueType a).intBits?.getD 64) = target.intBits?.getD 64 then (pure a : Emit ValueId)
      else if ((b.valueType a).intBits?.getD 64) < target.intBits?.getD 64 then
        Emit.cast (if signed then .sext else .zext) a target "conv"
      else Emit.cast .trunc a target "conv") b = _
    simp only [Builder.valueType, hx.valueType_eq, hs, ht, Option.getD_some]
  rw [hresize, Types.CastKind.betweenInts]
  split
  · rfl
  · split <;> rfl

end BlockForge.Simulation
