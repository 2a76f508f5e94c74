import BlockForge.Lowering.Sequence
import BlockForge.Lowering.VectorCode
import BlockForge.Proofs.Ir.Flow

/-!
# Well-formed instruction sequences

What the operators and the vector operations emit is well-formed for operands of the right types:
every sequence goes on at a live position and gives a value of the stated type.
-/

namespace BlockForge.Lowering

open Ir (Builder Emit ValueId)
open Ir.Emit
open Source (BinaryOp)
open StateM
open BlockForge.Types (CastKind Ty)

/-! ### Operators -/

section Operators

variable {b : Builder} {ir : Ir.Ty} {x y : ValueId}

theorem emitSignedMod_gives (h : b.Live) (hx : b.function.Has x ir) (hy : b.function.Has y ir)
    (hi : ir.isInt = true) : (emitSignedMod ir x y).Gives b ir := by
  refine Runs.bind (binaryInt_onward h hx hy hi rfl) fun rem b₁ o₁ hrem => ?_
  refine Runs.bind (constInt_onward o₁.live hi 0) fun zero b₂ o₂ hzero => ?_
  refine Runs.bind (icmp_onward o₂.live (o₂.has hrem) hzero (.inl hi)) fun nz b₃ o₃ hnz => ?_
  refine Runs.bind (icmp_onward (t := ir) o₃.live (by apply_rules [Onward.has]) (by apply_rules [Onward.has]) (.inl hi))
    fun remNeg b₄ o₄ hrn => ?_
  refine Runs.bind (icmp_onward (t := ir) o₄.live (by apply_rules [Onward.has]) (by apply_rules [Onward.has]) (.inl hi))
    fun divNeg b₅ o₅ hdn => ?_
  refine Runs.bind (binaryInt_onward (t := .i1) o₅.live (by apply_rules [Onward.has]) hdn rfl rfl)
    fun differ b₆ o₆ hd => ?_
  refine Runs.bind (binaryInt_onward (t := .i1) o₆.live (by apply_rules [Onward.has]) hd rfl rfl)
    fun adjust b₇ o₇ ha => ?_
  refine Runs.bind (binaryInt_onward (t := ir) o₇.live (by apply_rules [Onward.has]) (by apply_rules [Onward.has]) hi rfl)
    fun fixed b₈ o₈ hf => ?_
  exact select_onward o₈.live (by apply_rules [Onward.has]) hf (by apply_rules [Onward.has])

theorem emitFloatMod_gives (h : b.Live) (hx : b.function.Has x ir) (hy : b.function.Has y ir)
    (hi : ir.isFloat = true) : (emitFloatMod ir x y).Gives b ir := by
  refine Runs.bind (binary_onward h hx hy hi.symm (.inl hi)) fun rem b₁ o₁ hrem => ?_
  refine Runs.bind (constFloat_onward o₁.live hi 0) fun zero b₂ o₂ hzero => ?_
  refine Runs.bind (fcmp_onward o₂.live (o₂.has hrem) hzero hi) fun nz b₃ o₃ hnz => ?_
  refine Runs.bind (fcmp_onward (t := ir) o₃.live (by apply_rules [Onward.has]) (by apply_rules [Onward.has]) hi)
    fun remNeg b₄ o₄ hrn => ?_
  refine Runs.bind (fcmp_onward (t := ir) o₄.live (by apply_rules [Onward.has]) (by apply_rules [Onward.has]) hi)
    fun divNeg b₅ o₅ hdn => ?_
  refine Runs.bind (binaryInt_onward (t := .i1) o₅.live (by apply_rules [Onward.has]) hdn rfl rfl)
    fun differ b₆ o₆ hd => ?_
  refine Runs.bind (binaryInt_onward (t := .i1) o₆.live (by apply_rules [Onward.has]) hd rfl rfl)
    fun adjust b₇ o₇ ha => ?_
  refine Runs.bind (binary_onward (t := ir) o₇.live (by apply_rules [Onward.has]) (by apply_rules [Onward.has]) hi.symm (.inl hi))
    fun fixed b₈ o₈ hf => ?_
  exact select_onward o₈.live (by apply_rules [Onward.has]) hf (by apply_rules [Onward.has])

/-- An arithmetic operator on two values of one numeric type. -/
theorem emitArithmetic_gives (h : b.Live) {op : BinaryOp} {t : Ty} (hop : op.isArithmetic = true)
    (hx : b.function.Has x ir) (hy : b.function.Has y ir) (hf : t.isFloat = ir.isFloat)
    (hn : ir.isFloat = true ∨ ir.isInt = true) :
    (emitArithmetic op t ir x y).Runs b fun r b' => ∃ v, r = some v ∧ b'.function.Has v ir := by
  have wrap : ∀ {e : Emit ValueId}, e.Gives b ir →
      (some <$> e).Runs b fun r b' => ∃ v, r = some v ∧ b'.function.Has v ir := fun he =>
    Sat.map (he.imp fun v _ hv => ⟨hv.1, v, rfl, hv.2⟩)
  have pick : ∀ {f s u : Ir.BinOp}, f.isFloat = true → s.isFloat = false → u.isFloat = false →
      (if t.isFloat then f else if t.isSignedInt then s else u).isFloat = ir.isFloat := by
    intro f s u h₁ h₂ h₃
    rw [← hf]
    cases t.isFloat <;> cases t.isSignedInt <;> simp [h₁, h₂, h₃]
  cases op <;> simp only [BinaryOp.isArithmetic, Bool.false_eq_true] at hop
  case mod =>
    simp only [emitArithmetic]
    cases hft : t.isFloat
    · have hi : ir.isInt = true := hn.resolve_left (by rw [← hf, hft]; simp)
      cases t.isSignedInt
      · exact wrap (binaryInt_onward h hx hy hi rfl)
      · exact wrap (emitSignedMod_gives h hx hy hi)
    · exact wrap (emitFloatMod_gives h hx hy (hf ▸ hft))
  all_goals exact wrap (binary_onward h hx hy (pick rfl rfl rfl) hn)

theorem emitOrdering_gives (h : b.Live) {op : BinaryOp} {t : Ty} (hx : b.function.Has x ir)
    (hy : b.function.Has y ir) (hf : t.isFloat = ir.isFloat)
    (hn : ir.isFloat = true ∨ ir.isInt = true) : (emitOrdering op t x y).Gives b .i1 := by
  unfold emitOrdering
  split
  · rename_i ht
    exact fcmp_onward h hx hy (hf ▸ ht)
  · rename_i ht
    exact icmp_onward h hx hy (.inl (hn.resolve_left (by rw [← hf]; exact ht)))

theorem emitEquality_gives (h : b.Live) {equal : Bool} {t : Ty} (hx : b.function.Has x ir)
    (hy : b.function.Has y ir) (hf : t.isFloat = ir.isFloat)
    (hn : ir.isFloat = true ∨ ir.isInt = true ∨ ir = .ptr) :
    (emitEquality equal t x y).Gives b .i1 := by
  unfold emitEquality
  split
  · rename_i ht
    exact fcmp_onward h hx hy (hf ▸ ht)
  · rename_i ht
    exact icmp_onward h hx hy (hn.resolve_left (by rw [← hf]; exact ht))

theorem emitShift_gives (h : b.Live) {op : BinaryOp} {t : Ty} {amount : Ir.Ty} {signed : Bool}
    (hx : b.function.Has x ir) (hy : b.function.Has y amount) (hi : ir.isInt = true)
    (ha : amount.isInt = true) : (emitShift op t ir x y signed).Gives b ir := by
  refine Runs.bind (intResize_onward h hy ha hi) fun z b₁ o₁ hz => ?_
  refine binaryInt_onward o₁.live (o₁.has hx) hz hi ?_
  cases (inferInstance : Decidable (op = .shl)) with
  | isTrue he => simp [he, Ir.BinOp.isFloat]
  | isFalse he => cases t.isSignedInt <;> simp [he, Ir.BinOp.isFloat]

theorem emitBitwise_gives (h : b.Live) {op : BinaryOp} (hx : b.function.Has x ir)
    (hy : b.function.Has y ir) (hi : ir.isInt = true) : (emitBitwise op x y).Gives b ir := by
  unfold emitBitwise
  split <;> exact binaryInt_onward h hx hy hi rfl

/-- What a conversion needs of its representations. -/
def CastFits (kind : CastKind) (source target : Ir.Ty) : Prop :=
  match kind with
  | .identity => source = target
  | .intExtend _ => ∃ n k, source.intBits? = some n ∧ target.intBits? = some k ∧ n ≤ k
  | .intTruncate => source.isInt = true ∧ target.isInt = true
  | .intToFloat _ => source.isInt = true ∧ target.isFloat = true
  | .floatToInt _ => source.isFloat = true ∧ target.isInt = true
  | .floatExtend | .floatTruncate => source.isFloat = true ∧ target.isFloat = true

theorem emitCast_gives (h : b.Live) {kind : CastKind} {target : Ir.Ty} (hx : b.function.Has x ir)
    (hk : CastFits kind ir target) (ht : target.isScalar = true) :
    (emitCast kind x target).Gives b target := by
  cases kind with
  | identity =>
    obtain rfl : ir = target := hk
    exact Sat.pure ⟨.refl h, hx⟩
  | intExtend signed =>
    refine cast_onward h hx ?_ ht
    cases signed <;> exact hk
  | intTruncate => exact cast_onward h hx hk ht
  | intToFloat signed =>
    refine cast_onward h hx ?_ ht
    cases signed <;> exact hk
  | floatToInt signed =>
    refine cast_onward h hx ?_ ht
    cases signed <;> exact hk
  | floatExtend => exact cast_onward h hx hk ht
  | floatTruncate => exact cast_onward h hx hk ht

end Operators

end BlockForge.Lowering
