import BlockForge.Proofs.Simulation.Conversions

/-!
# Binary operators

Both operands run one after the other, and the code of the operator computes what it gives on their values, or
faults for a division by zero. References are compared by their addresses.
-/

namespace BlockForge.Simulation

open Ir (Builder Emit ValueId)
open Ir.Emit (Onward)
open Lowering (Env Scope Typed)
open Machine (At Exec Holds Part Toward Val World blockAddress)
open Reference (Caller Datum Heap Locals Result Sem Value)
open Source (BinaryOp Expr)
open StateM
open BlockForge.Types (LitKind Ty)
open Word (encode)

/-! ### Ranges of results -/

theorem wrapInt_intArithmetic {op : BinaryOp} {signed : Bool} {bits : Nat} {m n z : Int}
    (h : Reference.intArithmetic op signed bits m n = some z) : wrapInt signed bits z = z := by
  have hsome : ∀ {k : Int}, some (wrapInt signed bits k) = some z → wrapInt signed bits z = z := by
    intro k hk
    rw [← Option.some.inj hk, wrapInt_wrapInt]
  cases op with
  | add | sub | mul => exact hsome h
  | div | rem | mod =>
    simp only [Reference.intArithmetic] at h
    split at h
    · cases h
    · exact hsome h
  | _ => cases h

/-- A shift stays in the range of its left operand. -/
theorem wrapInt_shiftInt (op : BinaryOp) {signed : Bool} {bits : Nat} (hpos : 0 < bits) {m : Int}
    (hm : wrapInt signed bits m = m) (n : Int) :
    wrapInt signed bits (Reference.shiftInt op signed bits m n) = Reference.shiftInt op signed bits m n := by
  have hhalf : 0 < 2 ^ (bits - 1) := by positivity
  have hwhole : 0 < 2 ^ bits := by positivity
  have hzero : wrapInt signed bits 0 = 0 := by
    cases signed <;> simp [wrapInt]
  simp only [Reference.shiftInt]
  split
  · split
    · exact wrapInt_wrapInt ..
    · exact hzero
  · split
    · have hdiv := Int.ediv_mul_le m (show ((2 ^ intBits bits n : Nat) : Int) ≠ 0 by positivity)
      have hone : (1 : Int) ≤ (2 ^ intBits bits n : Nat) := by exact_mod_cast Nat.one_le_two_pow
      cases signed with
      | false =>
        rw [wrapInt_false_iff] at hm ⊢
        exact ⟨Int.ediv_nonneg hm.1 (by omega), lt_of_le_of_lt (Int.ediv_le_self _ hm.1) hm.2⟩
      | true =>
        rw [wrapInt_true_iff hpos] at hm ⊢
        constructor
        · rw [Int.le_ediv_iff_mul_le (by omega)]
          nlinarith [hm.1]
        · rw [Int.ediv_lt_iff_lt_mul (by omega)]
          nlinarith [hm.2]
    · split
      · rename_i hs
        obtain ⟨rfl, -⟩ := hs
        rw [wrapInt_true_iff hpos]
        omega
      · exact hzero

/-! ### Operators on truth values -/

theorem bool_eq_int (q : Bool) : Val.bool q = .int (if q then 1 else 0) := by cases q <;> rfl

section

variable {b : Builder} (h : b.Live) {x y : ValueId} (hx : b.function.Has x .i1) (hy : b.function.Has y .i1)

include h hx hy

theorem emitBitwise_bool_reaches (op : BinaryOp) :
    (Lowering.emitBitwise op x y).Sat b fun v b' => (Onward b b' ∧ b'.function.Has v .i1) ∧
      ∀ {w : World} {M : Machine.State} {p q : Bool}, Part b' w → At w.func b M → Holds b M x (.bool p) →
        Holds b M y (.bool q) → w.Reaches b M b' (Holds b' · v (.bool (Reference.bitwiseBool op p q))) := by
  have hone : ∀ {bin : Ir.BinOp} {f : Bool → Bool → Bool}, bin.isFloat = false →
      (∀ p q : Bool, Machine.intBinary bin 1 (if p then 1 else 0) (if q then 1 else 0) =
        some (if f p q then 1 else 0)) → ∀ name,
      (Emit.binary bin x y name).Sat b fun v b' => (Onward b b' ∧ b'.function.Has v .i1) ∧
        ∀ {w : World} {M : Machine.State} {p q : Bool}, Part b' w → At w.func b M → Holds b M x (.bool p) →
          Holds b M y (.bool q) → w.Reaches b M b' (Holds b' · v (.bool (f p q))) := by
    intro bin f hbin hf name
    refine (binary_ends h (show Ir.Ty.i1.intBits? = some 1 from rfl) hbin hx hy name).imp fun v b' ⟨o, r⟩ =>
      ⟨o, fun {w M p q} hp hM hp' hq' => ?_⟩
    rw [bool_eq_int] at hp' hq' ⊢
    have := r hp hM hp' hq'
    rwa [hf] at this
  cases op with
  | bitAnd => exact hone rfl (fun p q => (intBinary_bool p q).2.1) _
  | bitOr => exact hone rfl (fun p q => (intBinary_bool p q).2.2) _
  | _ => exact hone rfl (fun p q => (intBinary_bool p q).1) _

theorem emitEquality_bool_reaches (equal : Bool) :
    (Lowering.emitEquality equal .bool x y).Sat b fun v b' => (Onward b b' ∧ b'.function.Has v .i1) ∧
      ∀ {w : World} {M : Machine.State} {p q : Bool}, Part b' w → At w.func b M → Holds b M x (.bool p) →
        Holds b M y (.bool q) → w.Reaches b M b' (Holds b' · v (.bool ((p == q) == equal))) := by
  have hi : Ir.Ty.i1.intBits? = some 1 := rfl
  refine (icmp_reaches h hi (if equal then .eq else .ne) hx hy "cmp").imp fun v b' ⟨o, r⟩ =>
    ⟨o, fun {w M p q} hp hM hp' hq' => ?_⟩
  have hcompare : Machine.intCompare (if equal then .eq else .ne) 1 (if p then 1 else 0) (if q then 1 else 0) =
      ((p == q) == equal) := by
    cases equal <;> cases p <;> cases q <;> rfl
  rw [bool_eq_int] at hp' hq'
  rw [← hcompare]
  exact r hp hM hp' hq'

end

/-! ### Operators on floats -/

section

variable {b : Builder} (h : b.Live) {ir : Ir.Ty} (hir : ir.isFloat = true) {t : Ty} (ht : t.isFloat = true)
  (hround : ∀ bits, Machine.roundTo ir bits = Reference.roundAt t bits) {x y : ValueId}
  (hx : b.function.Has x ir) (hy : b.function.Has y ir)

include h hir hround hx hy

/-- The remainder is adjusted by the divisor if it is not zero and has the other sign. -/
theorem emitFloatMod_reaches :
    (Lowering.emitFloatMod ir x y).Sat b fun v b' => (Onward b b' ∧ b'.function.Has v ir) ∧
      ∀ {w : World} {M : Machine.State} {m n : UInt64}, Part b' w → At w.func b M → Holds b M x (.float m) →
        Holds b M y (.float n) → w.Reaches b M b' (Holds b' · v (.float (Reference.floatArithmetic .mod t m n))) := by
  have hbool := bool_eq_int
  refine Sat.bind (float_binary_reaches h hir rfl hx hy _) ?_
  rintro rem b₁ ⟨⟨o₁, hrem⟩, r₁⟩
  refine Sat.bind (constFloat_reaches o₁.live hir 0) ?_
  rintro zero b₂ ⟨⟨o₂, hzero⟩, r₂⟩
  have hrem₂ := o₂.has hrem
  refine Sat.bind (fcmp_reaches o₂.live .une hir hrem₂ hzero _) ?_
  rintro nonzero b₃ ⟨⟨o₃, hnonzero⟩, r₃⟩
  have hrem₃ := o₃.has hrem₂
  have hzero₃ := o₃.has hzero
  refine Sat.bind (fcmp_reaches o₃.live .olt hir hrem₃ hzero₃ _) ?_
  rintro remNeg b₄ ⟨⟨o₄, hremNeg⟩, r₄⟩
  have o₁₄ := ((o₁.trans o₂).trans o₃).trans o₄
  refine Sat.bind (fcmp_reaches o₄.live .olt hir (o₁₄.has hy) (o₄.has hzero₃) _) ?_
  rintro divNeg b₅ ⟨⟨o₅, hdivNeg⟩, r₅⟩
  refine Sat.bind (binary_ends o₅.live (show Ir.Ty.i1.intBits? = some 1 from rfl) rfl (o₅.has hremNeg) hdivNeg _) ?_
  rintro differ b₆ ⟨⟨o₆, hdiffer⟩, r₆⟩
  have o₃₆ := (o₄.trans o₅).trans o₆
  refine Sat.bind (binary_ends o₆.live (show Ir.Ty.i1.intBits? = some 1 from rfl) rfl (o₃₆.has hnonzero) hdiffer _) ?_
  rintro adjust b₇ ⟨⟨o₇, hadjust⟩, r₇⟩
  have o₃₇ := o₃₆.trans o₇
  have o₁₇ := o₁₄.trans ((o₅.trans o₆).trans o₇)
  refine Sat.bind (float_binary_reaches o₇.live hir rfl (o₃₇.has hrem₃) (o₁₇.has hy) _) ?_
  rintro fixed b₈ ⟨⟨o₈, hfixed⟩, r₈⟩
  refine (select_reaches o₈.live (o₈.has hadjust) hfixed ((o₃₇.trans o₈).has hrem₃) _).imp ?_
  rintro v b₉ ⟨⟨o₉, hv⟩, r₉⟩
  refine ⟨⟨(o₁₇.trans o₈).trans o₉, hv⟩, fun {w M m n} hp hM hm hn => ?_⟩
  have p₈ := hp.back o₉
  have p₇ := p₈.back o₈
  have p₆ := p₇.back o₇
  have p₅ := p₆.back o₆
  have p₄ := p₅.back o₅
  have p₃ := p₄.back o₄
  have p₂ := p₃.back o₃
  refine (r₁ (p₂.back o₂) hM hm hn).bind fun M₁ m₁ hr₁ => (r₂ p₂ m₁.toAt).bind fun M₂ m₂ hz₂ => ?_
  refine (r₃ p₃ m₂.toAt (m₂.holds hr₁) hz₂).bind fun M₃ m₃ hne₃ => ?_
  have hr₃ := m₃.holds (m₂.holds hr₁)
  refine (r₄ p₄ m₃.toAt hr₃ (m₃.holds hz₂)).bind fun M₄ m₄ hneg₄ => ?_
  have hn₄ := m₄.holds (m₃.holds (m₂.holds (m₁.holds hn)))
  refine (r₅ p₅ m₄.toAt hn₄ (m₄.holds (m₃.holds hz₂))).bind fun M₅ m₅ hneg₅ => ?_
  have hneg₅' := m₅.holds hneg₄
  rw [hbool] at hneg₅ hneg₅'
  have run₆ := r₆ p₆ m₅.toAt hneg₅' hneg₅
  rw [(intBinary_bool _ _).1] at run₆
  refine World.Reaches.bind run₆ fun M₆ m₆ hdiff₆ => ?_
  have hne₆ := m₆.holds (m₅.holds (m₄.holds hne₃))
  rw [hbool] at hne₆
  have run₇ := r₇ p₇ m₆.toAt hne₆ hdiff₆
  rw [(intBinary_bool _ _).2.1] at run₇
  refine World.Reaches.bind run₇ fun M₇ m₇ hadjust₇ => ?_
  have hr₇ := m₇.holds (m₆.holds (m₅.holds (m₄.holds hr₃)))
  have hn₇ := m₇.holds (m₆.holds (m₅.holds hn₄))
  refine (r₈ p₈ m₇.toAt hr₇ hn₇).bind fun M₈ m₈ hfixed₈ => ?_
  have hadjust₈ := m₈.holds hadjust₇
  rw [← hbool] at hadjust₈
  refine (r₉ hp m₈.toAt hadjust₈ hfixed₈ (m₈.holds hr₇)).imp fun M₉ hv₉ => ?_
  simp only [Machine.floatCompare, Machine.floatBinary, hround] at hv₉
  simp only [Reference.floatArithmetic]
  rw [apply_ite Val.float]
  exact hv₉

include ht

/-- An arithmetic operator on floats of a type. -/
theorem emitArithmetic_reaches {op : BinaryOp} (hop : op.isArithmetic = true) :
    (Lowering.emitArithmetic op t ir x y).Sat b fun r b' => ∃ v, r = some v ∧ (Onward b b' ∧ b'.function.Has v ir) ∧
      ∀ {w : World} {M : Machine.State} {m n : UInt64}, Part b' w → At w.func b M → Holds b M x (.float m) →
        Holds b M y (.float n) → w.Reaches b M b' (Holds b' · v (.float (Reference.floatArithmetic op t m n))) := by
  have hone : ∀ {bin : Ir.BinOp}, bin.isFloat = true → ∀ name, (∀ m n, Reference.roundAt t
      (Machine.floatBinary bin m n) = Reference.floatArithmetic op t m n) →
      (some <$> Emit.binary bin x y name : Emit (Option ValueId)).Sat b fun r b' => ∃ v, r = some v ∧
        (Onward b b' ∧ b'.function.Has v ir) ∧ ∀ {w : World} {M : Machine.State} {m n : UInt64}, Part b' w →
          At w.func b M → Holds b M x (.float m) → Holds b M y (.float n) →
          w.Reaches b M b' (Holds b' · v (.float (Reference.floatArithmetic op t m n))) := by
    intro bin hbin name hf
    refine Sat.map ((float_binary_reaches h hir hbin hx hy name).imp fun v b' ⟨o, r⟩ => ⟨v, rfl, o, ?_⟩)
    intro w M m n hp hM hm hn
    rw [← hf, ← hround]
    exact r hp hM hm hn
  cases op with
  | add =>
    simp only [Lowering.emitArithmetic, ht, if_true]
    exact hone rfl _ fun _ _ => by simp only [Machine.floatBinary, Reference.floatArithmetic]
  | sub =>
    simp only [Lowering.emitArithmetic, ht, if_true]
    exact hone rfl _ fun _ _ => by simp only [Machine.floatBinary, Reference.floatArithmetic]
  | mul =>
    simp only [Lowering.emitArithmetic, ht, if_true]
    exact hone rfl _ fun _ _ => by simp only [Machine.floatBinary, Reference.floatArithmetic]
  | div =>
    simp only [Lowering.emitArithmetic, ht, if_true]
    exact hone rfl _ fun _ _ => by simp only [Machine.floatBinary, Reference.floatArithmetic]
  | rem =>
    simp only [Lowering.emitArithmetic, ht, if_true]
    exact hone rfl _ fun _ _ => by simp only [Machine.floatBinary, Reference.floatArithmetic]
  | mod =>
    simp only [Lowering.emitArithmetic, ht, if_true]
    exact Sat.map ((emitFloatMod_reaches h hir hround hx hy).imp fun v b' hv => ⟨v, rfl, hv⟩)
  | _ => cases hop

end

/-! ### Pairs of operands -/

/-- What was lowered from `b` to `b'` gives two values, and running it does what both expressions mean. -/
structure FollowsBoth (env : Env) (scope : Scope) (b : Builder) (x y : Typed) (b' : Builder)
    (mean : Caller → String → Locals → Sem (Datum × Datum)) : Prop where
  onward : Onward b b'
  left : b'.function.Has x.value (env.ir x.ty)
  right : b'.function.Has y.value (env.ir y.ty)
  runs : ∀ {S : Scene} {ρ : Locals} {g : Ground} {H : Heap} {M : Machine.State}, S.Open → S.env = env →
    Toward b b' S.world → At S.world.func b M → Stands S scope ρ g H M →
    Leads S scope ρ b M g b' (mean S.call S.world.func.name ρ H) fun d g' M' =>
      (d.1.type = x.ty ∧ Denotes S b' M' g' x.value d.1) ∧ d.2.type = y.ty ∧ Denotes S b' M' g' y.value d.2

section

variable {env : Env} {scope : Scope} {b b₁ b' : Builder} {x y : Typed} {a : ValueId} {t : Ty}
  {mean : Caller → String → Locals → Sem Datum} {F : Ty → Caller → String → Locals → Sem Datum}

/-- The second operand may depend on the type of the first one. -/
theorem Follows.pair (h : Follows env scope b x b₁ mean) (k : Follows env scope b₁ y b' (F x.ty)) :
    FollowsBoth env scope b x y b' fun call func ρ => do
      let a ← mean call func ρ
      let c ← F a.type call func ρ
      pure (a, c) where
  onward := h.onward.trans k.onward
  left := k.onward.has h.has
  right := k.has
  runs {S ρ g H M} hS he ht hM hst := by
    refine (h.runs hS he (ht.before k.onward.ext) hM hst).bind fun {a H₁ g₁ M₁} a₁ hd => ?_
    rw [hd.1]
    refine (k.runs hS he (ht.since h.onward.ext.toLater) a₁.moved.toAt a₁.stands).bind fun a₂ hc => ?_
    exact Leads.pure (.refl a₂.moved.toAt a₂.stands) ⟨⟨hd.1, hd.2.mono a₂.moved a₂.grows⟩, hc⟩

theorem FollowsBoth.swap {mean : Caller → String → Locals → Sem (Datum × Datum)}
    (h : FollowsBoth env scope b x y b' mean) :
    FollowsBoth env scope b y x b' fun call func ρ => do
      let p ← mean call func ρ
      pure (p.2, p.1) where
  onward := h.onward
  left := h.right
  right := h.left
  runs hS he ht hM hst := (h.runs hS he ht hM hst).bind fun a₁ hd =>
    Leads.pure (.refl a₁.moved.toAt a₁.stands) ⟨hd.2, hd.1⟩

variable {both : Caller → String → Locals → Sem (Datum × Datum)}

/-- More code that works on both values. -/
theorem FollowsBoth.next (h : FollowsBoth env scope b x y b₁ both)
    (o : Onward b₁ b' ∧ b'.function.Has a (env.ir t)) {next : String → Datum × Datum → Sem Datum}
    (k : ∀ {S : Scene} {ρ : Locals} {g : Ground} {H : Heap} {M : Machine.State} {u v : Value}, S.Open → S.env = env →
      Toward b₁ b' S.world → At S.world.func b₁ M → Stands S scope ρ g H M →
      Denotes S b₁ M g x.value ⟨u, x.ty⟩ → Denotes S b₁ M g y.value ⟨v, y.ty⟩ →
      Leads S scope ρ b₁ M g b' (next S.world.func.name (⟨u, x.ty⟩, ⟨v, y.ty⟩) H) fun d' g' M' =>
        d'.type = t ∧ Denotes S b' M' g' a d') :
    Follows env scope b ⟨a, t⟩ b' fun call func ρ => both call func ρ >>= next func where
  onward := h.onward.trans o.1
  has := o.2
  runs {S ρ g H M} hS he ht hM hst := by
    refine (h.runs hS he (ht.before o.1.ext) hM hst).bind fun {d H₁ g₁ M₁} a₁ hd => ?_
    obtain ⟨⟨u, tu⟩, ⟨v, tv⟩⟩ := d
    obtain ⟨⟨rfl, hu⟩, rfl, hv⟩ := hd
    exact k hS he (ht.since h.onward.ext.toLater) a₁.moved.toAt a₁.stands hu hv

/-- Code that computes from both values and leaves the store as it is. -/
theorem FollowsBoth.computes (h : FollowsBoth env scope b x y b₁ both) (hx : x.ty ≠ .string) (hy : y.ty ≠ .string)
    (o : Onward b₁ b' ∧ b'.function.Has a (env.ir t)) {next : String → Datum × Datum → Sem Datum}
    (k : ∀ {m : Ir.Module} {g : Ground} {u v : Value} {p q : Val}, Encodes env.layout m g x.ty u p →
      Encodes env.layout m g y.ty v q →
      ∃ value z, (∀ func, next func (⟨u, x.ty⟩, ⟨v, y.ty⟩) = pure ⟨value, t⟩) ∧ Encodes env.layout m g t value z ∧
        ∀ {w : World} {M : Machine.State}, Part b' w → At w.func b₁ M → Holds b₁ M x.value p →
          Holds b₁ M y.value q → w.Reaches b₁ M b' (Holds b' · a z)) :
    Follows env scope b ⟨a, t⟩ b' fun call func ρ => both call func ρ >>= next func := by
  refine h.next o fun {S ρ g H M u v} hS he ht hM hst hu hv => ?_
  subst he
  obtain ⟨p, hp, hep⟩ := hu.holds hx
  obtain ⟨q, hq, heq⟩ := hv.holds hy
  obtain ⟨value, z, hnext, hez, hr⟩ := k hep heq
  rw [hnext]
  exact (Leads.of_reaches hS.toReady hst (hr ht.toPart hM hp hq)).value fun ha hz =>
    ⟨rfl, .of_holds hz (hez.mono ha.grows)⟩

/-! ### Operators on numbers and truth values -/

theorem ne_string_of_eq_bool (ht : t = .bool) : t ≠ .string := by
  rintro rfl
  cases ht

theorem follows_arithmetic (h : FollowsBoth env scope b x y b₁ both) (hl : env.layout.pointerBits = 64)
    {op : BinaryOp} (hop : op.isArithmetic = true) (hx : x.ty.isNumeric = true) (hy : x.ty = y.ty)
    (ha : Lowering.emitArithmetic op x.ty (env.ir x.ty) x.value y.value b₁ = (some a, b')) :
    Follows env scope b ⟨a, x.ty⟩ b' fun call func ρ => both call func ρ >>= fun p =>
      Reference.applyBinary env.layout func op p.1 p.2 := by
  have hright := h.right
  rw [← hy] at hright
  have hs := ne_string_of_isNumeric hx
  cases hf : x.ty.isFloat with
  | true =>
    have hround : ∀ bits, Machine.roundTo (env.ir x.ty) bits = Reference.roundAt x.ty bits :=
      roundTo_eq_roundAt env.layout hf
    obtain ⟨v, hv, o, hr⟩ := (emitArithmetic_reaches h.onward.live ((Env.isFloat_ir _).trans hf) hf hround h.left
      hright hop).of_eq ha
    cases hv
    refine h.computes hs (hy ▸ hs) o fun hp hq => ?_
    rw [← hy] at hq ⊢
    obtain ⟨m, rfl, rfl⟩ := hp.float hf
    obtain ⟨n, rfl, rfl⟩ := hq.float hf
    refine ⟨.float (Reference.floatArithmetic op x.ty m n), .float (Reference.floatArithmetic op x.ty m n),
      fun func => ?_, ⟨hf, rfl⟩, hr⟩
    simp only [Reference.applyBinary, hop, if_true, Reference.applyArithmetic, Sem.pure_bind]
  | false =>
    have hint : x.ty.isInteger = true := by simpa [Ty.isNumeric, hf] using hx
    obtain ⟨bits, hshape⟩ := intShape?_of_isInteger env.layout hint
    obtain ⟨hi, hpos, hle⟩ := intBits?_ir hl hshape
    obtain ⟨v, hv, o, hr⟩ := (emitArithmetic_ends h.onward.live hi hpos h.left hright hop hf).of_eq ha
    cases hv
    refine h.next o fun {S ρ g H M u v} hS he ht hM hst hu hv => ?_
    subst he
    obtain ⟨p, hp, hep⟩ := hu.holds hs
    obtain ⟨q, hq, heq⟩ := hv.holds (hy ▸ hs)
    change Encodes _ _ _ y.ty v q at heq
    rw [← hy] at heq
    obtain ⟨m, rfl, hm, rfl⟩ := hep.int hshape
    obtain ⟨n, rfl, hn, rfl⟩ := heq.int hshape
    have hends := hr ht.toPart hM hm hn hp hq
    simp only [Reference.applyBinary, hop, if_true, Reference.applyArithmetic, hshape]
    cases hz : Reference.intArithmetic op x.ty.isSignedInt bits m n with
    | none =>
      rw [hz] at hends
      exact Leads.fault hS hst (t := .divisionByZero S.world.func.name) hends.1 fun _ => hends.2 _ _
    | some z =>
      rw [hz] at hends
      have hwrap := wrapInt_intArithmetic hz
      exact (Leads.of_reaches hS.toReady hst hends).value fun _ hv =>
        ⟨rfl, .of_holds hv ⟨bits, _, hshape, hwrap, rfl⟩⟩

/-- The integers of a type that is not a float, where it has an order. -/
theorem intShape?_of_isOrdered (l : Types.Layout) (ht : t.isOrdered = true) (hf : t.isFloat = false) :
    ∃ bits, l.intShape? t = some (bits, t.isSignedInt) := by
  cases t <;> simp_all [Ty.isOrdered, Ty.isFloat, Types.Layout.intShape?, Ty.isSignedInt]

theorem follows_ordering (h : FollowsBoth env scope b x y b₁ both) (hl : env.layout.pointerBits = 64)
    {op : BinaryOp} (hop : op.isOrdering = true) (hx : x.ty.isOrdered = true) (hy : x.ty = y.ty)
    (ha : Lowering.emitOrdering op x.ty x.value y.value b₁ = (a, b')) :
    Follows env scope b ⟨a, .bool⟩ b' fun call func ρ => both call func ρ >>= fun p =>
      Reference.applyBinary env.layout func op p.1 p.2 := by
  have hright := h.right
  rw [← hy] at hright
  have hs : x.ty ≠ .string := by
    intro hs
    rw [hs] at hx
    cases hx
  have hno : op.isArithmetic = false := by cases op <;> first | rfl | cases hop
  cases hf : x.ty.isFloat with
  | true =>
    rw [Lowering.emitOrdering, if_pos hf] at ha
    obtain ⟨o, hr⟩ := (fcmp_reaches h.onward.live _ ((Env.isFloat_ir _).trans hf) h.left hright _).of_eq ha
    refine h.computes hs (hy ▸ hs) o fun hp hq => ?_
    rw [← hy] at hq ⊢
    obtain ⟨m, rfl, rfl⟩ := hp.float hf
    obtain ⟨n, rfl, rfl⟩ := hq.float hf
    refine ⟨.bool (Reference.orderFloat op m n), .bool (Reference.orderFloat op m n), fun func => ?_, ⟨rfl, rfl⟩,
      fun hp hM hm hn => ?_⟩
    · simp only [Reference.applyBinary, hno, hop, if_true, Bool.false_eq_true, if_false, Reference.applyOrdering,
        Sem.pure_bind]
    · have hcompare : Reference.orderFloat op m n = Machine.floatCompare (Lowering.orderingFloatPred op) m n := by
        cases op <;> rfl
      rw [hcompare]
      exact hr hp hM hm hn
  | false =>
    obtain ⟨bits, hshape⟩ := intShape?_of_isOrdered env.layout hx hf
    obtain ⟨hi, hpos, hle⟩ := intBits?_ir hl hshape
    obtain ⟨o, hr⟩ := (emitOrdering_reaches h.onward.live hi hpos h.left hright op hf).of_eq ha
    refine h.computes hs (hy ▸ hs) o fun hp hq => ?_
    rw [← hy] at hq ⊢
    obtain ⟨m, rfl, hm, rfl⟩ := hp.int hshape
    obtain ⟨n, rfl, hn, rfl⟩ := hq.int hshape
    refine ⟨.bool (Reference.orderInt op m n), .bool (Reference.orderInt op m n), fun func => ?_, ⟨rfl, rfl⟩,
      fun hp hM => hr hp hM hm hn⟩
    simp only [Reference.applyBinary, hno, hop, if_true, Bool.false_eq_true, if_false, Reference.applyOrdering,
      Sem.pure_bind]

theorem follows_shift (h : FollowsBoth env scope b x y b₁ both) (hl : env.layout.pointerBits = 64)
    {op : BinaryOp} (hop : op.isShift = true) (hx : x.ty.isInteger = true) (hy : y.ty.isInteger = true)
    (ha : Lowering.emitShift op x.ty (env.ir x.ty) x.value y.value y.ty.isSignedInt b₁ = (a, b')) :
    Follows env scope b ⟨a, x.ty⟩ b' fun call func ρ => both call func ρ >>= fun p =>
      Reference.applyBinary env.layout func op p.1 p.2 := by
  have hno : op.isArithmetic = false ∧ op.isOrdering = false ∧ op.isComparison = false := by
    cases op <;> first | exact ⟨rfl, rfl, rfl⟩ | cases hop
  obtain ⟨bits, hshape⟩ := intShape?_of_isInteger env.layout hx
  obtain ⟨width, hwidth⟩ := intShape?_of_isInteger env.layout hy
  obtain ⟨hi, hpos, hle⟩ := intBits?_ir hl hshape
  obtain ⟨hi', hpos', -⟩ := intBits?_ir hl hwidth
  obtain ⟨o, hr⟩ := (emitShift_reaches h.onward.live hi h.left op hpos hi' hpos' h.right y.ty.isSignedInt).of_eq ha
  refine h.computes (ne_string_of_isInteger hx) (ne_string_of_isInteger hy) o fun hp hq => ?_
  obtain ⟨m, rfl, hm, rfl⟩ := hp.int hshape
  obtain ⟨n, rfl, hn, rfl⟩ := hq.int hwidth
  refine ⟨.int (Reference.shiftInt op x.ty.isSignedInt bits m n), _, fun func => ?_,
    ⟨bits, _, hshape, wrapInt_shiftInt op hpos hm n, rfl⟩, fun hp hM => hr hp hM hm hn⟩
  simp only [Reference.applyBinary, hno, hop, if_true, Bool.false_eq_true, if_false, Reference.applyShift, hshape,
    Sem.pure_bind]

theorem follows_bitwise (h : FollowsBoth env scope b x y b₁ both) (hl : env.layout.pointerBits = 64)
    {op : BinaryOp} (hop : op.isBitwise = true) (hshift : op.isShift = false) (hy : x.ty = y.ty)
    (hx : x.ty.isInteger = true ∨ x.ty = .bool) (ha : Lowering.emitBitwise op x.value y.value b₁ = (a, b')) :
    Follows env scope b ⟨a, x.ty⟩ b' fun call func ρ => both call func ρ >>= fun p =>
      Reference.applyBinary env.layout func op p.1 p.2 := by
  have hright := h.right
  rw [← hy] at hright
  have hno : op.isArithmetic = false ∧ op.isOrdering = false ∧ op.isComparison = false := by
    cases op <;> first | exact ⟨rfl, rfl, rfl⟩ | cases hop
  rcases hx with hx | hx
  · obtain ⟨bits, hshape⟩ := intShape?_of_isInteger env.layout hx
    obtain ⟨hi, hpos, hle⟩ := intBits?_ir hl hshape
    obtain ⟨o, hr⟩ := (emitBitwise_reaches h.onward.live hi h.left hright op x.ty.isSignedInt).of_eq ha
    have hs := ne_string_of_isInteger hx
    refine h.computes hs (hy ▸ hs) o fun hp hq => ?_
    rw [← hy] at hq ⊢
    obtain ⟨m, rfl, hm, rfl⟩ := hp.int hshape
    obtain ⟨n, rfl, hn, rfl⟩ := hq.int hshape
    refine ⟨.int (Reference.bitwiseInt op x.ty.isSignedInt bits m n), _, fun func => ?_,
      ⟨bits, _, hshape, ?_, rfl⟩, fun hp hM => hr hp hM⟩
    · simp only [Reference.applyBinary, hno, hshift, Bool.false_eq_true, if_false, Reference.applyBitwise, hshape,
        Sem.pure_bind]
    · simp only [Reference.bitwiseInt]
      split <;> exact wrapInt_wrapInt ..
  · have hs := ne_string_of_eq_bool hx
    have hx₁ : b₁.function.Has x.value .i1 := by
      have := h.left
      rwa [hx] at this
    have hy₁ : b₁.function.Has y.value .i1 := by rwa [hx] at hright
    obtain ⟨o, hr⟩ := (emitBitwise_bool_reaches h.onward.live hx₁ hy₁ op).of_eq ha
    refine h.computes hs (hy ▸ hs) ⟨o.1, by rw [hx]; exact o.2⟩ fun hp hq => ?_
    rw [← hy] at hq ⊢
    rw [hx] at hp hq ⊢
    obtain ⟨p, rfl, rfl⟩ := hp.bool
    obtain ⟨q, rfl, rfl⟩ := hq.bool
    refine ⟨.bool (Reference.bitwiseBool op p q), _, fun func => ?_, ⟨rfl, rfl⟩, hr⟩
    simp only [Reference.applyBinary, hno, hshift, Bool.false_eq_true, if_false, Reference.applyBitwise,
      Sem.pure_bind]

theorem intShape?_of_isEquatable (l : Types.Layout) (ht : t.isEquatable = true) (hr : t.isReference = false)
    (hf : t.isFloat = false) (hb : t ≠ .bool) : ∃ bits signed, l.intShape? t = some (bits, signed) := by
  cases t <;> simp_all [Ty.isEquatable, Ty.isFloat, Ty.isReference, Types.Layout.intShape?]

/-- `==` and `!=` on values that are no references. -/
theorem follows_equality_of_number (h : FollowsBoth env scope b x y b₁ both) (hl : env.layout.pointerBits = 64)
    {op : BinaryOp} (hop : op.isComparison = true) (hno : op.isOrdering = false) (hy : x.ty = y.ty)
    (hx : x.ty.isEquatable = true) (hr : x.ty.isReference = false)
    (ha : Lowering.emitEquality (op == .eq) x.ty x.value y.value b₁ = (a, b')) :
    Follows env scope b ⟨a, .bool⟩ b' fun call func ρ => both call func ρ >>= fun p =>
      Reference.applyBinary env.layout func op p.1 p.2 := by
  have hright := h.right
  rw [← hy] at hright
  have hs : x.ty ≠ .string := by
    intro hs
    rw [hs] at hr
    cases hr
  have hna : op.isArithmetic = false := by cases op <;> first | rfl | cases hop
  have happly : ∀ {u v : Value} {q : Bool}, Reference.sameValue u v = pure q → ∀ func,
      Reference.applyBinary env.layout func op ⟨u, x.ty⟩ ⟨v, x.ty⟩ = pure ⟨.bool (q == (op == .eq)), .bool⟩ := by
    intro u v q hq func
    simp only [Reference.applyBinary, hna, hno, hop, hq, if_true, Bool.false_eq_true, if_false, Sem.pure_bind]
  cases hf : x.ty.isFloat with
  | true =>
    rw [Lowering.emitEquality, if_pos hf] at ha
    obtain ⟨o, hr⟩ := (fcmp_reaches h.onward.live _ ((Env.isFloat_ir _).trans hf) h.left hright _).of_eq ha
    refine h.computes hs (hy ▸ hs) o fun hp hq => ?_
    rw [← hy] at hq ⊢
    obtain ⟨m, rfl, rfl⟩ := hp.float hf
    obtain ⟨n, rfl, rfl⟩ := hq.float hf
    refine ⟨_, .bool (Binary64.eq m n == (op == .eq)), happly rfl, ⟨rfl, rfl⟩, fun hp hM hm hn => ?_⟩
    have hcompare : (Binary64.eq m n == (op == .eq)) =
        Machine.floatCompare (if op == .eq then .oeq else .une) m n := by
      generalize (op == BinaryOp.eq) = equal
      cases equal <;> simp [Machine.floatCompare]
    rw [hcompare]
    exact hr hp hM hm hn
  | false =>
    by_cases hbool : x.ty = .bool
    · have hx₁ : b₁.function.Has x.value .i1 := by
        have := h.left
        rwa [hbool] at this
      have hy₁ : b₁.function.Has y.value .i1 := by rwa [hbool] at hright
      rw [hbool] at ha
      obtain ⟨o, hr⟩ := (emitEquality_bool_reaches h.onward.live hx₁ hy₁ _).of_eq ha
      refine h.computes hs (hy ▸ hs) o fun hp hq => ?_
      rw [← hy] at hq ⊢
      rw [hbool] at hp hq
      obtain ⟨p, rfl, rfl⟩ := hp.bool
      obtain ⟨q, rfl, rfl⟩ := hq.bool
      exact ⟨_, _, happly rfl, ⟨rfl, rfl⟩, hr⟩
    · obtain ⟨bits, signed, hshape⟩ := intShape?_of_isEquatable env.layout hx hr hf hbool
      obtain ⟨hi, hpos, hle⟩ := intBits?_ir hl hshape
      obtain ⟨o, hr⟩ := (emitEquality_reaches h.onward.live hi h.left hright _ hf).of_eq ha
      refine h.computes hs (hy ▸ hs) o fun hp hq => ?_
      rw [← hy] at hq ⊢
      obtain ⟨m, rfl, hm, rfl⟩ := hp.int hshape
      obtain ⟨n, rfl, hn, rfl⟩ := hq.int hshape
      exact ⟨_, .bool (decide (m = n) == (op == .eq)), happly rfl, ⟨rfl, rfl⟩, fun hp hM => hr hp hM hm hn⟩

/-! ### References -/

theorem textBytes_injective {s t : String} (h : textBytes s = textBytes t) : s = t := by
  have hdata := (Array.push_eq_push.1 h).2
  exact String.toByteArray_inj.1 (ByteArray.ext hdata)

/-- Two references are the same if their addresses are; whether two texts of one content are is left open. -/
theorem sameValue_eq {l : Types.Layout} {tables : Lowering.Tables} {m : Ir.Module} {g : Ground} {H : Heap}
    {st : Machine.Store} (hm : Models l tables m g H st) {s t : Ty} {u v : Value} {p q : UInt64}
    (hu : Encodes l m g s u (.ptr p)) (hv : Encodes l m g t v (.ptr q)) (hs : s.isReference = true)
    (ht : t.isReference = true) (hst : s = t ∨ s = .null ∨ t = .null) :
    Reference.sameValue u v = pure (p == q) ∨ Reference.sameValue u v = Sem.ask := by
  obtain ⟨_, hp, ru⟩ := hu.reference hs
  cases hp
  obtain ⟨_, hq, rv⟩ := hv.reference ht
  cases hq
  have hlt : ∀ {j : Nat} {r : Role}, g[j]? = some r → j < Machine.maxBlocks := fun hj =>
    hm.lt_maxBlocks (List.getElem?_eq_some_iff.1 hj).1
  have hzero : ∀ {j : Nat} {r : Role}, g[j]? = some r → r ≠ .stack → blockAddress j ≠ 0 := by
    intro j r hj hr
    refine Machine.blockAddress_ne_zero (hlt hj) (Nat.pos_of_ne_zero ?_)
    rintro rfl
    rw [hm.null] at hj
    exact hr (Option.some.inj hj).symm
  have hother : ∀ {i j : Nat} {r r' : Role}, g[i]? = some r → g[j]? = some r' → r ≠ r' →
      (blockAddress i == blockAddress j) = false := by
    intro i j r r' hi hj hne
    rw [beq_eq_false_iff_ne, Ne, Machine.blockAddress_inj (hlt hi) (hlt hj)]
    rintro rfl
    exact hne (Option.some.inj (hi.symm.trans hj))
  cases ru with
  | null =>
    cases rv with
    | null => exact .inl rfl
    | text hj => exact .inl (congrArg pure (beq_eq_false_iff_ne.2 (hzero hj (by simp)).symm).symm)
    | object hj => exact .inl (congrArg pure (beq_eq_false_iff_ne.2 (hzero hj (by simp)).symm).symm)
  | @text content i k hi hk =>
    cases rv with
    | null => exact .inl (congrArg pure (beq_eq_false_iff_ne.2 (hzero hi (by simp))).symm)
    | @text content' j k' hj hk' =>
      by_cases hc : content = content'
      · exact .inr (if_pos hc)
      · refine .inl ((if_neg hc).trans (congrArg pure (hother hi hj ?_).symm))
        rintro ⟨⟩
        obtain ⟨_, hg, hb⟩ := Option.map_eq_some_iff.1 hk
        obtain ⟨_, hg', hb'⟩ := Option.map_eq_some_iff.1 hk'
        rw [hg] at hg'
        cases hg'
        exact hc (textBytes_injective (hb.symm.trans hb'))
    | object hj =>
      -- only texts and null are of the type of a text
      obtain ⟨rfl, -⟩ := hu
      obtain ⟨hn, -⟩ := hv
      rcases hst with rfl | hst | rfl
      · cases hn
      · cases hst
      · cases hn
  | @object id i hi =>
    cases rv with
    | null => exact .inl (congrArg pure (beq_eq_false_iff_ne.2 (hzero hi (by simp))).symm)
    | text hj =>
      obtain ⟨hn, -⟩ := hu
      obtain ⟨rfl, -⟩ := hv
      rcases hst with rfl | rfl | hst
      · cases hn
      · cases hn
      · cases hst
    | @object id' j hj =>
      refine .inl (congrArg pure ?_)
      by_cases hid : id = id'
      · subst hid
        obtain rfl := hm.unique hi hj
        rw [beq_self_eq_true, beq_self_eq_true]
      · rw [beq_eq_false_iff_ne.2 hid, hother hi hj]
        rintro ⟨⟩
        exact hid rfl

/-- The values of two operands, one after the other; texts may come into memory for them. -/
theorem Denotes.fetch_both {S : Scene} {ρ : Locals} {g : Ground} {H : Heap} {M : Machine.State} {p q : ValueId}
    {c d : Datum} (hp : Denotes S b M g p c) (hq : Denotes S b M g q d) (hS : S.Ready) (hM : Stands S scope ρ g H M)
    (hf : M.frame.func = S.world.func) :
    ∃ u v st₁ st g', Exec.operand S.world.module p M = .ok u { M with store := st₁ } ∧
      Exec.operand S.world.module q { M with store := st₁ } = .ok v { M with store := st } ∧ g <+: g' ∧
      Stands S scope ρ g' H { M with store := st } ∧ Encodes S.layout S.world.module g' c.type c.value u ∧
      Encodes S.layout S.world.module g' d.type d.value v := by
  obtain ⟨u, st₁, g₁, hu, hg₁, hM₁, hc, -⟩ := hp.fetch hS hM hf
  obtain ⟨v, st, g', hv, hg', hM', hd, -⟩ := (hq.restore hg₁).fetch hS hM₁ hf
  exact ⟨u, v, st₁, st, g', hu, hv, hg₁.trans hg', hM', hc.mono hg', hd⟩

/-- `==` and `!=` on references. -/
theorem follows_equality_of_reference (h : FollowsBoth env scope b x y b₁ both) {op : BinaryOp}
    (hop : op.isComparison = true) (hno : op.isOrdering = false) (hx : x.ty.isReference = true)
    (hy : y.ty.isReference = true) (hxy : x.ty = y.ty ∨ x.ty = .null ∨ y.ty = .null)
    (ha : Lowering.emitEquality (op == .eq) x.ty x.value y.value b₁ = (a, b')) :
    Follows env scope b ⟨a, .bool⟩ b' fun call func ρ => both call func ρ >>= fun p =>
      Reference.applyBinary env.layout func op p.1 p.2 := by
  have hfloat : x.ty.isFloat = false := by cases hx' : x.ty <;> simp_all [Ty.isReference, Ty.isFloat]
  have hna : op.isArithmetic = false := by cases op <;> first | rfl | cases hop
  have hleft : b₁.function.Has x.value .ptr := by
    have := h.left
    rwa [show env.ir x.ty = .ptr from irType_of_isReference _ hx] at this
  have hright : b₁.function.Has y.value .ptr := by
    have := h.right
    rwa [show env.ir y.ty = .ptr from irType_of_isReference _ hy] at this
  simp only [Lowering.emitEquality, hfloat, Bool.false_eq_true, if_false] at ha
  have o := (Ir.Emit.icmp_onward h.onward.live hleft hright (.inr rfl)).of_eq ha
  have e := (Machine.icmp_emits h.onward.live hleft hright _).of_eq ha
  refine h.next o fun {S ρ g H M u v} hS he ht hM hst hu hv => ?_
  subst he
  obtain ⟨p, q, st₁, st, g', hp, hq, hg', hst', hep, heq⟩ := hu.fetch_both hv hS.toReady hst hM.func
  obtain ⟨p, rfl, -⟩ := hep.reference hx
  obtain ⟨q, rfl, -⟩ := heq.reference hy
  have hperform : Exec.perform S.world.module (.icmp (if op == .eq then .eq else .ne) x.value y.value) M =
      .ok (.done (some (.bool ((p == q) == (op == .eq))))) { M with store := st } := by
    have hwords : Machine.intCompare (if op == .eq then .eq else .ne) 64 p q = ((p == q) == (op == .eq)) := by
      generalize (op == BinaryOp.eq) = equal
      cases equal <;> simp [Machine.intCompare, bne]
    have hcompare : Exec.compare S.world.module (if op == .eq then .eq else .ne) x.value y.value M =
        .ok (.bool ((p == q) == (op == .eq))) { M with store := st } := by
      rw [Exec.compare, Machine.bind_ok (Machine.typeOf_eq _), Machine.bind_ok hp, Machine.bind_ok hq, ← hwords]
      rfl
    exact Machine.bind_ok hcompare
  have hleads : Leads S scope ρ b₁ M g b' ((pure ⟨.bool ((p == q) == (op == .eq)), .bool⟩ : Sem Datum) H)
      fun d' g' M' => d'.type = .bool ∧ Denotes S b' M' g' a d' := by
    intro hall
    refine e.change ht.toPart hM rfl hperform fun M' hm hstore hv' _ => hall ⟨hm, ?_, hg'⟩
      ⟨rfl, .of_holds hv' ⟨rfl, rfl⟩⟩
    exact hst'.stays hS.toReady hm.stays.restore hstore
  simp only [Reference.applyBinary, hna, hno, hop, if_true, Bool.false_eq_true, if_false]
  rcases sameValue_eq hst'.models hep heq hx hy hxy with hsame | hsame
  · rw [hsame]
    exact hleads
  · rw [hsame]
    exact fun hall => hleads (hall (p == q))

theorem follows_equality (h : FollowsBoth env scope b x y b₁ both) (hl : env.layout.pointerBits = 64)
    {op : BinaryOp} (hop : op.isComparison = true) (hno : op.isOrdering = false)
    (hx : ((x.ty == y.ty && x.ty.isEquatable) || Lowering.nullAgainst x.ty y.ty ||
      Lowering.nullAgainst y.ty x.ty) = true)
    (ha : Lowering.emitEquality (op == .eq) x.ty x.value y.value b₁ = (a, b')) :
    Follows env scope b ⟨a, .bool⟩ b' fun call func ρ => both call func ρ >>= fun p =>
      Reference.applyBinary env.layout func op p.1 p.2 := by
  have hnull : ∀ {s t : Ty}, Lowering.nullAgainst s t = true → s = .null ∧ s.isReference = true ∧
      t.isReference = true := by
    intro s t hn
    simp only [Lowering.nullAgainst, Bool.and_eq_true, Bool.or_eq_true, beq_iff_eq] at hn
    obtain ⟨rfl, hn | rfl⟩ := hn
    · exact ⟨rfl, rfl, isReference_of_isNullable hn⟩
    · exact ⟨rfl, rfl, rfl⟩
  simp only [Bool.or_eq_true, Bool.and_eq_true, beq_iff_eq] at hx
  rcases hx with (⟨hxy, hx⟩ | hn) | hn
  · cases hr : x.ty.isReference with
    | false => exact follows_equality_of_number h hl hop hno hxy hx hr ha
    | true => exact follows_equality_of_reference h hop hno hr (hxy ▸ hr) (.inl hxy) ha
  · obtain ⟨hx, hr, hr'⟩ := hnull hn
    exact follows_equality_of_reference h hop hno hr hr' (.inr (.inl hx)) ha
  · obtain ⟨hy, hr, hr'⟩ := hnull hn
    exact follows_equality_of_reference h hop hno hr' hr (.inr (.inr hy)) ha

/-! ### Dispatch -/

/-- What the language leaves open may be decided one way. -/
theorem Follows.decide {v : Typed} (q : Bool) {yes no : Caller → String → Locals → Sem Datum}
    (h : Follows env scope b v b' (if q then yes else no)) :
    Follows env scope b v b' fun call func ρ => do
      if ← Sem.ask then yes call func ρ else no call func ρ where
  onward := h.onward
  has := h.has
  runs hS he ht hM hst hall := h.runs hS he ht hM hst (by
    have := hall q
    cases q <;> exact this)

theorem eval_of_literalKind {call : Caller} {func : String} {ρ : Locals} {e : Expr} {kind : LitKind}
    (hk : Lowering.literalKind e = some kind) (expected : Option Ty) :
    Reference.eval env call func ρ e expected = Reference.evalLiteral env e kind expected := by
  cases e with
  | int s v =>
    cases hk
    rfl
  | float s bits =>
    cases hk
    rfl
  | unary s op e => simp only [Reference.eval, hk]
  | binary s op l r => simp only [Reference.eval, hk]
  | _ => cases hk

/-- Two literals that meet take the default type of their kind. -/
theorem literalType_unify (env : Env) {k₁ k₂ kind : LitKind} (hk : k₁.unify? k₂ = some kind) :
    Lowering.literalType env k₁ (some kind.defaultType) = kind.defaultType ∧
      Lowering.literalType env k₂ (some kind.defaultType) = kind.defaultType := by
  have hint : ∀ v w : Int,
      Lowering.literalType env (.int v) (some (LitKind.int w).defaultType) = (LitKind.int w).defaultType := by
    intro v w
    simp only [Lowering.literalType, LitKind.defaultType, Types.LitType.bind, LitKind.bind]
    split
    · rename_i bound hbound
      revert hbound
      split
      · intro h; cases h
      · split
        · intro h
          cases h
          rfl
        · intro h; cases h
    · rfl
    · rfl
  cases k₁ <;> cases k₂ <;> cases hk
  · exact ⟨hint _ _, hint _ _⟩
  · exact ⟨rfl, rfl⟩

/-- Operators that need both operands. -/
theorem Follows.binary {v : Typed} {op : BinaryOp} {l r : Expr} (hop : op.isLogical = false)
    (h : Follows env scope b v b' fun call func ρ =>
      Reference.evalBoth l r (Reference.eval env call func ρ l) (Reference.eval env call func ρ r) >>= fun p =>
        Reference.applyBinary env.layout func op p.1 p.2) :
    Follows env scope b v b' fun call func ρ => Reference.evalBinary env func op l r
      (Reference.eval env call func ρ l) (Reference.eval env call func ρ r) := by
  simp only [Reference.evalBinary, hop, Bool.false_eq_true, if_false]
  split
  · exact .decide false h
  · exact h

/-- A comparison of two literals is decided when it is lowered. -/
theorem follows_folded (hb : Placed env scope b) {op : BinaryOp} {l r : Expr} {k₁ k₂ kind : LitKind}
    {c d : Lowering.Const} (hop : op.isComparison = true) (hl : Lowering.literalKind l = some k₁)
    (hr : Lowering.literalKind r = some k₂) (hk : k₁.unify? k₂ = some kind)
    (hc : Lowering.evalConst env.layout kind.defaultType l = .ok c)
    (hd : Lowering.evalConst env.layout kind.defaultType r = .ok d)
    (ha : Emit.constBool (Lowering.foldCompare op c d) b = (a, b')) :
    Follows env scope b ⟨a, .bool⟩ b' fun call func ρ => Reference.evalBinary env func op l r
      (Reference.eval env call func ρ l) (Reference.eval env call func ρ r) := by
  have hlog : op.isLogical = false := by cases op <;> first | rfl | cases hop
  have hfollows := follows_bool hb ha
  obtain ⟨ht₁, ht₂⟩ := literalType_unify env hk
  have hkinds : (k₁ = .float ↔ kind = .float) ∧ (k₂ = .float ↔ kind = .float) := by
    cases k₁ <;> cases k₂ <;> cases hk <;> simp
  have hsuits : ∀ {k : LitKind} {e : Expr} {c : Lowering.Const}, Lowering.literalKind e = some k →
      (k = .float ↔ kind = .float) → Lowering.evalConst env.layout kind.defaultType e = .ok c →
      c.Suits kind.defaultType := fun he hiff hc =>
    Lowering.suits_evalConst he (fun hf => by rw [hiff.1 hf]; rfl) hc
  have hc' := hsuits hl hkinds.1 hc
  have hd' := hsuits hr hkinds.2 hd
  simp only [Reference.evalBinary, hlog, hop, Bool.false_eq_true, if_false, if_true, Reference.floatComparison?, hl, hr, hk, hc,
    hd, Option.bind_eq_bind, Option.bind_some]
  cases c with
  | float p =>
    cases d with
    | float q => exact .decide true hfollows
    | int n => cases hc'.symm.trans hd'
  | int m =>
    cases d with
    | float q => cases hc'.symm.trans hd'
    | int n =>
      have hna : op.isArithmetic = false := by cases op <;> first | rfl | cases hop
      have hboth : ∀ call func ρ, Reference.evalBoth l r (Reference.eval env call func ρ l)
          (Reference.eval env call func ρ r) =
            pure (⟨.int m, kind.defaultType⟩, ⟨.int n, kind.defaultType⟩) := by
        intro call func ρ
        simp only [Reference.evalBoth, hl, hr, hk, eval_of_literalKind hl, eval_of_literalKind hr,
          Reference.evalLiteral, ht₁, ht₂, hc, hd, Sem.pure_bind]
        rfl
      have hmean : ∀ func, Reference.applyBinary env.layout func op ⟨.int m, kind.defaultType⟩
          ⟨.int n, kind.defaultType⟩ = pure ⟨.bool (Lowering.foldCompare op (.int m) (.int n)), .bool⟩ := by
        intro func
        rw [foldCompare_int hop]
        simp only [Reference.applyBinary, hna, hop, Bool.false_eq_true, if_false, if_true]
        cases op.isOrdering <;> rfl
      simp only [hboth, Sem.pure_bind, hmean]
      exact hfollows

end

end BlockForge.Simulation
