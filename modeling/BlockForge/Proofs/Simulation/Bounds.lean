import BlockForge.Proofs.Lowering.VectorCode
import BlockForge.Proofs.Reference.Literals
import BlockForge.Proofs.Simulation.Computing

/-!
# Bounds checks

An index is brought to pointer width and then compared with the size, both unsigned. So the check is about the
index modulo the range of a pointer: it is exact for every index type that is no wider than a pointer, and lets
some indices of wider types pass that are out of bounds.
-/

namespace BlockForge.Simulation

open Ir (Builder Emit ValueId)
open Ir.Emit (Onward)
open Lowering (Attempt Env Lower Typed callBoundsError emitBoundsCheck)
open Machine (At Exec Holds Moved Part Toward World)
open Reference (InRange inRange_iff_wrapInt)
open Source (Span)
open StateM
open BlockForge.Types (IntWidth Ty)
open Word (encode)

/-! ### The code of a check -/

section

variable {b : Builder} (h : b.Live) {ir : Ir.Ty} (hw : b.module.ptrInt = ir) {index size : ValueId}
  (hi : b.function.Has index ir) (hs : b.function.Has size ir)

include h hw hi hs

theorem callBoundsError_fails : (callBoundsError index size).Sat b fun _ b' => Onward b b' ∧
    ∀ {w : World} {M : Machine.State} {m n : UInt64}, Part b' w → At w.func b M → Holds b M index (.int m) →
      Holds b M size (.int n) → Exec.step w.module w.limit M = .error (.boundsCheck m n) M ∧
        ∀ A K, Machine.Careful w.module A K M := by
  refine Sat.get_bind ?_
  rw [hw]
  have hd : (⟨Lowering.boundsErrorHook, [ir, ir], .void⟩ : Ir.HostDecl) ∈ b.module.knownHosts := by
    simp [Ir.Module.knownHosts, hw, Lowering.boundsErrorHook, Machine.hostBoundsError]
  have hfun := (b.module.declareHost_grows Lowering.boundsErrorHook [ir, ir] .void).2
  have hstay : (Emit.onModule (·.declareHost Lowering.boundsErrorHook [ir, ir] .void)).Sat b fun _ b' =>
      b'.function = b.function ∧ b'.current = b.current := by
    refine ⟨?_, rfl⟩
    simp only [Emit.onModule, Builder.function, Ir.Module.function?, hfun]
  refine Sat.bind ((Ir.Emit.declareHost_onward h hd).and hstay) ?_
  rintro hook b₁ ⟨⟨o₁, hhook⟩, hfun₁, hcur₁⟩
  have hargs : List.Forall₂ b₁.function.Has [index, size] [ir, ir] :=
    .cons (o₁.has hi) (.cons (o₁.has hs) .nil)
  refine Sat.bind ((Ir.Emit.callHost_onward o₁.live hhook hargs (.inl rfl)).and
    (Machine.callHost_emits o₁.live hhook "")) ?_
  rintro _ b₂ ⟨⟨o₂, -⟩, hacts | ⟨hne, -⟩⟩
  · obtain ⟨-, -, acts⟩ := hacts
    refine Sat.pure ⟨o₁.trans o₂, fun {w M m n} hp hM hm hn => ?_⟩
    have m₁ : Moved w.func b M b₁ M := hM.stay hcur₁ (fun _ => by rw [hfun₁]) (by rw [hfun₁])
    have hhost : w.module.host? hook = some ⟨Lowering.boundsErrorHook, [ir, ir], .void⟩ :=
      Ir.getElem?_of_prefix (hp.back o₂).module.hosts hhook
    have hi := acts.inst hp m₁.toAt
    refine ⟨?_, fun A K => Machine.careful_of_quiet hi rfl⟩
    exact Machine.step_error hi (Machine.perform_callHost_error hhost (.cons hm.value (.cons hn.value .nil)) rfl)
  · exact absurd rfl hne

/-- The check goes on, or the run ends, as the comparison says. -/
theorem emitBoundsCheck_checks {bits : Nat} (hbits : ir.intBits? = some bits) (inclusive : Bool) :
    (emitBoundsCheck index size inclusive).Sat b fun _ b' => Onward b b' ∧
      ∀ {w : World} {M : Machine.State} {m n : UInt64}, Toward b b' w → At w.func b M → Holds b M index (.int m) →
        Holds b M size (.int n) →
        if Machine.intCompare (if inclusive then .ule else .ult) bits m n
        then w.Reaches b M b' fun _ => True
        else (∀ M', Machine.Stays w.func b.function.values.size M M' → M'.store = M.store →
          Exec.step w.module w.limit M' = .error (.boundsCheck m n) M' → (∀ A K, Machine.Careful w.module A K M') →
          w.goal M') → w.goal M := by
  refine Sat.bind (icmp_reaches h hbits _ hi hs _) ?_
  rintro ok b₁ ⟨⟨o₁, hok⟩, r₁⟩
  refine Sat.bind (Ir.Emit.appendBlock_appended o₁.live _) fun inBounds b₂ a₂ => ?_
  refine Sat.bind (Ir.Emit.appendBlock_appended a₂.live _) fun outOfBounds b₃ a₃ => ?_
  refine Sat.bind (Ir.Emit.condBr_fresh a₃.live (a₃.has (a₂.has hok)) (a₂.fresh.ext a₃.ext) a₃.fresh)
    fun _ b₄ h₄ => ?_
  have fork := Ir.Emit.forked a₂ a₃ h₄ (.inl rfl)
  refine Sat.bind fork.enterRight ?_
  rintro - b₅ ⟨o₅, fresh₅, hb₅⟩
  have hw₅ : b₅.module.ptrInt = ir := by rw [o₅.ptrInt, o₁.ptrInt, hw]
  refine Sat.bind (callBoundsError_fails o₅.live hw₅ (o₅.has (o₁.has hi)) (o₅.has (o₁.has hs))) ?_
  rintro - b₆ ⟨o₆, fails⟩
  refine Sat.bind (Ir.Emit.unreachable_halted o₆.live) fun _ b₇ h₇ => ?_
  have within₇ : Ir.Emit.Within b₁ b₇ := h₇.within (o₅.trans o₆).toWithin
    (by simp [Ir.Terminator.successors])
  have fresh₇ := (fresh₅.ext o₆.ext).ext h₇.ext
  refine (Ir.Emit.positionAt_fresh h₇.ok within₇ fresh₇ fork.leftNew
    (fork.pathLeft (hb₅ ▸ o₆.ext.trans h₇.ext))).imp ?_
  rintro - b₈ ⟨o₈, hb₈⟩
  refine ⟨o₁.trans o₈, fun {w M m n} htoward hM hm hn => ?_⟩
  -- to move the position leaves the function as it is
  have f₅ : b₅.function = b₄.function := by rw [hb₅]; rfl
  have f₈ : b₈.function = b₇.function := by rw [hb₈]; rfl
  have p₇ : Part b₇ w := ⟨by have := htoward.module; rwa [hb₈] at this, f₈ ▸ htoward.function⟩
  have p₆ := p₇.before h₇.ext.toLater
  have p₄ : Part b₄ w := ⟨by have := (p₆.back o₆).module; rwa [hb₅] at this, f₅ ▸ (p₆.back o₆).function⟩
  have g₅ := o₆.ext.grows.trans h₇.ext.grows
  -- neither block merges anything
  have hplain : ∀ {i : Ir.BlockId}, b₁.function.blocks.size ≤ i.index → i.index < b₇.function.blocks.size →
      b₇.function.NoPhi i → w.func.NoPhi i := fun hle hlt hphi =>
    htoward.plain _ (Nat.le_trans o₁.ext.grows.size hle) (f₈ ▸ hlt) (f₈ ▸ hphi)
  have hleft := hplain fork.leftNew fresh₇.lt_size fresh₇.noPhi
  have hlt₅ : outOfBounds.index < b₅.function.blocks.size := f₅ ▸ fork.right.lt_size
  have hright := hplain fork.rightNew (Nat.lt_of_lt_of_le hlt₅ g₅.size)
    (h₇.ext.noPhi _ (Nat.lt_of_lt_of_le hlt₅ o₆.ext.grows.size) (o₆.ext.noPhi _ hlt₅ (f₅ ▸ fork.right.noPhi)))
  have hreach := r₁ (p₄.before fork.within.ext.toLater) hM hm hn
  generalize Machine.intCompare (if inclusive then .ule else .ult) bits m n = q at hreach
  cases q with
  | true =>
    intro k
    refine hreach fun M₁ m₁ hst₁ hq => ?_
    refine Machine.Halted.branchNew (d := b₈) o₁.live a₂ a₃ h₄ p₄ m₁.toAt hq rfl hleft
      (show b₈.current = some inBounds by rw [hb₈]) ?_ ?_ ?_
    · rw [f₈]
      exact fresh₇.empty
    · rw [f₈, ← f₅]
      exact g₅.valuesSize
    · exact fun M₈ m₈ hst₈ => k M₈ (m₁.trans m₈) (hst₈.trans hst₁) trivial
  | false =>
    intro k
    refine hreach fun M₁ m₁ hst₁ hq => ?_
    refine Machine.Halted.branchNew (d := b₅) o₁.live a₂ a₃ h₄ p₄ m₁.toAt hq rfl hright
      (show b₅.current = some outOfBounds by rw [hb₅]) ?_ ?_ ?_
    · rw [f₅]
      exact fork.right.empty
    · rw [f₅]
    · intro M₅ m₅ hst₅
      have m := m₁.trans m₅
      obtain ⟨hstep, hcareful⟩ := fails p₆ m₅.toAt (m.holds hm) (m.holds hn)
      exact k M₅ m.stays (hst₅.trans hst₁) hstep hcareful

end

/-! ### The check of a variable -/

/-- Brings the index `i` to pointer width and checks it against the size `n`; gives the index. -/
def lowerChecked (env : Env) (inclusive : Bool) (s s' : Span) : Attempt Typed := do
  let index ← Lowering.lowerIndex (Lowering.operand env (.ident s "i"))
  let size ← Lowering.lowerIdent env "n" s'
  Lower.emit (emitBoundsCheck index size.value inclusive)
  pure ⟨index, .usize⟩

/-- Below the size, or equal to it if `inclusive`. -/
def InBounds (inclusive : Bool) (index size : Int) : Prop := if inclusive then index ≤ size else index < size

instance (inclusive : Bool) (index size : Int) : Decidable (InBounds inclusive index size) :=
  inferInstanceAs (Decidable (if inclusive then _ else _))

theorem intCompare_inBounds {bits : Nat} (hle : bits ≤ 64) (inclusive : Bool) (i : Int) {n : Int}
    (hn : wrapInt false bits n = n) :
    Machine.intCompare (if inclusive then .ule else .ult) bits (encode bits i) (encode bits n) =
      decide (InBounds inclusive (i % (2 ^ bits : Nat)) n) := by
  rw [← Word.encode_wrapInt false bits i]
  cases inclusive with
  | false => exact decide_eq_decide.2 (Machine.encode_lt_iff hle (wrapInt_wrapInt ..) hn)
  | true => exact decide_eq_decide.2 (Machine.encode_le_iff hle (wrapInt_wrapInt ..) hn)

theorem integral_usize {env : Env} (hl : env.config.pointerBits ∈ [16, 32, 64]) :
    Integral env.layout .usize env.config.pointerBits := integral_of_width (w := .ptr) hl rfl

theorem Sited.ptrInt {env : Env} {vars : List Variable} {st : Lowering.State} (h : Sited env vars st) :
    st.builder.module.ptrInt = env.ir .usize := by
  rw [Ir.Module.ptrInt, h.pointerBits]
  rfl

/-- An index is extended by its own sign, or truncated. -/
theorem lowerIndex_converts {env : Env} (hl : env.config.pointerBits ∈ [16, 32, 64]) {vars : List Variable}
    {st : Lowering.State} (h : Sited env vars st) {x : Variable} (hx : x ∈ vars) {bits : Nat}
    (hi : Integral env.layout x.type bits) (hr : wrapInt x.type.isSignedInt bits x.value = x.value) (s : Span) :
    (Lowering.lowerIndex (Lowering.operand env (.ident s x.name))).run.Sat st fun r st' =>
      ∃ v, r = some v ∧ Yields env vars .usize (encode env.config.pointerBits x.value) st st' v := by
  have hint : x.type.isInteger = true := by
    have := hi.width
    cases ht : x.type <;> rw [ht] at this <;> first | rfl | cases this
  simp only [Lowering.lowerIndex, Lowering.operand, Lowering.lowerExpr]
  refine sat_bind_of_some (lowerIdent_yields h hx s) ?_
  rintro v st₁ ⟨hv, -⟩
  rw [if_pos hint]
  refine Attempt.get_sat_bind ?_
  dsimp only
  rw [(h.onward hv.onward hv.scope).ptrInt]
  refine emit_some_sat (intResize_reaches hv.onward.live hi.ir hv.has (integral_usize hl).ir hi.pos
    x.type.isSignedInt "idx") ?_
  rintro u b ⟨⟨o, hu⟩, resizes⟩
  refine ⟨u, rfl, hv.emit o hu fun hp hM hvalue => ?_⟩
  rw [hi.wordOf_eq] at hvalue
  exact resizes hp hM hr hvalue

/-- The check passes if the index is in bounds modulo the range of a pointer. -/
theorem lowerChecked_computes {env : Env} (hl : env.config.pointerBits ∈ [16, 32, 64]) {t : Ty} {bits : Nat}
    (ht : Integral env.layout t bits) {i n : Int} (hi : wrapInt t.isSignedInt bits i = i)
    (hn : wrapInt false env.config.pointerBits n = n) (inclusive : Bool) (s s' : Span) :
    Computes env [⟨"i", t, i⟩, ⟨"n", .usize, n⟩] 0 (lowerChecked env inclusive s s') .usize
      (if InBounds inclusive (i % (2 ^ env.config.pointerBits : Nat)) n
        then .ok (encode env.config.pointerBits i)
        else .error (.boundsCheck (encode env.config.pointerBits i) (encode env.config.pointerBits n))) := by
  intro st hst
  let x : Variable := ⟨"i", t, i⟩
  let y : Variable := ⟨"n", .usize, n⟩
  refine sat_bind_of_some (g := id) (lowerIndex_converts hl hst.toSited (x := x) (by simp [x]) ht hi s) ?_
  rintro index st₁ hindex
  have h₁ := hst.toSited.onward hindex.onward hindex.scope
  refine sat_bind_of_some (lowerIdent_yields h₁ (x := y) (by simp [y]) s') ?_
  rintro size st₂ ⟨hsize, -⟩
  have o₁ := hindex.onward
  have o₂ := hsize.onward
  have h₂ := h₁.onward o₂ hsize.scope
  refine Attempt.emit_sat_bind (emitBoundsCheck_checks o₂.live h₂.ptrInt (o₂.has hindex.has) hsize.has
    (integral_usize hl).ir inclusive) ?_
  rintro - b₃ ⟨o₃, checks⟩
  refine Sat.pure ⟨index, rfl, ⟨(o₁.trans o₂).trans o₃, o₃.has (o₂.has hindex.has)⟩, ?_⟩
  intro w base M _ htoward hM hknown _
  have p₂ := htoward.toPart.back o₃
  refine Finishes.of_reaches (hindex.runs (p₂.back o₂) hM hknown) fun M₁ m₁ hst₁ hi₁ => ?_
  have hknown₁ := hknown.moved m₁ hst₁ hindex.scope
  refine Finishes.of_reaches (hsize.runs p₂ m₁.toAt hknown₁) fun M₂ m₂ _ hn₂ => ?_
  rw [(integral_usize hl).wordOf_eq] at hn₂
  have hrun := checks (htoward.since (o₁.trans o₂).ext.toLater) m₂.toAt (m₂.holds hi₁) hn₂
  rw [intCompare_inBounds (integral_usize hl).le inclusive i hn] at hrun
  by_cases hb : InBounds inclusive (i % (2 ^ env.config.pointerBits : Nat)) n
  · rw [if_pos hb]
    rw [decide_eq_true hb, if_pos rfl] at hrun
    exact fun k => hrun fun M₃ m₃ _ _ => k M₃ m₃ (m₃.holds (m₂.holds hi₁))
  · rw [if_neg hb]
    rw [decide_eq_false hb, if_neg Bool.false_ne_true] at hrun
    exact fun k => hrun fun M' _ _ hstep _ => k M' M' hstep

/-! ### Calls -/

/-- A function of an index and a size that checks the index. -/
def checking (env : Env) (t : Ty) (inclusive : Bool) (s s' : Span) : Ir.Module :=
  computing env [("i", t), ("n", .usize)] .usize (lowerChecked env inclusive s s')

theorem checking_invoked {env : Env} (hl : env.config.pointerBits ∈ [16, 32, 64]) {t : Ty} {width : IntWidth}
    (ht : t.intWidth? = some width) {i n : Int} (hi : InRange t.isSignedInt (env.layout.intBits width) i)
    (hn : InRange false env.config.pointerBits n) (inclusive : Bool) (s s' : Span) {limit : Nat} (hlimit : 0 < limit)
    {store : Machine.Store} (hroom : Roomy store 2) :
    ∃ least, ∀ fuel, least ≤ fuel → (Machine.invoke (checking env t inclusive s s') limit fuel store ⟨0⟩
        [.int (encode (env.layout.intBits width) i), .int (encode env.config.pointerBits n)]).result =
      if InBounds inclusive (i % (2 ^ env.config.pointerBits : Nat)) n
      then .ok (some (.int (encode env.config.pointerBits i)))
      else .error (.boundsCheck (encode env.config.pointerBits i) (encode env.config.pointerBits n)) := by
  have hint : Integral env.layout t _ := integral_of_width hl ht
  have hsize := integral_usize hl
  have hcomputes := lowerChecked_computes hl hint ((inRange_iff_wrapInt hint.pos).1 hi)
    ((inRange_iff_wrapInt hsize.pos).1 hn) inclusive s s'
  have hvars : ∀ z ∈ [(⟨"i", t, i⟩ : Variable), ⟨"n", .usize, n⟩], z.Integral env := by
    rw [List.forall_mem_cons, List.forall_mem_singleton]
    exact ⟨Variable.integral hl ht, Variable.integral (w := .ptr) hl rfl⟩
  obtain ⟨least, hleast⟩ := hcomputes.invoked hl (by simp) hvars hlimit hroom
  refine ⟨least, fun fuel hfuel => ?_⟩
  have hresult := hleast fuel hfuel
  rw [arguments, List.map_cons, List.map_singleton, hint.wordOf_eq, hsize.wordOf_eq] at hresult
  refine hresult.trans ?_
  split <;> rfl

/-- The part of the integers on which the check is exact. It has every index of a type that is no wider than a
pointer. -/
def Direct (pointerBits : Nat) (i : Int) : Prop := -(2 ^ (pointerBits - 1) : Nat) ≤ i ∧ i < (2 ^ pointerBits : Nat)

theorem direct_of_le {pointerBits bits : Nat} (hle : bits ≤ pointerBits) {signed : Bool} {i : Int}
    (hi : InRange signed bits i) : Direct pointerBits i := by
  have hpow : 2 ^ bits ≤ 2 ^ pointerBits := Nat.pow_le_pow_right (by omega) hle
  have hhalf : 2 ^ (bits - 1) ≤ 2 ^ (pointerBits - 1) := Nat.pow_le_pow_right (by omega) (by omega)
  have hhalf' : 2 ^ (bits - 1) ≤ 2 ^ pointerBits := Nat.pow_le_pow_right (by omega) (by omega)
  have hpos : 0 < 2 ^ (pointerBits - 1) := by positivity
  cases signed <;> simp only [InRange, if_true, if_false, Bool.false_eq_true] at hi <;> unfold Direct <;> omega

/-- Modulo the range of a pointer such an index is in bounds if it is. -/
theorem Direct.inBounds_iff {pointerBits : Nat} (hpos : 0 < pointerBits) {i n : Int} (h : Direct pointerBits i)
    (hn : n < (2 ^ (pointerBits - 1) : Nat)) (inclusive : Bool) :
    InBounds inclusive (i % (2 ^ pointerBits : Nat)) n ↔ 0 ≤ i ∧ InBounds inclusive i n := by
  have hdouble : 2 ^ pointerBits = 2 * 2 ^ (pointerBits - 1) := by
    rw [← Nat.pow_succ']
    congr 1
    omega
  obtain ⟨hlow, hhigh⟩ := h
  have hmod : i % (2 ^ pointerBits : Nat) = if 0 ≤ i then i else i + (2 ^ pointerBits : Nat) := by
    split
    · exact Int.emod_eq_of_lt ‹_› hhigh
    · rw [← Int.add_emod_right]
      exact Int.emod_eq_of_lt (by omega) (by omega)
  rw [hmod]
  cases inclusive <;> simp only [InBounds, if_true, if_false, Bool.false_eq_true] <;> split <;> omega

/-- A checked index passes if it is in bounds modulo the range of a pointer, and else the run ends in a bounds
error. For an index of a type no wider than a pointer, and for every other direct one, that is to be in bounds. -/
theorem index_check_exact {env : Env} (hl : env.config.pointerBits ∈ [16, 32, 64]) {t : Ty} {width : IntWidth}
    (ht : t.intWidth? = some width) {i n : Int} (hi : InRange t.isSignedInt (env.layout.intBits width) i)
    (hn : 0 ≤ n ∧ n < (2 ^ (env.config.pointerBits - 1) : Nat)) (inclusive : Bool) (s s' : Span) {limit : Nat}
    (hlimit : 0 < limit) {store : Machine.Store} (hroom : Roomy store 2) :
    (∃ least, ∀ fuel, least ≤ fuel → (Machine.invoke (checking env t inclusive s s') limit fuel store ⟨0⟩
        [.int (encode (env.layout.intBits width) i), .int (encode env.config.pointerBits n)]).result =
      if InBounds inclusive (i % (2 ^ env.config.pointerBits : Nat)) n
      then .ok (some (.int (encode env.config.pointerBits i)))
      else .error (.boundsCheck (encode env.config.pointerBits i) (encode env.config.pointerBits n))) ∧
    (env.layout.intBits width ≤ env.config.pointerBits ∨ Direct env.config.pointerBits i →
      (InBounds inclusive (i % (2 ^ env.config.pointerBits : Nat)) n ↔ 0 ≤ i ∧ InBounds inclusive i n)) := by
  have hpos := (integral_usize hl).pos
  have hsize : InRange false env.config.pointerBits n := by
    have hlt : 2 ^ (env.config.pointerBits - 1) < 2 ^ env.config.pointerBits :=
      Nat.pow_lt_pow_right (by omega) (by omega)
    exact ⟨hn.1, by omega⟩
  refine ⟨checking_invoked hl ht hi hsize inclusive s s' hlimit hroom, fun h => ?_⟩
  exact (h.elim (direct_of_le · hi) id).inBounds_iff hpos hn.2 inclusive

/-- An index of minus one fails the check against the greatest size. -/
theorem index_check_exact_minusOne :
    (∃ least, ∀ fuel, least ≤ fuel →
      (Machine.invoke (checking (bareEnv 64) (.signed .w8) true default default) 1 fuel ⟨{}, #[], #[]⟩ ⟨0⟩
        [.int 255, .int 9223372036854775807]).result =
        .error (.boundsCheck 18446744073709551615 9223372036854775807)) ∧
    ¬InBounds true ((-1) % (2 ^ 64 : Nat)) 9223372036854775807 := by
  have hl : (bareEnv 64).config.pointerBits ∈ [16, 32, 64] := by decide
  have hroom : Roomy ⟨{}, #[], #[]⟩ 2 := ⟨by decide, by decide⟩
  obtain ⟨hrun, hexact⟩ := index_check_exact hl (t := .signed .w8) rfl (i := -1) (n := 9223372036854775807) (by decide)
    (by decide) true default default Nat.one_pos hroom
  have hout : ¬InBounds true ((-1) % (2 ^ 64 : Nat)) 9223372036854775807 := fun h =>
    absurd ((hexact (.inl (by decide))).1 h).1 (by decide)
  obtain ⟨least, hleast⟩ := hrun
  exact ⟨⟨least, fun fuel hfuel => (hleast fuel hfuel).trans (if_neg hout)⟩, hout⟩

/-- Where pointers have 32 bits, a negative index of 64 bits is in bounds. -/
theorem negative_index_passes :
    (∃ least, ∀ fuel, least ≤ fuel →
      (Machine.invoke (checking (bareEnv 32) (.signed .w64) false default default) 1 fuel ⟨{}, #[], #[]⟩ ⟨0⟩
        [.int (encode 64 (-4294967296)), .int (encode 32 1)]).result = .ok (some (.int 0))) ∧
    ¬(0 ≤ (-4294967296 : Int) ∧ InBounds false (-4294967296) 1) := by
  refine ⟨?_, by decide⟩
  have hl : (bareEnv 32).config.pointerBits ∈ [16, 32, 64] := by decide
  have hroom : Roomy ⟨{}, #[], #[]⟩ 2 := ⟨by decide, by decide⟩
  obtain ⟨least, hleast⟩ := checking_invoked hl (t := .signed .w64) rfl (i := -4294967296) (n := 1) (by decide)
    (by decide) false default default Nat.one_pos hroom
  exact ⟨least, fun fuel hfuel => (hleast fuel hfuel).trans (if_pos (by decide))⟩

end BlockForge.Simulation
