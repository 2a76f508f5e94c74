import BlockForge.Proofs.Reference.Widths
import BlockForge.Proofs.Simulation.Computing
import BlockForge.Proofs.Simulation.Exactness

/-!
# Conversions of literals

A literal expression that is converted takes the target type at once if it folds there, and else keeps its own
type and is converted when the program runs. Both ways give the same, unless a left shift loses other bits at the
target type than at its own.
-/

namespace BlockForge.Simulation

open Ir (Builder Emit ValueId)
open Ir.Emit (Onward)
open Lowering (Attempt Env Typed castHint evalConst literalKind literalType lowerCast lowerExpr lowerLiteral)
open Machine (At Holds Part World)
open Reference (Foldable InRange Steady literalValue)
open Source (Expr Span TypeExpr)
open StateM
open BlockForge.Types (IntWidth Layout LitKind Ty)
open Word (encode)

/-! ### The type that a literal takes -/

/-- The literal of an integer kind is the value of the expression, or zero if that has an operator. -/
theorem literalKind_value {e : Expr} {k : Int} (hk : literalKind e = some (.int k)) (signed : Bool) (bits : Nat) :
    k = 0 ∨ k = literalValue signed bits e := by
  fun_induction literalKind e generalizing k with
  | case1 s v =>
    cases hk
    exact .inr rfl
  | case3 s e ih =>
    obtain ⟨kind, hkind, hint⟩ := Option.map_eq_some_iff.1 hk
    cases kind with
    | float => cases hint
    | int i =>
      cases hint
      rw [literalValue]
      rcases ih hkind with rfl | rfl
      · exact .inl neg_zero
      · exact .inr rfl
  | case4 s e ih => exact ih hk
  | case5 s op a b _ ka kb hka hkb =>
    obtain ⟨kind, -, hint⟩ := Option.map_eq_some_iff.1 hk
    cases kind with
    | float => cases hint
    | int i =>
      cases hint
      exact .inl rfl
  | _ => cases hk

section

variable {l : Layout} {t : Ty} {bits : Nat} (h : Integral l t bits)

include h

theorem bind_int {k : Int} (hk : InRange t.isSignedInt bits k) : LitKind.bind l (.int k) t = .ok t := by
  have hw := h.width
  cases t with
  | signed w =>
    cases hw
    simp only [LitKind.bind, Layout.intRange?, signedRange_eq h.pos h.le]
    refine if_pos ?_
    simp only [InRange, Ty.isSignedInt, if_true] at hk
    omega
  | unsigned w =>
    cases hw
    simp only [LitKind.bind, Layout.intRange?, unsignedRange_eq h.le]
    refine if_pos ?_
    simp only [InRange, Ty.isSignedInt, Bool.false_eq_true, if_false] at hk
    omega
  | _ => cases hw

theorem bind_of_foldable {e : Expr} (he : Foldable t.isSignedInt bits e) {k : Int}
    (hk : literalKind e = some (.int k)) : LitKind.bind l (.int k) t = .ok t := by
  refine bind_int h ?_
  rcases literalKind_value hk t.isSignedInt bits with rfl | rfl
  · exact he.inRange.between (by omega)
  · exact he.inRange

end

theorem lowerExpr_literal {e : Expr} {kind : LitKind} (hk : literalKind e = some kind) (env : Env)
    (expected : Option Ty) : lowerExpr env e expected = lowerLiteral env e kind expected := by
  cases e with
  | int s v => cases hk; rfl
  | float s u => cases hk; rfl
  | unary s op e => rw [lowerExpr, hk]
  | binary s op a b => rw [lowerExpr, hk]
  | _ => cases hk

/-- An integer literal expression takes the target type of a conversion where it folds. -/
theorem castHint_eq {env : Env} {t : Ty} {bits : Nat} (h : Integral env.layout t bits) {e : Expr} {k : Int}
    (hk : literalKind e = some (.int k)) :
    castHint env e t = if Foldable t.isSignedInt bits e then some t else none := by
  simp only [castHint, hk]
  by_cases hfold : Foldable t.isSignedInt bits e
  · have heval := (evalConst_eq_ok_iff h hk _).2 ⟨hfold, rfl⟩
    simp only [bind_of_foldable h hfold hk, heval, if_pos hfold]
  · rw [if_neg hfold]
    cases heval : evalConst env.layout t e with
    | error err => cases LitKind.bind env.layout (.int k) t <;> rfl
    | ok c =>
      obtain ⟨v, rfl, -⟩ := exists_int_of_evalConst h hk heval
      exact absurd ((evalConst_eq_ok_iff h hk v).1 heval).1 hfold

/-! ### Code -/

section

variable {env : Env} {vars : List Variable} {st : Lowering.State}

theorem constInt_slots {b : Builder} (h : b.Live) (ir : Ir.Ty) (n : UInt64) :
    (Emit.constInt ir n).Sat b fun _ b' => b'.function.slots = b.function.slots := by
  unfold Sat
  show (b.modifyFunction (·.addValue _)).function.slots = _
  rw [Ir.Builder.function_modifyFunction h.ok.valid, Ir.Function.slots_addValue]

/-- A literal that folds yields its value, without a slot. -/
theorem lowerLiteral_yields (h : Sited env vars st) {t : Ty} {bits : Nat} (hi : Integral env.layout t bits)
    {kind : LitKind} {expected : Option Ty} (ht : literalType env kind expected = t) {e : Expr} {v : Int}
    (he : evalConst env.layout t e = .ok (.int v)) :
    (lowerLiteral env e kind expected).run.Sat st fun r st' =>
      ∃ u, r = some ⟨u, t⟩ ∧ Yields env vars t (encode bits v) st st' u ∧
        st'.builder.function.slots = st.builder.function.slots := by
  subst ht
  unfold lowerLiteral
  dsimp only
  rw [he]
  refine Attempt.emit_sat_bind ((constInt_reaches h.live hi.ir (Word.ofInt v)).and (constInt_slots h.live ..)) ?_
  rintro u b ⟨⟨⟨o, hu⟩, run⟩, hslots⟩
  refine Sat.pure ⟨u, rfl, ⟨o, hu, rfl, fun hp hM _ => ?_⟩, hslots⟩
  rw [← Word.mask_ofInt hi.le]
  exact run hp hM

theorem classifyCast?_integral {l : Layout} {s t : Ty} {sbits tbits : Nat} (hs : Integral l s sbits)
    (ht : Integral l t tbits) : l.classifyCast? s t = some (.betweenInts sbits tbits s.isSignedInt) := by
  have hsw := hs.width
  have htw := ht.width
  unfold Layout.classifyCast?
  split
  · rename_i he
    subst he
    rw [hsw] at htw
    cases htw
    simp [Types.CastKind.betweenInts]
  · cases s <;> cases t <;> first | (cases hsw; cases htw; rfl) | (cases htw; done) | cases hsw

/-- A conversion of an integer yields the same integer, wrapped into the target. -/
theorem lowerCast_yields {source target : Ty} {sbits tbits : Nat} (hs : Integral env.layout source sbits)
    (ht : Integral env.layout target tbits) {type : TypeExpr} (htype : env.tables.resolve type = .ok target)
    {operand : Lowering.Operand} {n : Int} (hn : wrapInt source.isSignedInt sbits n = n)
    (hoperand : (operand.lower (castHint env operand.expr target)).run.Sat st fun r st' =>
      ∃ u, r = some ⟨u, source⟩ ∧ Yields env vars source (encode sbits n) st st' u) (s : Span) :
    (lowerCast env operand type s).run.Sat st fun r st' =>
      ∃ u, r = some ⟨u, target⟩ ∧ Yields env vars target (encode tbits n) st st' u := by
  have hresolve : Attempt.resolve env type s = pure target := by rw [Attempt.resolve, htype]
  rw [lowerCast, hresolve]
  show (operand.lower (castHint env operand.expr target) >>= _ : Attempt _).run.Sat st _
  refine sat_bind_of_some hoperand fun u st₁ hu => ?_
  dsimp only
  rw [classifyCast?_integral hs ht]
  have hcast : (Lowering.emitCast (.betweenInts sbits tbits source.isSignedInt) u (env.ir target)).Sat st₁.builder
      fun v b => (Onward st₁.builder b ∧ b.function.Has v (env.ir target)) ∧
        ∀ {w : World} {M : Machine.State}, Part b w → At w.func st₁.builder M →
          Holds st₁.builder M u (.int (encode sbits n)) →
          w.Reaches st₁.builder M b (Holds b · v (.int (encode tbits n))) := by
    have hresize := intResize_reaches hu.onward.live hs.ir hu.has ht.ir hs.pos source.isSignedInt "conv"
    unfold Sat
    rw [emitCast_betweenInts hs.ir (show (env.ir target).intBits? = some tbits from ht.ir) hu.has]
    exact ⟨hresize.1, fun hp hM hv => hresize.2 hp hM hn hv⟩
  refine Attempt.emit_sat_bind hcast ?_
  rintro v b ⟨⟨o, hv⟩, run⟩
  exact Sat.pure ⟨v, rfl, hu.emit o hv run⟩

end

/-! ### A variable with the value of a literal -/

/-- A lowering that yields a word computes it. -/
theorem Computes.of_yields {env : Env} {vars : List Variable} {code : Attempt Typed} {t : Ty} {z : UInt64}
    (h : ∀ st, Opened env vars st → code.run.Sat st fun r st' =>
      ∃ u, r = some ⟨u, t⟩ ∧ Yields env vars t z st st' u) : Computes env vars 0 code t (.ok z) := by
  intro st hst
  refine (h st hst).imp ?_
  rintro _ st' ⟨u, rfl, hu⟩
  exact ⟨u, rfl, ⟨hu.onward, hu.has⟩, fun _ htoward hM hknown _ k =>
    hu.runs htoward.toPart hM hknown fun M' m _ hz => k M' m hz⟩

section

variable {env : Env} {vars : List Variable} {x : Variable} (hx : x.Integral env) {init : Lowering.Operand}
  (hinit : ∀ st, Opened env vars st → (init.lower none).run.Sat st fun r st' => ∃ u, r = some ⟨u, x.type⟩ ∧
    Yields env vars x.type (wordOf env x.type x.value) st st' u ∧
    st'.builder.function.slots = st.builder.function.slots)
  (hname : x.name ∉ vars.map (·.name)) (s : Span)

include hx hinit hname

/-- A declaration computes the value of the variable and puts it into a new slot. -/
theorem lowerVar_declares {st : Lowering.State} (hst : Opened env vars st) :
    (Lowering.lowerVar env x.name none init s).Sat st fun _ st₂ => ∃ u st₁ slot, Opened env vars st₁ ∧
      Yields env vars x.type (wordOf env x.type x.value) st st₁ u ∧ Declares env x.name x.type u st₁ st₂ slot := by
  have hnull : x.type ≠ .null := by
    obtain ⟨bits, hi, -⟩ := hx
    have hw := hi.width
    rintro he
    rw [he] at hw
    cases hw
  have hinferred : (Lowering.lowerInferred x.name init).run.Sat st fun r st₁ => ∃ u, r = some ⟨u, x.type⟩ ∧
      Yields env vars x.type (wordOf env x.type x.value) st st₁ u ∧
      st₁.builder.function.slots = st.builder.function.slots := by
    refine sat_bind_of_some (hinit st hst) fun u st₁ hu => ?_
    rw [if_neg hnull]
    exact Sat.pure ⟨u, rfl, hu⟩
  refine Sat.bind hinferred ?_
  rintro _ st₁ ⟨u, rfl, hu, hslots⟩
  have hst₁ : Opened env vars st₁ :=
    { toSited := hst.toSited.onward hu.onward hu.scope
      free := by
        rw [hu.scope]
        exact hst.free
      slots := by
        rw [hslots]
        exact hst.slots }
  refine (bindSlot_declares hu.onward.live "variable" x.name x.type (.inl ⟨_, hu.has⟩) s
    (hst₁.free x.name hname)).imp ?_
  rintro - st₂ ⟨slot, d⟩
  exact ⟨u, st₁, slot, hst₁, hu, d⟩

theorem Computes.declare {more : Nat} {code : Attempt Typed} {t : Ty} {r : Except Machine.Fault UInt64}
    (h : Computes env (vars ++ [x]) more code t r) :
    Computes env vars (more + 1) (do Lowering.lowerVar env x.name none init s; code) t r := by
  intro st hst
  refine Attempt.lift_sat_bind (lowerVar_declares hx hinit hname s hst) ?_
  rintro - st₂ ⟨u, st₁, slot, hst₁, hu, d⟩
  refine (h st₂ (hst₁.declare hname d)).imp ?_
  rintro _ st₃ ⟨v, rfl, ⟨o₃, hv⟩, run⟩
  refine ⟨v, rfl, ⟨(hu.onward.trans d.onward).trans o₃, hv⟩, ?_⟩
  intro w base M hw htoward hM hknown hroom
  obtain ⟨bits, hi, h8⟩ := hx
  have p₂ := htoward.toPart.back o₃
  have p₁ := p₂.back d.onward
  refine Finishes.of_reaches (hu.runs p₁ hM hknown) fun M₁ m₁ hstore hz => ?_
  have hknown₁ := hknown.moved m₁ hstore hu.scope
  rw [hi.wordOf_eq] at hz
  have hlt : base + (st₁.builder.function.slots Ir.Id.entry).length < Machine.maxBlocks := by
    rw [hst₁.slots]
    omega
  refine Finishes.after (b := st₂.builder) (P := Known env (vars ++ [x]) st₂ w base) (fun e => ?_)
    fun M₂ m₂ hknown₂ => ?_
  · refine d.runs hw p₂ m₁.toAt hknown₁.slotted hlt hi.ir h8 hz.value (p₁.function.has hu.has).valueType_eq ?_
    intro M₂ m₂ hslotted hkeep hothers
    rw [← hi.wordOf_eq] at hkeep
    exact e M₂ m₂ (hknown₁.declare hst₁.toSited hname d hslotted hkeep hothers)
  · refine run hw (htoward.since (hu.onward.trans d.onward).ext.toLater) m₂.toAt hknown₂ ?_
    simp only [List.length_append, List.length_singleton]
    omega

end

/-! ### Calls -/

/-- `e as type` -/
def lowerCastOf (env : Env) (e : Expr) (type : TypeExpr) (s : Span) : Attempt Typed :=
  lowerExpr env (.cast s e type) none

/-- `var x = e`, and then `x as type` -/
def lowerCastVia (env : Env) (e : Expr) (type : TypeExpr) (s s₁ s₂ : Span) : Attempt Typed := do
  Lowering.lowerStmt env (.var s₁ "x" none e)
  lowerCastOf env (.ident s₂ "x") type s

section

variable {env : Env} (hl : env.config.pointerBits ∈ [16, 32, 64]) {t : Ty} {bits : Nat}
  (ht : Integral env.layout t bits) {type : TypeExpr} (htype : env.tables.resolve type = .ok t) {e : Expr} {k : Int}
  (hk : literalKind e = some (.int k)) {v : Int} (hv : evalConst env.layout .i32 e = .ok (.int v))

include hl ht htype hk hv

/-- The conversion of a literal expression computes its value at the target where it folds, else at its own type. -/
theorem lowerCastOf_computes (s : Span) :
    Computes env [] 0 (lowerCastOf env e type s) t
      (.ok (encode bits (if Foldable t.isSignedInt bits e then literalValue t.isSignedInt bits e else v))) := by
  have hown : Integral env.layout .i32 32 := integral_of_width (w := .w32) hl rfl
  refine .of_yields fun st hst => ?_
  have hhint := castHint_eq ht hk
  unfold lowerCastOf
  rw [lowerExpr]
  split
  · rename_i hfold
    rw [if_pos hfold] at hhint
    have heval := (evalConst_eq_ok_iff ht hk _).2 ⟨hfold, rfl⟩
    refine lowerCast_yields ht ht htype (wrapInt_of_evalConst ht heval) ?_ s
    dsimp only
    rw [hhint, lowerExpr_literal hk]
    have htakes : literalType env (.int k) (some t) = t := by
      simp only [literalType, Types.LitType.bind, bind_of_foldable ht hfold hk]
      rfl
    refine (lowerLiteral_yields hst.toSited ht htakes heval).imp ?_
    rintro _ _ ⟨u, hr, hu, -⟩
    exact ⟨u, hr, hu⟩
  · rename_i hfold
    rw [if_neg hfold] at hhint
    refine lowerCast_yields hown ht htype (wrapInt_of_evalConst hown hv) ?_ s
    dsimp only
    rw [hhint, lowerExpr_literal hk]
    refine (lowerLiteral_yields hst.toSited hown rfl hv).imp ?_
    rintro _ _ ⟨u, hr, hu, -⟩
    exact ⟨u, hr, hu⟩

/-- The conversion of a variable with the value of the expression computes the value at its own type. -/
theorem lowerCastVia_computes (s s₁ s₂ : Span) :
    Computes env [] 1 (lowerCastVia env e type s s₁ s₂) t (.ok (encode bits v)) := by
  have hown : Integral env.layout .i32 32 := integral_of_width (w := .w32) hl rfl
  let x : Variable := ⟨"x", .i32, v⟩
  have hcast : Computes env ([] ++ [x]) 0 (lowerCastOf env (.ident s₂ "x") type s) t (.ok (encode bits v)) := by
    refine .of_yields fun st hst => ?_
    unfold lowerCastOf
    rw [lowerExpr]
    refine lowerCast_yields hown ht htype (wrapInt_of_evalConst hown hv) ?_ s
    simp only [lowerExpr]
    refine (lowerIdent_yields hst.toSited (x := x) (by simp) s₂).imp fun _ _ ⟨u, hr, hu, _⟩ => ⟨u, hr, ?_⟩
    rwa [hown.wordOf_eq] at hu
  refine hcast.declare (Variable.integral (w := .w32) hl rfl) (fun st hst => ?_) (by simp) s₁
  show (lowerExpr env e none).run.Sat st _
  rw [lowerExpr_literal hk, hown.wordOf_eq]
  exact lowerLiteral_yields hst.toSited hown rfl hv

end

/-- A word that is computed without variables is what a call without arguments returns. -/
theorem Computes.returned {env : Env} (hl : env.config.pointerBits ∈ [16, 32, 64]) {more : Nat} {code : Attempt Typed}
    {t : Ty} {z : UInt64} (h : Computes env [] more code t (.ok z)) {limit : Nat} (hlimit : 0 < limit)
    {store : Machine.Store} (hroom : Roomy store more) :
    ∃ least, ∀ fuel, least ≤ fuel →
      (Machine.invoke (computing env [] t code) limit fuel store ⟨0⟩ []).result = .ok (some (.int z)) :=
  h.invoked hl .nil (by simp) hlimit (by simpa using hroom)

/-- Where the two types agree on the left shifts that count, the value at the target is the value at the own type,
wrapped. -/
theorem encode_literalValue {t : Ty} {bits : Nat} {e : Expr} {v : Int} (hv : v = literalValue true 32 e)
    (h : Steady true t.isSignedInt 32 bits (decide (32 < bits)) e) :
    encode bits (literalValue t.isSignedInt bits e) = encode bits v := by
  subst hv
  by_cases hbits : 32 < bits
  · rw [(h.agree (k := 32) (le_refl _) (by omega)).1 (decide_eq_true hbits)]
  · exact (Word.encode_congr (h.agree (by omega) (le_refl _)).2).symm

/-- A literal expression that folds at its own type can be converted to every integer type. The conversion gives
its value at the target if it folds there, and else its own value, wrapped; a variable of its value, converted,
always gives its own value, wrapped. The two agree, unless the expression folds at the target with another value of
a left shift of which the whole value counts. -/
theorem cast_of_literal {env : Env} (hl : env.config.pointerBits ∈ [16, 32, 64]) {t : Ty} {width : IntWidth}
    (ht : t.intWidth? = some width) {type : TypeExpr} (htype : env.tables.resolve type = .ok t) {e : Expr} {k : Int}
    (hk : literalKind e = some (.int k)) {v : Int} (hv : evalConst env.layout .i32 e = .ok (.int v)) (s s₁ s₂ : Span)
    {limit : Nat} (hlimit : 0 < limit) {store : Machine.Store} (hroom : Roomy store 1) :
    let bits := env.layout.intBits width
    let gives (code : Attempt Typed) (z : Int) : Prop := ∃ least, ∀ fuel, least ≤ fuel →
      (Machine.invoke (computing env [] t code) limit fuel store ⟨0⟩ []).result = .ok (some (.int (encode bits z)))
    gives (lowerCastOf env e type s)
      (if Foldable t.isSignedInt bits e then literalValue t.isSignedInt bits e else v) ∧
    gives (lowerCastVia env e type s s₁ s₂) (wrapInt t.isSignedInt bits v) ∧
    ((Foldable t.isSignedInt bits e → Steady true t.isSignedInt 32 bits (decide (32 < bits)) e) →
      gives (lowerCastOf env e type s) (wrapInt t.isSignedInt bits v)) := by
  intro bits gives
  have hi : Integral env.layout t bits := integral_of_width hl ht
  have hown : Integral env.layout .i32 32 := integral_of_width (w := .w32) hl rfl
  have hvalue := ((evalConst_eq_ok_iff hown hk v).1 hv).2
  have hof := (lowerCastOf_computes hl hi htype hk hv s).returned hl hlimit ⟨hroom.1, Nat.le_of_lt hroom.2⟩
  refine ⟨hof, ?_, fun hsteady => ?_⟩
  · simp only [gives, Word.encode_wrapInt]
    exact (lowerCastVia_computes hl hi htype hk hv s s₁ s₂).returned hl hlimit hroom
  · simp only [gives, Word.encode_wrapInt]
    by_cases hfold : Foldable t.isSignedInt bits e
    · rwa [if_pos hfold, encode_literalValue hvalue (hsteady hfold)] at hof
    · rwa [if_neg hfold] at hof

/-- A left shift that fills eight bits and more: converted to eight unsigned bits it folds, to another value. -/
theorem cast_of_literal_narrow :
    let tree : Expr := .binary default .shl (.int default 3) (.int default 7)
    ∃ least, ∀ fuel, least ≤ fuel →
      (Machine.invoke (computing (bareEnv 64) [] (.unsigned .w8) (lowerCastOf (bareEnv 64) tree (.named "u8") default))
        1 fuel ⟨{}, #[], #[]⟩ ⟨0⟩ []).result = .ok (some (.int 128)) := by
  intro tree
  have htype : (bareEnv 64).tables.resolve (.named "u8") = .ok (.unsigned .w8) := rfl
  have heval : evalConst (bareEnv 64).layout .i32 tree = .ok (.int 384) := by decide +kernel
  have hroom : Roomy ⟨{}, #[], #[]⟩ 1 := ⟨by decide, by decide⟩
  obtain ⟨-, -, hagree⟩ := cast_of_literal (by decide) (show _ = some IntWidth.w8 from rfl) htype (e := tree) (k := 0)
    rfl heval default default default Nat.one_pos hroom
  exact hagree fun _ => by decide

/-- The highest bit of its own type, converted to 64 bits: the expression is positive there, its value negative. -/
theorem cast_of_highest_bit :
    let tree : Expr := .binary default .shl (.int default 1) (.int default 31)
    let gives (code : Attempt Typed) (z : Int) : Prop := ∃ least, ∀ fuel, least ≤ fuel →
      (Machine.invoke (computing (bareEnv 64) [] (.signed .w64) code) 1 fuel ⟨{}, #[], #[]⟩ ⟨0⟩ []).result =
        .ok (some (.int (encode 64 z)))
    evalConst (bareEnv 64).layout .i32 tree = .ok (.int (-2147483648)) ∧
    gives (lowerCastOf (bareEnv 64) tree (.named "i64") default) 2147483648 ∧
    gives (lowerCastVia (bareEnv 64) tree (.named "i64") default default default) (-2147483648) ∧
    encode 64 2147483648 ≠ encode 64 (-2147483648) := by
  intro tree gives
  have hl : (bareEnv 64).config.pointerBits ∈ [16, 32, 64] := by decide
  have ht : Integral (bareEnv 64).layout (.signed .w64) 64 := integral_of_width (w := .w64) hl rfl
  have heval : evalConst (bareEnv 64).layout .i32 tree = .ok (.int (-2147483648)) := by decide +kernel
  have htype : (bareEnv 64).tables.resolve (.named "i64") = .ok (.signed .w64) := rfl
  have hroom : Roomy ⟨{}, #[], #[]⟩ 1 := ⟨by decide, by decide⟩
  have hof := (lowerCastOf_computes hl ht htype (k := 0) rfl heval default).returned hl Nat.one_pos
    ⟨hroom.1, Nat.le_of_lt hroom.2⟩
  have hvia := (lowerCastVia_computes hl ht htype (k := 0) rfl heval default default default).returned hl
    Nat.one_pos hroom
  have hwide : (if Foldable true 64 tree then literalValue true 64 tree else -2147483648) = 2147483648 := by
    decide +kernel
  rw [show Ty.isSignedInt (.signed .w64) = true from rfl, hwide] at hof
  exact ⟨heval, hof, hvia, by decide⟩

end BlockForge.Simulation
