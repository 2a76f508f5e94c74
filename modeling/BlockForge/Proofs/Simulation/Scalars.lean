import BlockForge.Proofs.Lowering.Expressions
import BlockForge.Proofs.Simulation.Folding
import BlockForge.Proofs.Simulation.Progress

/-!
# Constants, variables and operators

Running the code of constants, of variables and of the operators that need all of their operands gives what
they mean.
-/

namespace BlockForge.Simulation

open Ir (Builder Emit ValueId)
open Ir.Emit (Onward)
open Lowering (Env Scope Typed)
open Machine (At Exec Holds Part Toward Val World)
open Reference (Caller Datum Heap Locals Result Sem Value)
open Source (BinaryOp Expr Span UnaryOp)
open StateM
open BlockForge.Types (LitKind Ty)
open Word (encode)

/-! ### Single instructions -/

theorem xor_ones {bits n : Nat} (hn : n < 2 ^ bits) : n ^^^ (2 ^ bits - 1) = 2 ^ bits - 1 - n := by
  have hones : 2 ^ bits - 1 < 2 ^ bits := Nat.sub_lt (Nat.two_pow_pos bits) Nat.one_pos
  have h := congrArg BitVec.toNat (BitVec.xor_allOnes (x := BitVec.ofNat bits n))
  rwa [BitVec.toNat_xor, BitVec.toNat_not, BitVec.toNat_allOnes, BitVec.toNat_ofNat, Nat.mod_eq_of_lt hn] at h

/-- All bits of an integer turned over. -/
theorem intBinary_xor_ones {bits : Nat} (h : bits ≤ 64) (m : Int) :
    Machine.intBinary .xor bits (encode bits m) (encode bits (-1)) = some (encode bits (-m - 1)) := by
  have hpos : (0 : Int) < (2 ^ bits : Nat) := by positivity
  have hm₀ := Int.emod_nonneg m hpos.ne'
  have hm₁ := Int.emod_lt_of_pos m hpos
  have hdiv := Int.emod_add_mul_ediv m (2 ^ bits : Nat)
  have hones : intBits bits (-1) = 2 ^ bits - 1 := by
    have : (-1 : Int) % (2 ^ bits : Nat) = (2 ^ bits : Nat) - 1 := by
      rw [← Int.add_emod_right, Int.emod_eq_of_lt] <;> omega
    rw [intBits, this]
    omega
  have hlt : intBits bits m < 2 ^ bits := by
    unfold intBits
    omega
  rw [Machine.intBinary_xor h, hones, xor_ones hlt]
  refine congrArg some (Word.encode_congr ?_)
  refine (Int.modEq_iff_dvd).2 ⟨-(m / (2 ^ bits : Nat)) - 1, ?_⟩
  have hnat : ((2 ^ bits - 1 - intBits bits m : Nat) : Int) = (2 ^ bits : Nat) - 1 - m % (2 ^ bits : Nat) := by
    unfold intBits
    omega
  rw [hnat]
  linarith

section

variable {b : Builder} (h : b.Live) {x y : ValueId}

include h

theorem constFloat_reaches {t : Ir.Ty} (ht : t.isFloat = true) (n : UInt64) :
    (Emit.constFloat t n).Sat b fun v b' => (Onward b b' ∧ b'.function.Has v t) ∧
      ∀ {w : World} {M : Machine.State}, Part b' w → At w.func b M →
        w.Reaches b M b' (Holds b' · v (.float (Machine.roundTo t n))) := by
  refine ((Ir.Emit.constFloat_onward h ht n).and (Ir.Emit.pushValue_declared h _ _ _)).imp ?_
  rintro v b' ⟨o, d⟩
  exact ⟨o, fun {w M} hp hM => .of_moved (Machine.Declared.moved d hM) (Machine.Declared.float d hp hM.func)⟩

theorem constNull_reaches :
    Emit.constNull.Sat b fun v b' => (Onward b b' ∧ b'.function.Has v .ptr) ∧
      ∀ {w : World} {M : Machine.State}, Part b' w → At w.func b M → w.Reaches b M b' (Holds b' · v .null) := by
  refine ((Ir.Emit.constNull_onward h).and (Ir.Emit.pushValue_declared h _ _ _)).imp ?_
  rintro v b' ⟨o, d⟩
  exact ⟨o, fun {w M} hp hM => .of_moved (Machine.Declared.moved d hM) (Machine.Declared.null d hp hM.func)⟩

theorem constBool_reaches (q : Bool) :
    (Emit.constBool q).Sat b fun v b' => (Onward b b' ∧ b'.function.Has v .i1) ∧
      ∀ {w : World} {M : Machine.State}, Part b' w → At w.func b M →
        w.Reaches b M b' (Holds b' · v (.bool q)) := by
  refine (constInt_reaches h (show Ir.Ty.intBits? .i1 = some 1 from rfl) (if q then 1 else 0)).imp fun v b' ⟨o, hr⟩ => ⟨o, fun hp hM => ?_⟩
  have hmask : Val.int (Word.mask (if q = true then 1 else 0) 1) = .bool q := by cases q <;> rfl
  exact hmask ▸ hr hp hM

theorem load_reaches {t : Ir.Ty} (hx : b.function.Has x .ptr) (ht : t.isScalar = true) (name : String) :
    (Emit.load t x name).Sat b fun v b' => (Onward b b' ∧ b'.function.Has v t) ∧
      ∀ {w : World} {M : Machine.State} {addr : UInt64} {z : Val}, Part b' w → At w.func b M →
        M.frame.value? x = some (.ptr addr) → M.store.memory.load w.module t addr = .ok z →
        w.Reaches b M b' (Holds b' · v z) := by
  refine ((Ir.Emit.load_onward h hx ht).and (Machine.load_emits h hx name)).imp ?_
  rintro v b' ⟨o, e⟩
  exact ⟨o, fun {w M addr z} hp hM hp' hload => e.run hp hM rfl (Machine.perform_load hp' hload)⟩

theorem fneg_reaches {t : Ir.Ty} (hx : b.function.Has x t) (ht : t.isFloat = true) (name : String) :
    (Emit.fneg x name).Sat b fun v b' => (Onward b b' ∧ b'.function.Has v t) ∧
      ∀ {w : World} {M : Machine.State} {z : UInt64}, Part b' w → At w.func b M → Holds b M x (.float z) →
        w.Reaches b M b' (Holds b' · v (.float (Binary64.neg z))) := by
  refine ((Ir.Emit.fneg_onward h hx ht).and (Sat.get_bind (Machine.emit_emits h rfl _ name))).imp ?_
  rintro v b' ⟨o, e⟩
  exact ⟨o, fun {w M z} hp hM hz => e.run hp hM rfl (Machine.perform_fneg hz.value)⟩

/-- The complement of an integer. -/
theorem not_reaches {ir : Ir.Ty} {bits : Nat} (hi : ir.intBits? = some bits) (hx : b.function.Has x ir)
    (name : String) :
    (Emit.not x name).Sat b fun v b' => (Onward b b' ∧ b'.function.Has v ir) ∧
      ∀ {w : World} {M : Machine.State} {m : Int}, Part b' w → At w.func b M →
        Holds b M x (.int (encode bits m)) → w.Reaches b M b' (Holds b' · v (.int (encode bits (-m - 1)))) := by
  have hle := Ir.Emit.intBits?_le hi
  refine Sat.get_bind ?_
  rw [Builder.valueType, hx.valueType_eq]
  refine Sat.bind (constInt_reaches h hi 0xffffffffffffffff) ?_
  rintro ones b₁ ⟨⟨o₁, hones⟩, r₁⟩
  refine (binary_ends o₁.live hi rfl (o₁.has hx) hones name).imp ?_
  rintro v b₂ ⟨⟨o₂, hv⟩, r₂⟩
  refine ⟨⟨o₁.trans o₂, hv⟩, fun {w M m} hp hM hmx => ?_⟩
  refine (r₁ (hp.back o₂) hM).bind fun M₁ m₁ hones₁ => ?_
  have hword : Word.ofInt (-1) = 0xffffffffffffffff := by decide
  have hmask : Word.mask 0xffffffffffffffff bits = encode bits (-1) := hword ▸ Word.mask_ofInt hle (-1)
  rw [hmask] at hones₁
  have := r₂ hp m₁.toAt (m₁.holds hmx) hones₁
  rw [intBinary_xor_ones hle] at this
  exact this

theorem float_binary_reaches {t : Ir.Ty} {op : Ir.BinOp} (ht : t.isFloat = true) (hop : op.isFloat = true)
    (hx : b.function.Has x t) (hy : b.function.Has y t) (name : String) :
    (Emit.binary op x y name).Sat b fun v b' => (Onward b b' ∧ b'.function.Has v t) ∧
      ∀ {w : World} {M : Machine.State} {m n : UInt64}, Part b' w → At w.func b M → Holds b M x (.float m) →
        Holds b M y (.float n) →
        w.Reaches b M b' (Holds b' · v (.float (Machine.roundTo t (Machine.floatBinary op m n)))) := by
  refine ((Ir.Emit.binary_onward h hx hy (hop.trans ht.symm) (.inl ht)).and
    (Machine.binary_emits h hx hy (hop.trans ht.symm) name)).imp ?_
  rintro v b' ⟨o, e⟩
  refine ⟨o, fun {w M m n} hp hM hm hn => ?_⟩
  have hbinary := Machine.binary_float_eq (m := w.module) hop hm.value hn.value
  rw [hM.func, (hp.function.has (o.1.has hx)).valueType_eq] at hbinary
  exact e.run hp hM rfl (Machine.perform_binary hbinary)

theorem fcmp_reaches {t : Ir.Ty} (p : Ir.FloatPred) (ht : t.isFloat = true) (hx : b.function.Has x t)
    (hy : b.function.Has y t) (name : String) :
    (Emit.fcmp p x y name).Sat b fun v b' => (Onward b b' ∧ b'.function.Has v .i1) ∧
      ∀ {w : World} {M : Machine.State} {m n : UInt64}, Part b' w → At w.func b M → Holds b M x (.float m) →
        Holds b M y (.float n) → w.Reaches b M b' (Holds b' · v (.bool (Machine.floatCompare p m n))) := by
  refine ((Ir.Emit.fcmp_onward h hx hy ht).and (Machine.emit_emits h (show Ir.InstKind.isAlloca (.fcmp p x y) = false from rfl) _ name)).imp ?_
  rintro v b' ⟨o, e⟩
  exact ⟨o, fun {w M m n} hp hM hm hn => e.run hp hM rfl (Machine.perform_fcmp hm.value hn.value)⟩

end

/-! ### Constants -/

theorem IsText.grows {m n : Ir.Module} {k : Nat} {text : String} (h : IsText m k text) (hg : m.Grows n) :
    IsText n k text := by
  obtain ⟨t, ht, hbytes⟩ := Option.map_eq_some_iff.1 h
  exact Option.map_eq_some_iff.2 ⟨t, Ir.getElem?_of_prefix hg.globals ht, hbytes⟩

theorem globalString_declared {b : Builder} (h : b.Live) (text : String) :
    (Emit.globalString text).Sat b fun v b' => ∃ (k : Ir.GlobalId) (b₁ : Builder), (b₁.current = b.current ∧
      b₁.function = b.function ∧ IsText b'.module k.index text) ∧
      Ir.Emit.Declared b₁ b' v ⟨.ptr, .global k, ""⟩ := by
  refine Sat.bind (P := fun k b₁ => b₁.Live ∧ k = (b.module.addString text).1 ∧
    b₁ = { b with module := (b.module.addString text).2 }) ?_ ?_
  · exact ⟨(Ir.Emit.onModule_onward (F := (·.addString text)) h (Ir.Emit.addString_grows b.module text) rfl
      h.ok.hosts).1.live, rfl, rfl⟩
  · rintro _ b₁ ⟨hl, rfl, rfl⟩
    refine ((Ir.Emit.pushValue_declared hl _ _ _).and (Ir.Emit.pushValue_onward hl (by exact rfl))).imp ?_
    rintro v b' ⟨d, o, -⟩
    have htext : IsText (b.module.addString text).2 (b.module.addString text).1.index text := by
      simp [IsText, Ir.Module.addString, textBytes]
    exact ⟨_, { b with module := (b.module.addString text).2 }, ⟨rfl, rfl, htext.grows o.ext.module⟩, d⟩

section

variable {env : Env} {scope : Scope} {b b' : Builder} {v : ValueId} {t : Ty}

/-- Code that leaves the store as it is and has a value of its own. -/
theorem Follows.of_reaches {x : Val} {value : Value} (o : Onward b b' ∧ b'.function.Has v (env.ir t))
    (hr : ∀ {w : World} {M : Machine.State}, Part b' w → At w.func b M → w.Reaches b M b' (Holds b' · v x))
    (hx : ∀ {m : Ir.Module} {g : Ground}, Encodes env.layout m g t value x) :
    Follows env scope b ⟨v, t⟩ b' fun _ _ _ => pure ⟨value, t⟩ where
  onward := o.1
  has := o.2
  runs {S ρ g H M} hS he ht hM hst := by
    subst he
    exact (Leads.of_reaches hS.toReady hst (hr ht.toPart hM)).value fun _ hv =>
      ⟨rfl, .of_holds hv hx⟩

variable (hb : Placed env scope b)

include hb

theorem follows_bool {q : Bool} (ha : Emit.constBool q b = (v, b')) :
    Follows env scope b ⟨v, .bool⟩ b' fun _ _ _ => pure ⟨.bool q, .bool⟩ := by
  obtain ⟨o, hr⟩ := (constBool_reaches hb.live q).of_eq ha
  exact .of_reaches o hr ⟨rfl, rfl⟩

theorem follows_char {c : Char} (ha : Emit.constInt (env.ir .char) (UInt64.ofNat c.toNat) b = (v, b')) :
    Follows env scope b ⟨v, .char⟩ b' fun _ _ _ => pure ⟨.int c.toNat, .char⟩ := by
  obtain ⟨o, hr⟩ := (constInt_reaches hb.live (show Ir.Ty.intBits? .i32 = some 32 from rfl) _).of_eq ha
  have hc : c.toNat < 2 ^ 32 := by
    have := c.val.toNat_lt
    exact this
  have hwrap : wrapInt false 32 (c.toNat : Int) = c.toNat := by
    rw [wrapInt_false_iff]
    omega
  refine .of_reaches o hr ⟨32, false, rfl, hwrap, congrArg Val.int ?_⟩
  refine Word.mask_eq (by decide) ?_
  rw [UInt64.toNat_ofNat_of_lt' (by show c.toNat < 2 ^ 64; omega)]

theorem follows_unit (ha : Emit.constInt .i8 0 b = (v, b')) :
    Follows env scope b ⟨v, .unit⟩ b' fun _ _ _ => pure ⟨.unit, .unit⟩ := by
  obtain ⟨o, hr⟩ := (constInt_reaches hb.live (show Ir.Ty.intBits? .i8 = some 8 from rfl) 0).of_eq ha
  exact .of_reaches o hr ⟨rfl, _, rfl⟩

theorem follows_null (ha : Emit.constNull b = (v, b')) :
    Follows env scope b ⟨v, .null⟩ b' fun _ _ _ => pure ⟨.null, .null⟩ := by
  obtain ⟨o, hr⟩ := (constNull_reaches hb.live).of_eq ha
  exact .of_reaches o hr ⟨rfl, rfl⟩

/-- A text is known without a step; it comes into memory where it is used. -/
theorem follows_text {text : String} (ha : Emit.globalString text b = (v, b')) :
    Follows env scope b ⟨v, .string⟩ b' fun _ _ _ => pure ⟨.text text, .string⟩ := by
  obtain ⟨k, b₁, ⟨hcurrent, hfunction, htext⟩, d⟩ := (globalString_declared hb.live text).of_eq ha
  obtain ⟨o, hv⟩ := (Ir.Emit.globalString_onward hb.live text).of_eq ha
  refine ⟨o, hv, fun {S ρ g H M} hS he ht hM hst => ?_⟩
  have hm₁ : Machine.Moved S.world.func b M b₁ M :=
    hM.stay hcurrent (fun _ => by rw [hfunction]) (by rw [hfunction])
  have hm := hm₁.trans (Machine.Declared.moved d hm₁.toAt)
  obtain ⟨hlt, hvalue⟩ := Machine.Declared.value? d ht.toPart hM.func
  rw [hM.func] at hvalue
  exact Leads.pure ⟨hm, hst, List.prefix_refl _⟩
    ⟨rfl, .inr ⟨text, .ptr, k, "", rfl, hlt, hvalue, htext.grows ht.module⟩⟩

/-- A literal. -/
theorem follows_literal {e : Expr} {kind : LitKind} {expected : Option Ty} {c : Lowering.Const}
    (hk : Lowering.literalKind e = some kind)
    (hc : Lowering.evalConst env.layout (Lowering.literalType env kind expected) e = .ok c)
    (ha : Lowering.emitConst env (Lowering.literalType env kind expected) c b = (v, b')) :
    Follows env scope b ⟨v, Lowering.literalType env kind expected⟩ b' fun _ _ _ =>
      Reference.evalLiteral env e kind expected := by
  obtain ⟨hnum, hsuits⟩ := Lowering.literalType_numeric env kind expected
  have hc' := Lowering.suits_evalConst hk hsuits hc
  have hmean : Reference.evalLiteral env e kind expected =
      pure ⟨Reference.constValue (Lowering.literalType env kind expected) c,
        Lowering.literalType env kind expected⟩ := by
    unfold Reference.evalLiteral
    dsimp only
    rw [hc]
  rw [hmean]
  generalize Lowering.literalType env kind expected = t at *
  cases c with
  | float bits =>
    have hf : t.isFloat = true := hc'
    obtain ⟨o, hr⟩ := (constFloat_reaches hb.live ((Env.isFloat_ir t).trans hf) bits).of_eq ha
    refine .of_reaches o hr ⟨hf, congrArg Val.float ?_⟩
    simp only [Machine.roundTo, Reference.roundAt, Env.ir, irType_eq_f32_iff hf]
  | int n =>
    have hi : t.isInteger = true := by
      have : t.isFloat = false := hc'
      simpa [Ty.isNumeric, this] using hnum
    obtain ⟨width, hwidth⟩ : ∃ w, t.intWidth? = some w := by
      cases t <;> simp_all [Ty.isInteger, Ty.intWidth?]
    have hint := integral_of_width (l := env.layout) (w := width)
      (show env.config.pointerBits ∈ [16, 32, 64] by simpa using hb.fits.width) hwidth
    obtain ⟨o, hr⟩ := (constInt_reaches hb.live hint.ir (Word.ofInt n)).of_eq ha
    obtain ⟨bits, hshape⟩ := intShape?_of_isInteger env.layout hi
    have hbits : env.layout.intBits width = bits := by
      cases t <;> simp_all [Types.Layout.intShape?, Ty.intWidth?]
    refine .of_reaches o hr ⟨bits, _, hshape, ?_, ?_⟩
    · rw [← hbits]
      exact wrapInt_of_evalConst hint hc
    · rw [Word.mask_ofInt hint.le, hbits]

end

/-! ### Variables and single operands -/

section

variable {env : Env} {scope : Scope} {b b₁ b' : Builder} {v : Typed} {a : ValueId} {t : Ty}
  {mean : Caller → String → Locals → Sem Datum}

/-- More code that works on the value of an expression. -/
theorem Follows.next (h : Follows env scope b v b₁ mean) (o : Onward b₁ b' ∧ b'.function.Has a (env.ir t))
    {next : String → Datum → Sem Datum}
    (k : ∀ {S : Scene} {ρ : Locals} {g : Ground} {H : Heap} {M : Machine.State} {d : Datum}, S.Open → S.env = env →
      Toward b₁ b' S.world → At S.world.func b₁ M → Stands S scope ρ g H M → d.type = v.ty →
      Denotes S b₁ M g v.value d → Leads S scope ρ b₁ M g b' (next S.world.func.name d H) fun d' g' M' =>
        d'.type = t ∧ Denotes S b' M' g' a d') :
    Follows env scope b ⟨a, t⟩ b' fun call func ρ => mean call func ρ >>= next func where
  onward := h.onward.trans o.1
  has := o.2
  runs hS he ht hM hst :=
    (h.runs hS he (ht.before o.1.ext) hM hst).bind fun a₁ hd =>
      k hS he (ht.since h.onward.ext.toLater) a₁.moved.toAt a₁.stands hd.1 hd.2

/-- Code that computes from the value of an expression and leaves the store as it is. -/
theorem Follows.computes (h : Follows env scope b v b₁ mean) (hs : v.ty ≠ .string)
    (o : Onward b₁ b' ∧ b'.function.Has a (env.ir t)) {next : Datum → Sem Datum}
    (k : ∀ {m : Ir.Module} {g : Ground} {value : Value} {x : Val}, Encodes env.layout m g v.ty value x →
      ∃ value' x', next ⟨value, v.ty⟩ = pure ⟨value', t⟩ ∧
        Encodes env.layout m g t value' x' ∧ ∀ {w : World} {M : Machine.State}, Part b' w → At w.func b₁ M →
          Holds b₁ M v.value x → w.Reaches b₁ M b' (Holds b' · a x')) :
    Follows env scope b ⟨a, t⟩ b' fun call func ρ => mean call func ρ >>= next := by
  refine h.next o fun {S ρ g H M d} hS he ht hM hst hd hv => ?_
  subst he
  obtain ⟨value, type⟩ := d
  obtain rfl : type = v.ty := hd
  obtain ⟨x, hx, hex⟩ := hv.holds hs
  obtain ⟨value', x', hnext, hex', hr⟩ := k hex
  rw [hnext]
  exact (Leads.of_reaches hS.toReady hst (hr ht.toPart hM hx)).value fun ha hv =>
    ⟨rfl, .of_holds hv (hex'.mono ha.grows)⟩

/-- A variable is loaded from its slot. -/
theorem follows_ident (hb : Placed env scope b) {name : String} {slot : ValueId}
    (hs : scope.lookup? name = some (.slot slot t)) (ha : Emit.load (env.ir t) slot name b = (a, b')) :
    Follows env scope b ⟨a, t⟩ b' fun _ _ ρ =>
      match ρ.lookup? name with
      | some d => pure d
      | none => Sem.stuck := by
  obtain ⟨o, hr⟩ := (load_reaches hb.live (hb.lookup hs).1 (Env.isScalar_ir t) name).of_eq ha
  refine ⟨o.1, o.2, fun {S ρ g H M} hS he ht hM hst => ?_⟩
  subst he
  obtain ⟨value, addr, x, hρ, hslot, hload, hx⟩ := hst.lookup hS.toReady hM.func hs
  rw [hρ]
  exact (Leads.of_reaches hS.toReady hst (hr ht.toPart hM hslot hload)).value fun ha hv =>
    ⟨rfl, .of_holds hv (hx.mono ha.grows)⟩

theorem ne_string_of_isFloat (ht : t.isFloat = true) : t ≠ .string := by
  rintro rfl
  cases ht

theorem ne_string_of_isInteger (ht : t.isInteger = true) : t ≠ .string := by
  rintro rfl
  cases ht

theorem ne_string_of_isNumeric (ht : t.isNumeric = true) : t ≠ .string := by
  rintro rfl
  cases ht

theorem follows_plus (h : Follows env scope b v b₁ mean) :
    Follows env scope b v b₁ fun call func ρ => mean call func ρ >>= Reference.applyUnary env.layout .plus := by
  exact h.next ⟨.refl h.onward.live, h.has⟩ fun _ _ _ hM hst hd hv => Leads.pure (.refl hM hst) ⟨hd, hv⟩

theorem follows_fneg (h : Follows env scope b v b₁ mean) (ht : v.ty.isFloat = true)
    (ha : Emit.fneg v.value "neg" b₁ = (a, b')) :
    Follows env scope b ⟨a, v.ty⟩ b' fun call func ρ =>
      mean call func ρ >>= Reference.applyUnary env.layout .neg := by
  obtain ⟨o, hr⟩ := (fneg_reaches h.onward.live h.has ((Env.isFloat_ir _).trans ht) _).of_eq ha
  refine h.computes (ne_string_of_isFloat ht) o fun hx => ?_
  obtain ⟨bits, rfl, rfl⟩ := hx.float ht
  exact ⟨.float (Binary64.neg bits), _, rfl, ⟨ht, rfl⟩, hr⟩

theorem follows_neg (h : Follows env scope b v b₁ mean) (hl : env.layout.pointerBits = 64)
    (ht : v.ty.isInteger = true) (ha : Emit.neg v.value "neg" b₁ = (a, b')) :
    Follows env scope b ⟨a, v.ty⟩ b' fun call func ρ =>
      mean call func ρ >>= Reference.applyUnary env.layout .neg := by
  obtain ⟨bits, hshape⟩ := intShape?_of_isInteger env.layout ht
  obtain ⟨hi, hpos, hle⟩ := intBits?_ir hl hshape
  obtain ⟨o, hr⟩ := (neg_reaches h.onward.live hi h.has _).of_eq ha
  refine h.computes (ne_string_of_isInteger ht) o fun hx => ?_
  obtain ⟨n, rfl, -, rfl⟩ := hx.int hshape
  refine ⟨.int (wrapInt v.ty.isSignedInt bits (-n)), .int (encode bits (-n)), ?_, ?_, hr⟩
  · simp only [Reference.applyUnary, hshape]
  · exact ⟨bits, _, hshape, wrapInt_wrapInt .., by rw [Word.encode_wrapInt]⟩

theorem follows_bitNot (h : Follows env scope b v b₁ mean) (hl : env.layout.pointerBits = 64)
    (ht : v.ty.isInteger = true) (ha : Emit.not v.value "bitnot" b₁ = (a, b')) :
    Follows env scope b ⟨a, v.ty⟩ b' fun call func ρ =>
      mean call func ρ >>= Reference.applyUnary env.layout .bitNot := by
  obtain ⟨bits, hshape⟩ := intShape?_of_isInteger env.layout ht
  obtain ⟨hi, hpos, hle⟩ := intBits?_ir hl hshape
  obtain ⟨o, hr⟩ := (not_reaches h.onward.live hi h.has _).of_eq ha
  refine h.computes (ne_string_of_isInteger ht) o fun hx => ?_
  obtain ⟨n, rfl, -, rfl⟩ := hx.int hshape
  refine ⟨.int (wrapInt v.ty.isSignedInt bits (-n - 1)), .int (encode bits (-n - 1)), ?_, ?_, hr⟩
  · simp only [Reference.applyUnary, hshape]
  · exact ⟨bits, _, hshape, wrapInt_wrapInt .., by rw [Word.encode_wrapInt]⟩

theorem follows_not (h : Follows env scope b v b₁ mean) (ht : v.ty = .bool)
    (ha : Emit.not v.value "not" b₁ = (a, b')) :
    Follows env scope b ⟨a, v.ty⟩ b' fun call func ρ =>
      mean call func ρ >>= Reference.applyUnary env.layout .not := by
  have hv : b₁.function.Has v.value .i1 := by
    have := h.has
    rwa [ht] at this
  obtain ⟨⟨o, hb'⟩, hr⟩ := (not_reaches h.onward.live rfl hv _).of_eq ha
  refine h.computes (by rw [ht]; simp) ⟨o, by rw [ht]; exact hb'⟩ fun hx => ?_
  rw [ht] at hx
  obtain ⟨q, rfl, rfl⟩ := hx.bool
  refine ⟨.bool !q, .bool !q, rfl, ⟨ht, rfl⟩, fun {w M} hp hM hq => ?_⟩
  -- truth values are the integers of one bit
  have hbit : ∀ q : Bool, Val.bool q = .int (encode 1 (if q then 1 else 0)) ∧
      Val.int (encode 1 (-(if q then 1 else 0) - 1)) = .bool !q := by decide
  rw [(hbit q).1] at hq
  rw [← (hbit q).2]
  exact hr hp hM hq

end

end BlockForge.Simulation
