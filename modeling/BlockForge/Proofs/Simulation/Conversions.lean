import BlockForge.Proofs.Simulation.Scalars

/-!
# Conversions

Running the code of `as` converts the value of its operand.
-/

namespace BlockForge.Simulation

open Ir (Builder Emit ValueId)
open Ir.Emit (Onward)
open Lowering (Env Scope Typed)
open Machine (At Holds Part Val World)
open Reference (Caller Datum Locals Sem)
open StateM
open BlockForge.Types (CastKind Layout Ty)
open Word (encode)

/-! ### Words and floats -/

theorem convert_sitofp_encode {source target : Ir.Ty} {bits : Nat} (hs : source.intBits? = some bits)
    (hpos : 0 < bits) {n : Int} (hn : wrapInt true bits n = n) :
    Machine.convert .sitofp source target (.int (encode bits n)) =
      .ok (.float (Machine.roundTo target (Binary64.ofInt n))) := by
  show (Machine.opBits source).bind _ = _
  rw [Machine.opBits_eq hs]
  show Except.ok (Val.float (Machine.roundTo target (Binary64.ofInt (Word.signExtend (encode bits n) bits).toInt))) = _
  rw [Word.toInt_signExtend_encode (Ir.Emit.intBits?_le hs) hpos hn]

theorem convert_uitofp_encode {source target : Ir.Ty} {bits : Nat} (hs : source.intBits? = some bits) {n : Int}
    (hn : wrapInt false bits n = n) :
    Machine.convert .uitofp source target (.int (encode bits n)) =
      .ok (.float (Machine.roundTo target (Binary64.ofNat n.toNat))) := by
  have hword := Word.toNat_encode_of_wrapInt (Ir.Emit.intBits?_le hs) hn
  have hnat : (encode bits n).toNat = n.toNat := by omega
  show Except.ok (Val.float (Machine.roundTo target (Binary64.ofNat (encode bits n).toNat))) = _
  rw [hnat]

theorem convert_fptosi {source target : Ir.Ty} {bits : Nat} (ht : target.intBits? = some bits) (f : UInt64) :
    Machine.convert .fptosi source target (.float f) = .ok (.int (Machine.floatToInt f bits true)) := by
  show (Machine.opBits target).bind _ = _
  rw [Machine.opBits_eq ht]
  rfl

theorem convert_fptoui {source target : Ir.Ty} {bits : Nat} (ht : target.intBits? = some bits) (f : UInt64) :
    Machine.convert .fptoui source target (.float f) = .ok (.int (Machine.floatToInt f bits false)) := by
  show (Machine.opBits target).bind _ = _
  rw [Machine.opBits_eq ht]
  rfl

theorem convert_fpext {source target : Ir.Ty} (f : UInt64) :
    Machine.convert .fpext source target (.float f) = .ok (.float f) := rfl

theorem convert_fptrunc {source target : Ir.Ty} (f : UInt64) :
    Machine.convert .fptrunc source target (.float f) = .ok (.float (Machine.roundTo target f)) := rfl

theorem roundTo_eq_roundAt (l : Layout) {t : Ty} (ht : t.isFloat = true) (bits : UInt64) :
    Machine.roundTo (l.irType t) bits = Reference.roundAt t bits := by
  simp only [Machine.roundTo, Reference.roundAt, irType_eq_f32_iff ht]

/-! ### Classification -/

/-- The conversions that there are. -/
inductive Converts (l : Layout) : Ty → Ty → CastKind → Prop
  | same {t} : Converts l t t .identity
  | ints {s t sbits ssigned tbits tsigned} (hst : s ≠ t) (hs : l.intShape? s = some (sbits, ssigned))
      (ht : l.intShape? t = some (tbits, tsigned)) : Converts l s t (.betweenInts sbits tbits ssigned)
  | toFloat {s t bits signed} (hs : l.intShape? s = some (bits, signed)) (ht : t.isFloat = true) :
      Converts l s t (.intToFloat signed)
  | ofFloat {s t bits signed} (hs : s.isFloat = true) (ht : l.intShape? t = some (bits, signed)) :
      Converts l s t (.floatToInt signed)
  | widen : Converts l .f32 .f64 .floatExtend
  | narrow : Converts l .f64 .f32 .floatTruncate

theorem converts_of_classifyCast? {l : Layout} {s t : Ty} {kind : CastKind}
    (h : l.classifyCast? s t = some kind) : Converts l s t kind := by
  unfold Layout.classifyCast? at h
  split at h
  · rename_i he
    cases h
    exact he ▸ .same
  · rename_i hne
    split at h
    · cases h
    · cases h
    · rename_i a b
      cases a <;> cases b <;> simp at hne <;> cases h
      · exact .widen
      · exact .narrow
    · obtain ⟨⟨bits, signed⟩, hs, rfl⟩ := Option.map_eq_some_iff.1 h
      exact .ofFloat rfl hs
    · obtain ⟨⟨bits, signed⟩, hs, rfl⟩ := Option.map_eq_some_iff.1 h
      exact .toFloat hs rfl
    · split at h
      · rename_i hs ht
        cases h
        exact .ints hne hs ht
      · cases h

theorem ne_string_of_intShape? {l : Layout} {t : Ty} {bits : Nat} {signed : Bool}
    (ht : l.intShape? t = some (bits, signed)) : t ≠ .string := by
  rintro rfl
  cases ht

theorem intShape?_of_isFloat (l : Layout) {t : Ty} (ht : t.isFloat = true) : l.intShape? t = none := by
  cases t <;> simp_all [Ty.isFloat, Layout.intShape?]

/-- A float as an integer is truncated, clamped to the range of the type, and wrapped into it. -/
theorem convertTo_ofFloat {l : Layout} {s t : Ty} {bits : Nat} {signed : Bool} (f : UInt64) (hs : s.isFloat = true)
    (ht : l.intShape? t = some (bits, signed)) (hle : bits ≤ 64) :
    ∃ n, Reference.convertTo l s t (.float f) = some (.int (wrapInt signed bits n)) ∧
      Machine.floatToInt f bits signed = encode bits n := by
  have hne : s ≠ t := by
    rintro rfl
    rw [intShape?_of_isFloat _ hs] at ht
    cases ht
  have hword : Machine.floatToInt f bits signed = Word.mask (Word.ofInt (Binary64.truncateInto f
      (if signed then -pow2 (bits - 1) else 0) (if signed then pow2 (bits - 1) - 1 else pow2 bits - 1))) bits := by
    cases signed <;> rfl
  rw [hword, Word.mask_ofInt hle]
  refine ⟨_, ?_, rfl⟩
  cases signed <;> simp only [Reference.convertTo, hne, if_false, ht, intShape?_of_isFloat _ hs] <;> rfl

theorem convertTo_widen (l : Layout) (f : UInt64) :
    Reference.convertTo l .f32 .f64 (.float f) = some (.float f) := by
  simp only [Reference.convertTo, Layout.intShape?, Reference.roundAt]
  rfl

theorem convertTo_narrow (l : Layout) (f : UInt64) :
    Reference.convertTo l .f64 .f32 (.float f) = some (.float (Reference.roundAt .f32 f)) := by
  simp [Reference.convertTo, Layout.intShape?]

/-! ### Code -/

section

variable {env : Env} {scope : Scope} {b b₁ b' : Builder} {v : Typed} {a : ValueId} {t : Ty}
  {mean : Caller → String → Locals → Sem Datum}

theorem follows_cast (h : Follows env scope b v b₁ mean) (hl : env.layout.pointerBits = 64) {kind : CastKind}
    (hk : env.layout.classifyCast? v.ty t = some kind) (ha : Lowering.emitCast kind v.value (env.ir t) b₁ = (a, b')) :
    Follows env scope b ⟨a, t⟩ b' fun call func ρ => mean call func ρ >>= fun d =>
      match Reference.convertTo env.layout d.type t d.value with
      | some value => pure ⟨value, t⟩
      | none => Sem.stuck := by
  obtain ⟨u, ty⟩ := v
  have hscalar : (env.ir t).isScalar = true := Env.isScalar_ir t
  cases converts_of_classifyCast? hk with
  | same =>
    obtain ⟨rfl, rfl⟩ := Prod.mk.inj (show (u, b₁) = (a, b') from ha)
    refine h.next ⟨.refl h.onward.live, h.has⟩ fun {S ρ g H M d} _ _ _ hM hst hd hv => ?_
    obtain ⟨value, type⟩ := d
    obtain rfl : type = ty := hd
    simp only [Reference.convertTo, if_true]
    exact Leads.pure (.refl hM hst) ⟨rfl, hv⟩
  | @ints _ _ sbits ssigned tbits tsigned hst hs ht =>
    obtain ⟨hsi, hspos, -⟩ := intBits?_ir hl hs
    obtain ⟨hti, -, -⟩ := intBits?_ir hl ht
    rw [emitCast_betweenInts hsi hti h.has] at ha
    obtain ⟨o, hr⟩ := (intResize_reaches h.onward.live hsi h.has hti hspos ssigned _).of_eq ha
    refine h.computes (ne_string_of_intShape? hs) o fun hx => ?_
    obtain ⟨n, rfl, hn, rfl⟩ := hx.int hs
    refine ⟨.int (wrapInt tsigned tbits n), .int (encode tbits n), ?_, ?_, fun hp hM hv => hr hp hM hn hv⟩
    · simp only [Reference.convertTo, hst, if_false, hs, ht]
    · exact ⟨tbits, tsigned, ht, wrapInt_wrapInt .., by rw [Word.encode_wrapInt]⟩
  | @toFloat _ _ bits signed hs ht =>
    obtain ⟨hsi, hpos, -⟩ := intBits?_ir hl hs
    have hne : ty ≠ t := by
      rintro rfl
      rw [intShape?_of_isFloat _ ht] at hs
      cases hs
    have hfits : (if signed then Ir.CastOp.sitofp else .uitofp).Fits (env.ir ty) (env.ir t) := by
      cases signed <;> exact ⟨isInt_of_intBits? hsi, (Env.isFloat_ir t).trans ht⟩
    obtain ⟨o, hr⟩ := (cast_reaches h.onward.live h.has hfits hscalar _).of_eq ha
    refine h.computes (ne_string_of_intShape? hs) o fun hx => ?_
    obtain ⟨n, rfl, hn, rfl⟩ := hx.int hs
    refine ⟨.float (Reference.roundAt t (if signed then Binary64.ofInt n else Binary64.ofNat n.toNat)),
      .float (Reference.roundAt t (if signed then Binary64.ofInt n else Binary64.ofNat n.toNat)), ?_, ⟨ht, rfl⟩,
      fun hp hM hv => hr hp hM hv ?_⟩
    · simp only [Reference.convertTo, hne, if_false, hs, intShape?_of_isFloat _ ht]
    · rw [← roundTo_eq_roundAt env.layout ht]
      cases signed with
      | false =>
        simp only [Bool.false_eq_true, if_false]
        exact convert_uitofp_encode hsi hn
      | true =>
        simp only [if_true]
        exact convert_sitofp_encode hsi hpos hn
  | @ofFloat _ _ bits signed hs ht =>
    obtain ⟨hti, -, hle⟩ := intBits?_ir hl ht
    have hfits : (if signed then Ir.CastOp.fptosi else .fptoui).Fits (env.ir ty) (env.ir t) := by
      cases signed <;> exact ⟨(Env.isFloat_ir ty).trans hs, isInt_of_intBits? hti⟩
    obtain ⟨o, hr⟩ := (cast_reaches h.onward.live h.has hfits hscalar _).of_eq ha
    refine h.computes (ne_string_of_isFloat hs) o fun hx => ?_
    obtain ⟨f, rfl, rfl⟩ := hx.float hs
    obtain ⟨n, hn, hword⟩ := convertTo_ofFloat f hs ht hle
    refine ⟨.int (wrapInt signed bits n), .int (encode bits n), ?_, ⟨bits, signed, ht, wrapInt_wrapInt .., ?_⟩,
      fun hp hM hv => hr hp hM hv ?_⟩
    · rw [hn]
    · rw [Word.encode_wrapInt]
    · rw [← hword]
      cases signed with
      | false => exact convert_fptoui hti f
      | true => exact convert_fptosi hti f
  | widen =>
    obtain ⟨o, hr⟩ := (cast_reaches h.onward.live h.has (show Ir.CastOp.Fits .fpext _ _ from ⟨rfl, rfl⟩) hscalar _).of_eq ha
    refine h.computes (by simp) o fun hx => ?_
    obtain ⟨f, rfl, rfl⟩ := hx.float rfl
    refine ⟨.float f, .float f, ?_, ⟨rfl, rfl⟩, fun hp hM hv => hr hp hM hv (convert_fpext f)⟩
    rw [convertTo_widen]
  | narrow =>
    obtain ⟨o, hr⟩ := (cast_reaches h.onward.live h.has (show Ir.CastOp.Fits .fptrunc _ _ from ⟨rfl, rfl⟩) hscalar _).of_eq ha
    refine h.computes (by simp) o fun hx => ?_
    obtain ⟨f, rfl, rfl⟩ := hx.float rfl
    refine ⟨.float (Reference.roundAt .f32 f), .float (Reference.roundAt .f32 f), ?_, ⟨rfl, rfl⟩,
      fun hp hM hv => hr hp hM hv ?_⟩
    · rw [convertTo_narrow]
    · rw [convert_fptrunc, ← roundTo_eq_roundAt env.layout (t := .f32) rfl]
      rfl

end

end BlockForge.Simulation
