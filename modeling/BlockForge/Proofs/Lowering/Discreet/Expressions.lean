import BlockForge.Proofs.Lowering.Discreet.Sequences
import BlockForge.Proofs.Lowering.Expressions

/-!
# Expressions keep functions discreet

By induction over expressions: whatever an expression is lowered to, it is a plain value of the expression's type,
and what was emitted on the way uses slots only to read variables.
-/

namespace BlockForge.Lowering

open Diagnostic (Diag)
open Ir (BlockId Emit Fact HostDecl Knows ValueId)
open Ir.Emit
open Lower Attempt
open Source (BinaryOp Expr Span TypeExpr UnaryOp)
open StateM
open BlockForge.Types (LitKind Ty)

variable {own : Set HostDecl} {env : Env} {known : List Fact} {α : Type} {gives : α → List Fact}

/-! ### Operators -/

/-- Of two results in turn, that of the first is still known. -/
theorem mem_both {xs ys : List Fact} : ∀ p ∈ xs ++ ys, p ∈ ys ++ (xs ++ known) := by
  simp only [List.mem_append]
  tauto

theorem lowerLiteral_obeys (e : Expr) (kind : LitKind) (expected : Option Ty) :
    (lowerLiteral env e kind expected).Obeys own env known (Typed.facts env) := by
  unfold lowerLiteral
  dsimp only
  split
  · exact typed_obeys (emitConst_obeys ..)
  · exact reject_obeys _

section

variable {l r : Operand} (hl : l.Discreet own env) (hr : r.Discreet own env)

include hl hr

theorem lowerBoth_obeys (expected : Option Ty) :
    (lowerBoth l r expected).Obeys own env known fun p => p.1.facts env ++ p.2.facts env := by
  refine (lift_obeys (hl.obeys expected)).bind fun x => (lift_obeys (hr.obeys expected)).bind fun y => ?_
  refine (of_obeys (Typed.facts env) (by simp +contextual)).bind fun v => ?_
  refine (of_obeys (Typed.facts env) (by simp +contextual)).bind fun w => ?_
  exact pure_obeys mem_both

theorem lowerOperands_obeys (op : BinaryOp) (span : Span) :
    (lowerOperands op l r span).Obeys own env known fun p => p.1.facts env ++ p.2.facts env := by
  unfold lowerOperands
  split
  · split
    · exact lowerBoth_obeys hl hr _
    · exact reject_obeys _
  · refine (hr.obeys none).bind fun y => (hl.obeys _).bind fun x => ?_
    exact pure_obeys (by simp only [← List.append_assoc]; exact fun _ hp => List.mem_append_left _ hp)
  · refine (hl.obeys none).bind fun x => (hr.obeys _).bind fun y => ?_
    exact pure_obeys mem_both
  · exact lowerBoth_obeys hl hr _

end

section

variable {l r : Typed} (hl : Knows known l.value (env.ir l.ty)) (hr : Knows known r.value (env.ir r.ty))

include hl hr

theorem lowerArithmetic_obeys (op : BinaryOp) (span : Span) :
    (lowerArithmetic env op l r span).Obeys own env known (Typed.facts env) := by
  unfold lowerArithmetic
  refine ite_obeys (reject_obeys _) (ite_obeys (reject_obeys _) (get_obeys fun s _ _ => ite_obeys (reject_obeys _) ?_))
  refine (Attempt.emit_obeys (emitArithmetic_obeys op l.ty hl hr.1)).bind fun x => ?_
  cases x with
  | none => exact fail_obeys
  | some v => exact pure_obeys (by simp +contextual)

theorem lowerComparison_obeys (op : BinaryOp) (span : Span) :
    (lowerComparison op l r span).Obeys own env known (Typed.facts env) := by
  unfold lowerComparison
  refine ite_obeys (ite_obeys (reject_obeys _) (ite_obeys (reject_obeys _) ?_)) (ite_obeys ?_ (reject_obeys _))
  · exact typed_obeys (emitOrdering_obeys op l.ty hl.1 hr.1)
  · exact typed_obeys (emitEquality_obeys _ l.ty hl.1 hr.1)

theorem lowerBitwise_obeys (op : BinaryOp) (span : Span) :
    (lowerBitwise env op l r span).Obeys own env known (Typed.facts env) := by
  unfold lowerBitwise
  refine ite_obeys ?_ (ite_obeys ?_ (reject_obeys _))
  · split
    · rename_i h
      obtain ⟨hi, hj⟩ : l.ty.isInteger = true ∧ r.ty.isInteger = true := by simpa using h
      exact typed_obeys (emitShift_obeys op l.ty (Env.isInt_of_isInteger hi) (Env.isInt_of_isInteger hj) hl hr _)
    · exact reject_obeys _
  · exact typed_obeys (emitBitwise_obeys op hl hr.1)

end

theorem foldComparison?_obeys {op : BinaryOp} {e f : Expr} {x : Attempt Typed}
    (h : foldComparison? env op e f = some x) : x.Obeys own env known (Typed.facts env) := by
  obtain ⟨a, -, h⟩ := Option.bind_eq_some_iff.1 h
  obtain ⟨b, -, h⟩ := Option.bind_eq_some_iff.1 h
  obtain ⟨kind, -, h⟩ := Option.bind_eq_some_iff.1 h
  dsimp only at h
  split at h <;> cases h
  · exact typed_obeys (constBool_obeys _)
  · exact reject_obeys _
  · exact reject_obeys _

theorem lowerBoolOperand_obeys (op : BinaryOp) {o : Operand} (h : o.Discreet own env) :
    (lowerBoolOperand op o).Obeys own env known fun v => Fact.value v .i1 := by
  refine (h.obeys _).bind fun v => ?_
  split
  · rename_i hv
    have hty : env.ir v.ty = .i1 := congrArg env.ir hv
    exact pure_obeys (by simp +contextual [hty])
  · exact reject_obeys _

theorem lowerShortCircuit_obeys (op : BinaryOp) {l r : Operand} (hl : l.Discreet own env) (hr : r.Discreet own env) :
    (lowerShortCircuit op l r).Obeys own env known (Typed.facts env) := by
  unfold lowerShortCircuit
  refine (lowerBoolOperand_obeys op hl).bind fun x => get_obeys fun s _ _ => ?_
  refine (of_obeys (fun _ => []) (by cases s.builder.current <;> simp)).bind fun origin => ?_
  refine (Attempt.emit_obeys (appendBlock_obeys _)).bind fun rhs => ?_
  refine (Attempt.emit_obeys (appendBlock_obeys _)).bind fun merge => ?_
  refine (Attempt.emit_obeys (.ite (condBr_obeys (by simp) (by simp) (by simp))
    (condBr_obeys (by simp) (by simp) (by simp)))).bind fun _ => ?_
  refine (Attempt.emit_obeys (positionAt_obeys (by simp))).bind fun _ => ?_
  refine (lift_obeys (lowerBoolOperand_obeys op hr)).bind fun y => get_obeys fun s _ _ => get_obeys fun s' _ _ => ?_
  have hend : ∀ {known' : List Fact} (exit : BlockId), Fact.inner merge ∈ known' →
      (∀ p ∈ y.elim [] (Fact.value · .i1), p ∈ known') → (do
      Lower.emit (Emit.positionAt merge)
      let r ← Attempt.of y
      let short ← Lower.emit (Emit.constBool !(op == .and))
      let value ← Lower.emit (Emit.phi .i1 [(short, origin), (r, exit)] (if op == .and then "and" else "or"))
      pure ⟨value, .bool⟩ : Attempt Typed).Obeys own env known' (Typed.facts env) := by
    intro known' exit hmerge hy
    refine (Attempt.emit_obeys (positionAt_obeys hmerge)).bind fun _ => ?_
    refine (of_obeys (Fact.value · .i1) fun p hp => List.mem_append_right _ (hy p hp)).bind fun r => ?_
    refine (Attempt.emit_obeys (constBool_obeys _)).bind fun short => ?_
    exact typed_obeys (phi_obeys (by simp) (by simp) _ _)
  refine ite_obeys ((Attempt.emit_obeys (br_obeys (by simp))).bind fun _ => ?_) ?_
  · exact hend _ (by simp) (by simp +contextual)
  · exact hend _ (by simp) (by simp +contextual)

theorem lowerBinary_obeys (op : BinaryOp) {l r : Operand} (hl : l.Discreet own env) (hr : r.Discreet own env)
    (span : Span) : (lowerBinary env op l r span).Obeys own env known (Typed.facts env) := by
  unfold lowerBinary
  refine ite_obeys (lowerShortCircuit_obeys op hl hr) ?_
  split
  · rename_i folded h
    split at h
    · exact foldComparison?_obeys h
    · cases h
  · refine (lowerOperands_obeys hl hr op span).bind fun p => ?_
    exact ite_obeys (lowerArithmetic_obeys (by simp) (by simp) op span)
      (ite_obeys (lowerComparison_obeys (by simp) (by simp) op span) (lowerBitwise_obeys (by simp) (by simp) op span))

theorem lowerUnary_obeys (op : UnaryOp) {o : Operand} (h : o.Discreet own env) (span : Span) (expected : Option Ty) :
    (lowerUnary op o span expected).Obeys own env known (Typed.facts env) := by
  unfold lowerUnary
  refine (h.obeys _).bind fun v => ?_
  cases op with
  | plus => exact ite_obeys (pure_obeys (by simp +contextual)) (reject_obeys _)
  | neg =>
    refine ite_obeys ?_ (ite_obeys ?_ (reject_obeys _))
    · exact typed_obeys (fneg_obeys (env.ir v.ty) (by simp) _)
    · exact typed_obeys (neg_obeys (env.ir v.ty) (by simp) _)
  | not =>
    exact ite_obeys (typed_obeys (not_obeys (env.ir v.ty) (by simp) _)) (reject_obeys _)
  | bitNot =>
    exact ite_obeys (typed_obeys (not_obeys (env.ir v.ty) (by simp) _)) (reject_obeys _)

/-! ### Vectors -/

theorem vectorShape_obeys {elem : Ty} {f : VectorShape → Attempt α}
    (h : ∀ v : VectorShape, v.allocator = env.allocator → v.elem = env.ir elem → (f v).Obeys own env known gives) :
    (liftM (vectorShape env elem) >>= f : Attempt α).Obeys own env known gives :=
  get_obeys (f := fun s => f ⟨env.tables.vector, env.ir elem, s.builder.module.sizeOf (env.ir elem), bufferKind elem,
    env.allocator⟩) fun _ _ _ => h _ rfl rfl

theorem lowerIndex_obeys {o : Operand} (h : o.Discreet own env) :
    (lowerIndex o).Obeys own env known fun v => Fact.value v (env.ir .usize) := by
  refine (h.obeys _).bind fun v => ?_
  split
  · rename_i hi
    have hint : (env.ir v.ty).isInt = true := Env.isInt_of_isInteger hi
    refine get_obeys fun s hs _ => ?_
    rw [hs.builder.ptrInt]
    exact Attempt.emit_obeys (intResize_obeys (by simp) hint (Env.isInt_of_isInteger rfl) _ _)
  · exact reject_obeys _

theorem lowerElement_obeys {o : Operand} (h : o.Discreet own env) (elem : Ty) (context : String) :
    (lowerElement o elem context).Obeys own env known fun v => [.plain v] :=
  (Operand.lowerAs_obeys h elem context).bind fun _ => pure_obeys (by simp)

theorem lowerIndexAndElement_obeys {i v : Operand} (hi : i.Discreet own env) (hv : v.Discreet own env) (elem : Ty)
    (context : String) : (lowerIndexAndElement i v elem context).Obeys own env known
      fun p => Fact.value p.1 (env.ir .usize) ++ [.plain p.2] := by
  refine (lift_obeys (lowerIndex_obeys hi)).bind fun x => ?_
  refine (lift_obeys (lowerElement_obeys hv elem context)).bind fun y => ?_
  refine (of_obeys (Fact.value · (env.ir .usize)) (by simp +contextual)).bind fun a => ?_
  refine (of_obeys (fun v => [.plain v]) (by simp +contextual)).bind fun b => ?_
  exact pure_obeys mem_both

section

variable (ha : env.allocator.Discreet own)

include ha

theorem lowerVectorNew_obeys (elem : TypeExpr) (span : Span) :
    (lowerVectorNew env elem span).Obeys own env known (Typed.facts env) := by
  refine (resolve_obeys ..).bind fun ty => vectorShape_obeys fun v hv _ => get_obeys fun s _ _ => ?_
  exact typed_obeys (VectorShape.new_obeys (hv ▸ ha) _ _)

theorem lowerVectorOp_obeys (op : VectorOp) {desc : ValueId} (hd : Fact.plain desc ∈ known) (elem : Ty)
    {args : List Operand} (h : ∀ o ∈ args, o.Discreet own env) :
    (lowerVectorOp env op desc elem args).Obeys own env known (Typed.facts env) := by
  unfold lowerVectorOp
  refine vectorShape_obeys fun v hv he => ?_
  have ha' : v.allocator.Discreet own := hv ▸ ha
  split
  · exact typed_obeys (v.loadSize_obeys hd)
  · exact typed_obeys (v.loadCapacity_obeys hd)
  · refine (lowerIndex_obeys (h _ (by simp))).bind fun i => typed_obeys ?_
    rw [← he]
    exact v.getAt_obeys (by simp [hd]) (by simp)
  · refine (lowerIndexAndElement_obeys (h _ (by simp)) (h _ (by simp)) ..).bind fun p => ?_
    exact (Attempt.emit_obeys (v.setAt_obeys (by simp [hd]) (by simp) (by simp))).bind fun _ => lift_obeys unit_obeys
  · refine (lowerElement_obeys (h _ (by simp)) ..).bind fun x => ?_
    exact (Attempt.emit_obeys (VectorShape.append_obeys ha' (by simp [hd]) (by simp))).bind fun _ =>
      lift_obeys unit_obeys
  · refine (lowerIndexAndElement_obeys (h _ (by simp)) (h _ (by simp)) ..).bind fun p => ?_
    exact (Attempt.emit_obeys (VectorShape.insertAt_obeys ha' (by simp [hd]) (by simp) (by simp))).bind fun _ =>
      lift_obeys unit_obeys
  · refine (lowerIndex_obeys (h _ (by simp))).bind fun i => typed_obeys ?_
    rw [← he]
    exact v.removeAt_obeys (by simp [hd]) (by simp)
  · exact fail_obeys

theorem lowerVectorMethod_obeys {receiver : Typed} (hr : Fact.plain receiver.value ∈ known) (elem : Ty)
    (method : String) {args : List Operand} (h : ∀ o ∈ args, o.Discreet own env) (span : Span) :
    (lowerVectorMethod env receiver elem method args span).Obeys own env known (Typed.facts env) := by
  have hgive : ∀ d, (do Lower.report d; visitAll args; Attempt.fail : Attempt Typed).Obeys own env known
      (Typed.facts env) := fun d =>
    (lift_obeys (report_obeys d)).bind fun _ => (lift_obeys (visitAll_obeys h)).bind fun _ => fail_obeys
  unfold lowerVectorMethod
  split
  · exact hgive _
  · exact ite_obeys (hgive _) (lowerVectorOp_obeys ha _ hr _ h)

end

theorem lowerIndexing_obeys {r i : Operand} (hr : r.Discreet own env) (hi : i.Discreet own env) (span : Span) :
    (lowerIndexing env r i span).Obeys own env known (Typed.facts env) := by
  refine (lift_obeys (hr.obeys none)).bind fun recv => ?_
  split
  · exact (lift_obeys (i.visit_obeys hi)).bind fun _ => fail_obeys
  · split
    · exact (lift_obeys (report_obeys _)).bind fun _ => (lift_obeys (i.visit_obeys hi)).bind fun _ => fail_obeys
    · refine (lowerIndex_obeys hi).bind fun n => vectorShape_obeys fun v _ he => typed_obeys ?_
      rw [← he]
      exact v.getAt_obeys (by simp) (by simp)

theorem lowerIndexAssign_obeys {r i v : Operand} (hr : r.Discreet own env) (hi : i.Discreet own env)
    (hv : v.Discreet own env) (span : Span) : (lowerIndexAssign env r i v span).Obeys own env known fun _ => [] := by
  have hvisit : ∀ known, Lower.Obeys own env known (visitAll [i, v]) fun _ => [] := fun _ =>
    visitAll_obeys (by simp [hi, hv])
  refine (lift_obeys (hr.obeys none)).bind fun recv => ?_
  split
  · exact (lift_obeys (hvisit _)).bind fun _ => fail_obeys
  · split
    · exact (lift_obeys (report_obeys _)).bind fun _ => (lift_obeys (hvisit _)).bind fun _ => fail_obeys
    · refine (lowerIndexAndElement_obeys hi hv ..).bind fun p => vectorShape_obeys fun shape _ _ => ?_
      exact Attempt.emit_obeys (shape.setAt_obeys (by simp) (by simp) (by simp))

/-! ### Calls -/

theorem lowerArgs_obeys (callee : String) {args : List (Operand × Ty)} (h : ∀ a ∈ args, a.1.Discreet own env)
    (position : Nat) :
    Lower.Obeys own env known (lowerArgs callee position args) fun r => r.elim [] (·.map .plain) := by
  induction args generalizing known position with
  | nil => exact .pure (by simp)
  | cons a rest ih =>
    refine StateM.Discipline.Obeys.bind (Operand.lowerAs_obeys (h a (by simp)) ..) fun v => ?_
    refine (ih (fun b hb => h b (by simp [hb])) _).bind fun vs => .pure ?_
    cases v with
    | none => simp
    | some x =>
      cases vs with
      | none => simp
      | some ys => simp +contextual

/-- A call of a function of the program gives a value of its return type. -/
theorem emitCall_obeys {symbol : String} {sig : Signature} (hs : env.tables.function? symbol = some sig)
    (name : String) {args : List ValueId} (hargs : ∀ v ∈ args, Fact.plain v ∈ known) :
    Lower.Obeys own env known (emitCall sig name args) (Typed.facts env) := by
  have hret : env.layout.returnIrType sig.ret ≠ .void → env.layout.returnIrType sig.ret = env.ir sig.ret := by
    unfold Types.Layout.returnIrType
    split
    · exact fun h => absurd rfl h
    · exact fun _ => rfl
  refine .learn [.returns (.func sig.func) (env.layout.returnIrType sig.ret)] (fun s h => ?_) ?_
  · exact List.forall_mem_singleton.2 (h.declared symbol sig hs)
  · refine (Lower.emit_obeys (call_obeys (by simpa using hargs) List.mem_cons_self _ hret name)).bind fun r => ?_
    cases r with
    | none => exact unit_obeys
    | some v => exact .pure fun _ hp => List.mem_append_left _ hp

section

variable {args : List Operand} (h : ∀ o ∈ args, o.Discreet own env)

include h

theorem abandonCall_obeys (d : Option Diag) : (abandonCall d args).Obeys own env known (Typed.facts env) := by
  have hvisit : ∀ known, (do visitAll args; Attempt.fail : Attempt Typed).Obeys own env known (Typed.facts env) :=
    fun _ => (lift_obeys (visitAll_obeys h)).bind fun _ => fail_obeys
  unfold abandonCall
  cases d with
  | some d => exact (lift_obeys (report_obeys d)).bind fun _ => hvisit _
  | none => exact hvisit _

theorem lowerCallTo_obeys {s : String} {sig : Signature} (hs : env.tables.function? s = some sig)
    (what name symbol : String) {first : List ValueId} (hf : ∀ v ∈ first, Fact.plain v ∈ known) (span : Span) :
    (lowerCallTo sig what name symbol first args span).Obeys own env known (Typed.facts env) := by
  unfold lowerCallTo
  refine ite_obeys (abandonCall_obeys h _) ?_
  refine (lift_obeys (lowerArgs_obeys name (fun a ha => h _ (List.of_mem_zip ha).1) 1)).bind fun vs => ?_
  refine (of_obeys (List.map .plain) fun _ hp => List.mem_append_left _ hp).bind fun ws => lift_obeys ?_
  refine emitCall_obeys hs symbol fun v hv => ?_
  rcases List.mem_append.1 hv with hv | hv
  · simp [hf v hv]
  · simp [hv]

theorem lowerCall_obeys (callee : String) (span : Span) :
    (lowerCall env callee args span).Obeys own env known (Typed.facts env) := by
  unfold lowerCall
  split
  · rename_i sig hs
    exact lowerCallTo_obeys h (Option.filter_eq_some_iff.1 hs).1 _ _ _ (by simp) _
  · exact ite_obeys (abandonCall_obeys h _) (abandonCall_obeys h _)

theorem lowerMethodCall_obeys (ha : env.allocator.Discreet own) {r : Operand} (hr : r.Discreet own env)
    (method : String) (span : Span) :
    (lowerMethodCall env r method args span).Obeys own env known (Typed.facts env) := by
  refine (lift_obeys (hr.obeys none)).bind fun recv => ?_
  split
  · exact abandonCall_obeys h none
  · split
    · exact lowerVectorMethod_obeys ha (by simp) _ method h span
    · unfold lowerUserMethod
      split
      · exact abandonCall_obeys h _
      · split
        · exact abandonCall_obeys h none
        · rename_i sig hs
          exact lowerCallTo_obeys h hs _ _ _ (by simp) _

end

/-! ### Records -/

theorem fieldAddress_obeys {r : Operand} (hr : r.Discreet own env) (name : String) (span : Span) :
    (fieldAddress env r name span).Obeys own env known fun p => [.plain p.1] := by
  refine (hr.obeys none).bind fun v => ?_
  split
  · exact reject_obeys _
  · exact (Attempt.emit_obeys (fieldPtr_obeys _ (by simp) _ _)).bind fun _ => pure_obeys (by simp)

theorem lowerField_obeys {r : Operand} (hr : r.Discreet own env) (name : String) (span : Span) :
    (lowerField env r name span).Obeys own env known (Typed.facts env) :=
  (fieldAddress_obeys hr name span).bind fun _ => typed_obeys (load_obeys (by simp) _ _)

theorem lowerFieldAssign_obeys {r v : Operand} (hr : r.Discreet own env) (hv : v.Discreet own env) (name : String)
    (span : Span) : (lowerFieldAssign env r name v span).Obeys own env known fun _ => [] := by
  refine (lift_obeys (fieldAddress_obeys hr name span)).bind fun p => ?_
  cases p with
  | none => exact lift_obeys (v.visit_obeys hv)
  | some p =>
    exact (v.lowerAs_obeys hv ..).bind fun _ => Attempt.emit_obeys (store_obeys (by simp) (by simp))

/-- What is known of the fields met so far. -/
def Initialised.facts (acc : Initialised) : List Fact := acc.values.map (.plain ·.2)

theorem lowerInit_obeys (info : RecordInfo) (record : String) {acc : Initialised} (hacc : ∀ p ∈ acc.facts, p ∈ known)
    (name : String) {v : Operand} (hv : v.Discreet own env) :
    Lower.Obeys own env known (lowerInit info record acc name v) Initialised.facts := by
  have hkept : ∀ {known'} {acc' : Initialised}, acc'.facts = acc.facts → (∀ p ∈ known, p ∈ known') →
      Lower.Obeys own env known' (pure acc') Initialised.facts := fun he hk =>
    .pure (by simpa [he] using fun p hp => hk p (hacc p hp))
  unfold lowerInit
  split
  · exact (report_obeys _).bind fun _ => (v.visit_obeys hv).bind fun _ => hkept rfl (by simp)
  · refine .ite ((report_obeys _).bind fun _ => hkept rfl (by simp)) ?_
    refine StateM.Discipline.Obeys.bind (v.lowerAs_obeys hv ..) fun x => ?_
    cases x with
    | none => exact hkept rfl (by simp)
    | some y =>
      refine .pure fun p hp => ?_
      rcases List.mem_cons.1 hp with rfl | hp
      · simp
      · exact List.mem_append_right _ (hacc p hp)

theorem lowerInits_obeys (info : RecordInfo) (record : String) {inits : List (String × Operand)}
    (h : ∀ i ∈ inits, i.2.Discreet own env) {acc : Initialised} (hacc : ∀ p ∈ acc.facts, p ∈ known) :
    Lower.Obeys own env known (lowerInits info record acc inits) Initialised.facts := by
  induction inits generalizing known acc with
  | nil => exact .pure hacc
  | cons i rest ih =>
    exact (lowerInit_obeys info record hacc _ (h i (by simp))).bind fun _ =>
      ih (fun j hj => h j (by simp [hj])) fun _ hp => List.mem_append_left _ hp

theorem reportMissing_obeys (record : String) (span : Span) (seen : List Nat) (fields : List (String × Nat)) :
    Lower.Obeys own env known (reportMissing record span seen fields) fun _ => [] := by
  induction fields with
  | nil => exact .pure (by simp)
  | cons f rest ih =>
    unfold reportMissing
    dsimp only
    exact .ite ((report_obeys _).bind fun _ => ih) ih

theorem storeFields_obeys {word : Ir.Ty} (info : RecordInfo) {object : ValueId} (ho : Fact.plain object ∈ known)
    {values : List (Nat × ValueId)} (hv : ∀ e ∈ values, Fact.plain e.2 ∈ known) (fields : List (String × Nat)) :
    Emit.Obeys (allowedHosts own) word known (storeFields info object values fields) fun _ => [] := by
  induction fields generalizing known with
  | nil => exact .pure (by simp)
  | cons f rest ih =>
    obtain ⟨name, position⟩ := f
    unfold storeFields
    split
    · rename_i v hl
      have hplain : Fact.plain v ∈ known := hv _ (mem_of_lookup hl)
      refine (fieldPtr_obeys _ ho _ _).bind fun addr => (store_obeys (by simp [hplain]) (by simp)).bind fun _ => ?_
      exact ih (by simp [ho]) fun e he => by simp [hv e he]
    · exact ih ho hv

theorem lowerRecord_obeys (ha : env.allocator.Discreet own) (record : String) {inits : List (String × Operand)}
    (h : ∀ i ∈ inits, i.2.Discreet own env) (span : Span) :
    (lowerRecord env record inits span).Obeys own env known (Typed.facts env) := by
  unfold lowerRecord
  split
  · exact reject_obeys _
  · refine (lift_obeys (lowerInits_obeys _ record h (by simp [Initialised.facts]))).bind fun acc => ?_
    refine (lift_obeys (reportMissing_obeys ..)).bind fun _ => ite_obeys fail_obeys (get_obeys fun s _ _ => ?_)
    refine (Attempt.emit_obeys (constUsize_obeys _)).bind fun size => ?_
    refine (Attempt.emit_obeys (ha _ _ (by simp))).bind fun object => ?_
    refine (Attempt.emit_obeys (storeFields_obeys _ (by simp) (fun e he => ?_) _)).bind fun _ => ?_
    · have hfact : Fact.plain e.2 ∈ acc.facts := List.mem_map_of_mem he
      simp [hfact]
    · exact pure_obeys fun p hp => List.mem_append_right [] (List.mem_append_left _ hp)

/-! ### Expressions -/

/-- Reading a variable reads its slot. -/
theorem lowerIdent_obeys (name : String) (span : Span) :
    (lowerIdent env name span).Obeys own env known (Typed.facts env) := by
  refine get_facts fun s h _ => ?_
  cases hl : s.scope.lookup? name with
  | none => exact ⟨[], by simp, reject_obeys _⟩
  | some b =>
    have hslot := h.lookup? hl
    cases b with
    | poisoned => exact ⟨[], by simp, fail_obeys⟩
    | slot a t =>
      exact ⟨[.slot a (env.ir t)], List.forall_mem_singleton.2 hslot,
        typed_obeys (load_slot_obeys List.mem_cons_self _)⟩

theorem ir_of_intShape? {t : Ty} {shape : Nat × Bool} (h : env.layout.intShape? t = some shape) :
    env.ir t = (Ir.Ty.int? shape.1).getD .i64 := by
  cases t <;> cases h <;> rfl

/-- Types between which a conversion does nothing are represented alike. -/
theorem ir_of_identity {source target : Ty} (h : env.layout.classifyCast? source target = some .identity) :
    env.ir source = env.ir target := by
  unfold Types.Layout.classifyCast? at h
  split at h
  · rename_i heq
    exact congrArg env.ir heq
  · split at h
    · cases h
    · cases h
    · split at h <;> cases h
    · obtain ⟨shape, -, hk⟩ := Option.map_eq_some_iff.1 h
      cases hk
    · obtain ⟨shape, -, hk⟩ := Option.map_eq_some_iff.1 h
      cases hk
    · split at h
      · rename_i sb signed tb signed' hs ht
        rw [ir_of_intShape? hs, ir_of_intShape? ht]
        have hbits : sb = tb := by
          have hk := Option.some.inj h
          unfold Types.CastKind.betweenInts at hk
          split at hk
          · assumption
          · split at hk <;> cases hk
        rw [hbits]
      · cases h

theorem lowerCast_obeys {o : Operand} (h : o.Discreet own env) (target : TypeExpr) (span : Span) :
    (lowerCast env o target span).Obeys own env known (Typed.facts env) := by
  refine (resolve_obeys ..).bind fun ty => (h.obeys _).bind fun v => ?_
  split
  · exact reject_obeys _
  · rename_i kind hk
    exact typed_obeys (emitCast_obeys kind (env.ir v.ty) (by simp) fun he => ir_of_identity (he ▸ hk))

mutual

/-- Every expression keeps functions discreet. -/
theorem operand_discreet (ha : env.allocator.Discreet own) : (e : Expr) → Operand.Discreet own env ⟨e, lowerExpr env e⟩
  | .int s v => fun expected => lowerLiteral_obeys (.int s v) (.int v.toNat) expected
  | .float s bits => fun expected => lowerLiteral_obeys (.float s bits) .float expected
  | .bool _ v => fun _ => typed_obeys (constBool_obeys v)
  | .char _ c => fun _ => by
      dsimp only
      rw [lowerExpr]
      exact typed_obeys (constInt_obeys ..)
  | .str _ text => fun _ => typed_obeys (globalString_obeys text)
  | .unit _ => fun _ => lift_obeys unit_obeys
  | .null _ => fun _ => typed_obeys constNull_obeys
  | .ident s name => fun _ => lowerIdent_obeys name s
  | .unary s op e => fun expected => by
      dsimp only
      rw [lowerExpr]
      split
      · exact lowerLiteral_obeys ..
      · exact lowerUnary_obeys op (operand_discreet ha e) s expected
  | .binary s op l r => fun expected => by
      dsimp only
      rw [lowerExpr]
      split
      · exact lowerLiteral_obeys ..
      · exact lowerBinary_obeys op (operand_discreet ha l) (operand_discreet ha r) s
  | .cast s e t => fun _ => lowerCast_obeys (operand_discreet ha e) t s
  | .call s callee args => fun _ => lowerCall_obeys (operands_discreet ha args) callee s
  | .methodCall s r method args => fun _ =>
      lowerMethodCall_obeys (operands_discreet ha args) ha (operand_discreet ha r) method s
  | .field s r name => fun _ => lowerField_obeys (operand_discreet ha r) name s
  | .index s r i => fun _ => lowerIndexing_obeys (operand_discreet ha r) (operand_discreet ha i) s
  | .record s name inits => fun _ => lowerRecord_obeys ha name (initOperands_discreet ha inits) s
  | .vectorNew s t => fun _ => lowerVectorNew_obeys ha t s
termination_by structural e => e

theorem operands_discreet (ha : env.allocator.Discreet own) : (es : List Expr) →
    ∀ o ∈ operands env es, o.Discreet own env
  | [] => by simp [operands]
  | e :: rest => List.forall_mem_cons.2 ⟨operand_discreet ha e, operands_discreet ha rest⟩
termination_by structural es => es

theorem initOperands_discreet (ha : env.allocator.Discreet own) : (es : List (String × Expr)) →
    ∀ i ∈ initOperands env es, i.2.Discreet own env
  | [] => by simp [initOperands]
  | (_, e) :: rest => List.forall_mem_cons.2 ⟨operand_discreet ha e, initOperands_discreet ha rest⟩
termination_by structural es => es

end

end BlockForge.Lowering
