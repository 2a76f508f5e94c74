import BlockForge.Proofs.Lowering.Tandem.Sequences

/-!
# Expressions in tandem

By induction over expressions: their lowerings in two environments that follow each other keep every tandem.
-/

namespace BlockForge.Lowering

open Diagnostic (Diag)
open Ir (BlockId Emit Known Linkable ValueId)
open Lower Attempt
open Source (BinaryOp Expr Span TypeExpr UnaryOp)
open StateM
open BlockForge.Types (LitKind Ty)

variable {T : Tandem} {known : List (ValueId × ValueId)} {α : Type} [Linkable α]

/-! ### Operators -/

section

variable {env env' : Env} (he : env.Follows T env')

include he

theorem emitConst_follows (t : Ty) (c : Const) : T.Follows known (emitConst env t c) (emitConst env' t c) := by
  cases c with
  | int v =>
    rw [emitConst, emitConst, he.ir]
    exact (T.constInt ..).weaken
  | float bits =>
    rw [emitConst, emitConst, he.ir]
    exact (T.constFloat ..).weaken

theorem literalType_follows (kind : LitKind) (expected : Option Ty) :
    literalType env' kind expected = literalType env kind expected := by
  unfold literalType
  rw [he.layout]

theorem lowerLiteral_follows (e : Expr) (kind : LitKind) (expected : Option Ty) :
    (lowerLiteral env e kind expected).Follows T known (lowerLiteral env' e kind expected) := by
  unfold lowerLiteral
  rw [literalType_follows he, he.layout]
  dsimp only
  split
  · exact (Attempt.emit_follows (emitConst_follows he _ _)).bind fun v v' _ => pure_follows rfl (by simp)
  · exact reject_follows _

end

section

variable {l l' r r' : Operand} (hl : l.Follows T l') (hr : r.Follows T r')

include hl hr

theorem lowerBoth_follows (expected : Option Ty) :
    (lowerBoth l r expected).Follows T known (lowerBoth l' r' expected) := by
  refine (lift_follows (hl.lower expected).weaken).bind fun x x' hx => ?_
  refine (lift_follows (hr.lower expected).weaken).bind fun y y' hy => ?_
  refine (of_follows hx fun _ hp => by simp [hp]).bind fun v v' hv => ?_
  refine (of_follows hy fun _ hp => by simp [hp]).bind fun w w' hw => ?_
  exact pure_follows ⟨hv, hw⟩ (by simp)

theorem lowerOperands_follows (op : BinaryOp) (span : Span) :
    (lowerOperands op l r span).Follows T known (lowerOperands op l' r' span) := by
  unfold lowerOperands
  rw [hl.expr, hr.expr]
  split
  · split
    · exact lowerBoth_follows hl hr _
    · exact reject_follows _
  · refine Attempt.Follows.bind (hr.lower none).weaken fun y y' hy => ?_
    rw [← show y.ty = y'.ty from hy]
    refine Attempt.Follows.bind (hl.lower _).weaken fun x x' hx => ?_
    exact pure_follows ⟨hx, hy⟩ (by simp)
  · refine Attempt.Follows.bind (hl.lower none).weaken fun x x' hx => ?_
    rw [← show x.ty = x'.ty from hx]
    refine Attempt.Follows.bind (hr.lower _).weaken fun y y' hy => ?_
    exact pure_follows ⟨hx, hy⟩ (by simp)
  · exact lowerBoth_follows hl hr _

end

section

variable {l l' r r' : Typed}

theorem lowerArithmetic_follows {env env' : Env} (he : env.Follows T env') (op : BinaryOp) (hlt : l.ty = l'.ty)
    (hrt : r.ty = r'.ty) (hl : Known known l.value l'.value) (hr : Known known r.value r'.value) (span : Span) :
    (lowerArithmetic env op l r span).Follows T known (lowerArithmetic env' op l' r' span) := by
  unfold lowerArithmetic
  rw [← hlt, ← hrt, he.ir]
  refine ite_follows (reject_follows _) (ite_follows (reject_follows _) (get_follows fun hL h => ?_))
  rw [T.constIntValue? h.builder (hL _ hr)]
  refine ite_follows (reject_follows _) ?_
  refine (Attempt.emit_follows (emitArithmetic_follows op _ _ hl hr)).bind fun v v' hv => ?_
  rcases Linkable.same_option hv with ⟨rfl, rfl⟩ | ⟨x, x', rfl, rfl, -⟩
  · exact fail_follows
  · exact pure_follows rfl (by simp)

theorem foldComparison?_follows {env env' : Env} (he : env.Follows T env') (op : BinaryOp) (e f : Expr) :
    (foldComparison? env op e f = none ∧ foldComparison? env' op e f = none) ∨
      ∃ x y, foldComparison? env op e f = some x ∧ foldComparison? env' op e f = some y ∧ x.Follows T known y := by
  unfold foldComparison?
  rw [he.layout]
  cases literalKind e with
  | none => exact .inl ⟨rfl, rfl⟩
  | some a =>
    cases literalKind f with
    | none => exact .inl ⟨rfl, rfl⟩
    | some b =>
      simp only [Option.bind_eq_bind, Option.bind_some]
      cases a.unify? b with
      | none => exact .inl ⟨rfl, rfl⟩
      | some kind =>
        simp only [Option.bind_some]
        refine .inr ?_
        split
        · refine ⟨_, _, rfl, rfl, ?_⟩
          exact (Attempt.emit_follows (T.constBool _)).bind fun v v' _ => pure_follows rfl (by simp)
        · exact ⟨_, _, rfl, rfl, reject_follows _⟩
        · exact ⟨_, _, rfl, rfl, reject_follows _⟩

variable (hlt : l.ty = l'.ty) (hrt : r.ty = r'.ty) (hl : Known known l.value l'.value)
  (hr : Known known r.value r'.value)

include hlt hrt hl hr

theorem lowerComparison_follows (op : BinaryOp) (span : Span) :
    (lowerComparison op l r span).Follows T known (lowerComparison op l' r' span) := by
  unfold lowerComparison
  rw [← hlt, ← hrt]
  refine ite_follows (ite_follows (reject_follows _) (ite_follows (reject_follows _) ?_))
    (ite_follows ?_ (reject_follows _))
  · exact (Attempt.emit_follows (emitOrdering_follows op _ hl hr)).bind fun v v' _ => pure_follows rfl (by simp)
  · exact (Attempt.emit_follows (emitEquality_follows _ _ hl hr)).bind fun v v' _ => pure_follows rfl (by simp)

theorem lowerBitwise_follows {env env' : Env} (he : env.Follows T env') (op : BinaryOp) (span : Span) :
    (lowerBitwise env op l r span).Follows T known (lowerBitwise env' op l' r' span) := by
  unfold lowerBitwise
  rw [← hlt, ← hrt, he.ir]
  refine ite_follows (ite_follows ?_ (reject_follows _)) (ite_follows ?_ (reject_follows _))
  · exact (Attempt.emit_follows (emitShift_follows op _ _ hl hr _)).bind fun v v' _ => pure_follows rfl (by simp)
  · exact (Attempt.emit_follows (emitBitwise_follows op hl hr)).bind fun v v' _ => pure_follows rfl (by simp)

end

theorem lowerBoolOperand_follows (op : BinaryOp) {o o' : Operand} (h : o.Follows T o') :
    (lowerBoolOperand op o).Follows T known (lowerBoolOperand op o') := by
  refine Attempt.Follows.bind (h.lower _).weaken fun v v' hv => ?_
  rw [← show v.ty = v'.ty from hv, Operand.span, Operand.span, h.expr]
  exact ite_follows (pure_follows (by simp) (by simp)) (reject_follows _)

theorem isLabel_shortCircuit (isAnd : Bool) {suffix : String} (hs : suffix = ".rhs" ∨ suffix = ".merge") :
    Ir.IsLabel ((if isAnd then "and" else "or") ++ suffix) := by
  rcases hs with rfl | rfl <;> cases isAnd <;> exact ⟨_, rfl, rfl⟩

theorem lowerShortCircuit_follows (op : BinaryOp) {l l' r r' : Operand} (hl : l.Follows T l') (hr : r.Follows T r') :
    (lowerShortCircuit op l r).Follows T known (lowerShortCircuit op l' r') := by
  unfold lowerShortCircuit
  refine (lowerBoolOperand_follows op hl).bind fun x x' _ => get_follows fun hL h => ?_
  rw [T.current h.builder]
  refine (of_follows (by cases Ir.Builder.current _ <;> simp) (by cases Ir.Builder.current _ <;> simp)).bind
    fun origin _ ho => ?_
  obtain rfl := (Linkable.same_block ..).1 ho
  refine (Attempt.emit_follows (T.appendBlock (isLabel_shortCircuit _ (.inl rfl))).weaken).bind fun rhs _ h₁ => ?_
  obtain rfl := (Linkable.same_block ..).1 h₁
  refine (Attempt.emit_follows (T.appendBlock (isLabel_shortCircuit _ (.inr rfl))).weaken).bind fun merge _ h₂ => ?_
  obtain rfl := (Linkable.same_block ..).1 h₂
  refine (Attempt.emit_follows (.ite (T.condBr (by simp) _ _) (T.condBr (by simp) _ _))).bind fun _ _ _ => ?_
  refine (Attempt.emit_follows (T.positionAt _)).bind fun _ _ _ => ?_
  refine (lift_follows (lowerBoolOperand_follows op hr)).bind fun y y' hy => get_follows fun hL h => ?_
  rw [T.current h.builder]
  refine get_follows fun hL' h' => ?_
  rw [T.currentTerminated h'.builder]
  have hend : ∀ (known : List (ValueId × ValueId)) (exit : BlockId), (do
      Lower.emit (Emit.positionAt merge)
      let r ← Attempt.of y
      let short ← Lower.emit (Emit.constBool !(op == .and))
      let value ← Lower.emit (Emit.phi .i1 [(short, origin), (r, exit)] (if op == .and then "and" else "or"))
      pure ⟨value, .bool⟩ : Attempt Typed).Follows T (Linkable.pairs y y' ++ known) (do
      Lower.emit (Emit.positionAt merge)
      let r ← Attempt.of y'
      let short ← Lower.emit (Emit.constBool !(op == .and))
      let value ← Lower.emit (Emit.phi .i1 [(short, origin), (r, exit)] (if op == .and then "and" else "or"))
      pure ⟨value, .bool⟩) := by
    intro known exit
    refine (Attempt.emit_follows (T.positionAt _)).bind fun _ _ _ => ?_
    refine (of_follows hy (by simp +contextual)).bind fun r r' _ => ?_
    refine (Attempt.emit_follows (T.constBool _)).bind fun short short' _ => ?_
    refine Attempt.Follows.bind (Attempt.emit_follows (T.phi _ _ ?_)) fun v v' _ => pure_follows rfl (by simp)
    exact .cons ⟨by simp, rfl⟩ (.cons ⟨by simp, rfl⟩ .nil)
  exact ite_follows ((Attempt.emit_follows (T.br _)).bind fun _ _ _ => hend _ _) (hend _ _)

theorem lowerBinary_follows {env env' : Env} (he : env.Follows T env') (op : BinaryOp) {l l' r r' : Operand}
    (hl : l.Follows T l') (hr : r.Follows T r') (span : Span) :
    (lowerBinary env op l r span).Follows T known (lowerBinary env' op l' r' span) := by
  unfold lowerBinary
  refine ite_follows (lowerShortCircuit_follows op hl hr) ?_
  have hplain : (do
      let p ← lowerOperands op l r span
      if op.isArithmetic then lowerArithmetic env op p.1 p.2 span
      else if op.isComparison then lowerComparison op p.1 p.2 span
      else lowerBitwise env op p.1 p.2 span : Attempt Typed).Follows T known (do
      let p ← lowerOperands op l' r' span
      if op.isArithmetic then lowerArithmetic env' op p.1 p.2 span
      else if op.isComparison then lowerComparison op p.1 p.2 span
      else lowerBitwise env' op p.1 p.2 span) := by
    refine (lowerOperands_follows hl hr op span).bind fun p p' hp => ?_
    obtain ⟨hx, hy⟩ := hp
    exact ite_follows (lowerArithmetic_follows he op hx hy (by simp) (by simp) span)
      (ite_follows (lowerComparison_follows hx hy (by simp) (by simp) op span)
        (lowerBitwise_follows hx hy (by simp) (by simp) he op span))
  rw [hl.expr, hr.expr]
  have hfold : ∀ x y : Option (Attempt Typed), x = (if op.isComparison then foldComparison? env op l.expr r.expr else none) →
      y = (if op.isComparison then foldComparison? env' op l.expr r.expr else none) →
      (x = none ∧ y = none) ∨ ∃ f g, x = some f ∧ y = some g ∧ f.Follows T known g := by
    rintro x y rfl rfl
    split
    · exact foldComparison?_follows he op l.expr r.expr
    · exact .inl ⟨rfl, rfl⟩
  rcases hfold _ _ rfl rfl with ⟨hx, hy⟩ | ⟨x, y, hx, hy, hxy⟩
  · rw [hx, hy]
    exact hplain
  · rw [hx, hy]
    exact hxy

theorem lowerUnary_follows (op : UnaryOp) {o o' : Operand} (h : o.Follows T o') (span : Span) (expected : Option Ty) :
    (lowerUnary op o span expected).Follows T known (lowerUnary op o' span expected) := by
  unfold lowerUnary
  refine Attempt.Follows.bind (h.lower _).weaken fun v v' hv => ?_
  have hty : v.ty = v'.ty := hv
  rw [← hty]
  cases op with
  | plus => exact ite_follows (pure_follows hty (by simp)) (reject_follows _)
  | neg =>
    refine ite_follows ?_ (ite_follows ?_ (reject_follows _))
    · exact (Attempt.emit_follows (T.fneg (by simp) _)).bind fun _ _ _ => pure_follows rfl (by simp)
    · exact (Attempt.emit_follows (T.neg (by simp) _)).bind fun _ _ _ => pure_follows rfl (by simp)
  | not =>
    exact ite_follows ((Attempt.emit_follows (T.not (by simp) _)).bind fun _ _ _ => pure_follows rfl (by simp))
      (reject_follows _)
  | bitNot =>
    exact ite_follows ((Attempt.emit_follows (T.not (by simp) _)).bind fun _ _ _ => pure_follows rfl (by simp))
      (reject_follows _)

/-! ### Vectors of a program -/

section

variable {env env' : Env} (he : env.Follows T env')

/-- A shape goes on with the allocator of its environment; descriptors are of the same type. -/
theorem vectorShape_bind {elem : Ty} {f g : VectorShape → Attempt α} (he : env.Follows T env')
    (h : ∀ v : VectorShape, v.allocator = env.allocator → v.struct = env.tables.vector →
      (f v).Follows T known (g (v.on env'.allocator))) :
    (liftM (vectorShape env elem) >>= f : Attempt α).Follows T known (liftM (vectorShape env' elem) >>= g) := by
  refine ⟨fun {L s t} hL hst => ?_⟩
  let shape : VectorShape := ⟨env.tables.vector, env.ir elem, s.builder.module.sizeOf (env.ir elem), bufferKind elem,
    env.allocator⟩
  have hshape : (vectorShape env' elem t).1 = shape.on env'.allocator := by
    show VectorShape.mk env'.tables.vector (env'.ir elem) (t.builder.module.sizeOf (env'.ir elem)) _ _ = _
    rw [he.tables, he.ir, sizeOf_eq hst]
    rfl
  have hrun := (h shape rfl rfl).run hL hst
  rw [← hshape] at hrun
  exact hrun

theorem lowerIndex_follows {o o' : Operand} (h : o.Follows T o') :
    (lowerIndex o).Follows T known (lowerIndex o') := by
  refine Attempt.Follows.bind (h.lower _).weaken fun v v' hv => ?_
  rw [← show v.ty = v'.ty from hv, Operand.span, Operand.span, h.expr]
  refine ite_follows (get_follows fun hL hst => ?_) (reject_follows _)
  rw [T.ptrInt hst.builder]
  exact Attempt.emit_follows (T.intResize (by simp) ..)

theorem lowerElement_follows {o o' : Operand} (h : o.Follows T o') (elem : Ty) (context : String) :
    (lowerElement o elem context).Follows T known (lowerElement o' elem context) :=
  (o.lowerAs_follows h elem context).bind fun _ _ _ => pure_follows (by simp) (by simp)

theorem lowerIndexAndElement_follows {i i' v v' : Operand} (hi : i.Follows T i') (hv : v.Follows T v') (elem : Ty)
    (context : String) :
    (lowerIndexAndElement i v elem context).Follows T known (lowerIndexAndElement i' v' elem context) := by
  refine (lift_follows (lowerIndex_follows hi)).bind fun x x' hx => ?_
  refine (lift_follows (lowerElement_follows hv elem context)).bind fun y y' hy => ?_
  refine (of_follows hx fun _ hp => by simp [hp]).bind fun a a' ha => ?_
  refine (of_follows hy fun _ hp => by simp [hp]).bind fun b b' hb => ?_
  exact pure_follows ⟨ha, hb⟩ (by simp)

include he

theorem lowerVectorNew_follows (elem : TypeExpr) (span : Span) :
    (lowerVectorNew env elem span).Follows T known (lowerVectorNew env' elem span) := by
  refine (resolve_follows he ..).bind fun ty _ hty => ?_
  obtain rfl := (same_ty ..).1 hty
  refine vectorShape_bind he fun v hv hs => get_follows fun hL h => ?_
  rw [sizeOf_eq h, he.tables]
  exact (Attempt.emit_follows (he.new v _ hv hs).weaken).bind fun d d' _ => pure_follows rfl (by simp)

theorem lowerVectorOp_follows (op : VectorOp) {desc desc' : ValueId} (hd : Known known desc desc') (elem : Ty)
    {args args' : List Operand} (h : List.Forall₂ (Operand.Follows T) args args') :
    (lowerVectorOp env op desc elem args).Follows T known (lowerVectorOp env' op desc' elem args') := by
  have ha : ∀ {v : VectorShape}, v.allocator = env.allocator → v.allocator.Follows T env'.allocator := by
    intro v hv
    rw [hv]
    exact he.allocator
  unfold lowerVectorOp
  refine vectorShape_bind he fun v hv _ => ?_
  cases op with
  | size =>
    exact (Attempt.emit_follows (v.loadField_follows hd ..)).bind fun _ _ _ => pure_follows rfl (by simp)
  | capacity =>
    exact (Attempt.emit_follows (v.loadField_follows hd ..)).bind fun _ _ _ => pure_follows rfl (by simp)
  | get =>
    match args, args', h with
    | [], [], _ => exact fail_follows
    | [i], [i'], .cons hi _ =>
      refine (lowerIndex_follows hi).bind fun x x' _ => ?_
      exact (Attempt.emit_follows (v.getAt_follows (by simp [hd]) (by simp))).bind fun _ _ _ =>
        pure_follows rfl (by simp)
    | _ :: _ :: _, _ :: _ :: _, _ => exact fail_follows
  | set =>
    match args, args', h with
    | [], [], _ => exact fail_follows
    | [_], [_], _ => exact fail_follows
    | [i, x], [i', x'], .cons hi (.cons hx _) =>
      refine (lowerIndexAndElement_follows hi hx ..).bind fun p p' _ => ?_
      refine (Attempt.emit_follows (v.setAt_follows (by simp [hd]) (by simp) (by simp))).bind fun _ _ _ => ?_
      exact lift_follows unit_follows
    | _ :: _ :: _ :: _, _ :: _ :: _ :: _, _ => exact fail_follows
  | add =>
    match args, args', h with
    | [], [], _ => exact fail_follows
    | [x], [x'], .cons hx _ =>
      refine (lowerElement_follows hx ..).bind fun y y' _ => ?_
      refine (Attempt.emit_follows (VectorShape.append_follows (ha hv) (by simp [hd]) (by simp))).bind fun _ _ _ => ?_
      exact lift_follows unit_follows
    | _ :: _ :: _, _ :: _ :: _, _ => exact fail_follows
  | insert =>
    match args, args', h with
    | [], [], _ => exact fail_follows
    | [_], [_], _ => exact fail_follows
    | [i, x], [i', x'], .cons hi (.cons hx _) =>
      refine (lowerIndexAndElement_follows hi hx ..).bind fun p p' _ => ?_
      refine (Attempt.emit_follows
        (VectorShape.insertAt_follows (ha hv) (by simp [hd]) (by simp) (by simp))).bind fun _ _ _ => ?_
      exact lift_follows unit_follows
    | _ :: _ :: _ :: _, _ :: _ :: _ :: _, _ => exact fail_follows
  | remove =>
    match args, args', h with
    | [], [], _ => exact fail_follows
    | [i], [i'], .cons hi _ =>
      refine (lowerIndex_follows hi).bind fun x x' _ => ?_
      exact (Attempt.emit_follows (v.removeAt_follows (by simp [hd]) (by simp))).bind fun _ _ _ =>
        pure_follows rfl (by simp)
    | _ :: _ :: _, _ :: _ :: _, _ => exact fail_follows

theorem lowerVectorMethod_follows {receiver receiver' : Typed} (hty : receiver.ty = receiver'.ty)
    (hr : Known known receiver.value receiver'.value) (elem : Ty) (method : String) {args args' : List Operand}
    (h : List.Forall₂ (Operand.Follows T) args args') (span : Span) :
    (lowerVectorMethod env receiver elem method args span).Follows T known
      (lowerVectorMethod env' receiver' elem method args' span) := by
  have hgive : ∀ d, (do Lower.report d; visitAll args; Attempt.fail : Attempt Typed).Follows T known
      (do Lower.report d; visitAll args'; Attempt.fail) := fun d =>
    (lift_follows (report_follows d)).bind fun _ _ _ => (lift_follows (visitAll_follows h)).bind fun _ _ _ =>
      fail_follows
  unfold lowerVectorMethod
  rw [← hty, ← h.length_eq]
  split
  · exact hgive _
  · exact ite_follows (hgive _) (lowerVectorOp_follows he _ hr _ h)

theorem lowerIndexing_follows {r r' i i' : Operand} (hr : r.Follows T r') (hi : i.Follows T i') (span : Span) :
    (lowerIndexing env r i span).Follows T known (lowerIndexing env' r' i' span) := by
  refine (lift_follows (hr.lower none).weaken).bind fun recv recv' hrecv => ?_
  rcases Linkable.same_option hrecv with ⟨rfl, rfl⟩ | ⟨x, x', rfl, rfl, hty⟩
  · exact (lift_follows (i.visit_follows hi)).bind fun _ _ _ => fail_follows
  · dsimp only
    rw [← show x.ty = x'.ty from hty]
    split
    · exact (lift_follows (report_follows _)).bind fun _ _ _ => (lift_follows (i.visit_follows hi)).bind fun _ _ _ =>
        fail_follows
    · refine (lowerIndex_follows hi).bind fun n n' _ => vectorShape_bind he fun v hv _ => ?_
      exact (Attempt.emit_follows (v.getAt_follows (by simp) (by simp))).bind fun _ _ _ => pure_follows rfl (by simp)

theorem lowerIndexAssign_follows {r r' i i' v v' : Operand} (hr : r.Follows T r') (hi : i.Follows T i')
    (hv : v.Follows T v') (span : Span) :
    (lowerIndexAssign env r i v span).Follows T known (lowerIndexAssign env' r' i' v' span) := by
  have hvisit : ∀ known, Lower.Follows T known (visitAll [i, v]) (visitAll [i', v']) := fun _ =>
    visitAll_follows (.cons hi (.cons hv .nil))
  refine (lift_follows (hr.lower none).weaken).bind fun recv recv' hrecv => ?_
  rcases Linkable.same_option hrecv with ⟨rfl, rfl⟩ | ⟨x, x', rfl, rfl, hty⟩
  · exact (lift_follows (hvisit _)).bind fun _ _ _ => fail_follows
  · dsimp only
    rw [← show x.ty = x'.ty from hty]
    split
    · exact (lift_follows (report_follows _)).bind fun _ _ _ => (lift_follows (hvisit _)).bind fun _ _ _ =>
        fail_follows
    · refine (lowerIndexAndElement_follows hi hv ..).bind fun p p' _ => vectorShape_bind he fun shape _ _ => ?_
      exact Attempt.emit_follows (shape.setAt_follows (by simp) (by simp) (by simp))

end

/-! ### Calls -/

theorem forall₂_known {vs ws : List ValueId} (h : Linkable.same vs ws) (hp : ∀ p ∈ Linkable.pairs vs ws, p ∈ known) :
    List.Forall₂ (Known known) vs ws := by
  have h' : List.Forall₂ Linkable.same vs ws := h
  clear h
  induction h' with
  | nil => exact .nil
  | cons _ _ ih => exact .cons (hp _ (by simp)) (ih fun p hm => hp p (by simp [hm]))

theorem lowerArgs_follows (callee : String) {args args' : List (Operand × Ty)}
    (h : List.Forall₂ (fun a a' => a.1.Follows T a'.1 ∧ a'.2 = a.2) args args') (position : Nat) :
    Lower.Follows T known (lowerArgs callee position args) (lowerArgs callee position args') := by
  induction h generalizing known position with
  | nil => exact .pure .nil (by simp)
  | @cons a a' _ _ ha _ ih =>
    obtain ⟨arg, param⟩ := a
    obtain ⟨arg', param'⟩ := a'
    obtain ⟨harg, rfl⟩ := ha
    refine StateM.Follows.bind (arg.lowerAs_follows harg ..) fun v v' hv => (ih _).bind fun vs vs' hvs => ?_
    rcases Linkable.same_option hv with ⟨rfl, rfl⟩ | ⟨x, x', rfl, rfl, -⟩
    · exact .pure (by simp) (by simp)
    · rcases Linkable.same_option hvs with ⟨rfl, rfl⟩ | ⟨y, y', rfl, rfl, hy⟩
      · exact .pure (by simp) (by simp)
      · refine .pure (.cons trivial hy) fun p hp => ?_
        have hp' : p = (x.value, x'.value) ∨ p ∈ Linkable.pairs y y' := by simpa using hp
        rcases hp' with rfl | hp' <;> simp [*]

theorem emitCall_follows (sig : Signature) (name : String) {args args' : List ValueId}
    (h : List.Forall₂ (Known known) args args') :
    Lower.Follows T known (emitCall sig name args) (emitCall sig name args') := by
  refine (Lower.emit_follows (T.call _ h _)).bind fun v v' hv => ?_
  rcases Linkable.same_option hv with ⟨rfl, rfl⟩ | ⟨x, x', rfl, rfl, -⟩
  · exact unit_follows
  · exact .pure rfl (by simp)

section

variable {args args' : List Operand} (h : List.Forall₂ (Operand.Follows T) args args')

include h

theorem abandonCall_follows (d : Option Diag) : (abandonCall d args).Follows T known (abandonCall d args') := by
  have hvisit : ∀ known, (do visitAll args; Attempt.fail : Attempt Typed).Follows T known
      (do visitAll args'; Attempt.fail) := fun _ =>
    (lift_follows (visitAll_follows h)).bind fun _ _ _ => fail_follows
  unfold abandonCall
  cases d with
  | some d => exact (lift_follows (report_follows d)).bind fun _ _ _ => hvisit _
  | none => exact hvisit _

theorem lowerCallTo_follows (sig : Signature) (what name symbol : String) {first first' : List ValueId}
    (hf : List.Forall₂ (Known known) first first') (span : Span) :
    (lowerCallTo sig what name symbol first args span).Follows T known
      (lowerCallTo sig what name symbol first' args' span) := by
  have hzip : List.Forall₂ (fun a a' => a.1.Follows T a'.1 ∧ a'.2 = a.2) (args.zip sig.params)
      (args'.zip sig.params) := by
    generalize sig.params = params
    induction h generalizing params with
    | nil => simp
    | cons ho _ ih =>
      cases params with
      | nil => simp
      | cons t ts => exact .cons ⟨ho, rfl⟩ (ih ts)
  unfold lowerCallTo
  rw [← h.length_eq]
  refine ite_follows (abandonCall_follows h _) ?_
  refine (lift_follows (lowerArgs_follows name hzip 1)).bind fun vs vs' hvs => ?_
  refine (of_follows hvs fun _ hp => by simp [hp]).bind fun ws ws' hws => lift_follows ?_
  refine emitCall_follows sig symbol (List.rel_append (hf.imp fun _ _ hp => ?_) (forall₂_known hws fun p hp => ?_))
  · simp [Known, show _ ∈ known from hp]
  · simp [hp]

theorem lowerCall_follows {env env' : Env} (he : env.Follows T env') (callee : String) (span : Span) :
    (lowerCall env callee args span).Follows T known (lowerCall env' callee args' span) := by
  unfold lowerCall
  rw [he.tables]
  split
  · exact lowerCallTo_follows h _ _ _ _ .nil _
  · exact ite_follows (abandonCall_follows h _) (abandonCall_follows h _)

theorem lowerMethodCall_follows {env env' : Env} (he : env.Follows T env') {r r' : Operand} (hr : r.Follows T r')
    (method : String) (span : Span) :
    (lowerMethodCall env r method args span).Follows T known (lowerMethodCall env' r' method args' span) := by
  refine (lift_follows (hr.lower none).weaken).bind fun recv recv' hrecv => ?_
  rcases Linkable.same_option hrecv with ⟨rfl, rfl⟩ | ⟨x, x', rfl, rfl, hty⟩
  · exact abandonCall_follows h none
  · have hty' : x.ty = x'.ty := hty
    dsimp only
    rw [← hty']
    split
    · exact lowerVectorMethod_follows he hty' (by simp) _ method h span
    · unfold lowerUserMethod
      rw [← hty', he.tables]
      split
      · exact abandonCall_follows h _
      · split
        · exact abandonCall_follows h none
        · exact lowerCallTo_follows h _ _ _ _ (.cons (by simp) .nil) _

end

/-! ### Records -/

theorem fieldAddress_follows {env env' : Env} (he : env.Follows T env') {r r' : Operand} (hr : r.Follows T r')
    (name : String) (span : Span) :
    (fieldAddress env r name span).Follows T known (fieldAddress env' r' name span) := by
  refine Attempt.Follows.bind (hr.lower none).weaken fun v v' hv => ?_
  rw [← show v.ty = v'.ty from hv, he.tables]
  split
  · exact reject_follows _
  · exact (Attempt.emit_follows (T.fieldPtr _ (by simp) _ _)).bind fun _ _ _ => pure_follows (by simp) (by simp)

theorem lowerField_follows {env env' : Env} (he : env.Follows T env') {r r' : Operand} (hr : r.Follows T r')
    (name : String) (span : Span) : (lowerField env r name span).Follows T known (lowerField env' r' name span) := by
  refine (fieldAddress_follows he hr name span).bind ?_
  rintro ⟨addr, ty⟩ ⟨addr', ty'⟩ hp
  obtain rfl : ty = ty' := hp.2
  dsimp only
  rw [he.ir]
  exact (Attempt.emit_follows (T.load _ (by simp) _)).bind fun _ _ _ => pure_follows rfl (by simp)

theorem lowerFieldAssign_follows {env env' : Env} (he : env.Follows T env') {r r' v v' : Operand}
    (hr : r.Follows T r') (hv : v.Follows T v') (name : String) (span : Span) :
    (lowerFieldAssign env r name v span).Follows T known (lowerFieldAssign env' r' name v' span) := by
  refine (lift_follows (fieldAddress_follows he hr name span)).bind fun p p' hp => ?_
  rcases Linkable.same_option hp with ⟨rfl, rfl⟩ | ⟨⟨addr, ty⟩, ⟨addr', ty'⟩, rfl, rfl, hx⟩
  · exact lift_follows (v.visit_follows hv)
  · obtain rfl : ty = ty' := hx.2
    exact (v.lowerAs_follows hv ..).bind fun _ _ _ => Attempt.emit_follows (T.store (by simp) (by simp))

theorem lowerInit_follows (info : RecordInfo) (record : String) {acc acc' : Initialised}
    (hacc : Linkable.same acc acc') (hp : ∀ p ∈ Linkable.pairs acc acc', p ∈ known) (name : String) {v v' : Operand}
    (hv : v.Follows T v') :
    Lower.Follows T known (lowerInit info record acc name v) (lowerInit info record acc' name v') := by
  obtain ⟨seen, values, ok⟩ := acc
  obtain ⟨seen', values', ok'⟩ := acc'
  obtain ⟨rfl, rfl, hvalues⟩ : seen = seen' ∧ ok = ok' ∧ Linkable.same values values' := hacc
  have hspan : v'.span = v.span := by rw [Operand.span, Operand.span, hv.expr]
  unfold lowerInit
  rw [hspan]
  split
  · refine (report_follows _).bind fun _ _ _ => (v.visit_follows hv).bind fun _ _ _ => ?_
    exact .pure ⟨rfl, rfl, hvalues⟩ fun p hm => by simp [hp p hm]
  · refine .ite ((report_follows _).bind fun _ _ _ => .pure ⟨rfl, rfl, hvalues⟩ fun p hm => by simp [hp p hm]) ?_
    refine StateM.Follows.bind (v.lowerAs_follows hv ..) fun x x' hx => ?_
    rcases Linkable.same_option hx with ⟨rfl, rfl⟩ | ⟨y, y', rfl, rfl, -⟩
    · exact .pure ⟨rfl, rfl, hvalues⟩ fun p hm => by simp [hp p hm]
    · refine .pure ⟨rfl, rfl, .cons ⟨rfl, trivial⟩ hvalues⟩ fun p hm => ?_
      have hm' : p = (y.value, y'.value) ∨ p ∈ Linkable.pairs values values' := by
        simpa [Linkable.pairs] using hm
      rcases hm' with rfl | hm'
      · simp
      · simp [hp p hm']

theorem lowerInits_follows (info : RecordInfo) (record : String) {inits inits' : List (String × Operand)}
    (h : List.Forall₂ (fun i i' => i'.1 = i.1 ∧ i.2.Follows T i'.2) inits inits') {acc acc' : Initialised}
    (hacc : Linkable.same acc acc') (hp : ∀ p ∈ Linkable.pairs acc acc', p ∈ known) :
    Lower.Follows T known (lowerInits info record acc inits) (lowerInits info record acc' inits') := by
  induction h generalizing known acc acc' with
  | nil => exact .pure hacc hp
  | @cons i i' _ _ hi _ ih =>
    obtain ⟨name, o⟩ := i
    obtain ⟨name', o'⟩ := i'
    obtain ⟨rfl, ho⟩ := hi
    exact (lowerInit_follows info record hacc hp _ ho).bind fun next next' hnext => ih hnext (by simp +contextual)

theorem reportMissing_follows (record : String) (span : Span) (seen : List Nat) (fields : List (String × Nat)) :
    Lower.Follows T known (reportMissing record span seen fields) (reportMissing record span seen fields) := by
  induction fields with
  | nil => exact .pure (by simp) (by simp)
  | cons f rest ih =>
    unfold reportMissing
    dsimp only
    exact .ite ((report_follows _).bind fun _ _ _ => ih) ih

theorem lookup_follows {values values' : List (Nat × ValueId)} (hs : Linkable.same values values')
    (hp : ∀ p ∈ Linkable.pairs values values', p ∈ known) (position : Nat) :
    Option.Rel (Known known) (values.lookup position) (values'.lookup position) := by
  have h : List.Forall₂ (fun e e' => e.1 = e'.1 ∧ True) values values' := hs
  clear hs
  induction h with
  | nil => exact .none
  | @cons e e' _ _ he _ ih =>
    obtain ⟨n, v⟩ := e
    obtain ⟨n', v'⟩ := e'
    obtain rfl : n = n' := he.1
    rw [List.lookup_cons, List.lookup_cons]
    cases position == n with
    | true => exact .some (hp _ (by simp))
    | false => exact ih fun p hm => hp p (by simp [hm])

theorem storeFields_follows (info : RecordInfo) {object object' : ValueId} (ho : Known known object object')
    {values values' : List (Nat × ValueId)} (hs : Linkable.same values values')
    (hp : ∀ p ∈ Linkable.pairs values values', p ∈ known) (fields : List (String × Nat)) :
    T.Follows known (storeFields info object values fields) (storeFields info object' values' fields) := by
  induction fields with
  | nil => exact .pure (by simp) (by simp)
  | cons f rest ih =>
    obtain ⟨name, position⟩ := f
    unfold storeFields
    have hl := lookup_follows hs hp position
    generalize values.lookup position = x, values'.lookup position = y at hl
    cases hl with
    | none => exact ih
    | some hv =>
      refine (T.fieldPtr _ ho _ _).bind fun addr addr' _ => ?_
      refine (T.store (by simp [show _ ∈ known from hv]) (by simp)).bind fun _ _ _ => ih.mono (by simp +contextual)

theorem lowerRecord_follows {env env' : Env} (he : env.Follows T env') (record : String)
    {inits inits' : List (String × Operand)}
    (h : List.Forall₂ (fun i i' => i'.1 = i.1 ∧ i.2.Follows T i'.2) inits inits') (span : Span) :
    (lowerRecord env record inits span).Follows T known (lowerRecord env' record inits' span) := by
  unfold lowerRecord
  rw [he.tables]
  split
  · exact reject_follows _
  · have hstart : Linkable.same ({} : Initialised) {} := ⟨rfl, rfl, .nil⟩
    refine (lift_follows (lowerInits_follows _ record h hstart (by simp [Linkable.pairs]))).bind
      fun acc acc' hacc => ?_
    obtain ⟨seen, values, ok⟩ := acc
    obtain ⟨seen', values', ok'⟩ := acc'
    obtain ⟨rfl, rfl, hvalues⟩ : seen = seen' ∧ ok = ok' ∧ Linkable.same values values' := hacc
    refine (lift_follows (reportMissing_follows ..)).bind fun _ _ _ => ite_follows fail_follows
      (get_follows fun hL hst => ?_)
    rw [sizeOf_eq hst]
    refine (Attempt.emit_follows (T.constUsize _)).bind fun size size' _ => ?_
    refine (Attempt.emit_follows (he.allocator _ _ (by simp))).bind fun object object' _ => ?_
    refine (Attempt.emit_follows (storeFields_follows _ (by simp) hvalues (fun p hm => ?_) _)).bind fun _ _ _ => ?_
    · have hm' : p ∈ Linkable.pairs (Initialised.mk seen values ok) (Initialised.mk seen values' ok) := hm
      simp [hm']
    · exact pure_follows rfl (by simp)

/-! ### Expressions -/

theorem lowerIdent_follows {env env' : Env} (he : env.Follows T env') (name : String) (span : Span) :
    (lowerIdent env name span).Follows T known (lowerIdent env' name span) := by
  refine Attempt.get_links fun {L s t} hL hst => ?_
  have hl := hst.scope.lookup? name
  generalize s.scope.lookup? name = x, t.scope.lookup? name = y at hl ⊢
  cases hl with
  | none => exact ⟨[], by simp, reject_follows _⟩
  | some hb =>
    cases hb with
    | poisoned => exact ⟨[], by simp, fail_follows⟩
    | @slot a a' ha ty =>
      refine ⟨[(a, a')], by simpa using ha, ?_⟩
      rw [he.ir]
      exact (Attempt.emit_follows (T.load _ (by simp) _)).bind fun _ _ _ => pure_follows rfl (by simp)

theorem lowerCast_follows {env env' : Env} (he : env.Follows T env') {o o' : Operand} (h : o.Follows T o')
    (target : TypeExpr) (span : Span) :
    (lowerCast env o target span).Follows T known (lowerCast env' o' target span) := by
  refine (resolve_follows he ..).bind fun ty _ hty => ?_
  obtain rfl := (same_ty ..).1 hty
  have hhint : castHint env' o'.expr ty = castHint env o.expr ty := by
    rw [h.expr]
    unfold castHint
    rw [he.layout]
  rw [hhint]
  refine Attempt.Follows.bind (h.lower _).weaken fun v v' hv => ?_
  rw [← show v.ty = v'.ty from hv, he.layout, he.ir]
  split
  · exact reject_follows _
  · exact (Attempt.emit_follows (emitCast_follows _ (by simp) _)).bind fun _ _ _ => pure_follows rfl (by simp)

mutual

/-- Every expression is lowered to corresponding code. -/
theorem operand_follows {env env' : Env} (he : env.Follows T env') : (e : Expr) →
    Operand.Follows T ⟨e, lowerExpr env e⟩ ⟨e, lowerExpr env' e⟩
  | .int s v => ⟨rfl, fun expected => lowerLiteral_follows he (.int s v) (.int v.toNat) expected⟩
  | .float s bits => ⟨rfl, fun expected => lowerLiteral_follows he (.float s bits) .float expected⟩
  | .bool _ v => ⟨rfl, fun _ => (Attempt.emit_follows (T.constBool v)).bind fun _ _ _ => pure_follows rfl (by simp)⟩
  | .char _ c => ⟨rfl, fun _ => by
      dsimp only
      rw [lowerExpr, lowerExpr, he.ir]
      exact (Attempt.emit_follows (T.constInt ..).weaken).bind fun _ _ _ => pure_follows rfl (by simp)⟩
  | .str _ text => ⟨rfl, fun _ =>
      (Attempt.emit_follows (T.globalString text)).bind fun _ _ _ => pure_follows rfl (by simp)⟩
  | .unit _ => ⟨rfl, fun _ => lift_follows unit_follows⟩
  | .null _ => ⟨rfl, fun _ => (Attempt.emit_follows T.constNull).bind fun _ _ _ => pure_follows rfl (by simp)⟩
  | .ident s name => ⟨rfl, fun _ => lowerIdent_follows he name s⟩
  | .unary s op e => ⟨rfl, fun expected => by
      dsimp only
      rw [lowerExpr, lowerExpr]
      split
      · exact lowerLiteral_follows he ..
      · exact lowerUnary_follows op (operand_follows he e) s expected⟩
  | .binary s op l r => ⟨rfl, fun expected => by
      dsimp only
      rw [lowerExpr, lowerExpr]
      split
      · exact lowerLiteral_follows he ..
      · exact lowerBinary_follows he op (operand_follows he l) (operand_follows he r) s⟩
  | .cast s e t => ⟨rfl, fun _ => lowerCast_follows he (operand_follows he e) t s⟩
  | .call s callee args => ⟨rfl, fun _ => lowerCall_follows (operands_follows he args) he callee s⟩
  | .methodCall s r method args => ⟨rfl, fun _ =>
      lowerMethodCall_follows (operands_follows he args) he (operand_follows he r) method s⟩
  | .field s r name => ⟨rfl, fun _ => lowerField_follows he (operand_follows he r) name s⟩
  | .index s r i => ⟨rfl, fun _ => lowerIndexing_follows he (operand_follows he r) (operand_follows he i) s⟩
  | .record s name inits => ⟨rfl, fun _ => lowerRecord_follows he name (initOperands_follows he inits) s⟩
  | .vectorNew s t => ⟨rfl, fun _ => lowerVectorNew_follows he t s⟩
termination_by structural e => e

theorem operands_follows {env env' : Env} (he : env.Follows T env') : (es : List Expr) →
    List.Forall₂ (Operand.Follows T) (operands env es) (operands env' es)
  | [] => .nil
  | e :: rest => .cons (operand_follows he e) (operands_follows he rest)
termination_by structural es => es

theorem initOperands_follows {env env' : Env} (he : env.Follows T env') : (es : List (String × Expr)) →
    List.Forall₂ (fun i i' => i'.1 = i.1 ∧ i.2.Follows T i'.2) (initOperands env es) (initOperands env' es)
  | [] => .nil
  | (_, e) :: rest => .cons ⟨rfl, operand_follows he e⟩ (initOperands_follows he rest)
termination_by structural es => es

end

end BlockForge.Lowering
