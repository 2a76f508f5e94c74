import BlockForge.Proofs.Lowering.Tandem.Expressions

/-!
# Statements and functions in tandem

By induction over statements: two lowerings of one function whose environments follow each other keep every
tandem.
-/

namespace BlockForge.Lowering

open Ir (BlockId Emit Known Linkable ValueId)
open Lower Attempt
open Source (Chain Expr FunctionDef Span Stmt TypeExpr)
open StateM
open BlockForge.Types (Ty)

variable {T : Tandem} {known : List (ValueId × ValueId)}

/-! ### Reachability -/

theorem positionIsDead_run (s : State) : positionIsDead s = (match s.builder.current with
    | none => pure true
    | some block =>
      if s.builder.hasTerminator block then pure true
      else if block = Ir.Id.entry then pure false
      else do
        modify fun s' : State => { s' with reach := (s.reach.isReachable s.builder block).2 }
        pure !(s.reach.isReachable s.builder block).1 : Lower Bool) s := rfl

theorem positionIsDead_follows : Lower.Follows T known positionIsDead positionIsDead := by
  refine ⟨fun {L s t} hL h => ?_⟩
  have hreach : ∀ block, t.reach.isReachable t.builder block = s.reach.isReachable s.builder block := by
    intro block
    unfold ReachCache.isReachable
    rw [h.reach, T.terminators h.builder, T.successorLists h.builder]
  rw [positionIsDead_run, positionIsDead_run, T.current h.builder]
  cases s.builder.current with
  | none => exact ⟨L, subset_rfl, h, rfl, by simp⟩
  | some block =>
    dsimp only
    rw [T.hasTerminator h.builder, hreach]
    split
    · exact ⟨L, subset_rfl, h, rfl, by simp⟩
    · split
      · exact ⟨L, subset_rfl, h, rfl, by simp⟩
      · exact ⟨L, subset_rfl, ⟨h.builder, h.diags, h.scope, h.loops, h.deadReported, rfl⟩, rfl, by simp⟩

theorem branchIfLive_follows (target : BlockId) :
    Lower.Follows T known (branchIfLive target) (branchIfLive target) := by
  refine positionIsDead_follows.bind fun dead _ hd => ?_
  obtain rfl := (Linkable.same_bool ..).1 hd
  exact .ite (Lower.emit_follows (T.br target)) (.pure (by simp) (by simp))

theorem sealBlocks_follows (blocks : List BlockId) : T.Follows known (sealBlocks blocks) (sealBlocks blocks) := by
  induction blocks with
  | nil => exact .pure (by simp) (by simp)
  | cons b rest ih => exact (T.sealBlock b).bind fun _ _ _ => ih.mono (by simp +contextual)

theorem finishBody_follows {env env' : Env} (he : env.Follows T env') (span : Span) :
    Lower.Follows T known (finishBody env span) (finishBody env' span) := by
  have hseal : ∀ known, Lower.Follows T known (get >>= fun s : State =>
      emit (sealBlocks ((List.range s.builder.function.blocks.size).map Ir.Id.mk))) (get >>= fun s : State =>
      emit (sealBlocks ((List.range s.builder.function.blocks.size).map Ir.Id.mk))) := by
    intro known
    refine .get_bind fun hL h => ?_
    rw [T.blocks h.builder]
    exact Lower.emit_follows (sealBlocks_follows _)
  unfold finishBody
  rw [he.returnType, he.functionName]
  refine positionIsDead_follows.bind fun dead _ hd => ?_
  obtain rfl := (Linkable.same_bool ..).1 hd
  refine .ite (.ite ?_ ?_) (hseal _)
  · exact (Lower.emit_follows T.retVoid).bind fun _ _ _ => hseal _
  · exact (report_follows _).bind fun _ _ _ => (Lower.emit_follows T.unreachable).bind fun _ _ _ => hseal _

/-! ### Statements -/

theorem lowerInferred_follows (name : String) {o o' : Operand} (h : o.Follows T o') :
    (lowerInferred name o).Follows T known (lowerInferred name o') := by
  refine Attempt.Follows.bind (h.lower none).weaken fun v v' hv => ?_
  rw [← show v.ty = v'.ty from hv, Operand.span, Operand.span, h.expr]
  exact ite_follows (reject_follows _) (pure_follows hv (by simp))

theorem bindValue_follows {env env' : Env} (he : env.Follows T env') (name : String) {v v' : Option Typed}
    (hv : Linkable.same v v') (hp : ∀ p ∈ Linkable.pairs v v', p ∈ known) (span : Span) :
    Lower.Follows T known (bindValue env name v span) (bindValue env' name v' span) := by
  rcases Linkable.same_option hv with ⟨rfl, rfl⟩ | ⟨x, x', rfl, rfl, hx⟩
  · exact bind_follows _ _ (fun _ _ => .poisoned) _
  · have hpx : Known known x.value x'.value := hp _ (by simp)
    unfold bindValue
    dsimp only
    rw [← show x.ty = x'.ty from hx, he.ir]
    refine (Lower.emit_follows (T.entryAlloca ..).weaken).bind fun slot slot' _ => ?_
    refine (Lower.emit_follows (T.store (by simp [hpx]) (by simp))).bind fun _ _ _ => ?_
    exact bind_follows _ _ (fun L hL => .slot (hL _ (by simp)) _) _

theorem lowerVar_follows {env env' : Env} (he : env.Follows T env') (name : String) (declared : Option TypeExpr)
    {o o' : Operand} (h : o.Follows T o') (span : Span) :
    Lower.Follows T known (lowerVar env name declared o span) (lowerVar env' name declared o' span) := by
  cases declared with
  | none =>
    exact StateM.Follows.bind (lowerInferred_follows name h) fun v v' hv =>
      bindValue_follows he _ hv (fun _ hp => by simp [hp]) _
  | some ty =>
    refine StateM.Follows.bind (resolve_follows he ty span) fun target target' ht => ?_
    rcases Linkable.same_option ht with ⟨rfl, rfl⟩ | ⟨x, _, rfl, rfl, hx⟩
    · exact (o.visit_follows h).bind fun _ _ _ => bindValue_follows he _ (by simp) (by simp) _
    · obtain rfl := (same_ty ..).1 hx
      exact StateM.Follows.bind (o.lowerAs_follows h ..) fun v v' hv =>
        bindValue_follows he _ hv (fun _ hp => by simp [hp]) _

theorem lowerLocalAssign_follows (name : String) (span : Span) {o o' : Operand} (h : o.Follows T o') :
    (lowerLocalAssign name span o).Follows T known (lowerLocalAssign name span o') := by
  refine Attempt.get_links fun {L s t} hL hst => ?_
  have hl := hst.scope.lookup? name
  generalize s.scope.lookup? name = x, t.scope.lookup? name = y at hl ⊢
  cases hl with
  | none =>
    refine ⟨[], by simp, ?_⟩
    exact Attempt.Follows.bind (lift_follows (report_follows _)) fun _ _ _ => lift_follows (o.visit_follows h)
  | some hb =>
    cases hb with
    | poisoned => exact ⟨[], by simp, lift_follows (o.visit_follows h)⟩
    | @slot a a' ha ty =>
      refine ⟨[(a, a')], by simpa using ha, ?_⟩
      exact Attempt.Follows.bind (o.lowerAs_follows h ..) fun v v' _ =>
        Attempt.emit_follows (T.store (by simp) (by simp))

theorem lowerAssign_follows {env env' : Env} (he : env.Follows T env') (target : Expr) {o o' : Operand}
    (h : o.Follows T o') (span : Span) :
    (lowerAssign env target o span).Follows T known (lowerAssign env' target o' span) := by
  unfold lowerAssign
  split
  · exact lowerLocalAssign_follows _ _ h
  · exact lowerFieldAssign_follows he (operand_follows he _) h _ span
  · exact lowerIndexAssign_follows he (operand_follows he _) (operand_follows he _) h span
  · exact (lift_follows (report_follows _)).bind fun _ _ _ => lift_follows (o.visit_follows h)

theorem lowerCondition_follows {o o' : Operand} (h : o.Follows T o') (what : String) :
    Lower.Follows T known (lowerCondition o what) (lowerCondition o' what) := by
  refine StateM.Follows.bind (h.lower _).weaken fun v v' hv => ?_
  rcases Linkable.same_option hv with ⟨rfl, rfl⟩ | ⟨x, x', rfl, rfl, hx⟩
  · exact Lower.emit_follows (T.constBool _)
  · dsimp only
    rw [← show x.ty = x'.ty from hx, Operand.span, Operand.span, h.expr]
    exact .ite (.pure (by simp) (by simp)) ((report_follows _).bind fun _ _ _ => Lower.emit_follows (T.constBool _))

theorem nextBlock_follows (stop : BlockId) (c : Chain) : T.Follows known (nextBlock stop c) (nextBlock stop c) := by
  cases c with
  | done => exact .pure (by simp) (by simp)
  | otherwise body => exact (T.appendBlock (isLabel_of_last rfl rfl)).weaken
  | clause cond body rest => exact (T.appendBlock (isLabel_of_last rfl rfl)).weaken

theorem lowerLoopExit_follows (keyword : String) (exit : LoopTargets → BlockId) (span : Span) :
    Lower.Follows T known (lowerLoopExit keyword exit span) (lowerLoopExit keyword exit span) := by
  refine .get_bind fun {L s t} hL h => ?_
  rw [h.loops]
  cases s.loops with
  | nil => exact report_follows _
  | cons targets rest => exact Lower.emit_follows (T.br _)

theorem lowerReturn_follows {env env' : Env} (he : env.Follows T env') {value value' : Option Operand}
    (h : Option.Rel (Operand.Follows T) value value') (span : Span) :
    Lower.Follows T known (lowerReturn env value span) (lowerReturn env' value' span) := by
  unfold lowerReturn
  rw [he.returnType, he.functionName]
  cases h with
  | @some o o' ho =>
    refine StateM.Follows.bind (o.lowerAs_follows ho ..) fun v v' hv => ?_
    rcases Linkable.same_option hv with ⟨rfl, rfl⟩ | ⟨x, x', rfl, rfl, -⟩
    · exact Lower.emit_follows T.unreachable
    · exact Lower.emit_follows (.ite T.retVoid (T.ret (by simp)))
  | none =>
    exact .ite (Lower.emit_follows T.retVoid)
      ((report_follows _).bind fun _ _ _ => Lower.emit_follows T.unreachable)

theorem reportDead_follows (span : Span) : Lower.Follows T known (reportDead span) (reportDead span) := by
  refine .get_bind fun {L s t} hL h => ?_
  rw [h.deadReported]
  exact .ite ((report_follows _).bind fun _ _ _ => setDeadReported_follows true) (.pure (by simp) (by simp))

theorem inScope_follows {x x' y y' : Lower Unit} (h : Lower.Follows T known x x') (hy : Lower.Follows T known y y') :
    Lower.Follows T known (do onScope Scope.push; x; onScope Scope.pop; y)
      (do onScope Scope.push; x'; onScope Scope.pop; y') :=
  push_follows.bind fun _ _ _ => StateM.Follows.bind h fun _ _ _ => pop_follows.bind fun _ _ _ => hy

mutual

/-- Every statement is lowered to corresponding code. -/
theorem lowerStmt_follows {env env' : Env} (he : env.Follows T env') : {known : List (ValueId × ValueId)} → (s : Stmt) →
    Lower.Follows T known (lowerStmt env s) (lowerStmt env' s)
  | _, .var s name declared init => lowerVar_follows he name declared (operand_follows he init) s
  | _, .assign s target value =>
    StateM.Follows.bind (lowerAssign_follows he target (operand_follows he value) s) fun _ _ _ =>
      .pure (by simp) (by simp)
  | _, .expr _ e => Operand.visit_follows (operand_follows he e)
  | _, .cond _ chain => by
    refine (Lower.emit_follows (T.appendBlock (isLabel_of_last rfl rfl)).weaken).bind fun stop _ hs => ?_
    obtain rfl := (Linkable.same_block ..).1 hs
    exact StateM.Follows.bind (lowerChain_follows he stop chain) fun _ _ _ => Lower.emit_follows (T.positionAt stop)
  | _, .loop _ cond body => by
    refine (Lower.emit_follows (T.appendBlock (isLabel_of_last rfl rfl)).weaken).bind fun test _ h₁ => ?_
    obtain rfl := (Linkable.same_block ..).1 h₁
    refine (Lower.emit_follows (T.appendBlock (isLabel_of_last rfl rfl)).weaken).bind fun start _ h₂ => ?_
    obtain rfl := (Linkable.same_block ..).1 h₂
    refine (Lower.emit_follows (T.appendBlock (isLabel_of_last rfl rfl)).weaken).bind fun stop _ h₃ => ?_
    obtain rfl := (Linkable.same_block ..).1 h₃
    refine (Lower.emit_follows (T.br test)).bind fun _ _ _ => (Lower.emit_follows (T.positionAt test)).bind fun _ _ _ => ?_
    refine (lowerCondition_follows (operand_follows he cond) _).bind fun c c' _ => ?_
    refine (Lower.emit_follows (T.condBr (by simp) start stop)).bind fun _ _ _ => ?_
    refine (Lower.emit_follows (T.positionAt start)).bind fun _ _ _ => ?_
    refine (setLoops_follows (⟨test, stop⟩ :: ·)).bind fun _ _ _ => inScope_follows (lowerStmts_follows he body) ?_
    refine (setLoops_follows List.tail).bind fun _ _ _ => (branchIfLive_follows test).bind fun _ _ _ => ?_
    exact Lower.emit_follows (T.positionAt stop)
  | _, .ret s value => by
    refine lowerReturn_follows he ?_ s
    cases value with
    | none => exact .none
    | some e => exact .some (operand_follows he e)
  | _, .brk s => lowerLoopExit_follows ..
  | _, .cont s => lowerLoopExit_follows ..
  | _, .block _ body =>
    push_follows.bind fun _ _ _ => StateM.Follows.bind (lowerStmts_follows he body) fun _ _ _ => pop_follows
termination_by structural _ s => s

theorem lowerStmts_follows {env env' : Env} (he : env.Follows T env') : {known : List (ValueId × ValueId)} → (ss : List Stmt) →
    Lower.Follows T known (lowerStmts env ss) (lowerStmts env' ss)
  | _, [] => .pure (by simp) (by simp)
  | _, s :: rest => by
    refine positionIsDead_follows.bind fun dead _ hd => ?_
    obtain rfl := (Linkable.same_bool ..).1 hd
    refine .ite (StateM.Follows.bind (reportDead_follows _) fun _ _ _ => lowerStmts_follows he rest) ?_
    exact (setDeadReported_follows false).bind fun _ _ _ =>
      StateM.Follows.bind (lowerStmt_follows he s) fun _ _ _ => lowerStmts_follows he rest
termination_by structural _ ss => ss

theorem lowerChain_follows {env env' : Env} (he : env.Follows T env') : {known : List (ValueId × ValueId)} → (stop : BlockId) → (c : Chain) →
    Lower.Follows T known (lowerChain env stop c) (lowerChain env' stop c)
  | _, _, .done => .pure (by simp) (by simp)
  | _, stop, .otherwise body => inScope_follows (lowerStmts_follows he body) (branchIfLive_follows stop)
  | _, stop, .clause cond body rest => by
    refine StateM.Follows.bind (lowerCondition_follows (operand_follows he cond) _) fun c c' _ => ?_
    refine (Lower.emit_follows (T.appendBlock (isLabel_of_last rfl rfl)).weaken).bind fun start _ h₁ => ?_
    obtain rfl := (Linkable.same_block ..).1 h₁
    refine (Lower.emit_follows (nextBlock_follows stop rest)).bind fun next _ h₂ => ?_
    obtain rfl := (Linkable.same_block ..).1 h₂
    refine (Lower.emit_follows (T.condBr (by simp) start next)).bind fun _ _ _ => ?_
    refine (Lower.emit_follows (T.positionAt start)).bind fun _ _ _ => ?_
    refine inScope_follows (lowerStmts_follows he body) ((branchIfLive_follows stop).bind fun _ _ _ => ?_)
    exact .ite (StateM.Follows.bind (Lower.emit_follows (T.positionAt next)) fun _ _ _ => lowerChain_follows he stop rest)
      (lowerChain_follows he stop rest)
termination_by structural _ _ c => c

end

/-! ### Functions -/

/-- The parameters of a function, each with itself. -/
def paramLinks (n : Nat) : List (ValueId × ValueId) :=
  (List.range n).map fun i => (Ir.Function.param i, Ir.Function.param i)

theorem bindParams_follows {env env' : Env} (he : env.Follows T env') (params : List (String × Ty × Span))
    (position : Nat) (hk : ∀ i, i < params.length → Known known (Ir.Function.param (position + i))
      (Ir.Function.param (position + i))) :
    Lower.Follows T known (bindParams env position params) (bindParams env' position params) := by
  induction params generalizing position with
  | nil => exact .pure (by simp) (by simp)
  | cons p rest ih =>
    obtain ⟨name, ty, span⟩ := p
    have hfirst : Known known (Ir.Function.param position) (Ir.Function.param position) := hk 0 (by simp)
    have hparam : Lower.Follows T known (bindParam env position name ty span)
        (bindParam env' position name ty span) := by
      unfold bindParam
      rw [he.ir]
      refine (Lower.emit_follows (T.entryAlloca ..).weaken).bind fun slot slot' _ => ?_
      refine (Lower.emit_follows (T.store (by simp [hfirst]) (by simp))).bind fun _ _ _ => ?_
      exact bind_follows _ _ (fun L hL => .slot (hL _ (by simp)) _) _
    refine hparam.bind fun _ _ _ => ih (position + 1) fun i hi => ?_
    have hnext := hk (i + 1) (by simpa using hi)
    rw [Nat.add_right_comm, Nat.add_assoc]
    exact hnext

/-- Two lowerings of one function. -/
theorem lowerFunction_follows {env env' : Env} (he : env.Follows T env') (d : FunctionDef) (sig : Signature) :
    Lower.Follows T (paramLinks (parameters d sig).length) (lowerFunction env d sig) (lowerFunction env' d sig) := by
  refine (Lower.emit_follows (T.appendBlock (isLabel_of_last rfl rfl)).weaken).bind fun entry _ h => ?_
  obtain rfl := (Linkable.same_block ..).1 h
  refine (Lower.emit_follows (T.positionAt entry)).bind fun _ _ _ => push_follows.bind fun _ _ _ => ?_
  refine (bindParams_follows he _ 0 fun i hi => ?_).bind fun _ _ _ => ?_
  · simpa [Known, paramLinks] using ⟨i, hi, rfl⟩
  · refine StateM.Follows.bind (lowerStmts_follows he d.body) fun _ _ _ => ?_
    exact (finishBody_follows he _).bind fun _ _ _ => pop_follows

/-- Two wrappers around one entry point. -/
theorem emitWrapper_follows (sig : Signature) (name : String) :
    T.Follows known (emitWrapper sig name) (emitWrapper sig name) := by
  refine (T.appendBlock (isLabel_of_last rfl rfl)).weaken.bind fun entry _ h => ?_
  obtain rfl := (Linkable.same_block ..).1 h
  refine (T.positionAt entry).bind fun _ _ _ => (T.call sig.func .nil name).bind fun result result' hr => ?_
  rcases Linkable.same_option hr with ⟨rfl, rfl⟩ | ⟨value, value', rfl, rfl, -⟩
  · exact (T.constInt ..).weaken.bind fun code code' _ => T.ret (by simp)
  · refine .ite ?_ ?_
    · exact (T.constInt ..).weaken.bind fun code code' _ => T.ret (by simp)
    · exact (T.intResize (by simp) ..).bind fun code code' _ => T.ret (by simp)

end BlockForge.Lowering
