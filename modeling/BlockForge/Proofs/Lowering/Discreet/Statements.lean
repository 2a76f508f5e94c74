import BlockForge.Proofs.Lowering.Discreet.Expressions

/-!
# Statements keep functions discreet

A variable is declared by a new slot that the initial value is stored to, and assigned by storing to its slot. By
induction over statements, bodies use slots for nothing else.
-/

namespace BlockForge.Lowering

open Ir (BlockId Emit Fact HostDecl Knows ValueId)
open Ir.Emit
open Lower Attempt
open Source (Chain Expr FunctionDef Span Stmt TypeExpr)
open StateM
open BlockForge.Types (Ty)

variable {own : Set HostDecl} {env : Env} {known : List Fact}

/-! ### Reachability -/

theorem setReach_obeys (reach : ReachCache) :
    Lower.Obeys own env known (modify fun s => { s with reach }) fun _ => [] :=
  modify_obeys (fun _ => rfl) fun _ h _ => ⟨h.builder, h.declared, h.scope, h.loops⟩

theorem positionIsDead_obeys : Lower.Obeys own env known positionIsDead fun _ => [] := by
  refine .get_bind fun s _ _ => ?_
  split
  · exact .pure (by simp)
  · rename_i block _
    refine .ite (.pure (by simp)) (.ite (.pure (by simp)) ?_)
    exact (setReach_obeys (s.reach.isReachable s.builder block).2).bind fun _ => .pure (by simp)

theorem branchIfLive_obeys {target : BlockId} (ht : Fact.inner target ∈ known) :
    Lower.Obeys own env known (branchIfLive target) fun _ => [] :=
  positionIsDead_obeys.bind fun _ => .ite (Lower.emit_obeys (br_obeys ht)) (.pure (by simp))

theorem sealBlocks_obeys {word : Ir.Ty} (blocks : List BlockId) :
    Emit.Obeys (allowedHosts own) word known (sealBlocks blocks) fun _ => [] := by
  induction blocks generalizing known with
  | nil => exact .pure (by simp)
  | cons b rest ih => exact (sealBlock_obeys b).bind fun _ => ih

theorem finishBody_obeys (span : Span) : Lower.Obeys own env known (finishBody env span) fun _ => [] := by
  have hseal : ∀ known, Lower.Obeys own env known (get >>= fun s : State =>
      emit (sealBlocks ((List.range s.builder.function.blocks.size).map Ir.Id.mk))) fun _ => [] :=
    fun _ => .get_bind fun _ _ _ => Lower.emit_obeys (sealBlocks_obeys _)
  refine positionIsDead_obeys.bind fun dead => .ite (.ite ?_ ?_) (hseal _)
  · exact (Lower.emit_obeys retVoid_obeys).bind fun _ => hseal _
  · exact (report_obeys _).bind fun _ => (Lower.emit_obeys unreachable_obeys).bind fun _ => hseal _

/-! ### Variables -/

/-- A new variable: its value goes into a slot of its own, which its name is bound to. -/
theorem bindSlot_obeys (what name : String) {v : ValueId} {t : Ty} (hv : Knows known v (env.ir t)) (span : Span) :
    Lower.Obeys own env known (do
      let slot ← emit (Emit.entryAlloca (env.ir t) name)
      emit (Emit.store v slot)
      Lower.bind what name (.slot slot t) span) fun _ => [] := by
  refine (Lower.emit_obeys (entryAlloca_obeys ..)).bind fun slot => ?_
  refine (Lower.emit_obeys (store_slot_obeys _ (by simp [hv]) List.mem_cons_self)).bind fun _ => ?_
  exact Lower.bind_obeys _ _ _ fun _ hp => hp (.slot slot (env.ir t)) List.mem_cons_self

theorem bindValue_obeys (name : String) {v : Option Typed} (hv : ∀ p ∈ v.elim [] (Typed.facts env), p ∈ known)
    (span : Span) : Lower.Obeys own env known (bindValue env name v span) fun _ => [] := by
  cases v with
  | none => exact Lower.bind_obeys _ _ _ fun _ _ => trivial
  | some x => exact bindSlot_obeys _ _ ⟨hv _ (by simp), hv _ (by simp)⟩ _

theorem lowerInferred_obeys (name : String) {o : Operand} (h : o.Discreet own env) :
    (lowerInferred name o).Obeys own env known (Typed.facts env) :=
  (h.obeys none).bind fun _ => ite_obeys (reject_obeys _) (pure_obeys (by simp +contextual))

theorem lowerVar_obeys (name : String) (declared : Option TypeExpr) {o : Operand} (h : o.Discreet own env)
    (span : Span) : Lower.Obeys own env known (lowerVar env name declared o span) fun _ => [] := by
  cases declared with
  | none =>
    exact StateM.Discipline.Obeys.bind (lowerInferred_obeys name h) fun v =>
      bindValue_obeys _ (fun _ hp => List.mem_append_left _ hp) _
  | some ty =>
    refine StateM.Discipline.Obeys.bind (resolve_obeys ty span) fun target => ?_
    cases target with
    | none => exact (o.visit_obeys h).bind fun _ => bindValue_obeys _ (by simp) _
    | some t =>
      refine StateM.Discipline.Obeys.bind (o.lowerAs_obeys h ..) fun v => bindValue_obeys _ ?_ _
      cases v <;> simp +contextual

/-- Assigning a variable writes its slot. -/
theorem lowerLocalAssign_obeys (name : String) (span : Span) {o : Operand} (h : o.Discreet own env) :
    (lowerLocalAssign name span o).Obeys own env known fun _ => [] := by
  refine get_facts fun s hs _ => ?_
  cases hl : s.scope.lookup? name with
  | none =>
    exact ⟨[], by simp, (lift_obeys (report_obeys _)).bind fun _ => lift_obeys (o.visit_obeys h)⟩
  | some b =>
    have hslot := hs.lookup? hl
    cases b with
    | poisoned => exact ⟨[], by simp, lift_obeys (o.visit_obeys h)⟩
    | slot a t =>
      refine ⟨[.slot a (env.ir t)], List.forall_mem_singleton.2 hslot, ?_⟩
      exact (o.lowerAs_obeys h ..).bind fun v =>
        Attempt.emit_obeys (store_slot_obeys (env.ir t) (by simp) (by simp))

/-! ### Statements -/

section

variable (ha : env.allocator.Discreet own)

include ha

theorem lowerAssign_obeys (target : Expr) {o : Operand} (h : o.Discreet own env) (span : Span) :
    (lowerAssign env target o span).Obeys own env known fun _ => [] := by
  unfold lowerAssign
  split
  · exact lowerLocalAssign_obeys _ _ h
  · exact lowerFieldAssign_obeys (operand_discreet ha _) h _ span
  · exact lowerIndexAssign_obeys (operand_discreet ha _) (operand_discreet ha _) h span
  · exact (lift_obeys (report_obeys _)).bind fun _ => lift_obeys (o.visit_obeys h)

end

theorem lowerCondition_obeys {o : Operand} (h : o.Discreet own env) (what : String) :
    Lower.Obeys own env known (lowerCondition o what) fun c => [.plain c] := by
  have hfalse : ∀ known, Lower.Obeys own env known (emit (Emit.constBool false)) fun c => [.plain c] :=
    fun _ => (Lower.emit_obeys (constBool_obeys false)).imp (by simp)
  refine StateM.Discipline.Obeys.bind (h.obeys _) fun v => ?_
  cases v with
  | none => exact hfalse _
  | some x => exact .ite (.pure (by simp)) ((report_obeys _).bind fun _ => hfalse _)

theorem nextBlock_obeys {word : Ir.Ty} {stop : BlockId} (hs : Fact.inner stop ∈ known) (c : Chain) :
    Emit.Obeys (allowedHosts own) word known (nextBlock stop c) fun i => [.inner i] := by
  cases c with
  | done => exact .pure (by simpa using hs)
  | otherwise body => exact appendBlock_obeys _
  | clause cond body rest => exact appendBlock_obeys _

/-- Leaving a loop leads to one of its targets. -/
theorem lowerLoopExit_obeys (keyword : String) {exit : LoopTargets → BlockId}
    (he : ∀ targets, exit targets = targets.test ∨ exit targets = targets.stop) (span : Span) :
    Lower.Obeys own env known (lowerLoopExit keyword exit span) fun _ => [] := by
  refine .get_facts fun s h _ => ?_
  have hloops := h.loops
  cases hl : s.loops with
  | nil => exact ⟨[], by simp, report_obeys _⟩
  | cons targets rest =>
    obtain ⟨htest, hstop⟩ := hloops targets (by simp [hl])
    refine ⟨[.inner (exit targets)], List.forall_mem_singleton.2 ?_, Lower.emit_obeys (br_obeys List.mem_cons_self)⟩
    show exit targets ≠ Ir.Id.entry
    rcases he targets with h | h
    · rw [h]
      exact htest
    · rw [h]
      exact hstop

theorem lowerReturn_obeys {value : Option Operand} (h : ∀ o ∈ value, o.Discreet own env) (span : Span) :
    Lower.Obeys own env known (lowerReturn env value span) fun _ => [] := by
  unfold lowerReturn
  cases value with
  | some o =>
    refine StateM.Discipline.Obeys.bind (o.lowerAs_obeys (h o rfl) ..) fun v => ?_
    cases v with
    | none => exact Lower.emit_obeys unreachable_obeys
    | some x => exact Lower.emit_obeys (.ite retVoid_obeys (ret_obeys (by simp)))
  | none =>
    exact .ite (Lower.emit_obeys retVoid_obeys)
      ((report_obeys _).bind fun _ => Lower.emit_obeys unreachable_obeys)

theorem reportDead_obeys (span : Span) : Lower.Obeys own env known (reportDead span) fun _ => [] :=
  .get_bind fun _ _ _ => .ite ((report_obeys _).bind fun _ => setDeadReported_obeys true) (.pure (by simp))

theorem inScope_obeys {x y : Lower Unit} (h : Lower.Obeys own env known x fun _ => [])
    (hy : Lower.Obeys own env known y fun _ => []) :
    Lower.Obeys own env known (do onScope Scope.push; x; onScope Scope.pop; y) fun _ => [] :=
  push_obeys.bind fun _ => StateM.Discipline.Obeys.bind h fun _ => pop_obeys.bind fun _ => hy

mutual

/-- Every statement keeps functions discreet. -/
theorem lowerStmt_obeys (ha : env.allocator.Discreet own) : {known : List Fact} → (s : Stmt) →
    Lower.Obeys own env known (lowerStmt env s) fun _ => []
  | _, .var s name declared init => lowerVar_obeys name declared (operand_discreet ha init) s
  | _, .assign s target value =>
    StateM.Discipline.Obeys.bind (lowerAssign_obeys ha target (operand_discreet ha value) s) fun _ => .pure (by simp)
  | _, .expr _ e => Operand.visit_obeys (operand_discreet ha e)
  | _, .cond _ chain =>
    (Lower.emit_obeys (appendBlock_obeys _)).bind fun stop =>
      StateM.Discipline.Obeys.bind (lowerChain_obeys ha List.mem_cons_self chain) fun _ =>
        (Lower.emit_obeys (positionAt_obeys (by simp))).silent
  | _, .loop _ cond body => by
    refine (Lower.emit_obeys (appendBlock_obeys _)).bind fun test => ?_
    refine (Lower.emit_obeys (appendBlock_obeys _)).bind fun start => ?_
    refine (Lower.emit_obeys (appendBlock_obeys _)).bind fun stop => ?_
    refine (Lower.emit_obeys (br_obeys (by simp))).bind fun _ => ?_
    refine (Lower.emit_obeys (positionAt_obeys (by simp))).bind fun _ => ?_
    refine (lowerCondition_obeys (operand_discreet ha cond) _).bind fun c => ?_
    refine (Lower.emit_obeys (condBr_obeys (by simp) (by simp) (by simp))).bind fun _ => ?_
    refine (Lower.emit_obeys (positionAt_obeys (by simp))).bind fun _ => ?_
    refine (enterLoop_obeys ⟨test, stop⟩ (by simp) (by simp)).bind fun _ => ?_
    refine inScope_obeys (lowerStmts_obeys ha body) (leaveLoop_obeys.bind fun _ => ?_)
    exact (branchIfLive_obeys (by simp)).bind fun _ => (Lower.emit_obeys (positionAt_obeys (by simp))).silent
  | _, .ret s value => by
    refine lowerReturn_obeys (fun o ho => ?_) s
    obtain ⟨e, -, rfl⟩ := Option.map_eq_some_iff.1 ho
    exact operand_discreet ha e
  | _, .brk s => lowerLoopExit_obeys _ (fun _ => .inr rfl) s
  | _, .cont s => lowerLoopExit_obeys _ (fun _ => .inl rfl) s
  | _, .block _ body =>
    push_obeys.bind fun _ => StateM.Discipline.Obeys.bind (lowerStmts_obeys ha body) fun _ => pop_obeys
termination_by structural _ s => s

theorem lowerStmts_obeys (ha : env.allocator.Discreet own) : {known : List Fact} → (ss : List Stmt) →
    Lower.Obeys own env known (lowerStmts env ss) fun _ => []
  | _, [] => .pure (by simp)
  | _, s :: rest => by
    refine positionIsDead_obeys.bind fun dead => ?_
    refine .ite (StateM.Discipline.Obeys.bind (reportDead_obeys _) fun _ => lowerStmts_obeys ha rest) ?_
    exact (setDeadReported_obeys false).bind fun _ =>
      StateM.Discipline.Obeys.bind (lowerStmt_obeys ha s) fun _ => lowerStmts_obeys ha rest
termination_by structural _ ss => ss

theorem lowerChain_obeys (ha : env.allocator.Discreet own) : {known : List Fact} → {stop : BlockId} →
    Fact.inner stop ∈ known → (c : Chain) → Lower.Obeys own env known (lowerChain env stop c) fun _ => []
  | _, _, _, .done => .pure (by simp)
  | _, _, hs, .otherwise body => inScope_obeys (lowerStmts_obeys ha body) (branchIfLive_obeys hs)
  | _, stop, hs, .clause cond body rest => by
    refine StateM.Discipline.Obeys.bind (lowerCondition_obeys (operand_discreet ha cond) _) fun c => ?_
    refine (Lower.emit_obeys (appendBlock_obeys _)).bind fun start => ?_
    refine (Lower.emit_obeys (nextBlock_obeys (by simp [hs]) rest)).bind fun next => ?_
    refine (Lower.emit_obeys (condBr_obeys (by simp) (by simp) (by simp))).bind fun _ => ?_
    refine (Lower.emit_obeys (positionAt_obeys (by simp))).bind fun _ => ?_
    refine inScope_obeys (lowerStmts_obeys ha body) ((branchIfLive_obeys (by simp [hs])).bind fun _ => ?_)
    exact .ite (StateM.Discipline.Obeys.bind (Lower.emit_obeys (positionAt_obeys (by simp))) fun _ =>
      lowerChain_obeys ha (by simp [hs]) rest) (lowerChain_obeys ha (by simp [hs]) rest)
termination_by structural _ _ _ c => c

end

end BlockForge.Lowering
