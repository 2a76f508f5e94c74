import BlockForge.Proofs.Lowering.Definitions

/-!
# Return coverage and dead code

The lowering looks at the half-built block graph to find dead statements and missing returns. What it finds
is what the structure of the body says, in programs with and without errors.
-/

namespace BlockForge.Lowering

open Diagnostic (Diag Queue)
open Source (FunctionDef Program Span Stmt completesAll runStarts visitsAll)
open Ir (Emit)

/-- A list is lowered in two parts, the second from where control gets to after the first. -/
theorem followStmts_append (env : Env) (inLoop live : Bool) (pre post : List Stmt) :
    followStmts env inLoop live (pre ++ post) = (do
      followStmts env inLoop live pre
      followStmts env inLoop (live && completesAll inLoop pre) post) := by
  induction pre generalizing live with
  | nil =>
    simp only [List.nil_append, followStmts, completesAll, Bool.and_true, pure_bind]
  | cons st rest ih =>
    cases live with
    | true =>
      simp only [List.cons_append, followStmts, completesAll, ih, Bool.true_and, bind_assoc]
    | false =>
      simp only [List.cons_append, followStmts, ih, Bool.false_and, bind_assoc]

/-- A skipped statement starts a run of such, or goes on with one. -/
theorem reportDead_eq (span : Span) (s : State) : reportDead span s = ((), { s with
    diags := s.diags.submit (if s.deadReported then [] else [Problem.unreachableCode span])
    deadReported := true }) := by
  obtain ⟨builder, diags, scope, loops, dead, reach⟩ := s
  cases dead with
  | true => rfl
  | false => rfl

/-- Between statements, and with a cache to match, what follows some statements is dead exactly if one of
them cannot complete. -/
theorem positionIsDead_iff_completesAll {env : Env} (henv : env.Shaped) {s : State} (hs : s.Sane)
    (hreach : s.reach.Exact s.builder) (hr : s.builder.Reached) (pre : List Stmt) :
    (Lower.positionIsDead (lowerStmts env pre s).2).1 = !completesAll s.inLoop pre := by
  obtain ⟨s', log, hm, hp, -⟩ := list_paths henv pre s true hs (by simpa using hr)
  obtain ⟨reach, heq, hexact⟩ := hm.cached s.diags s.reach hreach
  obtain ⟨dead, reach', hd, -, hiff⟩ := positionIsDead_exact
    (s := { s' with diags := s.diags.submit log, reach }) ((hs.passes hp).placed) hexact
  have hlive : dead = false ↔ completesAll s.inLoop pre = true := by
    rw [hiff, ← Bool.true_and (completesAll s.inLoop pre)]
    exact hp.live
  rw [show lowerStmts env pre s = _ from heq, hd]
  exact Bool.eq_not.2 fun he => by cases dead <;> simp_all

section

variable {config : Config} {allocator : Allocator} {p : Program}

/-- Each definition of a program is lowered by the structure of its body, whatever has been reported
before. In every list a statement is dead exactly if one before it cannot complete; it is then passed over,
and the first of a run of such is reported. A missing return is reported exactly if the body completes and
there is something to return. -/
theorem lowering_follows_completion (ha : allocator.IsInline) {position : Nat} {d : FunctionDef}
    {sig : Signature} (hd : Declares p (Collection.ofProgram config p).tables position d sig) :
    let env := definitionEnv config allocator (Collection.ofProgram config p).tables d sig
    let m := (lowerFirst config allocator p position).1
    (∃ (s : State) (log : List Diag), (∀ q : Queue,
        (∃ reach, lowerFunction env d sig ⟨.start m sig.func, q, {}, [], false, {}⟩ =
          ((), { s with diags := q.submit log, reach })) ∧
        followFunction env d sig ⟨.start m sig.func, q, {}, [], false, {}⟩ =
          ((), { s with diags := q.submit log, reach := {} })) ∧
      log.filter (·.code == .w2001) =
        (runStarts false (visitsAll false true d.body)).map Problem.unreachableCode ∧
      log.filter (·.code == .e2030) = if completesAll false d.body && !sig.ret.isUnit then
        [Problem.missingReturn d.span d.symbol sig.ret.render] else []) ∧
    (∀ (s : State) (pre : List Stmt), s.Sane → s.reach.Exact s.builder → s.builder.Reached →
      (Lower.positionIsDead (lowerStmts env pre s).2).1 = !completesAll s.inLoop pre) ∧
    (∀ (inLoop : Bool) (pre : List Stmt) (st : Stmt) (rest : List Stmt),
      followStmts env inLoop true (pre ++ st :: rest) = (do
        followStmts env inLoop true pre
        if completesAll inLoop pre then do
          modify fun s => { s with deadReported := false }
          followStmt env inLoop st
          followStmts env inLoop (st.completes inLoop) rest
        else do
          reportDead st.span
          followStmts env inLoop false rest)) ∧
    ∀ (span : Span) (s : State), reportDead span s = ((), { s with
      diags := s.diags.submit (if s.deadReported then [] else [Problem.unreachableCode span])
      deadReported := true }) := by
  intro env m
  have hc := Collection.ofProgram_fits config p
  have hlt : position < p.functions.length := (List.getElem?_eq_some_iff.1 hd.1).1
  have hready := lowerFirst_ready config ha (Nat.le_of_lt hlt) (p := p)
  have henv : env.Shaped := definitionEnv_shaped hc ha d sig
  refine ⟨?_, fun s pre hs he hr => positionIsDead_iff_completesAll henv hs he hr pre,
    fun inLoop pre st rest => ?_, reportDead_eq⟩
  · have hmem := mem_of_lookup hd.2.1
    obtain ⟨name, hf⟩ := hc.functions _ hmem
    rw [← hready.todo _ hmem (Nat.le_of_eq hd.2.2.symm)] at hf
    obtain ⟨s, log, hb, hq⟩ := lowerFunction_bodied henv d hf
    exact ⟨s, log, hq, hb.skips, hb.returns⟩
  · rw [followStmts_append, Bool.true_and]
    cases completesAll inLoop pre <;> rfl

/-- A body that returns on one of its two paths, with a dead statement after the return. -/
def halfReturnProgram : Program where
  structs := []
  functions := [{
    symbol := "f", receiver := none, params := [], returnType := .named "i32"
    body := [.cond ⟨0, 9⟩ (.clause (.bool ⟨1, 2⟩ true)
      [.ret ⟨2, 3⟩ (some (.bool ⟨3, 4⟩ true)), .expr ⟨4, 5⟩ (.unit ⟨4, 5⟩)] .done)]
    span := ⟨0, 9⟩ }]

theorem lowering_follows_completion_halfReturn : ∃ d sig,
    Declares halfReturnProgram (Collection.ofProgram {} halfReturnProgram).tables 0 d sig ∧
    ∃ (s : State) (log : List Diag), (∀ q : Queue, ∃ reach,
        lowerFunction (definitionEnv {} .collector (Collection.ofProgram {} halfReturnProgram).tables d sig)
          d sig ⟨.start (lowerFirst {} .collector halfReturnProgram 0).1 sig.func, q, {}, [], false, {}⟩ =
            ((), { s with diags := q.submit log, reach })) ∧
      log.filter (·.code == .w2001) = [Problem.unreachableCode ⟨4, 5⟩] ∧
      log.filter (·.code == .e2030) = [Problem.missingReturn ⟨0, 9⟩ "f" "i32"] := by
  have hd : ∃ d sig, Declares halfReturnProgram (Collection.ofProgram {} halfReturnProgram).tables 0 d sig ∧
      d = halfReturnProgram.functions[0] ∧ sig.ret = .i32 := ⟨_, _, ⟨rfl, rfl, rfl⟩, rfl, rfl⟩
  obtain ⟨d, sig, hd, rfl, hret⟩ := hd
  obtain ⟨⟨s, log, hq, hskip, hmissing⟩, -⟩ := lowering_follows_completion collector_inline hd
  refine ⟨_, sig, hd, s, log, fun q => (hq q).1, hskip, ?_⟩
  rw [hmissing, hret]
  rfl

end

end BlockForge.Lowering
