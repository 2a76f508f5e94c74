import BlockForge.Proofs.Lowering.EntryPoint
import BlockForge.Proofs.Machine.Frames

/-!
# Sealed blocks

Lowering a body ends by sealing the blocks that are still open. Where every `if` has a clause or an `else`,
control gets to none of them. Together with the calls that do not return this keeps every run of an accepted
program from a dead end.
-/

namespace BlockForge.Lowering

open Diagnostic (Diag Queue)
open Ir (BlockId Builder FuncId Function Module)
open Ir.Emit
open Machine (Session)
open Source (FunctionDef Program properAll)

section

variable {config : Config} {allocator : Allocator} {p : Program}

/-- The state in which the definition at a position has been lowered, but for the blocks left open. -/
def unsealedState (config : Config) (allocator : Allocator) (p : Program) (position : Nat)
    (d : FunctionDef) (sig : Signature) : State :=
  let acc := lowerFirst config allocator p position
  (lowerUnsealed (definitionEnv config allocator (Collection.ofProgram config p).tables d sig) d sig
    ⟨.start acc.1 sig.func, acc.2, {}, [], false, {}⟩).2

/-! ### Functions without a dead end in reach -/

theorem Bodied.guarded {env : Env} {d : FunctionDef} {sig : Signature} {m n : Module} {s : State}
    {log : List Diag} (h : Bodied env d sig m s log) (hq : Quiet env {} log)
    (hp : properAll d.body = true)
    (hh : ∀ {id d}, s.builder.module.host? id = some d → n.host? id = some d) :
    s.builder.function.Guarded n := by
  obtain ⟨b, -, hseals, hopen, hdead⟩ := h.sealed
  intro i hpath hend
  rw [Function.Path, hseals.succs] at hpath
  rw [hseals.ending] at hend
  split at hend
  · rename_i hi
    exact absurd hpath (hopen hp i (mem_allBlocks.1 hi.2) hi.1)
  · have hhalts := (hdead i hend).resolve_right fun hn => hn hq
    exact halts_mono hhalts hseals.code fun hd => hh (hseals.hosts hd)

theorem wrapperCode_guarded (sig : Signature) (name : String) (ret : Ir.Ty) (m : Module) :
    (wrapperCode sig name ret).Guarded m := by
  have hone : ∀ values insts v, (oneBlock values insts (some (.ret (some v)))).Guarded m := by
    intro values insts v i _ hend
    obtain ⟨_ | n⟩ := i
    · cases hend
    · cases hend
  unfold wrapperCode
  dsimp only
  split
  · exact hone _ _ _
  · split
    · exact hone _ _ _
    · exact hone _ _ _

/-- A definition of a program without errors reports none. -/
theorem LoweredBody.quiet {d : FunctionDef} {sig : Signature} {acc : Module × Queue}
    (h : LoweredBody config allocator (.ofProgram config p) d sig acc)
    (hp : (Collection.ofProgram config p).tables.poisoned = []) (he : hasError acc.2 = false) :
    ∃ m s log, Bodied (definitionEnv config allocator (Collection.ofProgram config p).tables d sig) d sig
        m s log ∧
      Quiet (definitionEnv config allocator (Collection.ofProgram config p).tables d sig) {} log ∧
      acc.1.function? sig.func = some s.builder.function ∧
      ∀ {id d}, s.builder.module.host? id = some d → acc.1.host? id = some d := by
  obtain ⟨m, s, log, hb, hf, hh, hlog⟩ := h
  refine ⟨m, s, log, hb, ⟨⟨by simp, hp⟩, fun e hmem => ?_⟩, hf, hh⟩
  by_contra hne
  have := hlog (List.any_eq_true.2 ⟨e, hmem, by simpa using hne⟩)
  rw [he] at this
  cases this

theorem poisoned_eq_nil (ha : allocator.IsInline)
    (herr : (lowerProgram config allocator p).hasErrors = false) :
    (Collection.ofProgram config p).tables.poisoned = [] := by
  by_contra hne
  obtain ⟨symbol, hs⟩ := List.exists_mem_of_ne_nil _ hne
  have hready := lowerFirst_ready config ha (Nat.le_refl _) (p := p)
  have := hready.errors ((Collection.ofProgram_fits config p).poisoned symbol hs)
  rw [hasError_lowerFirst ha herr (Nat.le_refl _)] at this
  cases this

/-- In a program without errors, with a clause or an `else` in every `if`, no function has a dead end in
reach that control can get to the end of. -/
theorem lowerProgram_guarded (ha : allocator.IsInline)
    (herr : (lowerProgram config allocator p).hasErrors = false)
    (hp : ∀ d ∈ p.functions, properAll d.body = true) {j : FuncId} {f : Function}
    (hj : (lowerProgram config allocator p).module.function? j = some f) :
    f.Guarded (lowerProgram config allocator p).module := by
  have hready := lowerFirst_ready config ha (Nat.le_refl _) (p := p)
  have hbodies : ∀ {j f n}, (lowerFirst config allocator p p.functions.length).1.function? j = some f →
      n.hosts = (lowerFirst config allocator p p.functions.length).1.hosts → f.Guarded n := by
    intro j f n hj hhosts
    have hhead := hready.heads j
    rw [hj, Option.map_some, eq_comm, Option.map_eq_some_iff] at hhead
    obtain ⟨g, hg, -⟩ := hhead
    obtain ⟨d, sig, hdecl, rfl⟩ := ofProgram_declares hg
    obtain ⟨m, s, log, hb, hquiet, hf, hh⟩ := (hdecl.lowered ha).1.quiet (poisoned_eq_nil ha herr)
      (hasError_lowerFirst ha herr (Nat.le_refl _))
    obtain rfl : f = s.builder.function := Option.some.inj (hj.symm.trans hf)
    refine hb.guarded hquiet (hp d (List.mem_of_getElem? hdecl.1)) fun hd => ?_
    rw [Module.host?, hhosts]
    exact hh hd
  rcases lowerProgram_cases ha herr with ⟨-, hm⟩ | ⟨d, sig, -, -, -, -, -, hm⟩
  · rw [hm] at hj ⊢
    exact hbodies hj rfl
  · rw [hm] at hj ⊢
    rw [Module.function?, Array.getElem?_push] at hj
    split at hj
    · obtain rfl := Option.some.inj hj
      exact wrapperCode_guarded ..
    · exact hbodies hj rfl

/-- Where a definition has a clause or an `else` in every `if`, the blocks that are still open at the end of its
body are sealed and out of reach. Where every definition of a program without errors does, no run of the module
ends in a dead end. -/
theorem lowering_seals_dead_blocks (ha : allocator.IsInline) :
    (∀ {position : Nat} {d : FunctionDef} {sig : Signature},
      Declares p (Collection.ofProgram config p).tables position d sig → properAll d.body = true →
      let before := (unsealedState config allocator p position d sig).builder.function
      let after := (definitionState config allocator p position d sig).builder.function
      (lowerProgram config allocator p).module.function? sig.func = some after ∧
      after.blocks.size = before.blocks.size ∧
      ∀ i : BlockId, i.index < before.blocks.size →
        (∀ t, before.ending i = some t → after.ending i = some t) ∧
        (before.ending i = none → after.ending i = some .unreachable ∧ ¬after.Path Ir.Id.entry i)) ∧
    ((lowerProgram config allocator p).hasErrors = false → (∀ d ∈ p.functions, properAll d.body = true) →
      ∀ s : Session, s.module = (lowerProgram config allocator p).module →
        (∀ name args f, (s.call name args).1 ≠ .error (.unreachable f)) ∧
        ∀ f, s.runMain.1 ≠ .error (.unreachable f)) := by
  refine ⟨fun {position d sig} hd hproper => ?_, fun herr hp s hs => ?_⟩
  · have hc := Collection.ofProgram_fits config p
    have hlt : position < p.functions.length := (List.getElem?_eq_some_iff.1 hd.1).1
    obtain ⟨s, log, hb, -, hq⟩ := (lowerFirst_ready config ha (Nat.le_of_lt hlt)).body hc ha hd
    obtain ⟨reach, hs⟩ : ∃ reach, definitionState config allocator p position d sig =
      { s with diags := (lowerFirst config allocator p position).2.submit log, reach } := (hq _).1
    obtain ⟨b, hbefore, hseals, hopen, -⟩ := hb.sealed
    have hunsealed : (unsealedState config allocator p position d sig).builder = b := hbefore _
    refine ⟨?_, ?_⟩
    · rw [lowerProgram_eq]
      exact (addEntryWrapper_grows config p _ _).2 (lowerFirst_function? config ha hd hlt (Nat.le_refl _))
    · rw [hunsealed, hs]
      refine ⟨hseals.size, fun i hi => ⟨fun t ht => ?_, fun hn => ⟨?_, ?_⟩⟩⟩
      · rw [hseals.ending, if_neg (by simp [ht]), ht]
      · rw [hseals.ending, if_pos ⟨hn, mem_allBlocks.2 hi⟩]
      · rw [Function.Path, hseals.succs]
        exact hopen hproper i hi hn
  · have hguarded : ∀ {j f}, s.module.function? j = some f → f.Guarded s.module := by
      rw [hs]
      exact lowerProgram_guarded ha herr hp
    refine ⟨fun name args f he => ?_, fun f he => ?_⟩
    · exact Machine.call_fails (Machine.admits_of_guarded hguarded) name args he f rfl
    · exact Machine.runMain_fails (Machine.admits_of_guarded hguarded) he f rfl

/-- An `if` that returns in both of its bodies; where they would join is left open. -/
def bothReturn : FunctionDef where
  symbol := "main"
  receiver := none
  params := []
  returnType := .named "i32"
  body := [.cond ⟨0, 9⟩ (.clause (.bool ⟨1, 2⟩ true) [.ret ⟨2, 3⟩ (some (.int ⟨2, 3⟩ 1))]
    (.otherwise [.ret ⟨4, 5⟩ (some (.int ⟨4, 5⟩ 2))]))]
  span := ⟨0, 9⟩

def bothReturnProgram : Program := ⟨[], [bothReturn]⟩

theorem lowering_seals_dead_blocks_bothReturn :
    (lowerProgram {} .collector bothReturnProgram).hasErrors = false ∧
    (∀ d ∈ bothReturnProgram.functions, properAll d.body = true) ∧
    (∃ sig, Declares bothReturnProgram (Collection.ofProgram {} bothReturnProgram).tables 0 bothReturn sig ∧
      (unsealedState {} .collector bothReturnProgram 0 bothReturn sig).builder.function.ending ⟨1⟩ = none ∧
      (definitionState {} .collector bothReturnProgram 0 bothReturn sig).builder.function.ending ⟨1⟩ =
        some .unreachable ∧
      ¬(definitionState {} .collector bothReturnProgram 0 bothReturn sig).builder.function.Path
        Ir.Id.entry ⟨1⟩) ∧
    ∀ f, (Session.start (lowerProgram {} .collector bothReturnProgram).module {}).runMain.1 ≠
      .error (.unreachable f) := by
  have herr : (lowerProgram {} .collector bothReturnProgram).hasErrors = false := by decide +kernel
  have hp : ∀ d ∈ bothReturnProgram.functions, properAll d.body = true := by decide
  obtain ⟨sig, hd, hsize, hopen⟩ : ∃ sig,
      Declares bothReturnProgram (Collection.ofProgram {} bothReturnProgram).tables 0 bothReturn sig ∧
      1 < (unsealedState {} .collector bothReturnProgram 0 bothReturn sig).builder.function.blocks.size ∧
      ((unsealedState {} .collector bothReturnProgram 0 bothReturn sig).builder.function.ending ⟨1⟩).isNone =
        true := by
    refine ⟨⟨⟨0⟩, 0, none, [], .i32⟩, ⟨rfl, rfl, rfl⟩, ?_, ?_⟩
    · decide +kernel
    · decide +kernel
  obtain ⟨hbody, hrun⟩ := @lowering_seals_dead_blocks {} .collector bothReturnProgram collector_inline
  have hnone := Option.isNone_iff_eq_none.1 hopen
  have hstart : ∀ m, (Session.start m {}).module = m := fun _ => rfl
  exact ⟨herr, hp, ⟨sig, hd, hnone, ((hbody hd (hp _ (List.mem_singleton.2 rfl))).2.2 ⟨1⟩ hsize).2 hnone⟩,
    (hrun herr hp _ (hstart _)).2⟩

/-- An `if` with no clause and no `else`, before a return. -/
def emptyIfProgram : Program where
  structs := []
  functions := [{
    symbol := "main", receiver := none, params := [], returnType := .named "i32"
    body := [.cond ⟨0, 1⟩ .done, .ret ⟨4, 5⟩ (some (.int ⟨2, 3⟩ 1))]
    span := ⟨6, 7⟩ }]

theorem emptyIf_runs_into_a_sealed_block :
    (lowerProgram {} .collector emptyIfProgram).hasErrors = false ∧
    (Session.start (lowerProgram {} .collector emptyIfProgram).module {}).runMain.1 =
      .error (.unreachable "reso.main") := by
  decide +kernel

end

end BlockForge.Lowering
