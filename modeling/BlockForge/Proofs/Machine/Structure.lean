import BlockForge.Proofs.Ir.Verified
import BlockForge.Proofs.Machine.Frames

/-!
# Verified modules

The verifier reads a function as a table of predecessors and a set of defined values; a run sees the edges
that it takes and the merges that lead a block. The two agree: what the verifier accepts gives a run no
cause to fail in the structure of a function.
-/

namespace BlockForge.Ir

namespace VerifyContext

variable {c : VerifyContext} {block : BlockId}

theorem exists_value_of_usable {v : ValueId} (h : c.usable v = true) : c.func.value? v ≠ none := by
  intro hn
  rw [usable, Function.isUsable, hn] at h
  cases h

theorem usable_of_checkOperands {vs : List ValueId} (h : c.checkOperands block vs = []) :
    ∀ v ∈ vs, c.usable v = true := by
  intro v hv
  have := List.filter_eq_nil_iff.1 (List.map_eq_nil_iff.1 h) v hv
  simpa using this

/-- What the checks of an instruction establish. -/
structure Checked (c : VerifyContext) (block : BlockId) (x : Inst) : Prop where
  operands : ∀ v ∈ x.kind.operands, c.usable v = true
  phi : ∀ {ty incoming}, x.kind = .phi ty incoming → c.checkPhi block incoming = []
  call : ∀ {callee args ret}, x.kind = .call callee args ret → c.checkCall callee args = []

/-- Instructions that pass are checked one by one, and those that merge come first. -/
theorem checked_of_checkInsts {late : Bool} {insts : List Inst}
    (h : c.checkInsts block late insts = []) :
    (∀ x ∈ insts, c.Checked block x) ∧ (late = true → ∀ x ∈ insts, x.kind.isPhi = false) ∧
      ∀ {n x}, insts[n]? = some x → x.kind.isPhi = true →
        n < (insts.takeWhile (·.kind.isPhi)).length := by
  induction insts generalizing late with
  | nil => simp
  | cons x rest ih =>
    unfold checkInsts at h
    obtain ⟨hown, hrest⟩ := List.append_eq_nil_iff.1 h
    obtain ⟨hops, hown⟩ := List.append_eq_nil_iff.1 hown
    obtain ⟨hchecked, hlate, horder⟩ := ih hrest
    have hx : c.Checked block x := by
      refine ⟨usable_of_checkOperands hops, fun {ty incoming} hk => ?_, fun {callee args ret} hk => ?_⟩
      · rw [hk] at hown
        exact (List.append_eq_nil_iff.1 hown).2
      · rw [hk] at hown
        exact hown
    have hphi : late = true → x.kind.isPhi = false := by
      rintro rfl
      cases hk : x.kind with
      | phi ty incoming =>
        rw [hk] at hown
        cases (List.append_eq_nil_iff.1 hown).1
      | _ => rfl
    refine ⟨fun y hy => ?_, fun hl y hy => ?_, fun {n y} hy hp => ?_⟩
    · rcases List.mem_cons.1 hy with rfl | hy
      · exact hx
      · exact hchecked y hy
    · rcases List.mem_cons.1 hy with rfl | hy
      · exact hphi hl
      · exact hlate (by simp [hl]) y hy
    · -- a merge has only merges before it
      have hfirst : x.kind.isPhi = true := by
        cases n with
        | zero =>
          cases hy
          exact hp
        | succ n =>
          by_contra hno
          have := hlate (by simp [hno]) y (List.mem_of_getElem? hy)
          rw [hp] at this
          cases this
      rw [List.takeWhile_cons_of_pos (p := fun x : Inst => x.kind.isPhi) hfirst, List.length_cons]
      cases n with
      | zero => exact Nat.succ_pos _
      | succ n => exact Nat.succ_lt_succ (horder hy hp)

/-- A merge that passes has an edge from each predecessor. -/
theorem exists_edge_of_checkPhi {incoming : List (ValueId × BlockId)}
    (h : c.checkPhi block incoming = []) {i : BlockId} (hi : i ∈ predsAt c.preds block) :
    (incoming.find? fun edge => edge.2 = i) ≠ none := by
  have hsorted : sortBlocks (incoming.map (·.2)) = sortBlocks (predsAt c.preds block) := by
    by_contra hne
    have hcheck : c.checkPhi block incoming = [.phiPredecessors c.func.name block
      (sortBlocks (incoming.map (·.2))) (sortBlocks (predsAt c.preds block))] := if_neg hne
    rw [hcheck] at h
    cases h
  have hmem : i ∈ incoming.map (·.2) := by
    have hs : i ∈ sortBlocks (predsAt c.preds block) := List.mem_mergeSort.2 hi
    rw [← hsorted] at hs
    exact List.mem_mergeSort.1 hs
  obtain ⟨edge, hedge, he⟩ := List.mem_map.1 hmem
  intro hnone
  have := List.find?_eq_none.1 hnone edge hedge
  simp [he] at this

end VerifyContext

/-- A block of a function of a verified module passes its checks. -/
theorem Module.checkBlock_of_verify {m : Module} (hv : m.verify = []) {id : FuncId} {f : Function}
    (hf : m.function? id = some f) {i : BlockId} {b : Block} (hb : f.block? i = some b) :
    (f.context m).checkInsts i false b.insts.toList = [] ∧
      (f.context m).checkTerminator i b.terminator = [] := by
  have hverify : f.verify m = [] :=
    List.flatMap_eq_nil_iff.1 hv f (Array.mem_toList_iff.2 (Array.mem_of_getElem? hf))
  have hlt : i.index < f.blocks.size := (Array.getElem?_eq_some_iff.1 hb).1
  have hbody : f.isDeclaration = false := by
    simp only [Function.isDeclaration, Array.isEmpty_eq_false_iff]
    rintro he
    simp [he] at hlt
  rw [Function.verify, hbody, if_neg (by simp)] at hverify
  have hmem : (b, i.index) ∈ f.blocks.toList.zipIdx :=
    List.mem_zipIdx_iff_getElem?.2 (by simpa [Function.block?] using hb)
  exact List.append_eq_nil_iff.1 (List.flatMap_eq_nil_iff.1 hverify _ hmem)

end BlockForge.Ir

namespace BlockForge.Machine

open Ir (BlockId FuncId Function Inst Module Terminator ValueId)

section

variable {m : Module} {limit : Nat}

/-- Runs of a verified module fail in no defect of a block graph. -/
theorem admits_of_verify (hv : m.verify = []) :
    Admits m fun e => ∀ d, e = .malformed d → d.isStructural = false where
  ordinary e he := by
    rintro d rfl
    cases d <;> first | exact he | rfl
  layouts t _ := by
    rintro d ⟨⟩
    rfl
  values {id f i c} hf hc x hx v hvx hn := by
    obtain ⟨hinsts, -⟩ := m.checkBlock_of_verify hv hf hc
    have hx := (Ir.VerifyContext.checked_of_checkInsts hinsts).1 x (by simpa using hx)
    exact absurd hn (Ir.VerifyContext.exists_value_of_usable (hx.operands v hvx))
  late {id f i c} hf hc n x hn hx hp := by
    obtain ⟨hinsts, -⟩ := m.checkBlock_of_verify hv hf hc
    have hlt := (Ir.VerifyContext.checked_of_checkInsts hinsts).2.2 (n := n) (by simpa using hx) hp
    exact absurd hlt (Nat.not_lt.2 hn)
  opened {id f i c} hf hc ht := by
    obtain ⟨-, hterm⟩ := m.checkBlock_of_verify hv hf hc
    rw [ht] at hterm
    cases hterm
  reads {id f i c t} hf hc ht v hvt hn := by
    obtain ⟨-, hterm⟩ := m.checkBlock_of_verify hv hf hc
    rw [ht] at hterm
    have hown := (List.append_eq_nil_iff.1 hterm).2
    have husable : (f.context m).usable v = true := by
      cases t with
      | condBr cond a b =>
        exact Ir.VerifyContext.usable_of_checkOperands hown v hvt
      | ret w =>
        cases w with
        | none => cases hvt
        | some w =>
          obtain rfl : v = w := List.mem_singleton.1 hvt
          by_contra hno
          have hfits : (f.context m).returnFits (some v) = false := by
            simp [Ir.VerifyContext.returnFits, hno]
          dsimp only at hown
          rw [hfits] at hown
          cases hown
      | _ => cases hvt
    exact absurd hn (Ir.VerifyContext.exists_value_of_usable husable)
  targets {id f i c t} hf hc ht j hj hn := by
    obtain ⟨-, hterm⟩ := m.checkBlock_of_verify hv hf hc
    rw [ht] at hterm
    have htargets := List.map_eq_nil_iff.1 (List.append_eq_nil_iff.1 hterm).1
    have hlt : j.index < f.blocks.size := by
      by_contra hge
      exact List.filter_eq_nil_iff.1 htargets j hj (decide_eq_true (Nat.not_lt.1 hge))
    simp [Function.block?, hlt] at hn
  edges {id f i c t} hf hc ht j hj d hd r ty incoming hx hn := by
    obtain ⟨hinsts, -⟩ := m.checkBlock_of_verify hv hf hd
    have hx := (Ir.VerifyContext.checked_of_checkInsts hinsts).1 ⟨r, .phi ty incoming⟩ (by simpa using hx)
    have hlt : j.index < f.blocks.size := (Array.getElem?_eq_some_iff.1 hd).1
    have hsucc : j ∈ f.succs i := by
      rw [Function.block?] at hc
      simp only [Function.succs, Function.ending, hc, Option.bind_some, ht]
      exact hj
    exact absurd hn (Ir.VerifyContext.exists_edge_of_checkPhi (hx.phi rfl)
      (((Function.predecessors_spec hlt).1 i).2 hsucc))
  deadEnds _ _ _ _ _ := by rintro d ⟨⟩

/-! ### States of a run -/

/-- The states that a run goes through, from the call of a function on. -/
inductive Visits (m : Module) (limit : Nat) (store : Store) (id : FuncId) (args : List Val) : State → Prop
  | start {F M} : Frame.ofCall m limit id args 0 = .ok F →
    Exec.enterBlock m Ir.Id.entry none ⟨store.countCall id, F, []⟩ = .ok () M → Visits m limit store id args M
  | step {M M'} : Visits m limit store id args M → Exec.step m limit M = .ok none M' →
    Visits m limit store id args M'

/-- In every run of every module the frames are inside of their functions. -/
theorem Visits.inside {store : Store} {id : FuncId} {args : List Val} {M : State}
    (h : Visits m limit store id args M) : M.Inside m := by
  have hm : Admits m fun _ => True := by
    constructor <;> intros <;> trivial
  induction h with
  | @start F M hF hM =>
    rcases ofCall_cases m limit id args 0 with ⟨e, he, -⟩ | ⟨f, F', hf, hbody, hF', hfunc⟩
    · rw [he] at hF
      cases hF
    · obtain rfl : F' = F := Except.ok.inj (hF'.symm.trans hF)
      have henter := enterFunction_safe (M := ⟨store.countCall id, F', []⟩) hm hf hbody hfunc
      unfold Safe at henter
      rw [hM] at henter
      exact ⟨henter.1, by simp [henter.2]⟩
  | @step M M' _ hstep ih =>
    have := step_safe limit hm ih
    unfold Safe at this
    rw [hstep] at this
    exact this rfl

theorem operands_length {vs : List ValueId} {M M' : State} {xs : List Val}
    (h : Exec.operands m vs M = .ok xs M') : xs.length = vs.length := by
  induction vs generalizing M M' xs with
  | nil =>
    cases h
    rfl
  | cons v rest ih =>
    have hall : Safe (fun _ => True) (Exec.operands m (v :: rest)) M fun ys _ =>
        ys.length = (v :: rest).length := by
      refine Safe.bind (Q := fun _ _ => True) ?_ fun x M₁ _ => ?_
      · unfold Safe
        split <;> trivial
      · refine Safe.bind (Q := fun ys _ => ys.length = rest.length) ?_ fun ys M₂ hys => ?_
        · unfold Safe
          split
          · rename_i hys
            exact ih hys
          · trivial
        · exact .pure (by simp [hys])
    unfold Safe at hall
    rw [h] at hall
    exact hall

/-- Only merges can keep control from the entry block of a function. -/
theorem enterEntry_safe {E : Fault → Prop} (hblock : E (.malformed (.missingBlock Ir.Id.entry)))
    (hphi : E (.malformed .phiInEntry)) (M : State) :
    Safe E (Exec.enterBlock m Ir.Id.entry none) M fun _ _ => True := by
  refine Safe.frame_bind ?_
  split
  · exact .throw hblock
  · rename_i code hcode
    refine Safe.bind (Q := fun _ _ => True) ?_ fun values M₁ _ => ?_
    · cases code.insts.toList with
      | nil => exact .pure trivial
      | cons inst rest =>
        obtain ⟨result, kind⟩ := inst
        cases kind with
        | phi ty incoming => exact .throw hphi
        | _ => exact .pure trivial
    · exact (setRegs_safe values M₁).bind fun _ _ _ => trivial

/-- A call of a verified module passes as many arguments as the function has parameters. -/
theorem length_args_of_verify (hv : m.verify = []) {M : State} (hM : M.Inside m) {r : Option ValueId}
    {callee : FuncId} {vs : List ValueId} {ret : Ir.Ty}
    (hi : M.frame.code.insts[M.frame.next]? = some ⟨r, .call (.func callee) vs ret⟩) :
    vs.length = ((m.function? callee).getD default).params.length := by
  obtain ⟨id, hid⟩ := hM.frame.func
  obtain ⟨hinsts, -⟩ := m.checkBlock_of_verify hv hid hM.frame.code
  have hx := (Ir.VerifyContext.checked_of_checkInsts hinsts).1 _
    (Array.mem_toList_iff.2 (Array.mem_of_getElem? hi))
  by_contra hne
  have hcall := hx.call rfl
  unfold Ir.VerifyContext.checkCall at hcall
  dsimp only [Ir.Module.calleeArity, Ir.Function.context] at hcall
  rw [if_neg (Ne.symm hne)] at hcall
  cases hcall

/-- Once a module verifies, no run of it fails for a missing or open block, an unknown value, a misplaced
merge or a merge without an edge from the block just left, and no call of one of its functions from its own
code has the wrong number of arguments. -/
theorem verified_runs_are_well_structured (hv : m.verify = []) (limit fuel : Nat) (store : Store)
    (id : FuncId) (args : List Val) :
    (∀ d, (invoke m limit fuel store id args).result = .error (.malformed d) → d.isStructural = false) ∧
    ∀ M, Visits m limit store id args M → ∀ {r callee vs ret},
      M.frame.code.insts[M.frame.next]? = some ⟨r, .call (.func callee) vs ret⟩ →
      ∀ name expected found M', Exec.step m limit M ≠ .error (.argCount name expected found) M' := by
  refine ⟨fun d he => invoke_fails (admits_of_verify hv) limit fuel store id args he d rfl, ?_⟩
  intro M hM r callee vs ret hi name expected found M' herr
  have hlen := length_args_of_verify hv hM.inside hi
  let E : Fault → Prop := fun e => ∀ name expected found, e ≠ .argCount name expected found
  have hlocal : ∀ e : Fault, e.isLocal = true → E e := by
    rintro e he name expected found rfl
    cases he
  have hstep : Safe E (Exec.step m limit) M fun _ _ => True := by
    unfold Safe
    rw [step_inst hi]
    refine Safe.bind (Q := fun _ _ => True) ?_ fun _ _ _ => .pure trivial
    have hops : Safe E (Exec.operands m vs) M fun xs M₁ => xs.length = vs.length := by
      have hall : Allows M.frame.func E vs := ⟨hlocal, fun v _ _ => by rintro _ _ _ ⟨⟩⟩
      exact ((Exec.operands_tame m hall (fun _ hv => hv) M rfl).and_eq).imp
        fun xs M₁ h => operands_length h.2
    refine (hops.bind (R := fun effect _ => ∃ xs, effect = .call callee xs ∧ xs.length = vs.length)
      fun xs M₁ hxs => .pure ⟨xs, rfl, hxs⟩).bind ?_
    rintro _ M₁ ⟨xs, rfl, hxs⟩
    have hcall : Fails E (Frame.ofCall m limit callee xs M₁.frame.depth) := by
      unfold Frame.ofCall
      dsimp only
      split
      · exact .error (by rintro _ _ _ ⟨⟩)
      · rw [if_neg (by simp [hxs, hlen])]
        split
        · exact .error (by rintro _ _ _ ⟨⟩)
        · exact .ok _
    show Safe E (Machine.checked (Frame.ofCall m limit callee xs M₁.frame.depth) >>= _) M₁ _
    refine hcall.checked.bind fun F M₂ _ => ?_
    exact enterEntry_safe (by rintro _ _ _ ⟨⟩) (by rintro _ _ _ ⟨⟩) _
  exact hstep.fault herr name expected found rfl

/-- A countdown: `down n` calls itself from a loop whose header merges two edges. -/
def countdown : Module where
  name := "countdown"
  pointerBits := 64
  functions := #[{
    name := "down"
    params := [.i64]
    ret := .i64
    values := #[⟨.i64, .param 0, "n"⟩, ⟨.i64, .constInt 1, ""⟩, ⟨.i64, .constInt 0, ""⟩,
      ⟨.i64, .inst ⟨1⟩, "k"⟩, ⟨.i1, .inst ⟨1⟩, "done"⟩, ⟨.i64, .inst ⟨2⟩, "less"⟩,
      ⟨.i64, .inst ⟨2⟩, "below"⟩]
    blocks := #[
      ⟨"entry", #[], some (.br ⟨1⟩)⟩,
      ⟨"head", #[⟨some ⟨3⟩, .phi .i64 [(⟨0⟩, ⟨0⟩), (⟨6⟩, ⟨2⟩)]⟩,
        ⟨some ⟨4⟩, .icmp .eq ⟨3⟩ ⟨2⟩⟩], some (.condBr ⟨4⟩ ⟨3⟩ ⟨2⟩)⟩,
      ⟨"body", #[⟨some ⟨5⟩, .binary .sub ⟨3⟩ ⟨1⟩⟩,
        ⟨some ⟨6⟩, .call (.func ⟨0⟩) [⟨5⟩] .i64⟩], some (.br ⟨1⟩)⟩,
      ⟨"exit", #[], some (.ret (some ⟨3⟩))⟩] }]

theorem countdown_is_well_structured : countdown.verify = [] ∧
    (invoke countdown 16 200 (.fresh countdown) ⟨0⟩ [.int 3]).result = .ok (some (.int 0)) ∧
    (∀ d, (invoke countdown 16 2 (.fresh countdown) ⟨0⟩ [.int 3]).result = .error (.malformed d) →
      d.isStructural = false) ∧
    ∀ M, Visits countdown 16 (.fresh countdown) ⟨0⟩ [.int 3] M → ∀ {r callee vs ret},
      M.frame.code.insts[M.frame.next]? = some ⟨r, .call (.func callee) vs ret⟩ →
      ∀ name expected found M', Exec.step countdown 16 M ≠ .error (.argCount name expected found) M' := by
  have hv : countdown.verify = [] := by cbv
  obtain ⟨hrun, hcalls⟩ := verified_runs_are_well_structured hv 16 2 (.fresh countdown) ⟨0⟩ [.int 3]
  exact ⟨hv, by decide +kernel, hrun, hcalls⟩

end

end BlockForge.Machine
