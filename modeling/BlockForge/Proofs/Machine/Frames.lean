import BlockForge.Proofs.Machine.Faults

/-!
# Frames of a run

A frame is always in a block of its function that control can get to from the entry block, behind the
leading merges of the block, and has passed no call that does not return. This holds in every run of every
module. What a run can fail with beyond the faults of single operations is therefore read off the block
graphs of the module: `Admits` lists it once, and `run_fails` says that it is complete.
-/

namespace BlockForge.Machine

open Ir (BlockId FuncId Function Inst InstKind Module Terminator Ty ValueId)

/-- The merges that lead a block. -/
def leading (insts : Array Inst) : List Inst := insts.toList.takeWhile (·.kind.isPhi)

/-- The values that a terminator reads. -/
def Terminator.reads : Terminator → List ValueId
  | .condBr c _ _ => [c]
  | .ret (some v) => [v]
  | _ => []

/-- The defects of a block graph. -/
def Defect.isStructural : Defect → Bool
  | .missingBlock _ | .phiEdge .. | .openBlock .. | .unknownValue _ | .latePhi _ => true
  | _ => false

/-- The faults that the tables of a module decide: a defect of a block graph, a dead end, or the mark of a
struct whose size is never found. -/
def Fault.isStructural : Fault → Bool
  | .unreachable _ | .malformed (.endlessLayout _) => true
  | .malformed d => d.isStructural
  | _ => false

theorem not_isStructural_of_isLocal {e : Fault} (h : e.isLocal = true) : e.isStructural = false := by
  cases e with
  | malformed d => cases d <;> first | rfl | cases h
  | _ => first | rfl | cases h

/-- The faults `E` cover all that runs of a module can fail with: those that its tables do not decide, and
those that they do wherever its block graphs and structs give rise to them. -/
structure Admits (m : Module) (E : Fault → Prop) : Prop where
  ordinary : ∀ e : Fault, e.isStructural = false → E e
  layouts : ∀ t, ¬m.Sized t → E (.malformed (.endlessLayout t))
  values : ∀ {id f i c}, m.function? id = some f → f.block? i = some c → ∀ x ∈ c.insts,
    ∀ v ∈ x.kind.operands, f.value? v = none → E (.malformed (.unknownValue v))
  late : ∀ {id f i c}, m.function? id = some f → f.block? i = some c →
    ∀ {n : Nat} {x : Inst}, (leading c.insts).length ≤ n → c.insts[n]? = some x → x.kind.isPhi = true →
      E (.malformed (.latePhi f.name))
  opened : ∀ {id f i c}, m.function? id = some f → f.block? i = some c → c.terminator = none →
    E (.malformed (.openBlock i f.name))
  reads : ∀ {id f i c t}, m.function? id = some f → f.block? i = some c → c.terminator = some t →
    ∀ v ∈ Terminator.reads t, f.value? v = none → E (.malformed (.unknownValue v))
  targets : ∀ {id f i c t}, m.function? id = some f → f.block? i = some c → c.terminator = some t →
    ∀ j ∈ t.successors, f.block? j = none → E (.malformed (.missingBlock j))
  edges : ∀ {id f i c t}, m.function? id = some f → f.block? i = some c → c.terminator = some t →
    ∀ j ∈ t.successors, ∀ {d}, f.block? j = some d → ∀ {r ty incoming},
      (⟨r, .phi ty incoming⟩ : Inst) ∈ d.insts → (incoming.find? fun edge => edge.2 = i) = none →
      E (.malformed (.phiEdge j i))
  deadEnds : ∀ {id f i c}, m.function? id = some f → f.block? i = some c →
    c.terminator = some .unreachable → f.Path Ir.Id.entry i → (∀ x ∈ c.insts, ¬x.kind.Halts m) →
    E (.unreachable f.name)

/-! ### Frames -/

/-- The frame is in a block that control can get to, behind the leading merges, and has passed no call
that does not return. -/
structure Frame.Inside (m : Module) (f : Frame) : Prop where
  func : ∃ id, m.function? id = some f.func
  code : f.func.block? f.block = some f.code
  path : f.func.Path Ir.Id.entry f.block
  merged : (leading f.code.insts).length ≤ f.next
  passed : ∀ {n inst}, n < f.next → f.code.insts[n]? = some inst → ¬inst.kind.Halts m

/-- The frames of a run; those that wait do so for a call that may return. -/
structure State.Inside (m : Module) (M : State) : Prop where
  frame : M.frame.Inside m
  callers : ∀ f ∈ M.callers, f.Inside m ∧
    ∀ {inst}, f.code.insts[f.next]? = some inst → ¬inst.kind.Halts m

section

variable {m : Module} {limit : Nat} {M : State} {E : Fault → Prop}

theorem Safe.frame_bind {α : Type} {f : Frame → Exec α} {Q : α → State → Prop}
    (h : Safe E (f M.frame) M Q) : Safe E (Exec.frame >>= f) M Q := h

theorem not_halts_of_isPhi {kind : InstKind} (h : kind.isPhi = true) : ¬kind.Halts m := by
  rintro ⟨id, args, ret, d, rfl, -⟩
  cases h

/-- The merges that lead a block are resolved on the way into it, and nothing else is. -/
theorem phiValues_safe {f : Function} {block : BlockId} {source : Option BlockId} {insts : List Inst}
    (hf : M.frame.func = f) (hE : ∀ e : Fault, e.isStructural = false → E e)
    (hvalues : ∀ x ∈ insts, ∀ v ∈ x.kind.operands, f.value? v = none → E (.malformed (.unknownValue v)))
    (hedges : ∀ i ∈ source, ∀ {r ty incoming}, (⟨r, .phi ty incoming⟩ : Inst) ∈ insts →
      (incoming.find? fun edge => edge.2 = i) = none → E (.malformed (.phiEdge block i))) :
    Safe E (Exec.phiValues m block source insts) M fun values M' =>
      (M'.frame = M.frame ∧ M'.callers = M.callers) ∧
      values.length = (insts.takeWhile (·.kind.isPhi)).length := by
  induction insts generalizing M with
  | nil => exact .pure ⟨⟨rfl, rfl⟩, rfl⟩
  | cons inst rest ih =>
    obtain ⟨result, kind⟩ := inst
    cases kind with
    | phi t incoming =>
      unfold Exec.phiValues
      split
      · exact .throw (hE _ rfl)
      · rename_i source
        split
        · rename_i hn
          exact .throw (hedges source rfl List.mem_cons_self hn)
        · rename_i v _ hfound
          have hall : Allows f E ((incoming.map (·.1))) :=
            ⟨fun e he => hE e (not_isStructural_of_isLocal he),
              hvalues ⟨result, .phi t incoming⟩ List.mem_cons_self⟩
          have hv : v ∈ incoming.map (·.1) :=
            List.mem_map.2 ⟨_, List.mem_of_find?_eq_some hfound, rfl⟩
          refine (Exec.operand_tame m hall hv M hf).bind fun x M₁ h₁ => ?_
          refine (ih (M := M₁) (by rw [h₁.1, hf]) (fun x hx => hvalues x (by simp [hx]))
            fun i hi _ _ _ hx => hedges i hi (List.mem_cons_of_mem _ hx)).bind fun values M₂ h₂ => .pure ⟨⟨?_, ?_⟩, ?_⟩
          · exact h₂.1.1.trans h₁.1
          · exact h₂.1.2.trans h₁.2
          · simp [h₂.2, InstKind.isPhi]
    | _ => exact .pure ⟨⟨rfl, rfl⟩, rfl⟩

theorem setRegs_safe (values : List (Option ValueId × Val)) (M : State) :
    Safe E (Exec.setRegs values) M fun _ M' =>
      (∃ regs, M'.frame = { M.frame with regs }) ∧ M'.callers = M.callers := by
  induction values generalizing M with
  | nil => exact .pure ⟨⟨_, rfl⟩, rfl⟩
  | cons value rest ih =>
    obtain ⟨r, v⟩ := value
    cases r with
    | none => exact ih M
    | some r =>
      refine Safe.bind (Q := fun _ M' => (∃ regs, M'.frame = { M.frame with regs }) ∧
        M'.callers = M.callers) ⟨⟨_, rfl⟩, rfl⟩ ?_
      rintro - M₁ ⟨⟨regs, h₁⟩, hc₁⟩
      refine (ih M₁).imp ?_
      rintro - M₂ ⟨⟨regs', h₂⟩, hc₂⟩
      exact ⟨⟨regs', by rw [h₂, h₁]⟩, hc₂.trans hc₁⟩

theorem isPhi_of_lt_leading {insts : Array Inst} {n : Nat} {inst : Inst}
    (hn : n < (leading insts).length) (hi : insts[n]? = some inst) : inst.kind.isPhi = true := by
  have hget : (leading insts)[n] = inst := by
    have hlead : leading insts <+: insts.toList := List.takeWhile_prefix _
    rw [hlead.getElem hn]
    have hsome : insts.toList[n]? = some inst := by simpa using hi
    exact (List.getElem?_eq_some_iff.1 hsome).2
  have hmem : inst ∈ leading insts := hget ▸ List.getElem_mem hn
  exact List.mem_takeWhile_imp (p := fun x : Inst => x.kind.isPhi) hmem

/-- A frame enters a block that control can get to, from outside or from a block that leads there. -/
theorem enterBlock_safe (hm : Admits m E) (hfunc : ∃ id, m.function? id = some M.frame.func)
    {block : BlockId} (hp : M.frame.func.Path Ir.Id.entry block) {source : Option BlockId}
    (hmissing : M.frame.func.block? block = none → E (.malformed (.missingBlock block)))
    (hsource : ∀ i ∈ source, ∃ c t, M.frame.func.block? i = some c ∧ c.terminator = some t ∧
      block ∈ t.successors) :
    Safe E (Exec.enterBlock m block source) M fun _ M' =>
      M'.frame.Inside m ∧ M'.callers = M.callers := by
  obtain ⟨id, hid⟩ := hfunc
  refine Safe.frame_bind ?_
  split
  · rename_i hn
    exact .throw (hmissing hn)
  · rename_i code hcode
    refine (phiValues_safe (f := M.frame.func) rfl hm.ordinary (fun x hx =>
      hm.values hid hcode x (by simpa using hx)) fun i hi r ty incoming hx hn => ?_).bind
      fun values M₁ h₁ => ?_
    · obtain ⟨c, t, hc, ht, hj⟩ := hsource i hi
      exact hm.edges hid hc ht block hj hcode (by simpa using hx) hn
    · refine (setRegs_safe values M₁).bind fun _ M₂ h₂ => ⟨?_, h₂.2.trans h₁.1.2⟩
      obtain ⟨⟨regs, hr⟩, -⟩ := h₂
      have hfunc : M₂.frame.func = M.frame.func := by rw [hr, h₁.1.1]
      refine ⟨⟨id, hfunc ▸ hid⟩, hfunc ▸ hcode, hfunc ▸ hp, Nat.le_of_eq h₁.2.symm,
        fun {n inst} hn hi => not_halts_of_isPhi (isPhi_of_lt_leading ?_ hi)⟩
      have hlen : values.length = (leading code.insts).length := h₁.2
      exact hlen ▸ hn

/-- The frame goes on behind an instruction that has been performed. -/
theorem Frame.Inside.finish (h : M.frame.Inside m)
    (hi : ∀ {inst}, M.frame.code.insts[M.frame.next]? = some inst → ¬inst.kind.Halts m)
    (r : Option ValueId) (x : Option Val) : (M.finish r x).frame.Inside m := by
  have hnext : ∀ {n inst}, n < M.frame.next + 1 → M.frame.code.insts[n]? = some inst →
      ¬inst.kind.Halts m := by
    intro n inst hn hinst
    rcases Nat.lt_succ_iff_lt_or_eq.1 hn with hn | rfl
    · exact h.passed hn hinst
    · exact hi hinst
  have hmerged := Nat.le_succ_of_le h.merged
  cases r with
  | none => exact ⟨h.func, h.code, h.path, hmerged, hnext⟩
  | some v =>
    cases x with
    | none => exact ⟨h.func, h.code, h.path, hmerged, hnext⟩
    | some x => exact ⟨h.func, h.code, h.path, hmerged, hnext⟩

theorem callers_finish (M : State) (r : Option ValueId) (x : Option Val) :
    (M.finish r x).callers = M.callers := by
  cases r with
  | none => rfl
  | some v => cases x <;> rfl

/-- Only functions with a body are called. -/
theorem ofCall_cases (m : Module) (limit : Nat) (id : FuncId) (args : List Val) (depth : Nat) :
    (∃ e, Frame.ofCall m limit id args depth = .error e ∧ e.isStructural = false) ∨
    ∃ f F, m.function? id = some f ∧ f.isDeclaration = false ∧
      Frame.ofCall m limit id args depth = .ok F ∧ F.func = f := by
  unfold Frame.ofCall
  dsimp only
  split
  · exact .inl ⟨_, rfl, rfl⟩
  · rename_i hbody
    split
    · exact .inl ⟨_, rfl, rfl⟩
    · split
      · exact .inl ⟨_, rfl, rfl⟩
      · cases hf : m.function? id with
        | none =>
          rw [hf] at hbody
          exact absurd rfl hbody
        | some f =>
          rw [hf] at hbody
          exact .inr ⟨f, _, rfl, by simpa using hbody, rfl, rfl⟩

/-- A frame starts in the entry block of its function. -/
theorem enterFunction_safe (hm : Admits m E) {id : FuncId} {f : Function} (hf : m.function? id = some f)
    (hbody : f.isDeclaration = false) (hM : M.frame.func = f) :
    Safe E (Exec.enterBlock m Ir.Id.entry none) M fun _ M' =>
      M'.frame.Inside m ∧ M'.callers = M.callers := by
  refine enterBlock_safe hm ⟨id, hM ▸ hf⟩ .refl (fun hn => ?_) (by simp)
  rw [hM, Function.block?, Array.getElem?_eq_none_iff] at hn
  have hempty : f.blocks = #[] := Array.eq_empty_of_size_eq_zero (Nat.le_zero.1 hn)
  simp [Function.isDeclaration, hempty] at hbody

/-- A call enters the function at its entry block. -/
theorem pushCall_safe (hm : Admits m E) (h : M.Inside m)
    (hi : ∀ {inst}, M.frame.code.insts[M.frame.next]? = some inst → ¬inst.kind.Halts m)
    (id : FuncId) (args : List Val) :
    Safe E (Exec.pushCall m limit id args) M fun _ M' => M'.Inside m := by
  show Safe E (Machine.checked (Frame.ofCall m limit id args M.frame.depth) >>= _) M _
  rcases ofCall_cases m limit id args M.frame.depth with ⟨e, he, hne⟩ | ⟨f, F, hf, hbody, hF, hfunc⟩
  · rw [he]
    exact hm.ordinary e hne
  · rw [hF]
    let M₁ : State := ⟨M.store.countCall id, F, M.frame :: M.callers⟩
    refine (enterFunction_safe (M := M₁) hm hf hbody hfunc).imp fun _ M' h' => ⟨h'.1, ?_⟩
    intro f hmem
    rw [h'.2] at hmem
    rcases List.mem_cons.1 hmem with rfl | hmem
    · exact ⟨h.frame, hi⟩
    · exact h.callers f hmem

/-- The caller goes on behind its call. -/
theorem popReturn_safe (h : M.Inside m) (value : Option Val) :
    Safe E (Exec.popReturn value) M fun r M' => r = none → M'.Inside m := by
  cases hc : M.callers with
  | nil =>
    unfold Safe
    rw [popReturn_last hc]
    simp
  | cons caller callers =>
    unfold Safe
    rw [popReturn_caller hc]
    intro _
    have hcaller := h.callers caller (by simp [hc])
    have hrest : ∀ f ∈ callers, f.Inside m ∧
        ∀ {inst}, f.code.insts[f.next]? = some inst → ¬inst.kind.Halts m :=
      fun f hf => h.callers f (by simp [hc, hf])
    unfold State.return
    dsimp only
    split
    · rename_i inst hinst
      refine ⟨Frame.Inside.finish (M := ⟨_, caller, callers⟩) hcaller.1 hcaller.2 _ _, ?_⟩
      rw [callers_finish]
      exact hrest
    · exact ⟨hcaller.1, hrest⟩

theorem Frame.Inside.allows (hm : Admits m E) {F : Frame} (h : F.Inside m) {inst : Inst} {n : Nat}
    (hi : F.code.insts[n]? = some inst) : Allows F.func E inst.kind.operands := by
  obtain ⟨id, hid⟩ := h.func
  exact ⟨fun e he => hm.ordinary e (not_isStructural_of_isLocal he),
    hm.values hid h.code inst (Array.mem_of_getElem? hi)⟩

theorem stepInst_safe (hm : Admits m E) (h : M.Inside m) {inst : Inst}
    (hi : M.frame.code.insts[M.frame.next]? = some inst) :
    Safe E (Exec.stepInst m limit inst) M fun _ M' => M'.Inside m := by
  obtain ⟨id, hid⟩ := h.frame.func
  refine (Exec.perform_tame m (h.frame.allows hm hi) (hm.late hid h.frame.code h.frame.merged hi)
    (fun _ _ _ => hm.ordinary _ rfl) hm.layouts M rfl).and_eq.bind fun effect M₁ h₁ => ?_
  obtain ⟨⟨hframe, hcallers⟩, hok⟩ := h₁
  -- what has been performed is no call that does not return
  have hpassed : ∀ {inst'}, M₁.frame.code.insts[M₁.frame.next]? = some inst' →
      ¬inst'.kind.Halts m := by
    intro inst' hi' hh
    rw [hframe, hi] at hi'
    cases hi'
    exact Exec.perform_ne_ok_of_halts m hh _ _ _ hok
  have hM₁ : M₁.Inside m := ⟨hframe ▸ h.frame, hcallers ▸ h.callers⟩
  cases effect with
  | done v =>
    unfold Safe
    simp only [finishInst_eq]
    refine ⟨hM₁.frame.finish hpassed _ _, ?_⟩
    rw [callers_finish]
    exact hM₁.callers
  | slot addr =>
    refine Safe.bind (Q := fun _ M' => M' = M₁.addSlot addr) rfl ?_
    rintro - _ rfl
    unfold Safe
    simp only [finishInst_eq]
    have hslot : (M₁.addSlot addr).frame.Inside m := ⟨hM₁.frame.func, hM₁.frame.code, hM₁.frame.path,
      hM₁.frame.merged, hM₁.frame.passed⟩
    refine ⟨hslot.finish hpassed _ _, ?_⟩
    rw [callers_finish]
    exact hM₁.callers
  | call id args => exact pushCall_safe hm hM₁ hpassed id args

theorem Frame.Inside.ending {F : Frame} (h : F.Inside m) :
    F.func.ending F.block = F.code.terminator := by
  have := h.code
  rw [Ir.Function.block?] at this
  rw [Ir.Function.ending, this]
  rfl

theorem Frame.Inside.next {F : Frame} (h : F.Inside m) {t : Terminator}
    (ht : F.code.terminator = some t) {i : BlockId} (hi : i ∈ t.successors) :
    F.func.Path Ir.Id.entry i := by
  refine h.path.tail ?_
  show i ∈ F.func.succs F.block
  rw [Ir.Function.succs, h.ending, ht]
  exact hi

/-- At the end of a block no call was passed that does not return. -/
theorem Frame.Inside.passed_all {F : Frame} (h : F.Inside m) (hend : F.code.insts[F.next]? = none) :
    ∀ x ∈ F.code.insts, ¬x.kind.Halts m := by
  intro x hx
  obtain ⟨n, hn, rfl⟩ := Array.mem_iff_getElem.1 hx
  have hle : F.code.insts.size ≤ F.next := by simpa using hend
  exact h.passed (Nat.lt_of_lt_of_le hn hle) (by simp [hn])

theorem stepTerminator_safe (hm : Admits m E) (h : M.Inside m)
    (hend : M.frame.code.insts[M.frame.next]? = none) :
    Safe E (Exec.stepTerminator m) M fun r M' => r = none → M'.Inside m := by
  obtain ⟨id, hid⟩ := h.frame.func
  have henter : ∀ {t} (i : BlockId) (M' : State), M.frame.code.terminator = some t →
      i ∈ t.successors → M'.frame = M.frame → M'.callers = M.callers → Safe E (do
        Exec.enterBlock m i (some M.frame.block)
        pure none : Exec (Option (Option Val))) M' fun r M'' => r = none → M''.Inside m := by
    intro t i M' ht hi hf hc
    refine (enterBlock_safe hm ⟨id, hf ▸ hid⟩ (hf ▸ h.frame.next ht hi) (fun hn => ?_) ?_).bind
      fun _ M'' h'' => .pure fun _ => ⟨h''.1, h''.2 ▸ hc ▸ h.callers⟩
    · exact hm.targets hid h.frame.code ht i hi (hf ▸ hn)
    · rintro j ⟨⟩
      exact ⟨M.frame.code, t, hf ▸ h.frame.code, ht, hi⟩
  have hreads : ∀ {t}, M.frame.code.terminator = some t →
      Allows M.frame.func E (Terminator.reads t) := fun ht =>
    ⟨fun e he => hm.ordinary e (not_isStructural_of_isLocal he), hm.reads hid h.frame.code ht⟩
  refine Safe.frame_bind ?_
  split
  · rename_i ht
    exact .throw (hm.opened hid h.frame.code ht)
  · rename_i target ht
    exact henter target M ht (by simp [Terminator.successors]) rfl rfl
  · rename_i c l r ht
    refine (Exec.operandBool_tame m (hreads ht) (by simp [Terminator.reads]) M rfl).bind
      fun taken M₁ h₁ => ?_
    refine henter _ M₁ ht ?_ h₁.1 h₁.2
    cases taken <;> simp [Terminator.successors]
  · exact popReturn_safe h none
  · rename_i v ht
    refine (Exec.operand_tame m (hreads ht) (by simp [Terminator.reads]) M rfl).bind fun x M₁ h₁ => ?_
    exact popReturn_safe ⟨h₁.1 ▸ h.frame, h₁.2 ▸ h.callers⟩ (some x)
  · rename_i ht
    exact .throw (hm.deadEnds hid h.frame.code ht h.frame.path (h.frame.passed_all hend))

/-- A step leads on to frames of the same kind, or fails as the block graphs admit. -/
theorem step_safe (limit : Nat) (hm : Admits m E) (h : M.Inside m) :
    Safe E (Exec.step m limit) M fun r M' => r = none → M'.Inside m := by
  cases hi : M.frame.code.insts[M.frame.next]? with
  | some inst =>
    unfold Safe
    rw [step_inst hi]
    exact (stepInst_safe hm h hi).bind fun _ M' h' => .pure fun _ => h'
  | none =>
    unfold Safe
    rw [step_terminator hi]
    exact stepTerminator_safe hm h hi

/-! ### Runs -/

/-- A run fails as the block graphs admit, and in no other way. -/
theorem run_fails (hm : Admits m E) (fuel : Nat) (h : M.Inside m) : Fails E (run m limit fuel M).result := by
  induction fuel generalizing M with
  | zero => exact .error (hm.ordinary _ rfl)
  | succ fuel ih =>
    have hstep := step_safe limit hm h
    unfold Safe at hstep
    unfold run
    cases hs : Exec.step m limit M with
    | ok r M' =>
      rw [hs] at hstep
      cases r with
      | none => exact ih (hstep rfl)
      | some v => exact .ok v
    | error e M' =>
      rw [hs] at hstep
      exact .error hstep

theorem invoke_fails (hm : Admits m E) (limit fuel : Nat) (store : Store) (id : FuncId)
    (args : List Val) : Fails E (invoke m limit fuel store id args).result := by
  unfold invoke
  rcases ofCall_cases m limit id args 0 with ⟨e, he, hne⟩ | ⟨f, F, hf, hbody, hF, hfunc⟩
  · rw [he]
    exact .error (hm.ordinary e hne)
  · rw [hF]
    have henter := enterFunction_safe (M := ⟨store.countCall id, F, []⟩) hm hf hbody hfunc
    unfold Safe at henter
    dsimp only
    split
    · rename_i M hs
      rw [hs] at henter
      exact run_fails hm fuel ⟨henter.1, by simp [henter.2]⟩
    · rename_i e M hs
      rw [hs] at henter
      exact .error henter

theorem call_fails {s : Session} (hm : Admits s.module E) (name : String) (args : List Val) :
    Fails E (s.call name args).1 := by
  unfold Session.call
  split
  · exact .error (hm.ordinary _ rfl)
  · split
    · exact .error (hm.ordinary _ rfl)
    · exact invoke_fails hm _ _ _ _ _

theorem runMain_fails {s : Session} (hm : Admits s.module E) : Fails E s.runMain.1 := by
  refine (call_fails hm "main" []).bind fun r => ?_
  cases r with
  | none => exact .ok 0
  | some v =>
    exact (((asInt_ordinary v).imp fun e he => hm.ordinary e (not_isStructural_of_isLocal he)).map _).map _

/-- Where every dead end in reach has a call before it that does not return, no run ends in a dead end. -/
theorem admits_of_guarded (hm : ∀ {id f}, m.function? id = some f → f.Guarded m) :
    Admits m fun e => ∀ name, e ≠ .unreachable name where
  ordinary e he := by
    rintro name rfl
    cases he
  layouts _ _ := by rintro name ⟨⟩
  values _ _ _ _ _ _ _ := by rintro name ⟨⟩
  late _ _ _ _ _ _ _ := by rintro name ⟨⟩
  opened _ _ _ := by rintro name ⟨⟩
  reads _ _ _ _ _ _ := by rintro name ⟨⟩
  targets _ _ _ _ _ _ := by rintro name ⟨⟩
  edges _ _ _ _ _ _ _ _ _ _ _ _ := by rintro name ⟨⟩
  deadEnds {id f i c} hf hc ht hp hno := by
    have hend : f.ending i = some .unreachable := by
      rw [Function.block?] at hc
      rw [Function.ending, hc]
      exact ht
    have hcode : f.code i = c.insts.toList := by
      rw [Function.block?] at hc
      rw [Function.code, hc]
      rfl
    obtain ⟨inst, hmem, hh⟩ := hm hf hp hend
    rw [hcode] at hmem
    exact absurd hh (hno inst (by simpa using hmem))

end

end BlockForge.Machine
