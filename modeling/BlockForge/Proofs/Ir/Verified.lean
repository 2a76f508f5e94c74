import BlockForge.Ir.Verify
import BlockForge.Proofs.Ir.Building

/-!
# Well-formed functions verify

A well-formed function all of whose blocks have ended breaks no rule of the verifier. The verifier
works with tables of predecessors and of defined values; their specifications come first.
-/

namespace BlockForge.Ir

/-! ### Predecessors -/

/-- The predecessors entered for a block. -/
def predsAt (preds : Array (List BlockId)) (i : BlockId) : List BlockId := preds.getD i.index []

theorem size_addPredecessor (source target : BlockId) (preds : Array (List BlockId)) :
    (addPredecessor source target preds).size = preds.size := by
  simp [addPredecessor]

theorem predsAt_addPredecessor (source target : BlockId) {preds : Array (List BlockId)}
    {i : BlockId} (hi : i.index < preds.size) :
    (∀ j, j ∈ predsAt (addPredecessor source target preds) i ↔
      j ∈ predsAt preds i ∨ (j = source ∧ i = target)) ∧
    ((predsAt preds i).Nodup → (predsAt (addPredecessor source target preds) i).Nodup) := by
  simp only [predsAt, addPredecessor, Array.getD_eq_getD_getElem?, Array.getElem?_modify,
    Array.getElem?_eq_getElem hi]
  by_cases ht : target = i
  · subst ht
    by_cases hc : source ∈ preds[target.index]
    · simp only [if_true, Option.map_some, Option.getD_some, List.contains_iff_mem, hc]
      exact ⟨fun j => ⟨.inl, by rintro (h | ⟨rfl, -⟩) <;> assumption⟩, id⟩
    · simp only [if_true, Option.map_some, Option.getD_some, List.contains_iff_mem, hc, if_false]
      refine ⟨fun j => by simp, fun hn => ?_⟩
      exact List.nodup_append.2 ⟨hn, by simp, by rintro a ha b hb; simp_all; rintro rfl; exact hc ha⟩
  · have hne : target.index ≠ i.index := fun h => ht (Id.ext h)
    simp [hne, Ne.symm ht]

/-- The successors of one block are entered. -/
theorem predsAt_successors (source : BlockId) (targets : List BlockId)
    {preds : Array (List BlockId)} {i : BlockId} (hi : i.index < preds.size) :
    let after := targets.foldl (fun preds t => addPredecessor source t preds) preds
    after.size = preds.size ∧
    (∀ j, j ∈ predsAt after i ↔ j ∈ predsAt preds i ∨ (j = source ∧ i ∈ targets)) ∧
    ((predsAt preds i).Nodup → (predsAt after i).Nodup) := by
  induction targets generalizing preds with
  | nil => simp
  | cons t rest ih =>
    have hsize := size_addPredecessor source t preds
    obtain ⟨hmem, hnodup⟩ := predsAt_addPredecessor source t hi
    obtain ⟨hs, hm, hn⟩ := @ih (addPredecessor source t preds) (by omega)
    refine ⟨hs.trans hsize, fun j => ?_, fun h => hn (hnodup h)⟩
    simp only [List.foldl_cons, hm, hmem, List.mem_cons]
    constructor
    · rintro ((h | ⟨rfl, rfl⟩) | ⟨rfl, h⟩) <;> simp_all
    · rintro (h | ⟨rfl, rfl | h⟩) <;> simp_all

/-- The successors of blocks that are numbered from `k` on are entered. -/
theorem predsAt_blocks (blocks : List Block) (k : Nat) {preds : Array (List BlockId)} {i : BlockId}
    (hi : i.index < preds.size) :
    let after := (blocks.zipIdx k).foldl (fun preds (b, n) =>
      b.successors.foldl (fun preds t => addPredecessor ⟨n⟩ t preds) preds) preds
    (∀ j, j ∈ predsAt after i ↔ j ∈ predsAt preds i ∨
      ∃ n b, blocks[n]? = some b ∧ j = ⟨k + n⟩ ∧ i ∈ b.successors) ∧
    ((predsAt preds i).Nodup → (predsAt after i).Nodup) := by
  induction blocks generalizing k preds with
  | nil => simp
  | cons b rest ih =>
    obtain ⟨hs, hm, hn⟩ := predsAt_successors ⟨k⟩ b.successors hi
    obtain ⟨hm', hn'⟩ := ih (k + 1) (hs ▸ hi)
    refine ⟨fun j => ?_, fun h => hn' (hn h)⟩
    simp only [List.zipIdx_cons, List.foldl_cons]
    rw [hm', hm]
    constructor
    · rintro ((h | ⟨rfl, h⟩) | ⟨n, c, hc, rfl, h⟩)
      · exact .inl h
      · exact .inr ⟨0, b, rfl, rfl, h⟩
      · exact .inr ⟨n + 1, c, hc, by congr 1; omega, h⟩
    · rintro (h | ⟨n, c, hc, rfl, h⟩)
      · exact .inl (.inl h)
      · cases n with
        | zero =>
          cases hc
          exact .inl (.inr ⟨rfl, h⟩)
        | succ n => exact .inr ⟨n, c, hc, by congr 1; omega, h⟩

namespace Function

variable {f : Function} {m : Module}

theorem predecessors_spec {i : BlockId} (hi : i.index < f.blocks.size) :
    (∀ j, j ∈ predsAt f.predecessors i ↔ i ∈ f.succs j) ∧ (predsAt f.predecessors i).Nodup := by
  have hsize : i.index < (f.blocks.map fun _ => ([] : List BlockId)).size := by simpa using hi
  have hstart : predsAt (f.blocks.map fun _ => []) i = [] := by simp [predsAt, hi]
  obtain ⟨hm, hn⟩ := predsAt_blocks f.blocks.toList 0 hsize
  refine ⟨fun j => ?_, hn (by rw [hstart]; exact List.nodup_nil)⟩
  refine (hm j).trans ?_
  rw [hstart]
  simp only [List.not_mem_nil, false_or, Nat.zero_add, Array.getElem?_toList]
  constructor
  · rintro ⟨n, b, hb, rfl, h⟩
    simp only [succs, ending, hb, Option.bind_some]
    cases ht : b.terminator <;> simp [Block.successors, ht] at h ⊢
    exact h
  · intro h
    cases hb : f.blocks[j.index]? with
    | none => simp [succs, ending, hb] at h
    | some b =>
      refine ⟨j.index, b, hb, rfl, ?_⟩
      cases ht : b.terminator <;> simp [succs, ending, hb, ht, Block.successors] at h ⊢
      exact h

/-! ### Defined values -/

theorem getD_setIfInBounds {xs : Array Bool} {k i : Nat} (h : xs.getD i false = true) :
    (xs.setIfInBounds k true).getD i false = true := by
  simp only [Array.getD_eq_getD_getElem?, Array.getElem?_setIfInBounds] at h ⊢
  split
  · split <;> simp_all
  · exact h

/-- Results are entered as defined and stay so. -/
theorem getD_foldl_results (insts : List Inst) {seen : Array Bool} {v : ValueId}
    (hv : v.index < seen.size)
    (h : seen.getD v.index false = true ∨ ∃ inst ∈ insts, inst.result = some v) :
    (insts.foldl (fun seen i =>
      match i.result with
      | some r => seen.setIfInBounds r.index true
      | none => seen) seen).getD v.index false = true := by
  induction insts generalizing seen with
  | nil => simpa using h
  | cons x rest ih =>
    rw [List.foldl_cons]
    refine ih ?_ ?_
    · cases x.result <;> simpa using hv
    · rcases h with h | ⟨inst, hmem, hr⟩
      · refine .inl ?_
        cases x.result with
        | none => exact h
        | some r => exact getD_setIfInBounds h
      · rcases List.mem_cons.1 hmem with rfl | hmem
        · refine .inl ?_
          simp [hr, hv]
        · exact .inr ⟨inst, hmem, hr⟩

theorem mem_insts {i : BlockId} {inst : Inst} (h : inst ∈ f.code i) : inst ∈ f.insts := by
  cases hb : f.blocks[i.index]? with
  | none => simp [code, hb] at h
  | some b =>
    refine List.mem_flatMap.2 ⟨b, ?_, by simpa [code, hb] using h⟩
    exact Array.mem_toList_iff.2 (Array.mem_of_getElem? hb)

/-- A value that may stand as an operand. -/
def Usable (f : Function) (v : ValueId) : Prop := (∃ t, f.Has v t) ∨ ∃ t, f.HasParam v t

theorem Usable.isUsable {v : ValueId} (h : f.Usable v) : f.isUsable f.definedSet v = true := by
  rcases h with ⟨t, h⟩ | ⟨t, h⟩
  · obtain ⟨⟨ty, kind, name⟩, hv, -, hp, hd⟩ := h.entry
    cases kind with
    | inst b =>
      obtain ⟨i, inst, hmem, hr⟩ := hd b rfl
      have hlt : v.index < (Array.replicate f.values.size false).size := by
        simpa using (Array.getElem?_eq_some_iff.1 hv).1
      simp only [Function.isUsable, hv]
      exact getD_foldl_results f.insts hlt (.inr ⟨inst, mem_insts hmem, hr⟩)
    | _ => simp [Function.isUsable, hv]
  · obtain ⟨n, name, hv, -⟩ := h.entry
    simp [Function.isUsable, hv]

/-! ### Operands -/

theorem usable_of_forall₂ {vs : List ValueId} {ts : List Ty} (h : List.Forall₂ f.Has vs ts) :
    ∀ v ∈ vs, f.Usable v := by
  induction h with
  | nil => simp
  | cons hv _ ih =>
    intro w hw
    rcases List.mem_cons.1 hw with rfl | hw
    · exact .inl ⟨_, hv⟩
    · exact ih w hw

end Function

theorem InstKind.Typed.usable {m : Module} {f : Function} {k : InstKind} {r : Option Ty}
    (h : k.Typed m f r) : ∀ v ∈ k.operands, f.Usable v := by
  have one : ∀ {a : ValueId} {t : Ty}, f.Has a t → f.Usable a := fun h => .inl ⟨_, h⟩
  intro v hv
  cases k with
  | alloca t => simp [operands] at hv
  | load t p =>
    obtain rfl : v = p := by simpa [operands] using hv
    exact one h.1
  | store x p =>
    rcases (by simpa [operands] using hv : v = x ∨ v = p) with rfl | rfl
    · exact h.1
    · exact one h.2.1
  | binary op a b =>
    obtain ⟨t, ha, hb, -⟩ := h
    rcases (by simpa [operands] using hv : v = a ∨ v = b) with rfl | rfl
    · exact one ha
    · exact one hb
  | fneg a =>
    obtain ⟨t, ha, -⟩ := h
    obtain rfl : v = a := by simpa [operands] using hv
    exact one ha
  | icmp p a b =>
    obtain ⟨t, ha, hb, -⟩ := h
    rcases (by simpa [operands] using hv : v = a ∨ v = b) with rfl | rfl
    · exact one ha
    · exact one hb
  | fcmp p a b =>
    obtain ⟨t, ha, hb, -⟩ := h
    rcases (by simpa [operands] using hv : v = a ∨ v = b) with rfl | rfl
    · exact one ha
    · exact one hb
  | cast op x target =>
    obtain ⟨t, hx, -⟩ := h
    obtain rfl : v = x := by simpa [operands] using hv
    exact one hx
  | select c a b =>
    obtain ⟨t, hc, ha, hb, -⟩ := h
    rcases (by simpa [operands] using hv : v = c ∨ v = a ∨ v = b) with rfl | rfl | rfl
    · exact one hc
    · exact one ha
    · exact one hb
  | phi t incoming =>
    obtain ⟨e, he, rfl⟩ := List.mem_map.1 hv
    exact one (h.1 e he)
  | call callee args ret =>
    obtain ⟨params, -, hargs, -⟩ := h
    exact Function.usable_of_forall₂ hargs v hv
  | ptrAdd p o =>
    rcases (by simpa [operands] using hv : v = p ∨ v = o) with rfl | rfl
    · exact one h.1
    · exact one h.2.1
  | fieldPtr s p k =>
    obtain rfl : v = p := by simpa [operands] using hv
    exact one h.1
  | memCopy d s l =>
    rcases (by simpa [operands] using hv : v = d ∨ v = s ∨ v = l) with rfl | rfl | rfl
    · exact one h.1
    · exact one h.2.1
    · exact one h.2.2.1
  | memMove d s l =>
    rcases (by simpa [operands] using hv : v = d ∨ v = s ∨ v = l) with rfl | rfl | rfl
    · exact one h.1
    · exact one h.2.1
    · exact one h.2.2.1

/-! ### Verification -/

/-- Sorting forgets all but the members of a list without repetitions. -/
theorem sortBlocks_eq {xs ys : List BlockId} (hx : xs.Nodup) (hy : ys.Nodup)
    (h : ∀ b, b ∈ xs ↔ b ∈ ys) : sortBlocks xs = sortBlocks ys := by
  have hperm : (sortBlocks xs).Perm (sortBlocks ys) :=
    (List.mergeSort_perm ..).trans (((List.perm_ext_iff_of_nodup hx hy).2 h).trans
      (List.mergeSort_perm ..).symm)
  have hsorted : ∀ l : List BlockId, (sortBlocks l).Pairwise fun a b => a.index ≤ b.index := by
    intro l
    have htrans : ∀ a b c : BlockId, decide (a.index ≤ b.index) = true →
        decide (b.index ≤ c.index) = true → decide (a.index ≤ c.index) = true := by
      simp only [decide_eq_true_eq]
      omega
    have htotal : ∀ a b : BlockId,
        (decide (a.index ≤ b.index) || decide (b.index ≤ a.index)) = true := by
      simp only [Bool.or_eq_true, decide_eq_true_eq]
      omega
    simpa [sortBlocks] using List.pairwise_mergeSort htrans htotal l
  exact hperm.eq_of_pairwise (fun a b _ _ h₁ h₂ => Id.ext (Nat.le_antisymm h₁ h₂)) (hsorted xs)
    (hsorted ys)

namespace Function

variable {f : Function} {m : Module}

/-- What the verifier knows of a function. -/
def context (f : Function) (m : Module) : VerifyContext := ⟨m, f, f.predecessors, f.definedSet⟩

theorem checkOperands_eq_nil {block : BlockId} {vs : List ValueId} (h : ∀ v ∈ vs, f.Usable v) :
    (f.context m).checkOperands block vs = [] := by
  simp only [VerifyContext.checkOperands, List.map_eq_nil_iff, List.filter_eq_nil_iff]
  intro v hv
  have : (f.context m).usable v = true := (h v hv).isUsable
  simp [this]

theorem checkCall_eq_nil {callee : Callee} {args : List ValueId} {ret : Ty} {r : Option Ty}
    (h : (InstKind.call callee args ret).Typed m f r) : (f.context m).checkCall callee args = [] := by
  obtain ⟨params, hsig, hargs, -⟩ := h
  have harity : (m.calleeArity callee).2 = params.length := by
    cases callee with
    | func id =>
      obtain ⟨g, hg, he⟩ := Option.map_eq_some_iff.1 hsig
      cases he
      simp [Module.calleeArity, hg]
    | host id =>
      obtain ⟨g, hg, he⟩ := Option.map_eq_some_iff.1 hsig
      cases he
      simp [Module.calleeArity, hg]
  simp [VerifyContext.checkCall, context, harity, hargs.length_eq]

/-- Instructions of which at most the first is a merge. -/
theorem checkInsts_eq_nil (h : f.Ok m) {i : BlockId} (hi : i.index < f.blocks.size)
    {late : Bool} {insts : List Inst} (hsub : ∀ x ∈ insts, x ∈ f.code i)
    (hlate : late = true → ∀ x ∈ insts, x.kind.isPhi = false)
    (htail : ∀ x ∈ insts.tail, x.kind.isPhi = false) :
    (f.context m).checkInsts i late insts = [] := by
  induction insts generalizing late with
  | nil => rfl
  | cons x rest ih =>
    have hx := hsub x (by simp)
    have htyped := (h.insts i x hx).typed
    have hrest : (f.context m).checkInsts i (late || !x.kind.isPhi) rest = [] :=
      ih (fun y hy => hsub y (by simp [hy])) (fun _ => htail)
        fun y hy => htail y (List.mem_of_mem_tail hy)
    simp only [VerifyContext.checkInsts]
    rw [checkOperands_eq_nil htyped.usable, hrest, List.append_nil, List.nil_append]
    cases hk : x.kind with
    | phi ty incoming =>
      have hphi : x.kind.isPhi = true := by rw [hk]; rfl
      have hnl : late = false := by
        cases late with
        | false => rfl
        | true => rw [hlate rfl x (by simp)] at hphi; cases hphi
      have hbody : x ∈ f.body i := by
        refine List.mem_filter.2 ⟨hx, ?_⟩
        rw [hk]
        rfl
      obtain ⟨hnd, hiff⟩ := h.phiEdges hbody hk
      obtain ⟨hm, hn⟩ := predecessors_spec hi
      have hsort := sortBlocks_eq hnd hn fun b => (hiff b).trans (hm b).symm
      simp only [hnl, Bool.false_eq_true, if_false, List.nil_append, VerifyContext.checkPhi]
      exact if_pos hsort
    | call callee args ret =>
      rw [hk] at htyped
      exact checkCall_eq_nil htyped
    | _ => rfl

theorem checkTerminator_eq_nil {i : BlockId} {t : Terminator} (h : t.Ok f) :
    (f.context m).checkTerminator i (some t) = [] := by
  have htargets : (f.context m).checkTargets i t = [] := by
    simp only [VerifyContext.checkTargets, List.map_eq_nil_iff, List.filter_eq_nil_iff]
    intro b hb
    have : b.index < f.blocks.size := h.lt_size b hb
    exact Bool.eq_false_iff.1 (decide_eq_false (Nat.not_le.2 this))
  simp only [VerifyContext.checkTerminator, htargets, List.nil_append]
  cases t with
  | br b => rfl
  | condBr c a b =>
    exact checkOperands_eq_nil fun v hv => by
      obtain rfl : v = c := by simpa using hv
      exact .inl ⟨_, h.1⟩
  | ret v =>
    cases v with
    | none =>
      have : f.ret = .void := h
      simp [VerifyContext.returnFits, context, this]
    | some v =>
      have hv : f.Has v f.ret := h
      have hu : (f.context m).usable v = true := Usable.isUsable (.inl ⟨_, hv⟩)
      have ht : f.valueType v = f.ret := hv.valueType_eq
      have hfits : (f.context m).returnFits (some v) = true := by
        rw [VerifyContext.returnFits, hu]
        simp [context, ht]
      simp only [hfits, if_true]
  | unreachable => rfl

/-- A well-formed function whose blocks have all ended breaks no rule. -/
theorem Ok.verify (h : f.Ok m) (hended : ∀ i : BlockId, i.index < f.blocks.size →
    f.ending i ≠ none) : f.verify m = [] := by
  unfold Function.verify
  split
  · rfl
  · refine List.flatMap_eq_nil_iff.2 ?_
    rintro ⟨b, n⟩ hmem
    have hb : f.blocks[n]? = some b := by
      simpa using List.mem_zipIdx_iff_getElem?.1 hmem
    have hlt : n < f.blocks.size := (Array.getElem?_eq_some_iff.1 hb).1
    have hcode : b.insts.toList = f.code ⟨n⟩ := by simp [code, hb]
    obtain ⟨t, ht⟩ := Option.ne_none_iff_exists'.1 (hended ⟨n⟩ hlt)
    have hterm : b.terminator = some t := by simpa [ending, hb] using ht
    show (f.context m).checkInsts ⟨n⟩ false b.insts.toList ++
      (f.context m).checkTerminator ⟨n⟩ b.terminator = []
    rw [hterm, checkTerminator_eq_nil (h.terms ht), List.append_nil, hcode]
    refine checkInsts_eq_nil h hlt (fun _ hx => hx) (by simp) ?_
    by_cases he : (⟨n⟩ : BlockId) = Id.entry
    · intro x hx
      rw [he] at hx
      rcases mem_code_iff.1 (List.mem_of_mem_tail hx) with hs | hb
      · have : x.kind.isAlloca = true := (List.mem_filter.1 hs).2
        cases hk : x.kind <;> simp_all [InstKind.isAlloca, InstKind.isPhi]
      · exact h.phiEntry x hb
    · rw [h.arranged.code_eq_body he]
      exact h.phiHead _

end Function

end BlockForge.Ir
