import BlockForge.Proofs.Machine.Branching

/-!
# Running into merges

A merge takes its value from the edge along which control comes to it.
-/

namespace BlockForge.Machine

open Ir (BlockId Builder Emit Function Inst InstKind Module Terminator Ty ValueId)
open Ir.Emit (Halted)
open StateM

section

variable {w : World} {s b : Builder} {M : State} {v : ValueId}

/-! ### Merges -/

/-- The current block starts with a merge and has nothing else. -/
structure Merges (s b : Builder) (c : BlockId) (v : ValueId) (t : Ty)
    (incoming : List (ValueId × BlockId)) : Prop where
  isNext : v = ⟨s.function.values.size⟩
  current : b.current = some c
  value : ∃ name, b.function.value? v = some ⟨t, .inst c, name⟩
  body : b.function.body c = [⟨some v, .phi t incoming⟩]

/-- Control comes to the merge along one of its edges. -/
theorem Merges.enter {c source : BlockId} {t : Ty} {incoming : List (ValueId × BlockId)}
    {edge : ValueId} {x : Val} (e : Merges s b c v t incoming) (hp : Part b w)
    (hc : c ≠ Ir.Id.entry) (hlt : c.index < b.function.blocks.size)
    (hfunc : M.frame.func = w.func) (hregs : M.frame.regs.size = w.func.values.size)
    (he : (incoming.find? fun e => e.2 = source) = some (edge, source))
    (hx : M.frame.value? edge = some x) :
    ∃ M', Exec.enterBlock w.module c (some source) M = .ok () M' ∧ At w.func b M' ∧
      M'.store = M.store ∧ Stays w.func s.function.values.size M M' ∧ Holds b M' v x := by
  obtain ⟨code, hcode⟩ := block?_of_lt (Nat.lt_of_lt_of_le hlt hp.function.size)
  obtain ⟨rest, hrest⟩ := hp.function.body c
  rw [e.body] at hrest
  have hbody : w.func.body c = ⟨some v, .phi t incoming⟩ :: rest := hrest.symm
  have hinsts : code.insts.toList = ⟨some v, .phi t incoming⟩ :: rest := by
    rw [← hbody, ← w.ok.arranged.code_eq_body hc, Function.code]
    rw [Function.block?] at hcode
    simp [hcode]
  have hplain : startsPlain rest := by
    intro i hi
    refine w.ok.phiHead c i ?_
    rw [hbody]
    exact List.mem_of_mem_head? hi
  obtain ⟨name, hv⟩ := e.value
  have hvlt : v.index < b.function.values.size := (Array.getElem?_eq_some_iff.1 hv).1
  have hreg : (M.frame.regs.setIfInBounds v.index (some x))[v.index]? = some (some x) :=
    Array.getElem?_setIfInBounds_self_of_lt (by
      rw [hregs]; exact Nat.lt_of_lt_of_le hvlt hp.function.valuesSize)
  refine ⟨_, enterBlock_phi (by rw [hfunc]; exact hcode) hinsts hplain he hx,
    ⟨hfunc, e.current, hcode, ?_, ?_⟩, rfl, ⟨rfl, rfl, rfl, rfl, rfl, ?_⟩, hvlt, ?_⟩
  · show 1 = (w.func.slots c).length + (b.function.body c).length
    rw [e.body, w.ok.arranged.entryOnly c hc]
    rfl
  · show (M.frame.regs.setIfInBounds v.index (some x)).size = _
    rw [Array.size_setIfInBounds]
    exact hregs
  · intro u hu
    have hne : v.index ≠ u.index := by
      rcases hu with hu | ⟨y, hy, hr⟩
      · rw [e.isNext]
        exact Nat.ne_of_gt hu
      · rintro heq
        have hmem : (⟨some v, .phi t incoming⟩ : Inst) ∈ w.func.body c := by
          rw [hbody]
          simp
        exact w.ok.apart hy hmem rfl (hr.trans (congrArg some (Ir.Id.ext heq.symm)))
    exact Array.getElem?_setIfInBounds_ne hne
  · have hval : M.frame.func.value? v = some ⟨t, .inst c, name⟩ := by
      rw [hfunc]
      exact hp.function.value? hv
    simp [Frame.value?, State.goTo, hval, hreg]

end

section

variable {b : Builder} (h : b.Live)

include h

/-- A merge in an empty block, whatever leads there. -/
theorem phi_merges {c : BlockId} (hc : b.current = some c) (hne : c ≠ Ir.Id.entry)
    (he : b.function.body c = []) (ty : Ty) (incoming : List (ValueId × BlockId)) (name : String) :
    (Emit.phi ty incoming name).Sat b fun v b' => Merges b b' c v ty incoming ∧ b.Later b' ∧
      b'.function.blocks.size = b.function.blocks.size ∧
      ∀ i, i ≠ c → b'.function.body i = b.function.body i := by
  have hlt := Emit.lt_size_of_ending h hc
  have ho : b.function.ending c = none := by
    obtain ⟨d, hd, ho⟩ := h.isOpen
    rw [hc] at hd
    cases hd
    exact ho
  refine Sat.get_bind ?_
  simp only [hc]
  refine Sat.bind ((Emit.pushValue_onward h (by trivial)).and (Emit.pushValue_declared h _ _ _)) ?_
  rintro v b₁ ⟨⟨hon, -⟩, d⟩
  refine Sat.modify_bind (Sat.pure ?_)
  have hcode : b₁.function.code c = [] := by
    rw [hon.live.ok.function.arranged.code_eq_body hne, d.function, Function.body_addValue, he]
  have hlt₁ : c.index < b₁.function.blocks.size := by
    rw [d.function]
    exact hlt
  have ho₁ : b₁.function.ending c = none := by
    rw [d.function, Function.ending_addValue]
    exact ho
  let inst : Inst := ⟨some v, .phi ty incoming⟩
  have hg : b₁.function.Grows (b₁.function.addPhi c inst) := Function.grows_addPhi hlt₁ hcode ho₁ rfl
  have hfun : (b₁.modifyFunction (·.addPhi c inst)).function = b₁.function.addPhi c inst :=
    Builder.function_modifyFunction hon.live.ok.valid _
  have hbody : ∀ i, (b₁.function.addPhi c inst).body i = if i = c then [inst] else b₁.function.body i :=
    Function.body_addPhi hlt₁ hcode rfl
  show Merges b (b₁.modifyFunction (·.addPhi c inst)) c v ty incoming ∧
    b.Later (b₁.modifyFunction (·.addPhi c inst)) ∧
    (b₁.modifyFunction (·.addPhi c inst)).function.blocks.size = b.function.blocks.size ∧
    ∀ i, i ≠ c → (b₁.modifyFunction (·.addPhi c inst)).function.body i = b.function.body i
  rw [hfun]
  refine ⟨⟨d.isNext, d.current.trans hc, ⟨name, ?_⟩, ?_⟩, ?_, ?_, ?_⟩
  · rw [hfun, d.isNext]
    simp [Function.value?, Function.addPhi, Function.editInsts, d.function, Function.addValue]
  · rw [hfun, hbody, if_pos rfl]
  · refine hon.ext.toLater.trans ⟨rfl, Builder.module_grows_modifyFunction b₁ hon.live.ok.valid hg,
      fun j hj => Builder.function?_modifyFunction_ne b₁ _ hj, ?_, by rw [hfun]; exact hg⟩
    simp [Builder.modifyFunction, Module.modifyFunction]
  · simp [Function.addPhi, Function.editInsts, d.function, Function.addValue]
  · intro i hi
    rw [hbody, if_neg hi, d.function, Function.body_addValue]

end

end BlockForge.Machine
