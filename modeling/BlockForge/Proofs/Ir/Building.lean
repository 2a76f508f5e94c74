import BlockForge.Proofs.Ir.Typing

/-!
# Building well-formed functions

`Function.Ok` is what every edit keeps: instructions and terminators fit, stack slots lead the entry
block, a merge is the first instruction of its block and has one edge per predecessor. `Builder.Ext`
says how far the work from one builder state to a later one reaches: blocks that existed before,
other than the one at the position, are as they were.
-/

namespace BlockForge.Ir

/-! ### Well-formed functions -/

/-- A function all of whose parts fit; blocks may still be open. -/
structure Function.Ok (f : Function) (m : Module) : Prop where
  values : ∀ val ∈ f.values.toList, val.Fits
  insts : ∀ i, ∀ inst ∈ f.code i, inst.Ok m f
  terms : ∀ {i t}, f.ending i = some t → t.Ok f
  arranged : f.Arranged
  slotIds : ((f.slots Id.entry).map (·.result)).Nodup
  apart : ∀ {x y : Inst} {i : BlockId} {r : ValueId}, x ∈ f.slots Id.entry → y ∈ f.body i →
    y.result = some r → x.result ≠ some r
  phiHead : ∀ i, ∀ inst ∈ (f.body i).tail, inst.kind.isPhi = false
  phiEntry : f.NoPhi Id.entry
  phiEdges : ∀ {i inst ty incoming}, inst ∈ f.body i → inst.kind = .phi ty incoming →
    (incoming.map (·.2)).Nodup ∧ ∀ j, j ∈ incoming.map (·.2) ↔ i ∈ f.succs j

namespace Function

variable {f : Function} {m : Module}

/-- No instruction gives the value. -/
def Unused (f : Function) (r : ValueId) : Prop := ∀ i, ∀ x ∈ f.code i, x.result ≠ some r

/-- A value that is not entered yet is not given by any instruction. -/
theorem Ok.unused (h : f.Ok m) {r : ValueId} (hr : f.values.size ≤ r.index) : f.Unused r := by
  intro i x hx he
  obtain ⟨val, b, hv, -⟩ := (h.insts i x hx).result r he
  have := (Array.getElem?_eq_some_iff.1 hv).1
  omega

theorem Ok.growModule {n : Module} (h : f.Ok m) (hm : m.Grows n) : f.Ok n :=
  { h with insts := fun i inst hi => (h.insts i inst hi).mono hm (.refl f) }

theorem not_phi_of_isPhi {k : InstKind} (h : k.isPhi = false) {ty : Ty}
    {incoming : List (ValueId × BlockId)} : k ≠ .phi ty incoming := by
  rintro rfl
  simp [InstKind.isPhi] at h

theorem grows_addValue (f : Function) (v : Value) : f.Grows (f.addValue v) where
  name := rfl
  params := rfl
  ret := rfl
  values := by simp [addValue]
  size := Nat.le_refl _
  slots _ := List.prefix_refl _
  body _ := List.prefix_refl _
  ended h := ⟨h, rfl⟩

theorem Ok.addValue (h : f.Ok m) {v : Value} (hv : v.Fits) : (f.addValue v).Ok m where
  values val hval := by
    rcases (by simpa [Function.addValue] using hval : val ∈ f.values ∨ val = v) with hval | rfl
    · exact h.values val (by simpa using hval)
    · exact hv
  insts i inst hi := (h.insts i inst hi).mono (.refl m) (grows_addValue f v)
  terms ht := (grows_addValue f v).terminatorOk (h.terms ht)
  arranged := ⟨h.arranged.lead, h.arranged.entryOnly⟩
  slotIds := h.slotIds
  apart := h.apart
  phiHead := h.phiHead
  phiEntry := h.phiEntry
  phiEdges := h.phiEdges

theorem grows_addBlock (f : Function) (name : String) : f.Grows (f.addBlock name) where
  name := rfl
  params := rfl
  ret := rfl
  values := List.prefix_refl _
  size := by simp [addBlock]
  slots _ := by simp
  body _ := by simp
  ended h := by simpa using h

theorem Ok.addBlock (h : f.Ok m) (name : String) : (f.addBlock name).Ok m where
  values := h.values
  insts i inst hi := by
    rw [code_addBlock] at hi
    exact (h.insts i inst hi).mono (.refl m) (grows_addBlock f name)
  terms ht := by
    rw [ending_addBlock] at ht
    exact (grows_addBlock f name).terminatorOk (h.terms ht)
  arranged := ⟨by simpa using h.arranged.lead, by simpa using h.arranged.entryOnly⟩
  slotIds := by simpa using h.slotIds
  apart hx hy := by
    rw [slots_addBlock] at hx
    rw [body_addBlock] at hy
    exact h.apart hx hy
  phiHead := by simpa using h.phiHead
  phiEntry := by simpa [NoPhi] using h.phiEntry
  phiEdges hi hk := by
    rw [body_addBlock] at hi
    simpa [succs] using h.phiEdges hi hk

theorem grows_addInst {c : BlockId} (hc : c.index < f.blocks.size) (ho : f.ending c = none)
    {inst : Inst} (hk : inst.kind.isAlloca = false) : f.Grows (f.addInst c inst) where
  name := rfl
  params := rfl
  ret := rfl
  values := List.prefix_refl _
  size := by simp [addInst, editInsts]
  slots i := by rw [slots_addInst hc hk]
  body i := by
    rw [body_addInst hc hk]
    split
    · exact List.prefix_append _ _
    · exact List.prefix_refl _
  ended {i t} h := by
    rw [ending_addInst, body_addInst hc hk, if_neg]
    · exact ⟨h, rfl⟩
    · rintro rfl
      rw [ho] at h
      cases h

theorem Ok.addInst (h : f.Ok m) {c : BlockId} (hc : c.index < f.blocks.size)
    (ho : f.ending c = none) {inst : Inst} (hk : inst.kind.isAlloca = false)
    (hp : inst.kind.isPhi = false) (hi : inst.Ok m f)
    (hr : ∀ r, inst.result = some r → f.Unused r) : (f.addInst c inst).Ok m := by
  have hg := grows_addInst hc ho hk
  constructor
  · exact h.values
  · intro i x hx
    rw [code_addInst hc] at hx
    split at hx
    · rcases List.mem_append.1 hx with hx | hx
      · exact (h.insts i x hx).mono (.refl m) hg
      · rw [List.mem_singleton.1 hx]
        exact hi.mono (.refl m) hg
    · exact (h.insts i x hx).mono (.refl m) hg
  · intro i t ht
    rw [ending_addInst] at ht
    exact hg.terminatorOk (h.terms ht)
  · constructor
    · intro i
      rw [code_addInst hc, slots_addInst hc hk, body_addInst hc hk]
      split
      · rw [h.arranged.lead i, List.append_assoc]
      · exact h.arranged.lead i
    · rw [slots_addInst hc hk]
      exact h.arranged.entryOnly
  · rw [slots_addInst hc hk]
    exact h.slotIds
  · intro x y i r hx hy hyr
    rw [slots_addInst hc hk] at hx
    rw [body_addInst hc hk] at hy
    split at hy
    · rcases List.mem_append.1 hy with hy | hy
      · exact h.apart hx hy hyr
      · rw [List.mem_singleton.1 hy] at hyr
        exact hr r hyr Id.entry x (mem_code_iff.2 (.inl hx))
    · exact h.apart hx hy hyr
  · intro i x hx
    rw [body_addInst hc hk] at hx
    split at hx
    · rw [List.tail_append] at hx
      split at hx
      · simp at hx
      · rcases List.mem_append.1 hx with hx | hx
        · exact h.phiHead i x hx
        · rw [List.mem_singleton.1 hx]
          exact hp
    · exact h.phiHead i x hx
  · intro x hx
    rw [body_addInst hc hk] at hx
    split at hx
    · rcases List.mem_append.1 hx with hx | hx
      · exact h.phiEntry x hx
      · rw [List.mem_singleton.1 hx]
        exact hp
    · exact h.phiEntry x hx
  · intro i x ty incoming hx hkind
    have hmem : x ∈ f.body i := by
      rw [body_addInst hc hk] at hx
      split at hx
      · rcases List.mem_append.1 hx with hx | hx
        · exact hx
        · rw [List.mem_singleton.1 hx] at hkind
          exact absurd hkind (not_phi_of_isPhi hp)
      · exact hx
    simpa [succs] using h.phiEdges hmem hkind

theorem grows_addSlot (h : f.Arranged) (he : 0 < f.blocks.size) {inst : Inst}
    (hk : inst.kind.isAlloca = true) : f.Grows (f.addSlot inst) where
  name := rfl
  params := rfl
  ret := rfl
  values := List.prefix_refl _
  size := by simp [addSlot, editInsts]
  slots i := by
    rw [slots_addSlot h he hk]
    split
    · exact List.prefix_append _ _
    · exact List.prefix_refl _
  body i := by rw [body_addSlot h he hk]
  ended ht := by
    rw [ending_addSlot, body_addSlot h he hk]
    exact ⟨ht, rfl⟩

theorem Ok.addSlot (h : f.Ok m) (he : 0 < f.blocks.size) {inst : Inst}
    (hk : inst.kind.isAlloca = true) (hi : inst.Ok m f) {r : ValueId} (hr : inst.result = some r)
    (hu : f.Unused r) : (f.addSlot inst).Ok m := by
  have hg := grows_addSlot h.arranged he hk
  constructor
  · exact h.values
  · intro i x hx
    rw [code_addSlot h.arranged he] at hx
    split at hx
    · have hx' : x ∈ f.slots i ++ f.body i ∨ x = inst := by
        rcases List.mem_append.1 hx with hx | hx
        · exact .inl (List.mem_append_left _ hx)
        · rcases List.mem_cons.1 hx with hx | hx
          · exact .inr hx
          · exact .inl (List.mem_append_right _ hx)
      rcases hx' with hx' | rfl
      · rw [← h.arranged.lead i] at hx'
        exact (h.insts i x hx').mono (.refl m) hg
      · exact hi.mono (.refl m) hg
    · exact (h.insts i x hx).mono (.refl m) hg
  · intro i t ht
    rw [ending_addSlot] at ht
    exact hg.terminatorOk (h.terms ht)
  · constructor
    · intro i
      rw [code_addSlot h.arranged he, slots_addSlot h.arranged he hk, body_addSlot h.arranged he hk]
      split
      · simp
      · exact h.arranged.lead i
    · intro i hne
      rw [slots_addSlot h.arranged he hk, if_neg hne]
      exact h.arranged.entryOnly i hne
  · rw [slots_addSlot h.arranged he hk, if_pos rfl, List.map_append, List.nodup_append]
    refine ⟨h.slotIds, by simp, ?_⟩
    rintro a ha b hb rfl
    obtain ⟨x, hx, rfl⟩ := List.mem_map.1 ha
    have hxr : x.result = some r := by simpa [hr] using hb
    exact hu Id.entry x (mem_code_iff.2 (.inl hx)) hxr
  · intro x y i q hx hy hyq
    rw [slots_addSlot h.arranged he hk, if_pos rfl] at hx
    rw [body_addSlot h.arranged he hk] at hy
    rcases List.mem_append.1 hx with hx | hx
    · exact h.apart hx hy hyq
    · rw [List.mem_singleton.1 hx, hr]
      rintro heq
      cases heq
      exact hu i y (mem_code_iff.2 (.inr hy)) hyq
  · rw [body_addSlot h.arranged he hk]
    exact h.phiHead
  · intro x hx
    rw [body_addSlot h.arranged he hk] at hx
    exact h.phiEntry x hx
  · intro i x ty incoming hx hkind
    rw [body_addSlot h.arranged he hk] at hx
    simpa [succs] using h.phiEdges hx hkind

theorem grows_setEnding {c : BlockId} (hc : c.index < f.blocks.size) (ho : f.ending c = none)
    (t : Terminator) : f.Grows (f.setEnding c t) where
  name := rfl
  params := rfl
  ret := rfl
  values := List.prefix_refl _
  size := by simp [setEnding]
  slots i := by simp
  body i := by simp
  ended {i u} h := by
    rw [ending_setEnding hc, if_neg]
    · exact ⟨h, by simp⟩
    · rintro rfl
      rw [ho] at h
      cases h

/-- Ending a block adds edges, so what it leads to must not merge values yet. -/
theorem Ok.setEnding (h : f.Ok m) {c : BlockId} (hc : c.index < f.blocks.size)
    (ho : f.ending c = none) {t : Terminator} (ht : t.Ok f)
    (hn : ∀ b ∈ t.successors, f.NoPhi b) : (f.setEnding c t).Ok m := by
  have hg := grows_setEnding hc ho t
  constructor
  · exact h.values
  · intro i x hx
    rw [code_setEnding] at hx
    exact (h.insts i x hx).mono (.refl m) hg
  · intro i u hu
    rw [ending_setEnding hc] at hu
    split at hu
    · cases hu
      exact hg.terminatorOk ht
    · exact hg.terminatorOk (h.terms hu)
  · constructor
    · intro i
      rw [code_setEnding, slots_setEnding, body_setEnding]
      exact h.arranged.lead i
    · rw [slots_setEnding]
      exact h.arranged.entryOnly
  · rw [slots_setEnding]
    exact h.slotIds
  · intro x y i r hx hy
    rw [slots_setEnding] at hx
    rw [body_setEnding] at hy
    exact h.apart hx hy
  · rw [body_setEnding]
    exact h.phiHead
  · simpa [NoPhi] using h.phiEntry
  · intro i x ty incoming hx hkind
    rw [body_setEnding] at hx
    obtain ⟨hnd, hiff⟩ := h.phiEdges hx hkind
    refine ⟨hnd, fun j => ?_⟩
    rw [hiff j]
    simp only [succs, ending_setEnding hc]
    split
    · rename_i hj
      have hphi : x.kind.isPhi = true := by rw [hkind]; rfl
      have hnot : i ∉ t.successors := fun hi => by
        rw [hn i hi x hx] at hphi
        cases hphi
      simp [hj, ho, hnot]
    · rfl

theorem body_addPhi {c : BlockId} (hc : c.index < f.blocks.size) (he : f.code c = [])
    {inst : Inst} (hk : inst.kind.isAlloca = false) (i : BlockId) :
    (f.addPhi c inst).body i = if i = c then [inst] else f.body i := by
  simp only [body, code_addPhi hc he]
  split <;> simp [hk]

theorem slots_addPhi {c : BlockId} (hc : c.index < f.blocks.size) (he : f.code c = [])
    {inst : Inst} (hk : inst.kind.isAlloca = false) : (f.addPhi c inst).slots = f.slots := by
  funext i
  simp only [slots, code_addPhi hc he]
  split
  · rename_i hi
    subst hi
    simp [he, hk]
  · rfl

theorem grows_addPhi {c : BlockId} (hc : c.index < f.blocks.size) (he : f.code c = [])
    (ho : f.ending c = none) {inst : Inst} (hk : inst.kind.isAlloca = false) :
    f.Grows (f.addPhi c inst) where
  name := rfl
  params := rfl
  ret := rfl
  values := List.prefix_refl _
  size := by simp [addPhi, editInsts]
  slots i := by rw [slots_addPhi hc he hk]
  body i := by
    rw [body_addPhi hc he hk]
    split
    · rename_i hi
      subst hi
      simp [body, he]
    · exact List.prefix_refl _
  ended {i t} h := by
    rw [ending_addPhi, body_addPhi hc he hk, if_neg]
    · exact ⟨h, rfl⟩
    · rintro rfl
      rw [ho] at h
      cases h

/-- A merge goes into an empty block all of whose predecessors are known. -/
theorem Ok.addPhi (h : f.Ok m) {c : BlockId} (hc : c.index < f.blocks.size)
    (he : f.code c = []) (ho : f.ending c = none) (hne : c ≠ Id.entry) {inst : Inst} {ty : Ty}
    {incoming : List (ValueId × BlockId)} (hk : inst.kind = .phi ty incoming) (hi : inst.Ok m f)
    (hr : ∀ r, inst.result = some r → f.Unused r) (hnd : (incoming.map (·.2)).Nodup)
    (hedges : ∀ j, j ∈ incoming.map (·.2) ↔ c ∈ f.succs j) : (f.addPhi c inst).Ok m := by
  have hka : inst.kind.isAlloca = false := by rw [hk]; rfl
  have hg := grows_addPhi hc he ho hka
  constructor
  · exact h.values
  · intro i x hx
    rw [code_addPhi hc he] at hx
    split at hx
    · rw [List.mem_singleton.1 hx]
      exact hi.mono (.refl m) hg
    · exact (h.insts i x hx).mono (.refl m) hg
  · intro i t ht
    rw [ending_addPhi] at ht
    exact hg.terminatorOk (h.terms ht)
  · constructor
    · intro i
      rw [code_addPhi hc he, slots_addPhi hc he hka, body_addPhi hc he hka]
      split
      · rename_i hic
        rw [hic, h.arranged.entryOnly c hne]
        rfl
      · exact h.arranged.lead i
    · rw [slots_addPhi hc he hka]
      exact h.arranged.entryOnly
  · rw [slots_addPhi hc he hka]
    exact h.slotIds
  · intro x y i r hx hy hyr
    rw [slots_addPhi hc he hka] at hx
    rw [body_addPhi hc he hka] at hy
    split at hy
    · rw [List.mem_singleton.1 hy] at hyr
      exact hr r hyr Id.entry x (mem_code_iff.2 (.inl hx))
    · exact h.apart hx hy hyr
  · intro i x hx
    rw [body_addPhi hc he hka] at hx
    split at hx
    · simp at hx
    · exact h.phiHead i x hx
  · intro x hx
    rw [body_addPhi hc he hka, if_neg hne.symm] at hx
    exact h.phiEntry x hx
  · intro i x ty' incoming' hx hkind
    rw [body_addPhi hc he hka] at hx
    split at hx
    · rename_i hic
      rw [List.mem_singleton.1 hx, hk] at hkind
      cases hkind
      rw [hic]
      exact ⟨hnd, fun j => by simpa [succs] using hedges j⟩
    · simpa [succs] using h.phiEdges hx hkind

end Function

end BlockForge.Ir
