import BlockForge.Ir.Builder
import Mathlib

/-!
# Functions as they grow

What a block holds and how it ends, seen without the block table, and what each edit of a function
does to this view. Stack slots stand in front of the entry block and are inserted there at any time;
everything else is appended, so the instructions that are no slots (the `body` of a block) only grow
at their end.
-/

namespace BlockForge.Ir

theorem Id.ext {t : Table} {i j : Id t} (h : i.index = j.index) : i = j := by
  cases i
  cases j
  exact congrArg Id.mk h

namespace Function

/-- The instructions of a block; none if there is no such block. -/
def code (f : Function) (i : BlockId) : List Inst :=
  ((f.blocks[i.index]?).map (·.insts.toList)).getD []

/-- How control leaves a block, once that is decided. -/
def ending (f : Function) (i : BlockId) : Option Terminator :=
  (f.blocks[i.index]?).bind (·.terminator)

/-- The stack slots of a block. -/
def slots (f : Function) (i : BlockId) : List Inst := (f.code i).filter (·.kind.isAlloca)

/-- The instructions of a block that are no stack slots. -/
def body (f : Function) (i : BlockId) : List Inst := (f.code i).filter (!·.kind.isAlloca)

/-- The blocks that control may go to from a block. -/
def succs (f : Function) (i : BlockId) : List BlockId := ((f.ending i).map (·.successors)).getD []

/-- A block that merges no values. -/
def NoPhi (f : Function) (i : BlockId) : Prop := ∀ inst ∈ f.body i, inst.kind.isPhi = false

theorem mem_code_iff {f : Function} {i : BlockId} {inst : Inst} :
    inst ∈ f.code i ↔ inst ∈ f.slots i ∨ inst ∈ f.body i := by
  simp only [slots, body, List.mem_filter]
  cases inst.kind.isAlloca <;> simp

theorem code_eq_nil {f : Function} {i : BlockId} (h : f.blocks.size ≤ i.index) : f.code i = [] := by
  simp [code, Array.getElem?_eq_none h]

theorem body_eq_nil {f : Function} {i : BlockId} (h : f.blocks.size ≤ i.index) : f.body i = [] := by
  simp [body, code_eq_nil h]

theorem ending_eq_none {f : Function} {i : BlockId} (h : f.blocks.size ≤ i.index) :
    f.ending i = none := by
  simp [ending, Array.getElem?_eq_none h]

theorem noPhi_of_body_eq_nil {f : Function} {i : BlockId} (h : f.body i = []) : f.NoPhi i := by
  simp [NoPhi, h]

/-! ### Edits -/

def addValue (f : Function) (v : Value) : Function := { f with values := f.values.push v }

def addBlock (f : Function) (name : String) : Function := { f with blocks := f.blocks.push { name } }

/-- Changes the instructions of one block. -/
def editInsts (f : Function) (c : BlockId) (k : Array Inst → Array Inst) : Function :=
  { f with blocks := f.blocks.modify c.index fun bl => { bl with insts := k bl.insts } }

def addInst (f : Function) (c : BlockId) (inst : Inst) : Function := f.editInsts c (·.push inst)

def addSlot (f : Function) (inst : Inst) : Function :=
  f.editInsts Id.entry (insertAfterLeading (·.kind.isAlloca) inst)

def addPhi (f : Function) (c : BlockId) (inst : Inst) : Function :=
  f.editInsts c (insertAfterLeading (·.kind.isPhi) inst)

def setEnding (f : Function) (c : BlockId) (t : Terminator) : Function :=
  { f with blocks := f.blocks.modify c.index fun bl => { bl with terminator := some t } }

@[simp] theorem code_addValue (f : Function) (v : Value) : (f.addValue v).code = f.code := rfl

@[simp] theorem ending_addValue (f : Function) (v : Value) : (f.addValue v).ending = f.ending := rfl

@[simp] theorem body_addValue (f : Function) (v : Value) : (f.addValue v).body = f.body := rfl

@[simp] theorem slots_addValue (f : Function) (v : Value) : (f.addValue v).slots = f.slots := rfl

@[simp] theorem code_addBlock (f : Function) (name : String) : (f.addBlock name).code = f.code := by
  funext i
  simp only [code, addBlock, Array.getElem?_push]
  split
  · rename_i h
    rw [h, Array.getElem?_eq_none (Nat.le_refl _)]
    rfl
  · rfl

@[simp] theorem ending_addBlock (f : Function) (name : String) :
    (f.addBlock name).ending = f.ending := by
  funext i
  simp only [ending, addBlock, Array.getElem?_push]
  split
  · rename_i h
    rw [h, Array.getElem?_eq_none (Nat.le_refl _)]
    rfl
  · rfl

@[simp] theorem body_addBlock (f : Function) (name : String) : (f.addBlock name).body = f.body := by
  funext i
  simp [body]

@[simp] theorem slots_addBlock (f : Function) (name : String) :
    (f.addBlock name).slots = f.slots := by
  funext i
  simp [slots]

theorem index_ne {i c : BlockId} (h : i ≠ c) : c.index ≠ i.index := fun he => h (Id.ext he.symm)

theorem code_editInsts {f : Function} {c : BlockId} (hc : c.index < f.blocks.size)
    (k : Array Inst → Array Inst) (i : BlockId) :
    (f.editInsts c k).code i = if i = c then (k (f.code i).toArray).toList else f.code i := by
  simp only [code, editInsts, Array.getElem?_modify]
  by_cases hi : i = c
  · subst hi
    simp [Array.getElem?_eq_getElem hc]
  · simp [hi, index_ne hi]

@[simp] theorem ending_editInsts (f : Function) (c : BlockId) (k : Array Inst → Array Inst) :
    (f.editInsts c k).ending = f.ending := by
  funext i
  simp only [ending, editInsts, Array.getElem?_modify]
  split
  · cases f.blocks[i.index]? <;> simp
  · rfl

theorem code_addInst {f : Function} {c : BlockId} (hc : c.index < f.blocks.size) (inst : Inst)
    (i : BlockId) :
    (f.addInst c inst).code i = if i = c then f.code i ++ [inst] else f.code i := by
  simp [addInst, code_editInsts hc]

@[simp] theorem ending_addInst (f : Function) (c : BlockId) (inst : Inst) :
    (f.addInst c inst).ending = f.ending := ending_editInsts ..

theorem body_addInst {f : Function} {c : BlockId} (hc : c.index < f.blocks.size) {inst : Inst}
    (hk : inst.kind.isAlloca = false) (i : BlockId) :
    (f.addInst c inst).body i = if i = c then f.body i ++ [inst] else f.body i := by
  simp only [body, code_addInst hc]
  split <;> simp [hk]

theorem slots_addInst {f : Function} {c : BlockId} (hc : c.index < f.blocks.size) {inst : Inst}
    (hk : inst.kind.isAlloca = false) : (f.addInst c inst).slots = f.slots := by
  funext i
  simp only [slots, code_addInst hc]
  split <;> simp [hk]

theorem code_setEnding (f : Function) (c : BlockId) (t : Terminator) :
    (f.setEnding c t).code = f.code := by
  funext i
  simp only [code, setEnding, Array.getElem?_modify]
  split
  · cases f.blocks[i.index]? <;> simp
  · rfl

@[simp] theorem body_setEnding (f : Function) (c : BlockId) (t : Terminator) :
    (f.setEnding c t).body = f.body := by
  funext i
  simp [body, code_setEnding]

@[simp] theorem slots_setEnding (f : Function) (c : BlockId) (t : Terminator) :
    (f.setEnding c t).slots = f.slots := by
  funext i
  simp [slots, code_setEnding]

theorem ending_setEnding {f : Function} {c : BlockId} (hc : c.index < f.blocks.size)
    (t : Terminator) (i : BlockId) :
    (f.setEnding c t).ending i = if i = c then some t else f.ending i := by
  simp only [ending, setEnding, Array.getElem?_modify]
  by_cases hi : i = c
  · subst hi
    simp [Array.getElem?_eq_getElem hc]
  · simp [hi, index_ne hi]

/-! ### Insertion behind leading instructions -/

theorem toList_insertAfterLeading (p : Inst → Bool) (inst : Inst) (insts : Array Inst) :
    (insertAfterLeading p inst insts).toList =
      insts.toList.takeWhile p ++ inst :: insts.toList.dropWhile p := by
  simp [insertAfterLeading]

theorem code_addPhi {f : Function} {c : BlockId} (hc : c.index < f.blocks.size)
    (he : f.code c = []) (inst : Inst) (i : BlockId) :
    (f.addPhi c inst).code i = if i = c then [inst] else f.code i := by
  simp only [addPhi, code_editInsts hc, toList_insertAfterLeading]
  by_cases hi : i = c
  · subst hi
    simp [he]
  · simp [hi]

@[simp] theorem ending_addPhi (f : Function) (c : BlockId) (inst : Inst) :
    (f.addPhi c inst).ending = f.ending := ending_editInsts ..

/-- Slots lead the entry block, and no other block has any. -/
structure Arranged (f : Function) : Prop where
  lead : ∀ i, f.code i = f.slots i ++ f.body i
  entryOnly : ∀ i, i ≠ Id.entry → f.slots i = []

theorem Arranged.code_eq_body {f : Function} (h : f.Arranged) {i : BlockId} (hi : i ≠ Id.entry) :
    f.code i = f.body i := by
  rw [h.lead, h.entryOnly i hi, List.nil_append]

theorem takeWhile_slots {f : Function} (h : f.Arranged) (i : BlockId) :
    (f.code i).takeWhile (·.kind.isAlloca) = f.slots i ∧
      (f.code i).dropWhile (·.kind.isAlloca) = f.body i := by
  have hs : ∀ x ∈ f.slots i, x.kind.isAlloca = true := fun x hx => (List.mem_filter.1 hx).2
  have hb : (f.body i).takeWhile (·.kind.isAlloca) = [] ∧
      (f.body i).dropWhile (·.kind.isAlloca) = f.body i := by
    cases hbody : f.body i with
    | nil => simp
    | cons x xs =>
      have hx : x ∈ f.body i := by simp [hbody]
      have := (List.mem_filter.1 hx).2
      simp_all
  rw [h.lead]
  constructor
  · rw [List.takeWhile_append_of_pos hs, hb.1, List.append_nil]
  · rw [List.dropWhile_append_of_pos hs, hb.2]

theorem code_addSlot {f : Function} (h : f.Arranged) (he : 0 < f.blocks.size) (inst : Inst)
    (i : BlockId) :
    (f.addSlot inst).code i =
      if i = Id.entry then f.slots i ++ inst :: f.body i else f.code i := by
  have hc : Id.entry.index < f.blocks.size := he
  simp only [addSlot, code_editInsts hc, toList_insertAfterLeading]
  split
  · rw [(takeWhile_slots h i).1, (takeWhile_slots h i).2]
  · rfl

@[simp] theorem ending_addSlot (f : Function) (inst : Inst) :
    (f.addSlot inst).ending = f.ending := ending_editInsts ..

theorem body_addSlot {f : Function} (h : f.Arranged) (he : 0 < f.blocks.size) {inst : Inst}
    (hk : inst.kind.isAlloca = true) : (f.addSlot inst).body = f.body := by
  funext i
  simp only [body, code_addSlot h he]
  split
  · conv_rhs => rw [h.lead i]
    simp only [List.filter_append, List.filter_cons, hk]
    simp [body]
  · rfl

theorem slots_addSlot {f : Function} (h : f.Arranged) (he : 0 < f.blocks.size) {inst : Inst}
    (hk : inst.kind.isAlloca = true) (i : BlockId) :
    (f.addSlot inst).slots i = if i = Id.entry then f.slots i ++ [inst] else f.slots i := by
  simp only [slots, code_addSlot h he]
  split
  · simp only [List.filter_append, List.filter_cons, hk, if_true]
    simp [body, List.filter_filter]
  · rfl

end Function

end BlockForge.Ir
