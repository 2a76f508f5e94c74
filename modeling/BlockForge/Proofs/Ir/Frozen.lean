import BlockForge.Proofs.Ir.Operations

/-!
# Blocks that have ended

Emission into a block that has ended is dropped, and its first terminator stays. Two operations go past this
check: a stack slot enters the entry block at any time, and a merge enters the current block even behind its
end.
-/

namespace BlockForge.Ir

open StateM

/-! ### What an operation leaves alone -/

/-- The position and a block stay; if the position is there, every block does. -/
structure Spares (i : BlockId) (s b : Builder) : Prop where
  current : b.current = s.current
  block : b.function.block? i = s.function.block? i
  dropped : s.current = some i → b.function.blocks = s.function.blocks

namespace Spares

variable {i : BlockId} {s b d : Builder}

theorem refl (b : Builder) : Spares i b b := ⟨rfl, rfl, fun _ => rfl⟩

theorem trans (h : Spares i s b) (k : Spares i b d) : Spares i s d where
  current := k.current.trans h.current
  block := k.block.trans h.block
  dropped hc := (k.dropped (h.current.trans hc)).trans (h.dropped hc)

theorem hasTerminator (h : Spares i s b) : b.hasTerminator i = s.hasTerminator i := by
  simp only [Builder.hasTerminator, h.block]

theorem of_blocks (hc : b.current = s.current) (h : b.function.blocks = s.function.blocks) : Spares i s b :=
  ⟨hc, by simp only [Function.block?, h], fun _ => h⟩

end Spares

/-- A function that has a block is in the module. -/
theorem Builder.valid_of_hasTerminator {b : Builder} {i : BlockId} (h : b.hasTerminator i = true) :
    b.func.index < b.module.functions.size := by
  by_contra hout
  have hnone : b.module.functions[b.func.index]? = none := Array.getElem?_eq_none (Nat.not_lt.1 hout)
  have hempty : b.function.block? i = none := by
    have hf : b.function = default := by simp [function, Module.function?, hnone]
    rw [hf]
    exact Array.getElem?_eq_none (Nat.zero_le _)
  simp [hasTerminator, hempty] at h

namespace Emit

variable {α β : Type} {b : Builder} {i : BlockId}

/-- An operation that leaves blocks alone once they have ended. -/
structure IsSparing (x : Emit α) : Prop where
  sat : ∀ {b : Builder} {i : BlockId}, b.hasTerminator i = true → x.Sat b fun _ b' => Spares i b b'

theorem IsSparing.pure (a : α) : IsSparing (Pure.pure a) := ⟨fun {b} _ _ => .refl b⟩

theorem IsSparing.bind {x : Emit α} {f : α → Emit β} (h : IsSparing x) (k : ∀ a, IsSparing (f a)) :
    IsSparing (x >>= f) := by
  refine ⟨fun hi => Sat.bind (h.sat hi) fun a b₁ h₁ => ?_⟩
  exact ((k a).sat (h₁.hasTerminator.trans hi)).imp fun _ _ h₂ => h₁.trans h₂

theorem IsSparing.map {x : Emit α} {f : α → β} (h : IsSparing x) : IsSparing (f <$> x) :=
  ⟨fun hi => h.sat hi⟩

theorem IsSparing.get_bind {f : Builder → Emit α} (h : ∀ b, IsSparing (f b)) : IsSparing (get >>= f) :=
  ⟨fun {b} _ hi => (h b).sat hi⟩

theorem demand_sparing (d : Demand) (met : Builder → Bool) : IsSparing (demand d met) := by
  refine ⟨fun {b i} _ => ?_⟩
  show Spares i b (b.demand d (met b))
  unfold Builder.demand
  split
  · exact .refl b
  · exact .of_blocks rfl rfl

theorem pushValue_sparing (ty : Ty) (kind : ValueKind) (name : String) : IsSparing (pushValue ty kind name) := by
  refine ⟨fun {b i} hi => .of_blocks rfl ?_⟩
  exact congrArg (·.blocks) (Builder.function_modifyFunction (Builder.valid_of_hasTerminator hi) _)

theorem onModule_sparing {f : Module → α × Module} (hf : ∀ m, (f m).2.functions = m.functions) :
    IsSparing (onModule f) := by
  refine ⟨fun {b i} _ => .of_blocks rfl ?_⟩
  simp only [onModule, Builder.function, Module.function?, hf]

theorem block?_editInsts_ne {f : Function} {c : BlockId} (h : i ≠ c) (k : Array Inst → Array Inst) :
    (f.editInsts c k).block? i = f.block? i := by
  simp [Function.block?, Function.editInsts, Array.getElem?_modify, Function.index_ne h]

/-- The check that every plain emission makes. -/
theorem insert_sparing (kind : InstKind) (r : Option ValueId) : IsSparing (insert kind r) := by
  refine ⟨fun {b i} hi => ?_⟩
  simp only [Sat, insert, modify, modifyGet, MonadStateOf.modifyGet, StateT.modifyGet, Pure.pure]
  split
  · exact (demand_sparing .position fun _ => false).sat hi
  · rename_i c hc
    split
    · exact (demand_sparing .blockOpen fun _ => false).sat hi
    · rename_i hopen
      -- the current block is open, so it is not the one that has ended
      have hne : i ≠ c := fun he => hopen (he ▸ hi)
      refine ⟨rfl, ?_, fun hcur => absurd (Option.some.inj (hcur.symm.trans hc)) hne⟩
      show (b.modifyFunction (·.editInsts c (·.push ⟨r, kind⟩))).function.block? i = _
      rw [Builder.function_modifyFunction (Builder.valid_of_hasTerminator hi), block?_editInsts_ne hne]

theorem emit_sparing (ty : Ty) (kind : InstKind) (name : String) : IsSparing (emit ty kind name) :=
  .get_bind fun _ => (pushValue_sparing ..).bind fun r => (insert_sparing ..).bind fun _ => .pure r

theorem constInt_sparing (ty : Ty) (w : UInt64) : IsSparing (constInt ty w) := pushValue_sparing ..

theorem binary_sparing (op : BinOp) (l r : ValueId) (name : String) : IsSparing (binary op l r name) :=
  (demand_sparing ..).bind fun _ => (demand_sparing ..).bind fun _ => .get_bind fun _ => emit_sparing ..

theorem intResize_sparing (v : ValueId) (ty : Ty) (signed : Bool) (name : String) :
    IsSparing (intResize v ty signed name) := by
  refine .get_bind fun b => ?_
  dsimp only
  split
  · exact .pure v
  · split <;> exact emit_sparing ..

theorem callAt_sparing (callee : Callee) (ret : Ty) (args : List ValueId) (name : String) :
    IsSparing (callAt callee ret args name) := by
  unfold callAt
  split
  · exact (insert_sparing ..).bind fun _ => .pure none
  · exact (emit_sparing ..).map

theorem declareHost_sparing (name : String) (params : List Ty) (ret : Ty) :
    IsSparing (onModule (·.declareHost name params ret)) :=
  onModule_sparing fun m => (m.declareHost_grows name params ret).2

end Emit

open Emit

/-! ### Operations on blocks that have ended -/

namespace Emission

/-- Whether the instruction skips the check for the end of the block: a slot or a merge. -/
def skipsCheck : Emission → Bool
  | entryAlloca .. | phi .. => true
  | _ => false

theorem sparing {e : Emission} (h : e.skipsCheck = false) : IsSparing e.run := by
  cases e with
  | entryAlloca => cases h
  | phi => cases h
  | constInt => exact (constInt_sparing ..).map
  | constBool => exact (constInt_sparing ..).map
  | constUsize => exact IsSparing.map (.get_bind fun _ => constInt_sparing ..)
  | constFloat => exact (pushValue_sparing ..).map
  | constNull => exact (pushValue_sparing ..).map
  | globalString => exact ((onModule_sparing fun _ => rfl).bind fun _ => pushValue_sparing ..).map
  | declareHost => exact (declareHost_sparing ..).map
  | alloca => exact (emit_sparing ..).map
  | load => exact ((demand_sparing ..).bind fun _ => emit_sparing ..).map
  | store => exact (demand_sparing ..).bind fun _ => insert_sparing ..
  | ptrAdd => exact (emit_sparing ..).map
  | fieldPtr => exact ((demand_sparing ..).bind fun _ => emit_sparing ..).map
  | memCopy => exact insert_sparing ..
  | memMove => exact insert_sparing ..
  | binary => exact (binary_sparing ..).map
  | neg => exact IsSparing.map (.get_bind fun _ => (constInt_sparing ..).bind fun _ => binary_sparing ..)
  | fneg => exact IsSparing.map (.get_bind fun _ => emit_sparing ..)
  | not => exact IsSparing.map (.get_bind fun _ => (constInt_sparing ..).bind fun _ => binary_sparing ..)
  | icmp => exact ((demand_sparing ..).bind fun _ => emit_sparing ..).map
  | fcmp => exact (emit_sparing ..).map
  | cast => exact (emit_sparing ..).map
  | intResize => exact (intResize_sparing ..).map
  | select => exact IsSparing.map (.get_bind fun _ => emit_sparing ..)
  | call => exact ((demand_sparing ..).bind fun _ => .get_bind fun _ => callAt_sparing ..).map
  | callHost => exact IsSparing.map (.get_bind fun _ => callAt_sparing ..)

end Emission

theorem closeBlock_block? {b : Builder} {i : BlockId} (hi : b.hasTerminator i = true) (c : BlockId) (t : Terminator) :
    (closeBlock c t).Sat b fun _ b' => b'.function.block? i = b.function.block? i := by
  unfold Sat closeBlock
  split
  · rfl
  · rename_i hopen
    have hne : i ≠ c := fun he => hopen (he ▸ hi)
    show (b.modifyFunction (·.setEnding c t)).function.block? i = _
    rw [Builder.function_modifyFunction (Builder.valid_of_hasTerminator hi)]
    simp [Function.block?, Function.setEnding, Array.getElem?_modify, Function.index_ne hne]

theorem function_demand (b : Builder) (d : Demand) (met : Bool) : (b.demand d met).function = b.function := by
  unfold Builder.demand
  split <;> rfl

theorem terminate_block? {b : Builder} {i : BlockId} (hi : b.hasTerminator i = true) (t : Terminator) :
    (terminate t).Sat b fun _ b' => b'.function.block? i = b.function.block? i ∧
      (b.current = some i → b'.function = b.function) := by
  refine Sat.get_bind ?_
  cases hc : b.current with
  | none => exact ⟨((demand_sparing .position fun _ => false).sat hi).block, fun hn => by cases hn⟩
  | some c =>
    show ((closeBlock c t b).2.demand .blockOpen (closeBlock c t b).1).function.block? i = _ ∧
      (_ → ((closeBlock c t b).2.demand .blockOpen (closeBlock c t b).1).function = _)
    rw [function_demand]
    refine ⟨closeBlock_block? hi c t, fun hcur => ?_⟩
    cases hcur
    simp [closeBlock, hi]

theorem Terminator.block? {b : Builder} {i : BlockId} (hi : b.hasTerminator i = true) (t : Terminator) :
    t.run.Sat b fun _ b' => b'.function.block? i = b.function.block? i ∧
      (b.current = some i → b'.function = b.function) := by
  cases t with
  | br => exact terminate_block? hi _
  | condBr cond ifTrue ifFalse =>
    have hkeep := (demand_sparing .condition fun b => b.valueType cond = .i1).sat hi
    obtain ⟨hblock, hdropped⟩ := terminate_block? (hkeep.hasTerminator.trans hi) (.condBr cond ifTrue ifFalse)
    exact ⟨hblock.trans hkeep.block, fun hc => (hdropped (hkeep.current.trans hc)).trans (function_demand ..)⟩
  | ret value =>
    cases value with
    | none => exact terminate_block? hi _
    | some => exact terminate_block? hi _
  | unreachable => exact terminate_block? hi _

namespace Operation

/-- What an operation makes of the instructions of a block that has ended. -/
def residue (b : Builder) (i : BlockId) (insts : Array Inst) : Operation → Array Inst
  | emission (.entryAlloca ty _) =>
    if i = Id.entry then
      insertAfterLeading (·.kind.isAlloca) ⟨some ⟨b.function.values.size⟩, .alloca ty⟩ insts
    else insts
  | emission (.phi ty incoming _) =>
    if b.current = some i then
      insertAfterLeading (·.kind.isPhi) ⟨some ⟨b.function.values.size⟩, .phi ty incoming⟩ insts
    else insts
  | _ => insts

/-- An operation that would put something into a block, and asks first whether it has ended. -/
def Attempts (b : Builder) (i : BlockId) : Operation → Prop
  | appendBlock _ | positionAt _ => False
  | sealBlock c => c = i
  | emission e => b.current = some i ∧ e.skipsCheck = false
  | terminate _ => b.current = some i

/-- The builder after some operations. -/
def runAll (ops : List Operation) (b : Builder) : Builder := ops.foldl (fun b op => (op.run b).2) b

variable {b : Builder} {i : BlockId} {bl : Block}

theorem block?_editInsts {f : Function} (hb : f.block? i = some bl) (c : BlockId) (k : Array Inst → Array Inst) :
    (f.editInsts c k).block? i = some { bl with insts := if i = c then k bl.insts else bl.insts } := by
  by_cases h : i = c
  · subst h
    simp_all [Function.block?, Function.editInsts, Array.getElem?_modify]
  · rw [block?_editInsts_ne h, hb, if_neg h]

theorem pushValue_result (hi : b.hasTerminator i = true) (ty : Ty) (kind : ValueKind) (name : String) :
    (pushValue ty kind name).Sat b fun r b' => r = ⟨b.function.values.size⟩ ∧ Spares i b b' :=
  Sat.and rfl ((pushValue_sparing ty kind name).sat hi)

theorem entryAlloca_block? (hb : b.function.block? i = some bl) (hi : b.hasTerminator i = true) (ty : Ty)
    (name : String) :
    (entryAlloca ty name).Sat b fun _ b' =>
      b'.function.block? i = some { bl with insts := (emission (.entryAlloca ty name)).residue b i bl.insts } := by
  refine Sat.bind (pushValue_result hi ..) fun r b₁ h₁ => ?_
  obtain ⟨rfl, h₁⟩ := h₁
  refine Sat.bind ((demand_sparing ..).sat (h₁.hasTerminator.trans hi)) fun _ b₂ h₂ => ?_
  have hkeep := h₁.trans h₂
  show (b₂.modifyFunction (·.editInsts Id.entry _)).function.block? i = _
  rw [Builder.function_modifyFunction (Builder.valid_of_hasTerminator (hkeep.hasTerminator.trans hi)),
    block?_editInsts (hkeep.block.trans hb)]
  rfl

theorem phi_block? (hb : b.function.block? i = some bl) (hi : b.hasTerminator i = true) (ty : Ty)
    (incoming : List (ValueId × BlockId)) (name : String) :
    (Emit.phi ty incoming name).Sat b fun _ b' =>
      b'.function.block? i = some { bl with insts := (emission (.phi ty incoming name)).residue b i bl.insts } := by
  refine Sat.get_bind ?_
  simp only [residue]
  cases hc : b.current with
  | none =>
    refine (((demand_sparing ..).bind fun _ => constInt_sparing ..).sat hi).imp fun _ _ h => ?_
    rw [if_neg (by simp), h.block, hb]
  | some c =>
    refine Sat.bind (pushValue_result hi ..) fun r b₁ h₁ => ?_
    obtain ⟨rfl, h₁⟩ := h₁
    show (b₁.modifyFunction (·.editInsts c _)).function.block? i = _
    rw [Builder.function_modifyFunction (Builder.valid_of_hasTerminator (h₁.hasTerminator.trans hi)),
      block?_editInsts (h₁.block.trans hb)]
    simp [eq_comm]

theorem residue_emission {e : Emission} (h : e.skipsCheck = false) (insts : Array Inst) :
    (emission e).residue b i insts = insts := by
  cases e with
  | entryAlloca => cases h
  | phi => cases h
  | _ => rfl

theorem emission_block? (hb : b.function.block? i = some bl) (hi : b.hasTerminator i = true) (e : Emission) :
    e.run.Sat b fun _ b' =>
      b'.function.block? i = some { bl with insts := (emission e).residue b i bl.insts } := by
  cases he : e.skipsCheck with
  | false => exact ((Emission.sparing he).sat hi).imp fun _ _ h => by rw [residue_emission he, h.block, hb]
  | true =>
    cases e with
    | entryAlloca ty name => exact entryAlloca_block? hb hi ty name
    | phi ty incoming name => exact phi_block? hb hi ty incoming name
    | _ => cases he

/-- What one operation does to a block that has ended. -/
theorem run_block? (hb : b.function.block? i = some bl) (hi : b.hasTerminator i = true) (op : Operation) :
    op.run.Sat b fun _ b' =>
      b'.function.block? i = some { bl with insts := op.residue b i bl.insts } := by
  cases op with
  | appendBlock name =>
    show (b.modifyFunction (·.addBlock name)).function.block? i = some bl
    rw [Builder.function_modifyFunction (Builder.valid_of_hasTerminator hi), ← hb]
    simp only [Function.block?, Function.addBlock, Array.getElem?_push]
    rw [if_neg (Nat.ne_of_lt (Array.getElem?_eq_some_iff.1 hb).1)]
  | positionAt block =>
    exact ((demand_sparing .blockExists fun b => block.index < b.function.blocks.size).sat hi).block.trans hb
  | sealBlock block => exact (closeBlock_block? hi block .unreachable).trans hb
  | emission e => exact emission_block? hb hi e
  | terminate t => exact (t.block? hi).1.trans hb

/-- An attempt on a block that has ended changes no block. -/
theorem attempt_dropped (hi : b.hasTerminator i = true) {op : Operation} (h : op.Attempts b i) :
    op.run.Sat b fun _ b' => b'.function.blocks = b.function.blocks := by
  cases op with
  | appendBlock => cases h
  | positionAt => cases h
  | sealBlock c =>
    cases h
    show (closeBlock i .unreachable b).2.function.blocks = _
    simp [closeBlock, hi]
  | emission e => exact ((Emission.sparing h.2).sat hi).dropped h.1
  | terminate t => exact congrArg (·.blocks) ((t.block? hi).2 h)

theorem hasTerminator_of_block? (hb : b.function.block? i = some bl) (ht : bl.terminator ≠ none) :
    b.hasTerminator i = true := by
  simp only [Builder.hasTerminator, hb]
  exact Option.isSome_iff_ne_none.2 ht

/-- After any operations, an ended block has its name and its terminator still. -/
theorem runAll_block? (hb : b.function.block? i = some bl) (ht : bl.terminator ≠ none) (ops : List Operation) :
    ∃ insts, (runAll ops b).function.block? i = some { bl with insts } := by
  induction ops generalizing b bl with
  | nil => exact ⟨bl.insts, hb⟩
  | cons op rest ih =>
    obtain ⟨insts, h⟩ := ih (run_block? hb (hasTerminator_of_block? hb ht) op) ht
    exact ⟨insts, h⟩

end Operation

/-- Whatever operations come after its end, a block keeps its terminator. Each of them leaves its instructions
alone as well, but for a stack slot, which goes to the entry block, and a merge at the position; every other
attempt on the block changes nothing in the function's blocks. -/
theorem ended_blocks_take_only_slots_and_merges (b : Builder) (i : BlockId) (bl : Block)
    (hb : b.function.block? i = some bl) (ht : bl.terminator ≠ none) (ops : List Operation) (op : Operation) :
    ∃ insts, (Operation.runAll ops b).function.block? i = some { bl with insts } ∧
      (Operation.runAll (ops ++ [op]) b).function.block? i =
        some { bl with insts := op.residue (Operation.runAll ops b) i insts } ∧
      (op.Attempts (Operation.runAll ops b) i → (Operation.runAll (ops ++ [op]) b).function.blocks =
        (Operation.runAll ops b).function.blocks) := by
  obtain ⟨insts, hs⟩ := Operation.runAll_block? hb ht ops
  have hi := Operation.hasTerminator_of_block? hs ht
  have hstep : Operation.runAll (ops ++ [op]) b = (op.run (Operation.runAll ops b)).2 := by
    simp [Operation.runAll]
  rw [hstep]
  exact ⟨insts, hs, Operation.run_block? hs hi op, Operation.attempt_dropped hi⟩

/-- A builder at the end of the second of two blocks, which returns. -/
def atEndedBlock : Builder :=
  Operation.runAll
    [.appendBlock "entry", .appendBlock "next", .positionAt ⟨0⟩, .emission (.constBool true),
      .terminate (.br ⟨1⟩), .positionAt ⟨1⟩, .terminate (.ret none)]
    (.start { name := "m", pointerBits := 64, functions := #[.declare "f" [] .void] } ⟨0⟩)

/-- A slot enters the entry block from here, but a second end of this block is dropped. -/
theorem ended_blocks_take_only_slots_and_merges_next :
    atEndedBlock.function.block? ⟨1⟩ = some ⟨"next", #[], some (.ret none)⟩ ∧
      (Operation.runAll [.emission (.entryAlloca .i32 "x"), .terminate .unreachable] atEndedBlock).function.blocks =
        (Operation.runAll [.emission (.entryAlloca .i32 "x")] atEndedBlock).function.blocks := by
  have hb : atEndedBlock.function.block? ⟨1⟩ = some ⟨"next", #[], some (.ret none)⟩ := by cbv
  obtain ⟨-, -, -, hdropped⟩ := ended_blocks_take_only_slots_and_merges atEndedBlock ⟨1⟩
    ⟨"next", #[], some (.ret none)⟩ hb (by decide) [.emission (.entryAlloca .i32 "x")] (.terminate .unreachable)
  have hcur : (Operation.runAll [.emission (.entryAlloca .i32 "x")] atEndedBlock).current = some ⟨1⟩ := by cbv
  exact ⟨hb, hdropped hcur⟩

/-- A merge is put in front of the instructions of a block that returns already. -/
theorem merge_enters_ended_block :
    atEndedBlock.function.ending ⟨1⟩ = some (.ret none) ∧ atEndedBlock.function.code ⟨1⟩ = [] ∧
      (Operation.runAll [.emission (.phi .i1 [(⟨0⟩, ⟨0⟩)] "x")] atEndedBlock).function.code ⟨1⟩ =
        [⟨some ⟨1⟩, .phi .i1 [(⟨0⟩, ⟨0⟩)]⟩] := by
  refine ⟨by cbv, by cbv, by cbv⟩

end BlockForge.Ir
