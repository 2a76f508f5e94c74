import BlockForge.Proofs.Machine.Addresses
import BlockForge.Proofs.Machine.Nesting

/-!
# What operations leave in memory

An operation of a function changes which allocations are live in two ways only: a constant text that is used
for the first time gets one, and an instruction that asks for memory gets one. `Gains` keeps the account, for
operations that succeed and for those that fail.
-/

namespace BlockForge.Machine

open Ir (Function GlobalId Inst InstKind Module ValueId)

/-! ### Live allocations -/

/-- Which allocations are live, by number. -/
def Memory.lives (mem : Memory) : List Bool := mem.blocks.toList.map (·.isSome)

/-- Whether the allocation of a number is live. -/
def Memory.isLive (mem : Memory) (i : Nat) : Bool := (mem.blocks[i]?).join.isSome

namespace Memory

variable (mem : Memory)

@[simp] theorem length_lives : mem.lives.length = mem.blocks.size := by simp [lives]

theorem getElem?_lives (i : Nat) : mem.lives[i]?.getD false = mem.isLive i := by
  simp only [lives, isLive, List.getElem?_map, Array.getElem?_toList]
  cases mem.blocks[i]? <;> rfl

theorem liveAllocations_eq : mem.liveAllocations = mem.lives.count true := by
  simp only [liveAllocations, lives, ← Array.countP_toList, List.count_eq_countP, List.countP_map]
  exact congrFun (congrArg List.countP (funext fun a => by simp)) _

theorem isLive_of_lt {mem mem' : Memory} {new : List Bool} (h : mem'.lives = mem.lives ++ new) {i : Nat}
    (hi : i < mem.blocks.size) : mem'.isLive i = mem.isLive i := by
  rw [← getElem?_lives, ← getElem?_lives, h, List.getElem?_append_left (by simpa using hi)]

theorem lives_release (addr : UInt64) :
    (mem.release addr).lives = mem.lives.set (blockIndex addr) false := by
  simp only [lives, release, Array.toList_setIfInBounds, List.map_set]
  rfl

/-- Writing bytes takes no allocation away. -/
theorem lives_modify (i : Nat) (f : Allocation → Allocation) :
    ({ mem with blocks := mem.blocks.modify i (Option.map f) } : Memory).lives = mem.lives := by
  refine List.ext_getElem? fun j => ?_
  simp only [lives, List.getElem?_map, Array.getElem?_toList, Array.getElem?_modify]
  split
  · cases mem.blocks[j]? <;> simp
  · rfl

end Memory

/-- An operation on memory that leaves allocations alone, also where it fails. -/
def Mem.Still {α : Type} (op : Mem α) : Prop := ∀ mem,
  match op mem with
  | .ok _ mem' => mem'.lives = mem.lives
  | .error _ mem' => mem'.lives = mem.lives

theorem fill_still (addr : UInt64) (n : Nat) (g : Nat → UInt8) : (Mem.fill addr n g).Still := by
  intro mem
  unfold Mem.fill
  cases mem.locate addr n with
  | error e => rfl
  | ok a => exact mem.lives_modify _ _

theorem writeWord_still (addr : UInt64) (size : Nat) (w : UInt64) : (Mem.writeWord addr size w).Still := by
  unfold Mem.writeWord
  split
  · exact fun _ => rfl
  · exact fill_still addr size _

theorem copy_still (dst src : UInt64) (len : Nat) : (Mem.copy dst src len).Still := by
  intro mem
  unfold Mem.copy
  by_cases hz : len = 0
  · simp [hz]
  · simp only [hz, if_false]
    cases mem.locate src len with
    | error e => rfl
    | ok a => exact fill_still dst len _ mem

theorem storeWord_still (m : Module) (t : Ir.Ty) (addr : UInt64) (v : Val) (w : UInt64) :
    (Mem.storeWord m t addr v w).Still := by
  intro mem
  unfold Mem.storeWord
  cases sizeTypes m [t] with
  | error e => rfl
  | ok _ =>
    by_cases hpos : 0 < m.sizeOf t
    · simp only [hpos, if_true]
      exact writeWord_still _ _ _ mem
    · simp only [hpos, if_false]
      rfl

theorem store_still (m : Module) (t : Ir.Ty) (addr : UInt64) (v : Val) : (Mem.store m t addr v).Still := by
  unfold Mem.store
  split
  · exact writeWord_still _ _ _
  · exact writeWord_still _ _ _
  · exact storeWord_still m _ addr _ _
  · exact storeWord_still m _ addr _ _
  · exact fun _ => rfl

/-! ### Gains -/

/-- How many constant texts are in memory. -/
def Store.texts (st : Store) : Nat := st.globals.countP (·.isSome)

/-- The store belongs to a module: it has a place for each constant text, and number zero is taken. -/
structure Store.Fits (m : Module) (st : Store) : Prop where
  globals : st.globals.size = m.globals.size
  pos : 0 < st.memory.blocks.size

/-- The constant texts that a function mentions are texts of the module. -/
def TextsIn (m : Module) (f : Function) : Prop :=
  ∀ id v g, f.value? id = some v → v.kind = .global g → g.index < m.globals.size

/-- The second store has `n` allocations more than the first, beside those of constant texts. -/
structure Gain (n : Nat) (st st' : Store) : Prop where
  texts : ∀ {k : Nat} {addr : UInt64}, st.globals[k]? = some (some addr) →
    st'.globals[k]? = some (some addr)
  lives : ∃ j, st'.texts = st.texts + j ∧
    st'.memory.lives = st.memory.lives ++ List.replicate (j + n) true

/-- From the first store to the second nothing is taken away. Where `C` holds and numbers are not used up,
there are `n` allocations more, beside those of constant texts. -/
structure Gains (m : Module) (C : Prop) (n : Nat) (st st' : Store) : Prop where
  globals : st'.globals.size = st.globals.size
  size : st.memory.blocks.size ≤ st'.memory.blocks.size
  gain : C → st.Fits m → st'.memory.blocks.size ≤ maxBlocks → Gain n st st'

section

variable {m : Module} {C : Prop} {n k : Nat} {st st' st'' : Store}

theorem Gain.refl (st : Store) : Gain 0 st st := ⟨id, 0, rfl, by simp⟩

theorem Gain.trans (h : Gain n st st') (h' : Gain k st' st'') : Gain (n + k) st st'' := by
  obtain ⟨j, hj, hl⟩ := h.lives
  obtain ⟨j', hj', hl'⟩ := h'.lives
  refine ⟨fun ha => h'.texts (h.texts ha), j + j', by omega, ?_⟩
  rw [hl', hl, List.append_assoc, List.replicate_append_replicate]
  congr 2
  omega

theorem Store.Fits.of_gains (h : st.Fits m) (hg : Gains m C n st st') : st'.Fits m :=
  ⟨hg.globals.trans h.globals, Nat.lt_of_lt_of_le h.pos hg.size⟩

theorem Gains.refl (st : Store) : Gains m C 0 st st := ⟨rfl, Nat.le_refl _, fun _ _ _ => .refl st⟩

theorem Gains.trans (h : Gains m C n st st') (h' : Gains m C k st' st'') : Gains m C (n + k) st st'' where
  globals := h'.globals.trans h.globals
  size := Nat.le_trans h.size h'.size
  gain hC hf hs := (h.gain hC hf (Nat.le_trans h'.size hs)).trans (h'.gain hC (hf.of_gains h) hs)

theorem Gains.mono {D : Prop} (h : Gains m C n st st') (hd : D → C) : Gains m D n st st' :=
  { h with gain := fun hD => h.gain (hd hD) }

/-- Changing bytes gains nothing. -/
theorem Gains.of_lives {mem : Memory} (h : mem.lives = st.memory.lives) :
    Gains m C 0 st { st with memory := mem } where
  globals := rfl
  size := by rw [← st.memory.length_lives, ← h, mem.length_lives]
  gain _ _ _ := ⟨id, 0, rfl, by simp [h]⟩

/-- An allocation is a gain. -/
theorem Gains.push (a : Allocation) :
    Gains m C 1 st { st with memory := { blocks := st.memory.blocks.push (some a) } } where
  globals := rfl
  size := by simp
  gain _ _ _ := ⟨id, 0, rfl, by simp [Memory.lives]⟩

end

/-! ### Operations without gain -/

/-- The frames stay as they are, and nothing is gained. -/
structure Quietly (m : Module) (M M' : State) : Prop where
  frame : M'.frame = M.frame
  callers : M'.callers = M.callers
  gains : Gains m (TextsIn m M.frame.func) 0 M.store M'.store

/-- An operation gains nothing, whether it ends in a result of `P` or in a fault; it does not ask for
fuel. -/
def Exec.QuietAt (m : Module) {α : Type} (P : α → Prop) (x : Exec α) (M : State) : Prop :=
  match x M with
  | .ok a M' => P a ∧ Quietly m M M'
  | .error e M' => e ≠ .outOfFuel ∧ Quietly m M M'

def Exec.Quiet (m : Module) {α : Type} (P : α → Prop) (x : Exec α) : Prop := ∀ M, x.QuietAt m P M

theorem Quietly.refl (m : Module) (M : State) : Quietly m M M := ⟨rfl, rfl, .refl _⟩

theorem Quietly.trans {m : Module} {M M' M'' : State} (h : Quietly m M M') (h' : Quietly m M' M'') :
    Quietly m M M'' :=
  ⟨h'.frame.trans h.frame, h'.callers.trans h.callers, h.gains.trans (h.frame ▸ h'.gains)⟩

theorem ne_outOfFuel_of_isHost {e : Fault} (h : e.isHost = true) : e ≠ .outOfFuel := by
  rintro rfl
  cases h

theorem ne_outOfFuel_of_isLocal {e : Fault} (h : e.isLocal = true) : e ≠ .outOfFuel :=
  ne_outOfFuel_of_isHost (isHost_of_isLocal h)

theorem ne_outOfFuel_of_ofSizes {m : Module} {e : Fault} (h : e.OfSizes m) : e ≠ .outOfFuel := by
  rcases h with h | ⟨t, -, rfl⟩
  · exact ne_outOfFuel_of_isLocal h
  · rintro ⟨⟩

namespace Exec

section

variable {m : Module} {α β : Type} {P : α → Prop} {Q : β → Prop}

theorem QuietAt.bind {x : Exec α} {f : α → Exec β} {M : State} (h : x.QuietAt m P M)
    (k : ∀ a, P a → (f a).Quiet m Q) : Exec.QuietAt m Q (x >>= f) M := by
  unfold QuietAt at h ⊢
  cases hx : x M with
  | error e M' =>
    rw [hx] at h
    rw [bind_error hx]
    exact h
  | ok a M' =>
    rw [hx] at h
    rw [bind_ok hx]
    have hk := k a h.1 M'
    unfold QuietAt at hk
    cases hf : f a M' with
    | ok b M'' =>
      rw [hf] at hk
      exact ⟨hk.1, h.2.trans hk.2⟩
    | error e M'' =>
      rw [hf] at hk
      exact ⟨hk.1, h.2.trans hk.2⟩

theorem Quiet.bind {x : Exec α} {f : α → Exec β} (h : x.Quiet m P) (k : ∀ a, P a → (f a).Quiet m Q) :
    Exec.Quiet m Q (x >>= f) := fun M => (h M).bind k

theorem Quiet.pure {a : α} (h : P a) : Exec.Quiet m P (Pure.pure a) := fun M => ⟨h, .refl m M⟩

theorem Quiet.throw {e : Fault} (h : e ≠ .outOfFuel) : Exec.Quiet m P (throw e : Exec α) :=
  fun M => ⟨h, .refl m M⟩

theorem Quiet.of_fails {r : Except Fault α} (h : Fails (· ≠ .outOfFuel) r) :
    Exec.Quiet m (fun _ => True) (Machine.checked r) := by
  intro M
  cases r with
  | ok a => exact ⟨trivial, .refl m M⟩
  | error e => exact ⟨h rfl, .refl m M⟩

theorem Quiet.checked {r : Except Fault α} (h : Ordinary r) :
    Exec.Quiet m (fun _ => True) (Machine.checked r) := .of_fails (h.imp fun _ => ne_outOfFuel_of_isLocal)

theorem QuietAt.get_bind {g : State → Exec β} {M : State} (h : (g M).QuietAt m Q M) :
    Exec.QuietAt m Q (get >>= g) M := h

theorem QuietAt.frame_bind {g : Frame → Exec β} {M : State} (h : (g M.frame).QuietAt m Q M) :
    Exec.QuietAt m Q (frame >>= g) M := h

theorem Quiet.get_bind {g : State → Exec β} (h : ∀ M, (g M).Quiet m Q) : Exec.Quiet m Q (get >>= g) :=
  fun M => h M M

theorem Quiet.frame_bind {g : Frame → Exec β} (h : ∀ F, (g F).Quiet m Q) : Exec.Quiet m Q (frame >>= g) :=
  fun M => h M.frame M

theorem typeOf_quiet (id : ValueId) : (typeOf id).Quiet m fun _ => True := fun M => ⟨trivial, .refl m M⟩

theorem memory_quiet : memory.Quiet m fun _ => True := fun M => ⟨trivial, .refl m M⟩

theorem onMemory_quiet {op : Mem α} (hs : op.Still) (hf : op.Tame (· ≠ .outOfFuel)) :
    (onMemory op).Quiet m fun _ => True := by
  intro M
  have hs := hs M.store.memory
  have hf := hf M.store.memory
  unfold Safe at hf
  unfold QuietAt
  cases ho : op M.store.memory with
  | ok a mem =>
    rw [ho] at hs
    rw [onMemory_ok ho]
    exact ⟨trivial, rfl, rfl, .of_lives hs⟩
  | error e mem =>
    rw [ho] at hs hf
    rw [onMemory_error ho]
    exact ⟨hf, rfl, rfl, .of_lives hs⟩

end

end Exec

/-! ### Constant texts -/

section

variable {m : Module} {M : State}

/-- Asking for memory fails without a trace, or adds one allocation. -/
theorem allocate_cases (size : Nat) (mem : Memory) :
    Mem.allocate size mem = .error (.allocationTooLarge size) mem ∨
    Mem.allocate size mem = .ok (blockAddress mem.blocks.size) { blocks := mem.blocks.push (some { size }) } := by
  unfold Mem.allocate
  split
  · exact .inl rfl
  · exact .inr rfl

/-- A new allocation can be written to. -/
theorem locate_new {mem : Memory} (size : Nat) (hpos : 0 < mem.blocks.size) (hlt : mem.blocks.size < maxBlocks) :
    ({ blocks := mem.blocks.push (some { size }) } : Memory).locate (blockAddress mem.blocks.size) size =
      .ok { size } := by
  have hi : blockIndex (blockAddress mem.blocks.size) = mem.blocks.size := blockIndex_blockAddress hlt
  have ho : blockOffset (blockAddress mem.blocks.size) = 0 := by
    rw [← addressOf_zero, blockOffset_addressOf hlt (by decide)]
  simp [Memory.locate, hi, ho, Nat.ne_of_gt hpos]

theorem texts_setIfInBounds {globals : Array (Option UInt64)} {k : Nat} (addr : UInt64)
    (hk : k < globals.size) (hnone : ∀ a, globals[k]? ≠ some (some a)) :
    (globals.setIfInBounds k (some addr)).countP (·.isSome) = globals.countP (·.isSome) + 1 := by
  have hnone' : globals[k] = none := by
    cases hg : globals[k] with
    | none => rfl
    | some a => exact absurd (by rw [Array.getElem?_eq_getElem hk, hg]) (hnone a)
  rw [Array.setIfInBounds, dif_pos hk, Array.countP_set]
  simp [hnone']

theorem globalAddress_quiet {id : GlobalId} (hid : TextsIn m M.frame.func → id.index < m.globals.size) :
    (Exec.globalAddress m id).QuietAt m (fun _ => True) M := by
  refine .get_bind ?_
  split
  · exact ⟨trivial, .refl m M⟩
  · rename_i hnone
    have hnone' : ∀ a, M.store.globals[id.index]? ≠ some (some a) := hnone
    generalize (m.globals[id.index]?.getD default).bytes = bytes
    unfold Exec.QuietAt
    dsimp only
    rcases allocate_cases bytes.size M.store.memory with ha | ha
    · rw [bind_error (onMemory_error ha)]
      exact ⟨by rintro ⟨⟩, rfl, rfl, .of_lives rfl⟩
    · rw [bind_ok (onMemory_ok ha)]
      let mem₁ : Memory := { blocks := M.store.memory.blocks.push (some { size := bytes.size }) }
      have hstill : (Mem.write (blockAddress M.store.memory.blocks.size) bytes).Still := fill_still _ _ _
      have hstill := hstill mem₁
      have hlives₁ : mem₁.lives = M.store.memory.lives ++ [true] := by simp [mem₁, Memory.lives]
      cases hw : Mem.write (blockAddress M.store.memory.blocks.size) bytes mem₁ with
      | error e mem₂ =>
        rw [hw] at hstill
        rw [bind_error (onMemory_error (M := M.withMemory mem₁) hw)]
        have hlives : mem₂.lives = M.store.memory.lives ++ [true] := hstill.trans hlives₁
        have hsize : mem₂.blocks.size = M.store.memory.blocks.size + 1 := by
          rw [← mem₂.length_lives, hlives]
          simp
        refine ⟨?_, rfl, rfl, rfl, ?_, fun _ hf hsmall => ?_⟩
        · exact ne_outOfFuel_of_isLocal ((fill_tame _ _ _ mem₁).fault hw)
        · show M.store.memory.blocks.size ≤ mem₂.blocks.size
          omega
        · have hlt : M.store.memory.blocks.size < maxBlocks := by
            have : mem₂.blocks.size ≤ maxBlocks := hsmall
            omega
          have hlocate := locate_new bytes.size hf.pos hlt
          simp [Mem.write, Mem.fill, mem₁, hlocate] at hw
      | ok _ mem₂ =>
        rw [hw] at hstill
        rw [bind_ok (onMemory_ok (M := M.withMemory mem₁) hw)]
        have hlives : mem₂.lives = M.store.memory.lives ++ [true] := hstill.trans hlives₁
        refine ⟨trivial, rfl, rfl, Array.size_setIfInBounds, ?_, fun hC hf _ => ⟨fun {k a} hk => ?_, 1, ?_, hlives⟩⟩
        · show M.store.memory.blocks.size ≤ mem₂.blocks.size
          rw [← mem₂.length_lives, hlives]
          simp
        · have hne : id.index ≠ k := by
            rintro rfl
            exact hnone' a hk
          show (M.store.globals.setIfInBounds id.index (some _))[k]? = some (some a)
          rw [Array.getElem?_setIfInBounds_ne hne]
          exact hk
        · exact texts_setIfInBounds _ (hf.globals ▸ hid hC : id.index < M.store.globals.size) hnone'

end

/-! ### Instructions -/

/-- Whether an instruction asks the host for memory. -/
def asksHeap (m : Module) : InstKind → Bool
  | .call (.host id) _ _ =>
    let name := ((m.host? id).getD default).name
    name == hostMalloc || name == hostMallocAtomic
  | _ => false

namespace Exec

variable (m : Module)

theorem operand_quiet (id : ValueId) : (operand m id).Quiet m fun _ => True := by
  intro M
  refine .frame_bind ?_
  have pure : ∀ v : Val, QuietAt m (fun _ => True) (pure v : Exec Val) M := fun v => ⟨trivial, .refl m M⟩
  have throw : ∀ e : Fault, e ≠ .outOfFuel → QuietAt m (fun _ => True) (throw e : Exec Val) M :=
    fun e he => ⟨he, .refl m M⟩
  split
  · exact throw _ (by rintro ⟨⟩)
  · rename_i v hv
    split
    · split
      · exact pure _
      · exact throw _ (by rintro ⟨⟩)
    · exact pure _
    · exact pure _
    · exact pure _
    · rename_i g hg
      exact (globalAddress_quiet fun h => h _ _ _ hv hg).bind fun _ _ => .pure trivial
    · split
      · exact pure _
      · exact throw _ (by rintro ⟨⟩)

theorem operandInt_quiet (id : ValueId) : (operandInt m id).Quiet m fun _ => True :=
  (operand_quiet m id).bind fun v _ => .checked (asInt_ordinary v)

theorem operandFloat_quiet (id : ValueId) : (operandFloat m id).Quiet m fun _ => True :=
  (operand_quiet m id).bind fun v _ => .checked (asFloat_ordinary v)

theorem operandPtr_quiet (id : ValueId) : (operandPtr m id).Quiet m fun _ => True :=
  (operand_quiet m id).bind fun v _ => .checked (asPtr_ordinary v)

theorem operandBool_quiet (id : ValueId) : (operandBool m id).Quiet m fun _ => True :=
  (operand_quiet m id).bind fun v _ => .checked (asBool_ordinary v)

theorem operands_quiet (ids : List ValueId) : (operands m ids).Quiet m fun _ => True := by
  induction ids with
  | nil => exact .pure trivial
  | cons id rest ih => exact (operand_quiet m id).bind fun _ _ => ih.bind fun _ _ => .pure trivial

theorem binary_quiet (op : Ir.BinOp) (l r : ValueId) : (binary m op l r).Quiet m fun _ => True := by
  refine (typeOf_quiet l).bind fun t _ => (operand_quiet m l).bind fun a _ =>
    (operand_quiet m r).bind fun b _ => ?_
  split
  · exact (Quiet.checked (asFloat_ordinary a)).bind fun _ _ =>
      (Quiet.checked (asFloat_ordinary b)).bind fun _ _ => .pure trivial
  · refine (Quiet.checked (opBits_ordinary t)).bind fun bits _ =>
      (Quiet.checked (asInt_ordinary a)).bind fun _ _ =>
      (Quiet.checked (asInt_ordinary b)).bind fun _ _ => ?_
    split
    · exact .pure trivial
    · exact .frame_bind fun _ => .throw (by rintro ⟨⟩)

theorem compare_quiet (p : Ir.IntPred) (l r : ValueId) : (compare m p l r).Quiet m fun _ => True := by
  refine (typeOf_quiet l).bind fun t _ => (operand_quiet m l).bind fun a _ =>
    (operand_quiet m r).bind fun b _ => ?_
  split
  · exact .pure trivial
  · exact (Quiet.checked (asInt_ordinary _)).bind fun _ _ =>
      (Quiet.checked (asInt_ordinary _)).bind fun _ _ =>
      (Quiet.checked (opBits_ordinary t)).bind fun _ _ => .pure trivial

/-- What an instruction gives that makes no slot. -/
def NoSlot : Effect → Prop
  | .slot _ => False
  | _ => True

/-- Host functions other than the allocators only fail. -/
theorem callHost_fails {name : String} (h : (name == hostMalloc || name == hostMallocAtomic) = false)
    (args : List Val) (mem : Memory) : ∃ e, callHost name args mem = .error e mem ∧ e.isHost = true := by
  have hname : ¬(name = hostMalloc ∨ name = hostMallocAtomic) := by simpa using h
  have hend : ∀ {x : Mem (Option Val)}, Safe (·.isHost = true) x mem (fun _ _ => False) →
      (∀ e mem', x mem = .error e mem' → mem' = mem) → ∃ e, x mem = .error e mem ∧ e.isHost = true := by
    intro x hx hm
    unfold Safe at hx
    cases ho : x mem with
    | ok a mem' =>
      rw [ho] at hx
      exact hx.elim
    | error e mem' =>
      rw [ho] at hx
      exact ⟨e, by rw [hm e mem' ho], hx⟩
  have hint := hostInt_fails name args
  unfold callHost
  rw [if_neg hname]
  split
  · refine hend ((hint 0).checked.bind fun _ _ _ => (hint 1).checked.bind fun _ _ _ => .throw rfl) ?_
    intro e mem' he
    cases h₀ : hostInt name args 0 with
    | error e => rw [h₀] at he; cases he; rfl
    | ok a =>
      cases h₁ : hostInt name args 1 with
      | error e => rw [h₀, h₁] at he; cases he; rfl
      | ok b => rw [h₀, h₁] at he; cases he; rfl
  · exact ⟨_, rfl, rfl⟩

/-- An instruction that neither makes a slot nor asks for memory gains nothing. -/
theorem perform_quiet {kind : InstKind} (ha : kind.isAlloca = false) (hh : asksHeap m kind = false) :
    (perform m kind).Quiet m NoSlot := by
  cases kind with
  | alloca t => cases ha
  | load t p =>
    exact (operandPtr_quiet m p).bind fun addr _ => memory_quiet.bind fun mem _ =>
      (Quiet.checked (load_ordinary m mem t addr)).bind fun _ _ => .pure trivial
  | store v p =>
    exact (typeOf_quiet v).bind fun t _ => (operand_quiet m v).bind fun x _ =>
      (operandPtr_quiet m p).bind fun addr _ =>
      (onMemory_quiet (store_still m t addr x)
        ((store_tame m t addr x).mono fun _ => ne_outOfFuel_of_ofSizes)).bind fun _ _ => .pure trivial
  | binary op a b => exact (binary_quiet m op a b).bind fun _ _ => .pure trivial
  | fneg v => exact (operandFloat_quiet m v).bind fun _ _ => .pure trivial
  | icmp p a b => exact (compare_quiet m p a b).bind fun _ _ => .pure trivial
  | fcmp p a b =>
    exact (operandFloat_quiet m a).bind fun _ _ => (operandFloat_quiet m b).bind fun _ _ => .pure trivial
  | cast op v target =>
    exact (typeOf_quiet v).bind fun source _ => (operand_quiet m v).bind fun x _ =>
      (Quiet.checked (convert_ordinary op source target x)).bind fun _ _ => .pure trivial
  | select c a b =>
    refine (operandBool_quiet m c).bind fun taken _ => ?_
    split
    · exact (operand_quiet m a).bind fun _ _ => .pure trivial
    · exact (operand_quiet m b).bind fun _ _ => .pure trivial
  | phi t incoming => exact .frame_bind fun _ => .throw (by rintro ⟨⟩)
  | call callee args ret =>
    cases callee with
    | func id => exact (operands_quiet m args).bind fun _ _ => .pure trivial
    | host id =>
      refine (operands_quiet m args).bind fun xs _ => Quiet.bind (P := fun _ => True) ?_ fun _ _ => .pure trivial
      intro M
      obtain ⟨e, he, hhost⟩ := callHost_fails hh xs M.store.memory
      unfold QuietAt
      rw [onMemory_error he]
      exact ⟨ne_outOfFuel_of_isHost hhost, rfl, rfl, .of_lives rfl⟩
  | ptrAdd p o =>
    exact (operandPtr_quiet m p).bind fun _ _ => (operandInt_quiet m o).bind fun _ _ => .pure trivial
  | fieldPtr s p field =>
    refine (operandPtr_quiet m p).bind fun addr _ => ?_
    split
    · exact .throw (by rintro ⟨⟩)
    · exact (Quiet.of_fails ((sizeTypes_fails m _).imp fun _ => ne_outOfFuel_of_ofSizes)).bind
        fun _ _ => .pure trivial
  | memCopy d s l | memMove d s l =>
    exact (operandPtr_quiet m d).bind fun dst _ => (operandPtr_quiet m s).bind fun src _ =>
      (operandInt_quiet m l).bind fun len _ =>
      (onMemory_quiet (copy_still dst src _)
        ((copy_tame dst src _).mono fun _ => ne_outOfFuel_of_isLocal)).bind fun _ _ => .pure trivial

theorem phiValues_quiet (block : Ir.BlockId) (source : Option Ir.BlockId) (insts : List Inst) :
    (phiValues m block source insts).Quiet m fun _ => True := by
  induction insts with
  | nil => exact .pure trivial
  | cons inst rest ih =>
    obtain ⟨result, kind⟩ := inst
    cases kind with
    | phi t incoming =>
      unfold phiValues
      split
      · exact .throw (by rintro ⟨⟩)
      · split
        · exact .throw (by rintro ⟨⟩)
        · exact (operand_quiet m _).bind fun _ _ => ih.bind fun _ _ => .pure trivial
    | _ => exact .pure trivial

/-- Making a slot fails without a trace, or adds one allocation. -/
theorem perform_alloca_cases (t : Ir.Ty) (M : State) :
    (∃ e, e ≠ .outOfFuel ∧ perform m (.alloca t) M = .error e M) ∨
    ∃ a : Allocation, perform m (.alloca t) M = .ok (.slot (blockAddress M.store.memory.blocks.size))
      (M.withMemory { blocks := M.store.memory.blocks.push (some a) }) := by
  have hperform : perform m (.alloca t) M = (checked (sizeTypes m [t]) >>= fun _ =>
    onMemory (Mem.allocate (m.sizeOf t)) >>= fun addr => pure (.slot addr)) M := rfl
  rcases sizeTypes_cases m [t] with hsize | ⟨u, -, hsize⟩
  · rw [hperform, hsize, bind_ok (show checked (.ok ()) M = .ok () M from rfl)]
    rcases allocate_cases (m.sizeOf t) M.store.memory with h | h
    · exact .inl ⟨.allocationTooLarge (m.sizeOf t), by rintro ⟨⟩, bind_error (onMemory_error h)⟩
    · exact .inr ⟨_, bind_ok (onMemory_ok h)⟩
  · rw [hperform, hsize]
    exact .inl ⟨.malformed (.endlessLayout u), by rintro ⟨⟩, rfl⟩

/-- Asking the host for memory gains nothing where it fails, and one allocation where it succeeds. -/
theorem perform_heap_cases {kind : InstKind} (hh : asksHeap m kind = true) (M : State) :
    match perform m kind M with
    | .ok effect M' => (∃ x, effect = .done x) ∧ M'.frame = M.frame ∧ M'.callers = M.callers ∧
        Gains m (TextsIn m M.frame.func) 1 M.store M'.store
    | .error e M' => e ≠ .outOfFuel ∧ Quietly m M M' := by
  obtain ⟨id, args, ret, rfl⟩ : ∃ id args ret, kind = .call (.host id) args ret := by
    cases kind with
    | call callee args ret =>
      cases callee with
      | func id => cases hh
      | host id => exact ⟨id, args, ret, rfl⟩
    | _ => cases hh
  rw [show perform m (.call (.host id) args ret) M = (operands m args >>= fun xs =>
    onMemory (callHost ((m.host? id).getD default).name xs) >>= fun v => pure (.done v)) M from rfl]
  have hargs := operands_quiet m args M
  unfold QuietAt at hargs
  cases ho : operands m args M with
  | error e M₁ =>
    rw [ho] at hargs
    rw [bind_error ho]
    exact hargs
  | ok xs M₁ =>
    rw [ho] at hargs
    rw [bind_ok ho]
    set name := ((m.host? id).getD default).name with hname
    have halloc : name = hostMalloc ∨ name = hostMallocAtomic := by simpa [asksHeap] using hh
    cases hsize : hostInt name xs 0 with
    | error e =>
      have hcall : callHost name xs M₁.store.memory = .error e M₁.store.memory := by
        unfold callHost
        rw [if_pos halloc, hsize]
        rfl
      rw [bind_error (onMemory_error hcall)]
      exact ⟨ne_outOfFuel_of_isHost (hostInt_fails name xs 0 hsize), hargs.2⟩
    | ok size =>
      have hcall : callHost name xs M₁.store.memory =
          (Mem.allocate size.toNat >>= fun addr => pure (some (.ptr addr))) M₁.store.memory := by
        unfold callHost
        rw [if_pos halloc, hsize]
        rfl
      rcases allocate_cases size.toNat M₁.store.memory with h | h
      · rw [bind_error (onMemory_error (hcall.trans (bind_error h)))]
        exact ⟨by rintro ⟨⟩, hargs.2⟩
      · rw [bind_ok (onMemory_ok (hcall.trans (bind_ok h)))]
        exact ⟨⟨_, rfl⟩, hargs.2.frame, hargs.2.callers, hargs.2.gains.trans (.push _)⟩

end Exec

/-! ### Steps -/

/-- The frames differ in their results and their position only. -/
structure Frame.Same (F F' : Frame) : Prop where
  func : F'.func = F.func
  slots : F'.slots = F.slots
  depth : F'.depth = F.depth

theorem Frame.Same.refl (F : Frame) : F.Same F := ⟨rfl, rfl, rfl⟩

namespace State

/-- The instruction that comes next. -/
def inst? (M : State) : Option Inst := M.frame.code.insts[M.frame.next]?

/-- About to make a stack slot. -/
def makesSlot (M : State) : Bool := M.inst?.any (·.kind.isAlloca)

/-- About to ask the host for memory. -/
def asksHeap (m : Module) (M : State) : Bool := M.inst?.any (Machine.asksHeap m ·.kind)

end State

/-- What a step does to frames and allocations: it works in the frame in control, makes a slot, calls a
function, or returns to the caller. -/
inductive Move (m : Module) (limit : Nat) (M M' : State) : Prop
  | work (same : M.frame.Same M'.frame) (callers : M'.callers = M.callers) (noSlot : M.makesSlot = false)
      (gains : Gains m (TextsIn m M.frame.func) (if M.asksHeap m then 1 else 0) M.store M'.store)
  | slot (func : M'.frame.func = M.frame.func) (depth : M'.frame.depth = M.frame.depth)
      (slots : M'.frame.slots = blockAddress M.store.memory.blocks.size :: M.frame.slots)
      (callers : M'.callers = M.callers) (noHeap : M.asksHeap m = false)
      (size : M'.store.memory.blocks.size = M.store.memory.blocks.size + 1)
      (gains : Gains m (TextsIn m M.frame.func) 1 M.store M'.store)
  | call (callers : M'.callers = M.frame :: M.callers) (slots : M'.frame.slots = [])
      (depth : M'.frame.depth = M.frame.depth + 1) (lt : M.frame.depth < limit)
      (func : ∃ id, m.function? id = some M'.frame.func)
      (noSlot : M.makesSlot = false) (noHeap : M.asksHeap m = false)
      (gains : Gains m (TextsIn m M.frame.func ∧ TextsIn m M'.frame.func) 0 M.store M'.store)
  | ret (caller : Frame) (st : Store) (callers : M.callers = caller :: M'.callers)
      (same : caller.Same M'.frame) (noSlot : M.makesSlot = false) (noHeap : M.asksHeap m = false)
      (gains : Gains m (TextsIn m M.frame.func) 0 M.store st)
      (store : M'.store = { st with memory := st.memory.releaseAll M.frame.slots })

/-- How the last step of a run ends it. -/
structure Finish (m : Module) (M M' : State) (st : Store) : Prop where
  callers : M.callers = []
  noSlot : M.makesSlot = false
  noHeap : M.asksHeap m = false
  gains : Gains m (TextsIn m M.frame.func) 0 M.store st
  store : M'.store = { st with memory := st.memory.releaseAll M.frame.slots }

/-- Where a step that fails leaves the frames: perhaps behind a call. -/
inductive Crash (m : Module) (M M' : State) : Prop
  | here (same : M.frame.Same M'.frame) (callers : M'.callers = M.callers)
      (gains : Gains m (TextsIn m M.frame.func) 0 M.store M'.store)
  | called (callers : M'.callers = M.frame :: M.callers) (slots : M'.frame.slots = [])
      (func : ∃ id, m.function? id = some M'.frame.func)
      (gains : Gains m (TextsIn m M.frame.func ∧ TextsIn m M'.frame.func) 0 M.store M'.store)

/-- Where a step leads. -/
inductive Leads (m : Module) (limit : Nat) (M : State) :
    EStateM.Result Fault State (Option (Option Val)) → Prop
  | on {M' : State} (move : Move m limit M M') : Leads m limit M (.ok none M')
  | done {v : Option Val} {M' : State} {st : Store} (finish : Finish m M M' st) : Leads m limit M (.ok (some v) M')
  | fails {e : Fault} {M' : State} (ne : e ≠ .outOfFuel) (crash : Crash m M M') : Leads m limit M (.error e M')

section

variable {m : Module} {limit : Nat} {M : State}

theorem setRegs_same (values : List (Option ValueId × Val)) (M : State) :
    ∃ M', Exec.setRegs values M = .ok () M' ∧ M.frame.Same M'.frame ∧ M'.callers = M.callers ∧
      M'.store = M.store := by
  induction values generalizing M with
  | nil => exact ⟨M, rfl, .refl _, rfl, rfl⟩
  | cons value rest ih =>
    obtain ⟨r, v⟩ := value
    cases r with
    | none => exact ih M
    | some r =>
      obtain ⟨M', h, hs, hc, hst⟩ := ih { M with frame := { M.frame with
        regs := M.frame.regs.setIfInBounds r.index (some v) } }
      exact ⟨M', h, ⟨hs.func, hs.slots, hs.depth⟩, hc, hst⟩

/-- Entering a block gains nothing, and stays in the frame. -/
theorem enterBlock_calm (block : Ir.BlockId) (source : Option Ir.BlockId) (M : State) :
    match Exec.enterBlock m block source M with
    | .ok _ M' => M.frame.Same M'.frame ∧ M'.callers = M.callers ∧
        Gains m (TextsIn m M.frame.func) 0 M.store M'.store
    | .error e M' => e ≠ .outOfFuel ∧ Quietly m M M' := by
  have hframe : Exec.frame M = .ok M.frame M := rfl
  unfold Exec.enterBlock
  rw [bind_ok hframe]
  cases M.frame.func.block? block with
  | none => exact ⟨by rintro ⟨⟩, .refl m M⟩
  | some code =>
    dsimp only
    have hphi := Exec.phiValues_quiet m block source code.insts.toList M
    unfold Exec.QuietAt at hphi
    cases hv : Exec.phiValues m block source code.insts.toList M with
    | error e M₁ =>
      rw [hv] at hphi
      rw [bind_error hv]
      exact hphi
    | ok values M₁ =>
      rw [hv] at hphi
      rw [bind_ok hv]
      obtain ⟨M₂, hr, hs, hc, hst⟩ := setRegs_same values M₁
      rw [bind_ok hr]
      obtain ⟨-, hq⟩ := hphi
      rw [hq.frame] at hs
      exact ⟨⟨hs.func, hs.slots, hs.depth⟩, hc.trans hq.callers, hst ▸ hq.gains⟩

theorem finish_same (M : State) (r : Option ValueId) (x : Option Val) :
    M.frame.Same (M.finish r x).frame ∧ (M.finish r x).callers = M.callers ∧
      (M.finish r x).store = M.store := by
  cases r with
  | none => exact ⟨⟨rfl, rfl, rfl⟩, rfl, rfl⟩
  | some v => cases x <;> exact ⟨⟨rfl, rfl, rfl⟩, rfl, rfl⟩

/-- A frame for a call starts one level deeper, without slots. -/
theorem ofCall_ok {id : Ir.FuncId} {args : List Val} {depth : Nat} {F : Frame}
    (h : Frame.ofCall m limit id args depth = .ok F) :
    m.function? id = some F.func ∧ F.slots = [] ∧ F.depth = depth + 1 ∧ depth < limit := by
  unfold Frame.ofCall at h
  dsimp only at h
  split at h
  · cases h
  · rename_i hbody
    split at h
    · cases h
    · split at h
      · cases h
      · rename_i hdepth
        cases h
        refine ⟨?_, rfl, rfl, Nat.lt_of_not_le hdepth⟩
        cases hf : m.function? id with
        | none =>
          rw [hf] at hbody
          exact absurd rfl hbody
        | some f => rfl

theorem ofCall_ne_outOfFuel {id : Ir.FuncId} {args : List Val} {depth : Nat} {e : Fault}
    (h : Frame.ofCall m limit id args depth = .error e) : e ≠ .outOfFuel := by
  unfold Frame.ofCall at h
  dsimp only at h
  rintro rfl
  split at h
  · cases h
  · split at h
    · cases h
    · split at h <;> cases h

theorem Gains.countCall {C : Prop} (st : Store) (id : Ir.FuncId) : Gains m C 0 st (st.countCall id) :=
  ⟨rfl, Nat.le_refl _, fun _ _ _ => ⟨fun h => h, 0, rfl, by simp [Store.countCall]⟩⟩

/-- A call whose operands have been read pushes a frame, or fails. -/
theorem pushCall_moves (id : Ir.FuncId) (args : List Val) (M : State) :
    match Exec.pushCall m limit id args M with
    | .ok _ M' => M'.callers = M.frame :: M.callers ∧ M'.frame.slots = [] ∧
        M'.frame.depth = M.frame.depth + 1 ∧ M.frame.depth < limit ∧
        (∃ id, m.function? id = some M'.frame.func) ∧ Gains m (TextsIn m M'.frame.func) 0 M.store M'.store
    | .error e M' => e ≠ .outOfFuel ∧ (M' = M ∨ M'.callers = M.frame :: M.callers ∧ M'.frame.slots = [] ∧
        (∃ id, m.function? id = some M'.frame.func) ∧ Gains m (TextsIn m M'.frame.func) 0 M.store M'.store) := by
  cases hF : Frame.ofCall m limit id args M.frame.depth with
  | error e =>
    rw [pushCall_error m hF]
    exact ⟨ofCall_ne_outOfFuel hF, .inl rfl⟩
  | ok F =>
    rw [pushCall_ok m hF]
    obtain ⟨hfunc, hslots, hdepth, hlt⟩ := ofCall_ok hF
    have henter := enterBlock_calm (m := m) Ir.Id.entry none ⟨M.store.countCall id, F, M.frame :: M.callers⟩
    cases he : Exec.enterBlock m Ir.Id.entry none ⟨M.store.countCall id, F, M.frame :: M.callers⟩ with
    | ok _ M' =>
      rw [he] at henter
      obtain ⟨hs, hc, hg⟩ := henter
      refine ⟨hc, hs.slots.trans hslots, hs.depth.trans hdepth, hlt, ⟨id, ?_⟩, ?_⟩
      · rw [hs.func]
        exact hfunc
      · rw [hs.func]
        exact (Gains.countCall M.store id).trans hg
    | error e M' =>
      rw [he] at henter
      obtain ⟨hne, hq⟩ := henter
      refine ⟨hne, .inr ⟨hq.callers, ?_, ⟨id, ?_⟩, ?_⟩⟩
      · rw [hq.frame]
        exact hslots
      · rw [hq.frame]
        exact hfunc
      · rw [hq.frame]
        exact (Gains.countCall M.store id).trans hq.gains

theorem makesSlot_eq {inst : Inst} (hi : M.inst? = some inst) : M.makesSlot = inst.kind.isAlloca := by
  simp [State.makesSlot, hi]

theorem asksHeap_eq {inst : Inst} (hi : M.inst? = some inst) : M.asksHeap m = asksHeap m inst.kind := by
  simp [State.asksHeap, hi]

/-- What a step does, at an instruction. -/
theorem step_inst_leads {inst : Inst} (hi : M.inst? = some inst) :
    Leads m limit M (Exec.step m limit M) := by
  have hslot := makesSlot_eq hi
  have hheap := asksHeap_eq (m := m) hi
  have hfail : ∀ {e M'}, Exec.perform m inst.kind M = .error e M' → e ≠ .outOfFuel → Quietly m M M' →
      Leads m limit M (Exec.step m limit M) := by
    intro e M' hp he hq
    rw [step_error hi hp]
    exact .fails he (.here (hq.frame ▸ .refl _) hq.callers hq.gains)
  cases ha : inst.kind.isAlloca with
  | true =>
    obtain ⟨t, hk⟩ : ∃ t, inst.kind = .alloca t := by
      cases hk : inst.kind <;> simp_all [InstKind.isAlloca]
    rw [ha] at hslot
    rcases Exec.perform_alloca_cases m t M with ⟨e, he, hp⟩ | ⟨a, hp⟩
    · exact hfail (hk ▸ hp) he (.refl m M)
    · rw [step_slot hi (hk ▸ hp)]
      set M₁ := (M.withMemory { blocks := M.store.memory.blocks.push (some a) }).addSlot
        (blockAddress M.store.memory.blocks.size) with hM₁
      obtain ⟨hs, hc, hst⟩ := finish_same M₁ inst.result (some (.ptr (blockAddress M.store.memory.blocks.size)))
      refine .on (.slot hs.func hs.depth hs.slots hc ?_ ?_ ?_)
      · rw [hheap, hk]
        rfl
      · rw [hst]
        exact Array.size_push _
      · rw [hst]
        exact .push a
  | false =>
    rw [ha] at hslot
    cases hh : asksHeap m inst.kind with
    | true =>
      have hperform := Exec.perform_heap_cases m hh M
      cases hp : Exec.perform m inst.kind M with
      | error e M₁ =>
        rw [hp] at hperform
        exact hfail hp hperform.1 hperform.2
      | ok effect M₁ =>
        rw [hp] at hperform
        obtain ⟨⟨x, rfl⟩, hf, hc, hg⟩ := hperform
        obtain ⟨hs', hc', hst'⟩ := finish_same M₁ inst.result x
        rw [step_done hi hp]
        refine .on (.work (hf ▸ hs') (hc'.trans hc) hslot ?_)
        rw [hst', hheap, hh]
        exact hg
    | false =>
      have hperform := Exec.perform_quiet m ha hh M
      unfold Exec.QuietAt at hperform
      cases hp : Exec.perform m inst.kind M with
      | error e M₁ =>
        rw [hp] at hperform
        exact hfail hp hperform.1 hperform.2
      | ok effect M₁ =>
        rw [hp] at hperform
        obtain ⟨hno, hq⟩ := hperform
        cases effect with
        | done x =>
          obtain ⟨hs', hc', hst'⟩ := finish_same M₁ inst.result x
          rw [step_done hi hp]
          refine .on (.work (hq.frame ▸ hs') (hc'.trans hq.callers) hslot ?_)
          rw [hst', hheap, hh]
          exact hq.gains
        | slot addr => exact hno.elim
        | call id xs =>
          have hpush := @pushCall_moves m limit id xs M₁
          cases hc : Exec.pushCall m limit id xs M₁ with
          | ok _ M' =>
            rw [hc, hq.frame, hq.callers] at hpush
            obtain ⟨hcall, hslots, hdepth, hlt, hfunc, hg⟩ := hpush
            rw [step_call hi hp hc]
            refine .on (.call hcall hslots hdepth hlt hfunc hslot (hheap.trans hh) ?_)
            exact (hq.gains.mono And.left).trans (hg.mono And.right)
          | error e M' =>
            rw [hc, hq.frame, hq.callers] at hpush
            rw [step_call_error hi hp hc]
            refine .fails hpush.1 ?_
            rcases hpush.2 with rfl | ⟨hcall, hslots, hfunc, hg⟩
            · exact .here (hq.frame ▸ .refl _) hq.callers hq.gains
            · exact .called hcall hslots hfunc ((hq.gains.mono And.left).trans (hg.mono And.right))

theorem return_same (M : State) (x : Option Val) (caller : Frame) (callers : List Frame) :
    caller.Same (M.return x caller callers).frame ∧ (M.return x caller callers).callers = callers ∧
      (M.return x caller callers).store =
        { M.store with memory := M.store.memory.releaseAll M.frame.slots } := by
  unfold State.return
  split
  · exact finish_same ⟨_, caller, callers⟩ _ _
  · exact ⟨.refl _, rfl, rfl⟩

/-- A return gives control to the caller, or ends the run. -/
theorem popReturn_leads {M₁ : State} (hq : Quietly m M M₁) (hs : M.makesSlot = false)
    (hh : M.asksHeap m = false) (x : Option Val) : Leads m limit M (Exec.popReturn x M₁) := by
  cases hc : M₁.callers with
  | nil =>
    rw [popReturn_last hc]
    exact @Leads.done m limit M _ _ M₁.store ⟨hq.callers ▸ hc, hs, hh, hq.gains, by rw [hq.frame]⟩
  | cons caller rest =>
    obtain ⟨hsame, hcallers, hstore⟩ := return_same M₁ x caller rest
    rw [popReturn_caller hc]
    refine .on (.ret caller M₁.store ?_ hsame hs hh hq.gains ?_)
    · rw [hcallers, ← hq.callers, hc]
    · rw [hstore, hq.frame]

/-- Entering a block is work in the frame. -/
theorem enterBlock_leads {M₁ : State} (hq : Quietly m M M₁) (hs : M.makesSlot = false)
    (hh : M.asksHeap m = false) (block : Ir.BlockId) (source : Option Ir.BlockId) :
    Leads m limit M ((do Exec.enterBlock m block source; pure none : Exec (Option (Option Val))) M₁) := by
  have hcalm := enterBlock_calm (m := m) block source M₁
  cases he : Exec.enterBlock m block source M₁ with
  | ok _ M' =>
    rw [he, hq.frame] at hcalm
    obtain ⟨hsame, hc, hg⟩ := hcalm
    rw [bind_ok he]
    refine .on (.work hsame (hc.trans hq.callers) hs ?_)
    rw [hh]
    exact hq.gains.trans hg
  | error e M' =>
    rw [he] at hcalm
    have hall := hq.trans hcalm.2
    rw [bind_error he]
    exact .fails hcalm.1 (.here (hall.frame ▸ .refl _) hall.callers hall.gains)

/-- An operand that is read at the end of a block. -/
theorem Exec.Quiet.bind_leads {α : Type} {P : α → Prop} {x : Exec α} {f : α → Exec (Option (Option Val))}
    (hx : x.Quiet m P) (hf : ∀ a M₁, Quietly m M M₁ → Leads m limit M (f a M₁)) :
    Leads m limit M ((x >>= f) M) := by
  have hM := hx M
  unfold Exec.QuietAt at hM
  cases h : x M with
  | error e M₁ =>
    rw [h] at hM
    rw [bind_error h]
    exact .fails hM.1 (.here (hM.2.frame ▸ .refl _) hM.2.callers hM.2.gains)
  | ok a M₁ =>
    rw [h] at hM
    rw [bind_ok h]
    exact hf a M₁ hM.2

/-- What a step does, at the end of a block. -/
theorem step_terminator_leads (hi : M.inst? = none) : Leads m limit M (Exec.step m limit M) := by
  have hs : M.makesSlot = false := by simp [State.makesSlot, hi]
  have hh : M.asksHeap m = false := by simp [State.asksHeap, hi]
  rw [step_terminator hi]
  unfold Exec.stepTerminator
  rw [bind_ok (show Exec.frame M = .ok M.frame M from rfl)]
  cases M.frame.code.terminator with
  | none => exact .fails (by rintro ⟨⟩) (.here (.refl _) rfl (.refl _))
  | some t =>
    cases t with
    | br target => exact enterBlock_leads (.refl m M) hs hh _ _
    | condBr c l r =>
      exact (Exec.operandBool_quiet m c).bind_leads fun _ M₁ hq => enterBlock_leads hq hs hh _ _
    | ret v =>
      cases v with
      | none => exact popReturn_leads (.refl m M) hs hh none
      | some v => exact (Exec.operand_quiet m v).bind_leads fun x M₁ hq => popReturn_leads hq hs hh (some x)
    | unreachable => exact .fails (by rintro ⟨⟩) (.here (.refl _) rfl (.refl _))

/-- What a step does. -/
theorem step_leads (m : Module) (limit : Nat) (M : State) : Leads m limit M (Exec.step m limit M) := by
  cases hi : M.inst? with
  | none => exact step_terminator_leads hi
  | some inst => exact step_inst_leads hi

end

end BlockForge.Machine
