import BlockForge.Proofs.Ir.Shape

/-!
# Functions that keep their slots to themselves

The slots of a function lead its entry block, which control never comes back to, and the address of a slot is for
loading and storing values of the slot's type, and for nothing else. A function grows by values, blocks,
instructions and endings; it keeps this up as long as each instruction and ending does when it is added, since what
is no slot by then never becomes one.
-/

namespace BlockForge.Ir

namespace Function

/-- The value is the address of a slot for values of the type. -/
def HasSlot (f : Function) (a : ValueId) (t : Ty) : Prop := ∃ i, ⟨some a, .alloca t⟩ ∈ f.code i

/-- A value that is entered and is not the address of a slot. -/
structure Plain (f : Function) (v : ValueId) : Prop where
  entered : v.index < f.values.size
  notSlot : ∀ t, ¬f.HasSlot v t

end Function

/-- The values that a terminator reads. -/
def Terminator.operands : Terminator → List ValueId
  | .condBr c _ _ => [c]
  | .ret (some v) => [v]
  | .br _ | .ret none | .unreachable => []

/-- Reads no slot, and does not lead back to the entry block. -/
structure Terminator.Discreet (f : Function) (t : Terminator) : Prop where
  reads : ∀ v ∈ t.operands, f.Plain v
  onward : Id.entry ∉ t.successors

/-- Uses slots only as the addresses of loads and stores of their type. -/
def InstKind.Discreet (f : Function) : InstKind → Prop
  | .load t p => f.Plain p ∨ f.HasSlot p t
  | .store v p => f.Plain v ∧ (f.Plain p ∨ f.HasSlot p (f.valueType v))
  | k => ∀ v ∈ k.operands, f.Plain v

theorem InstKind.discreet_of_plain {f : Function} {k : InstKind} (h : ∀ v ∈ k.operands, f.Plain v) : k.Discreet f := by
  cases k with
  | load t p => exact .inl (h p (by simp [operands]))
  | store v p => exact ⟨h v (by simp [operands]), .inl (h p (by simp [operands]))⟩
  | _ => exact h

namespace Function

/-- A function whose slots lead its entry block, which runs only once, and are used to load and store values of their
type and for nothing else. -/
structure Discreet (f : Function) : Prop where
  arranged : f.Arranged
  insts : ∀ {i x}, x ∈ f.code i → x.kind.Discreet f
  endings : ∀ {i t}, f.ending i = some t → t.Discreet f
  entered : ∀ {a t}, f.HasSlot a t → a.index < f.values.size
  unique : ∀ {a t u}, f.HasSlot a t → f.HasSlot a u → t = u

/-! ### Later versions -/

/-- A function and a later version of it: values and slots stay, and no value that was there is a new slot. -/
structure Before (f g : Function) : Prop where
  values : f.values.toList <+: g.values.toList
  slots : ∀ {a t}, f.HasSlot a t → g.HasSlot a t
  fresh : ∀ {a t}, g.HasSlot a t → f.HasSlot a t ∨ f.values.size ≤ a.index

variable {f g h : Function}

theorem Before.refl (f : Function) : f.Before f := ⟨List.prefix_refl _, id, .inl⟩

theorem Before.size (hb : f.Before g) : f.values.size ≤ g.values.size := by simpa using hb.values.length_le

theorem Before.trans (hb : f.Before g) (hc : g.Before h) : f.Before h where
  values := hb.values.trans hc.values
  slots hs := hc.slots (hb.slots hs)
  fresh hs := by
    rcases hc.fresh hs with hs | hs
    · exact hb.fresh hs
    · exact .inr (Nat.le_trans hb.size hs)

theorem Before.plain (hb : f.Before g) {v : ValueId} (hv : f.Plain v) : g.Plain v := by
  refine ⟨Nat.lt_of_lt_of_le hv.entered hb.size, fun t hs => ?_⟩
  rcases hb.fresh hs with hs | hs
  · exact hv.notSlot t hs
  · exact absurd hv.entered (Nat.not_lt.2 hs)

theorem Before.valueType_eq (hb : f.Before g) {v : ValueId} (hv : v.index < f.values.size) :
    g.valueType v = f.valueType v := by
  have hf : f.value? v = some f.values[v.index] := Array.getElem?_eq_getElem hv
  have hg : g.value? v = some f.values[v.index] := getElem?_of_prefix hb.values hf
  rw [valueType, valueType, hf, hg]

theorem Before.instKind (hb : f.Before g) {k : InstKind} (hk : k.Discreet f) : k.Discreet g := by
  cases k with
  | load t p => exact hk.imp hb.plain hb.slots
  | store v p =>
    refine ⟨hb.plain hk.1, hk.2.imp hb.plain fun hs => ?_⟩
    rw [hb.valueType_eq hk.1.entered]
    exact hb.slots hs
  | _ => exact fun v hv => hb.plain (hk v hv)

theorem Before.terminator (hb : f.Before g) {t : Terminator} (ht : t.Discreet f) : t.Discreet g :=
  ⟨fun v hv => hb.plain (ht.reads v hv), ht.onward⟩

/-! ### Edits -/

/-- An edit that adds no slot makes a later version. -/
theorem before_of_code (hv : f.values.toList <+: g.values.toList) (hold : ∀ {i x}, x ∈ f.code i → x ∈ g.code i)
    (hnew : ∀ {i x}, x ∈ g.code i → x ∈ f.code i ∨ x.kind.isAlloca = false) : f.Before g where
  values := hv
  slots := fun ⟨i, hi⟩ => ⟨i, hold hi⟩
  fresh := fun ⟨i, hi⟩ => .inl ⟨i, (hnew hi).resolve_right (by simp [InstKind.isAlloca])⟩

/-- A later version without new slots is as discreet as what it adds. -/
theorem Discreet.later (hf : f.Discreet) (hb : f.Before g) (ha : g.Arranged)
    (hi : ∀ {i x}, x ∈ g.code i → x ∈ f.code i ∨ x.kind.Discreet g)
    (he : ∀ {i t}, g.ending i = some t → f.ending i = some t ∨ t.Discreet g)
    (hs : ∀ {a t}, g.HasSlot a t → f.HasSlot a t) : g.Discreet where
  arranged := ha
  insts hx := (hi hx).elim (fun hx => hb.instKind (hf.insts hx)) id
  endings ht := (he ht).elim (fun ht => hb.terminator (hf.endings ht)) id
  entered hs' := Nat.lt_of_lt_of_le (hf.entered (hs hs')) hb.size
  unique ht hu := hf.unique (hs ht) (hs hu)

theorem Arranged.of_code_eq (ha : f.Arranged) (hc : g.code = f.code) : g.Arranged := by
  have hs : g.slots = f.slots := by
    funext i
    rw [slots, slots, hc]
  have hb : g.body = f.body := by
    funext i
    rw [body, body, hc]
  refine ⟨?_, ?_⟩
  · rw [hc, hs, hb]
    exact ha.lead
  · rw [hs]
    exact ha.entryOnly

theorem before_addValue (f : Function) (v : Value) : f.Before (f.addValue v) :=
  before_of_code (by simp [addValue]) id .inl

theorem Discreet.addValue (hf : f.Discreet) (v : Value) : (f.addValue v).Discreet :=
  hf.later (before_addValue f v) (hf.arranged.of_code_eq rfl) .inl .inl id

/-- A new value is no slot. -/
theorem Discreet.plain_addValue (hf : f.Discreet) (v : Value) : (f.addValue v).Plain ⟨f.values.size⟩ := by
  refine ⟨by simp [Function.addValue], fun t hs => ?_⟩
  have hlt : f.values.size < f.values.size := hf.entered (a := ⟨f.values.size⟩) (t := t) hs
  exact absurd hlt (Nat.lt_irrefl _)

theorem valueType_addValue (f : Function) (v : Value) : (f.addValue v).valueType ⟨f.values.size⟩ = v.ty := by
  simp [valueType, value?, addValue]

theorem before_addBlock (f : Function) (name : String) : f.Before (f.addBlock name) := by
  refine before_of_code (List.prefix_refl _) ?_ ?_ <;> simp +contextual

theorem Discreet.addBlock (hf : f.Discreet) (name : String) : (f.addBlock name).Discreet := by
  refine hf.later (before_addBlock f name) (hf.arranged.of_code_eq (code_addBlock ..)) ?_ ?_ ?_
  · simp +contextual
  · simp +contextual
  · rintro a t ⟨i, hi⟩
    rw [code_addBlock] at hi
    exact ⟨i, hi⟩

/-- An edit of a block that puts in one instruction. -/
def Inserts (x : Inst) (k : Array Inst → Array Inst) : Prop :=
  ∀ insts y, y ∈ (k insts).toList ↔ y ∈ insts.toList ∨ y = x

theorem inserts_push (x : Inst) : Inserts x (·.push x) := fun _ _ => by simp

theorem inserts_insertAfterLeading (p : Inst → Bool) (x : Inst) : Inserts x (insertAfterLeading p x) := by
  intro insts y
  have hsplit : y ∈ insts.toList ↔ y ∈ insts.toList.takeWhile p ∨ y ∈ insts.toList.dropWhile p := by
    rw [← List.mem_append, List.takeWhile_append_dropWhile]
  rw [toList_insertAfterLeading, List.mem_append, List.mem_cons, hsplit]
  tauto

variable {x : Inst} {k : Array Inst → Array Inst}

theorem code_editInsts_of_size_le {c : BlockId} (hc : f.blocks.size ≤ c.index) (k : Array Inst → Array Inst) :
    (f.editInsts c k).code = f.code := by
  funext i
  simp only [code, editInsts, Array.getElem?_modify]
  split
  · rename_i hi
    rw [← hi, Array.getElem?_eq_none hc]
    rfl
  · rfl

theorem mem_code_of_inserts (hk : Inserts x k) {c i : BlockId} {y : Inst} (hy : y ∈ (f.editInsts c k).code i) :
    y ∈ f.code i ∨ y = x := by
  by_cases hc : c.index < f.blocks.size
  · rw [code_editInsts hc] at hy
    split at hy
    · simpa using (hk _ _).1 hy
    · exact .inl hy
  · rw [code_editInsts_of_size_le (Nat.not_lt.1 hc)] at hy
    exact .inl hy

theorem before_editInsts (hk : Inserts x k) (hx : x.kind.isAlloca = false) (c : BlockId) :
    f.Before (f.editInsts c k) := by
  refine before_of_code (List.prefix_refl _) (Emit.mem_code_editInsts fun hy => (hk _ _).2 (.inl hy)) fun hy =>
    (mem_code_of_inserts hk hy).imp_right ?_
  rintro rfl
  exact hx

theorem Arranged.addInst (ha : f.Arranged) (hx : x.kind.isAlloca = false) (c : BlockId) :
    (f.addInst c x).Arranged := by
  by_cases hc : c.index < f.blocks.size
  · refine ⟨fun i => ?_, ?_⟩
    · rw [code_addInst hc, slots_addInst hc hx, body_addInst hc hx]
      split
      · rw [ha.lead i, List.append_assoc]
      · exact ha.lead i
    · rw [slots_addInst hc hx]
      exact ha.entryOnly
  · exact ha.of_code_eq (code_editInsts_of_size_le (Nat.not_lt.1 hc) _)

/-- Behind the entry block, it does not matter where the instruction goes. -/
theorem Arranged.editInsts (ha : f.Arranged) (hk : Inserts x k) (hx : x.kind.isAlloca = false) {c : BlockId}
    (hc : c ≠ Id.entry) : (f.editInsts c k).Arranged := by
  have hnone : ∀ i, i ≠ Id.entry → ∀ y ∈ (f.editInsts c k).code i, y.kind.isAlloca = false := by
    intro i hi y hy
    rcases mem_code_of_inserts hk hy with hy | rfl
    · rw [ha.code_eq_body hi] at hy
      simpa using (List.mem_filter.1 hy).2
    · exact hx
  have hentry : (f.editInsts c k).code Id.entry = f.code Id.entry := by
    by_cases hlt : c.index < f.blocks.size
    · rw [code_editInsts hlt, if_neg hc.symm]
    · rw [code_editInsts_of_size_le (Nat.not_lt.1 hlt)]
  have hslots : ∀ i, i ≠ Id.entry → (f.editInsts c k).slots i = [] := fun i hi =>
    List.filter_eq_nil_iff.2 fun y hy => by simp [hnone i hi y hy]
  refine ⟨fun i => ?_, hslots⟩
  by_cases hi : i = Id.entry
  · rw [hi, slots, body, hentry]
    exact ha.lead Id.entry
  · rw [hslots i hi, List.nil_append]
    exact (List.filter_eq_self.2 fun y hy => by simp [hnone i hi y hy]).symm

theorem Discreet.editInsts (hf : f.Discreet) (hk : Inserts x k) (hx : x.kind.isAlloca = false)
    (hd : x.kind.Discreet f) {c : BlockId} (ha : (f.editInsts c k).Arranged) : (f.editInsts c k).Discreet := by
  have hb : f.Before (f.editInsts c k) := before_editInsts hk hx c
  refine hf.later hb ha (fun hy => (mem_code_of_inserts hk hy).imp_right ?_) ?_ ?_
  · rintro rfl
    exact hb.instKind hd
  · rw [ending_editInsts]
    exact .inl
  · rintro a t ⟨i, hi⟩
    refine ⟨i, (mem_code_of_inserts hk hi).resolve_right fun he => ?_⟩
    rw [← he] at hx
    cases hx

theorem before_setEnding (f : Function) (c : BlockId) (t : Terminator) : f.Before (f.setEnding c t) :=
  before_of_code (List.prefix_refl _) (by simp [code_setEnding]) (by simp +contextual [code_setEnding])

theorem eq_of_ending_setEnding {c i : BlockId} {t u : Terminator} (hu : (f.setEnding c t).ending i = some u) :
    f.ending i = some u ∨ u = t := by
  simp only [ending, setEnding, Array.getElem?_modify] at hu ⊢
  split at hu
  · cases hb : f.blocks[i.index]? with
    | none => simp [hb] at hu
    | some bl => exact .inr (by simpa [hb] using hu.symm)
  · exact .inl hu

theorem Discreet.setEnding (hf : f.Discreet) {t : Terminator} (ht : t.Discreet f) (c : BlockId) :
    (f.setEnding c t).Discreet := by
  have hb := before_setEnding f c t
  refine hf.later hb (hf.arranged.of_code_eq (code_setEnding ..)) ?_ ?_ ?_
  · rw [code_setEnding]
    exact .inl
  · refine fun hu => (eq_of_ending_setEnding hu).imp_right ?_
    rintro rfl
    exact hb.terminator ht
  · rintro a u ⟨i, hi⟩
    rw [code_setEnding] at hi
    exact ⟨i, hi⟩

/-! ### New slots -/

/-- A function with a new slot in its entry block, whose address is the next value. -/
def withSlot (f : Function) (t : Ty) (v : Value) : Function :=
  (f.addValue v).addSlot ⟨some ⟨f.values.size⟩, .alloca t⟩

theorem mem_code_withSlot {t : Ty} {v : Value} {i : BlockId} {y : Inst} (hy : y ∈ (f.withSlot t v).code i) :
    y ∈ f.code i ∨ y = ⟨some ⟨f.values.size⟩, .alloca t⟩ :=
  mem_code_of_inserts (f := f.addValue v) (inserts_insertAfterLeading _ _) hy

theorem before_withSlot (f : Function) (t : Ty) (v : Value) : f.Before (f.withSlot t v) where
  values := by simp [withSlot, addSlot, Function.editInsts, Function.addValue]
  slots := fun ⟨i, hi⟩ => ⟨i, Emit.mem_code_editInsts (f := f.addValue v) Emit.mem_insertAfterLeading hi⟩
  fresh := by
    rintro a u ⟨i, hi⟩
    rcases mem_code_withSlot hi with hi | hi
    · exact .inl ⟨i, hi⟩
    · simp only [Inst.mk.injEq, Option.some.injEq] at hi
      exact .inr (Nat.le_of_eq (by rw [hi.1]))

theorem hasSlot_withSlot (he : 0 < f.blocks.size) (t : Ty) (v : Value) :
    (f.withSlot t v).HasSlot ⟨f.values.size⟩ t := by
  refine ⟨Id.entry, ?_⟩
  have hc : Id.entry.index < (f.addValue v).blocks.size := he
  rw [withSlot, addSlot, code_editInsts hc, if_pos rfl]
  exact (inserts_insertAfterLeading _ _ _ _).2 (.inr rfl)

theorem Arranged.addSlot (ha : f.Arranged) (he : 0 < f.blocks.size) (hx : x.kind.isAlloca = true) :
    (f.addSlot x).Arranged := by
  refine ⟨fun i => ?_, fun i hi => ?_⟩
  · rw [code_addSlot ha he, slots_addSlot ha he hx, body_addSlot ha he hx]
    split
    · rw [List.append_assoc]
      rfl
    · exact ha.lead i
  · rw [slots_addSlot ha he hx, if_neg hi]
    exact ha.entryOnly i hi

/-- The address of a new slot was no value before. -/
theorem hasSlot_withSlot_cases {t u : Ty} {v : Value} {a : ValueId} (h : (f.withSlot t v).HasSlot a u) :
    f.HasSlot a u ∨ a.index = f.values.size ∧ u = t := by
  obtain ⟨i, hi⟩ := h
  refine (mem_code_withSlot hi).imp (fun hi => ⟨i, hi⟩) fun he => ?_
  simp only [Inst.mk.injEq, Option.some.injEq, InstKind.alloca.injEq] at he
  exact ⟨congrArg Id.index he.1, he.2⟩

theorem Discreet.withSlot (hf : f.Discreet) (he : 0 < f.blocks.size) (t : Ty) (v : Value) :
    (f.withSlot t v).Discreet := by
  have hb := before_withSlot f t v
  have hnew : f.values.size < (f.withSlot t v).values.size := by
    simp [Function.withSlot, addSlot, Function.editInsts, Function.addValue]
  constructor
  · exact Arranged.addSlot (hf.arranged.of_code_eq (g := f.addValue v) rfl) he rfl
  · intro i y hy
    rcases mem_code_withSlot hy with hy | rfl
    · exact hb.instKind (hf.insts hy)
    · exact fun u hu => absurd hu (by simp [InstKind.operands])
  · intro i u hu
    rw [Function.withSlot, ending_addSlot] at hu
    exact hb.terminator (hf.endings hu)
  · intro a u ha
    rcases hasSlot_withSlot_cases ha with ha | ha
    · exact Nat.lt_trans (hf.entered ha) hnew
    · exact ha.1 ▸ hnew
  · intro a u w hu hw
    rcases hasSlot_withSlot_cases hu with hu | ⟨ha, hut⟩
    · rcases hasSlot_withSlot_cases hw with hw | ⟨ha, -⟩
      · exact hf.unique hu hw
      · exact absurd (hf.entered hu) (ha ▸ Nat.lt_irrefl _)
    · rcases hasSlot_withSlot_cases hw with hw | ⟨-, hwt⟩
      · exact absurd (hf.entered hw) (ha ▸ Nat.lt_irrefl _)
      · exact hut.trans hwt.symm

/-! ### Declarations -/

theorem declare_discreet (name : String) (params : List Ty) (ret : Ty) : (declare name params ret).Discreet where
  arranged := ⟨fun i => by simp [code, slots, body, declare], fun i _ => by simp [code, slots, declare]⟩
  insts hx := by simp [code, declare] at hx
  endings ht := by simp [ending, declare] at ht
  entered ha := by
    obtain ⟨i, hi⟩ := ha
    simp [code, declare] at hi
  unique ha := by
    obtain ⟨i, hi⟩ := ha
    simp [code, declare] at hi

theorem declare_plain (name : String) {params : List Ty} (ret : Ty) {i : Nat} (hi : i < params.length) :
    (declare name params ret).Plain (param i) where
  entered := by simpa [declare, param] using hi
  notSlot t ha := by
    obtain ⟨j, hj⟩ := ha
    simp [code, declare] at hj

theorem declare_valueType (name : String) {params : List Ty} (ret : Ty) {i : Nat} {t : Ty} (hi : params[i]? = some t) :
    (declare name params ret).valueType (param i) = t := by
  simp [valueType, value?, declare, param, hi]

/-! ### Slots of one's own -/

/-- The slots of a function are its own. -/
structure OwnsSlots (f : Function) : Prop where
  /-- They lead the entry block. -/
  lead : ∃ slots body, f.code Id.entry = slots ++ body ∧ (∀ x ∈ slots, x.kind.isAlloca = true) ∧
    ∀ x ∈ body, x.kind.isAlloca = false
  /-- No other block has any. -/
  entryOnly : ∀ i, i ≠ Id.entry → ∀ x ∈ f.code i, x.kind.isAlloca = false
  /-- Control never comes back to the entry block. -/
  once : ∀ {i t}, f.ending i = some t → Id.entry ∉ t.successors
  /-- What reads the address of a slot loads a value of its type from there, or stores one other than the address. -/
  uses : ∀ {a t i x}, ⟨some a, .alloca t⟩ ∈ f.code Id.entry → x ∈ f.code i → a ∈ x.kind.operands →
    x.kind = .load t a ∨ ∃ v, v ≠ a ∧ f.valueType v = t ∧ x.kind = .store v a
  /-- No branch depends on the address of a slot, and none is returned. -/
  endings : ∀ {a t i u}, ⟨some a, .alloca t⟩ ∈ f.code Id.entry → f.ending i = some u → a ∉ u.operands

theorem Discreet.ownsSlots (h : f.Discreet) : f.OwnsSlots where
  lead := by
    refine ⟨f.slots Id.entry, f.body Id.entry, h.arranged.lead _, fun x hx => (List.mem_filter.1 hx).2, fun x hx => ?_⟩
    simpa using (List.mem_filter.1 hx).2
  entryOnly i hi x hx := by
    rw [h.arranged.code_eq_body hi] at hx
    simpa using (List.mem_filter.1 hx).2
  once ht := (h.endings ht).onward
  uses {a t i x} ha hx hread := by
    have hslot : f.HasSlot a t := ⟨_, ha⟩
    have hplain : ¬f.Plain a := fun hp => hp.notSlot t hslot
    have huse := h.insts hx
    cases hkind : x.kind with
    | load u p =>
      rw [hkind] at huse hread
      obtain rfl : a = p := by simpa [InstKind.operands] using hread
      exact .inl (by rw [h.unique hslot (huse.resolve_left hplain)])
    | store v p =>
      rw [hkind] at huse hread
      have hne : v ≠ a := fun he => hplain (he ▸ huse.1)
      obtain rfl : a = p := by simpa [InstKind.operands, hne.symm] using hread
      exact .inr ⟨v, hne, h.unique (huse.2.resolve_left hplain) hslot, rfl⟩
    | _ =>
      rw [hkind] at huse hread
      exact absurd (huse a hread) hplain
  endings ha ht hread := ((h.endings ht).reads _ hread).notSlot _ ⟨_, ha⟩

end Function

end BlockForge.Ir
