import BlockForge.Proofs.Ir.Confined
import BlockForge.Proofs.Ir.Discreet
import BlockForge.Proofs.Ir.Tidy
import Mathlib.Data.Set.Defs

/-!
# Operations that keep functions discreet

What is known of a value is a fact that holds from then on: that it is plain, its type, or that it is the address of
a slot. Of a block it is known that it is not the entry block, and of the position that it has left that block for
good. `Obeys` says of a computation that it keeps an invariant and gives facts if certain facts are known. Every
operation of the builder keeps functions discreet in this sense, whether the position is live or not.
-/

/-- An invariant of states, how a state may go on, and facts that hold of whatever it goes on to. -/
structure StateM.Discipline (σ φ : Type) where
  Inv : σ → Prop
  Before : σ → σ → Prop
  Holds : σ → φ → Prop
  refl : ∀ s, Before s s
  trans : ∀ {s t u}, Before s t → Before t u → Before s u
  holds : ∀ {s t p}, Before s t → Holds s p → Holds t p

/-- From a state with the invariant of which what is known holds, the computation goes on to one with the invariant
of which the facts that it gives hold. -/
structure StateM.Discipline.Obeys {σ φ α : Type} (D : StateM.Discipline σ φ) (known : List φ) (x : StateM σ α)
    (gives : α → List φ) : Prop where
  sat : ∀ {s}, D.Inv s → (∀ p ∈ known, D.Holds s p) →
    x.Sat s fun a t => D.Inv t ∧ D.Before s t ∧ ∀ p ∈ gives a, D.Holds t p

namespace StateM.Discipline.Obeys

variable {σ φ α β : Type} {D : StateM.Discipline σ φ} {known : List φ} {gives : α → List φ} {more : β → List φ}

theorem mono {known' : List φ} {x : StateM σ α} (h : D.Obeys known x gives) (hk : ∀ p ∈ known, p ∈ known') :
    D.Obeys known' x gives :=
  ⟨fun hs hp => h.sat hs fun p hm => hp p (hk p hm)⟩

theorem pure {a : α} (h : ∀ p ∈ gives a, p ∈ known) : D.Obeys known (Pure.pure a) gives :=
  ⟨fun {s} hs hp => ⟨hs, D.refl s, fun p hm => hp p (h p hm)⟩⟩

theorem bind {x : StateM σ α} {f : α → StateM σ β} (h : D.Obeys known x gives)
    (k : ∀ a, D.Obeys (gives a ++ known) (f a) more) : D.Obeys known (x >>= f) more := by
  refine ⟨fun {s} hs hp => StateM.Sat.bind (h.sat hs hp) fun a t ⟨ht, hb, hg⟩ => ?_⟩
  have hknown : ∀ p ∈ gives a ++ known, D.Holds t p := by
    intro p hm
    rcases List.mem_append.1 hm with hm | hm
    · exact hg p hm
    · exact D.holds hb (hp p hm)
  exact ((k a).sat ht hknown).imp fun b u ⟨hu, hb', hm⟩ => ⟨hu, D.trans hb hb', hm⟩

/-- What is known beforehand counts as given. -/
theorem imp {x : StateM σ α} {gives' : α → List φ} (h : D.Obeys known x gives)
    (hg : ∀ a, ∀ p ∈ gives' a, p ∈ gives a ++ known) : D.Obeys known x gives' := by
  refine ⟨fun {s} hs hp => (h.sat hs hp).imp fun a t ⟨ht, hb, hm⟩ => ⟨ht, hb, fun p hp' => ?_⟩⟩
  rcases List.mem_append.1 (hg a p hp') with hp' | hp'
  · exact hm p hp'
  · exact D.holds hb (hp p hp')

/-- What a computation gives may be forgotten. -/
theorem silent {x : StateM σ α} (h : D.Obeys known x gives) : D.Obeys known x fun _ => [] := h.imp (by simp)

theorem map {x : StateM σ α} {f : α → β} (h : D.Obeys known x gives)
    (hg : ∀ a, ∀ p ∈ more (f a), p ∈ gives a ++ known) : D.Obeys known (f <$> x) more :=
  h.bind fun a => pure (hg a)

/-- Reading the state, together with facts that hold of it. -/
theorem get_facts {f : σ → StateM σ α} (h : ∀ s, D.Inv s → (∀ p ∈ known, D.Holds s p) →
      ∃ facts, (∀ p ∈ facts, D.Holds s p) ∧ D.Obeys (facts ++ known) (f s) gives) :
    D.Obeys known (get >>= f) gives := by
  refine ⟨fun {s} hs hp => StateM.Sat.get_bind ?_⟩
  obtain ⟨facts, hfacts, hobeys⟩ := h s hs hp
  refine hobeys.sat hs fun p hm => ?_
  rcases List.mem_append.1 hm with hm | hm
  · exact hfacts p hm
  · exact hp p hm

theorem get_bind {f : σ → StateM σ α} (h : ∀ s, D.Inv s → (∀ p ∈ known, D.Holds s p) → D.Obeys known (f s) gives) :
    D.Obeys known (get >>= f) gives :=
  ⟨fun hs hp => (h _ hs hp).sat hs hp⟩

/-- Facts that follow from the invariant are known. -/
theorem learn (facts : List φ) {x : StateM σ α} (hf : ∀ s, D.Inv s → ∀ p ∈ facts, D.Holds s p)
    (h : D.Obeys (facts ++ known) x gives) : D.Obeys known x gives := by
  refine ⟨fun {s} hs hp => h.sat hs fun p hm => ?_⟩
  rcases List.mem_append.1 hm with hm | hm
  · exact hf s hs p hm
  · exact hp p hm

theorem modify {f : σ → σ} (h : ∀ s, D.Inv s → (∀ p ∈ known, D.Holds s p) → D.Inv (f s) ∧ D.Before s (f s)) :
    D.Obeys known (modify f) fun _ => [] :=
  ⟨fun {s} hs hp => ⟨(h s hs hp).1, (h s hs hp).2, by simp⟩⟩

theorem ite {c : Prop} [Decidable c] {x y : StateM σ α} (h : D.Obeys known x gives) (k : D.Obeys known y gives) :
    D.Obeys known (if c then x else y) gives := by
  split
  · exact h
  · exact k

end StateM.Discipline.Obeys

namespace BlockForge.Ir

open StateM

/-! ### Facts -/

/-- Something known of a value, of what a call runs, of a block, or of the position. -/
inductive Fact where
  | plain (v : ValueId)
  | typed (v : ValueId) (ty : Ty)
  | slot (a : ValueId) (ty : Ty)
  | returns (callee : Callee) (ret : Ty)
  | inner (i : BlockId)
  | moved

/-- What is known of a plain value of a type. -/
def Fact.value (v : ValueId) (ty : Ty) : List Fact := [.plain v, .typed v ty]

@[simp] theorem Fact.mem_value {p : Fact} {v : ValueId} {ty : Ty} :
    p ∈ value v ty ↔ p = .plain v ∨ p = .typed v ty := by
  simp [value]

/-- A plain value is known, with its type. -/
@[simp]
abbrev Knows (known : List Fact) (v : ValueId) (ty : Ty) : Prop := Fact.plain v ∈ known ∧ Fact.typed v ty ∈ known

namespace Builder

/-- A builder at work on a discreet function with an entry block, for a target of the given word and with some of
the given host functions. -/
structure Discreet (hosts : Set HostDecl) (word : Ty) (b : Builder) : Prop where
  valid : b.func.index < b.module.functions.size
  entry : 0 < b.function.blocks.size
  hosts : ∀ d ∈ b.module.hosts.toList, d ∈ hosts
  ptrInt : b.module.ptrInt = word
  function : b.function.Discreet

/-- A later builder of the same function. Once the position has left the entry block, it stays away. -/
structure Before (s b : Builder) : Prop where
  func : b.func = s.func
  module : s.module.Grows b.module
  others : ∀ j, j ≠ s.func → b.module.function? j = s.module.function? j
  function : s.function.Before b.function
  current : s.current ≠ some Id.entry → b.current ≠ some Id.entry

theorem Before.refl (b : Builder) : b.Before b := ⟨rfl, .refl _, fun _ _ => rfl, .refl _, id⟩

theorem Before.trans {s b d : Builder} (h : s.Before b) (k : b.Before d) : s.Before d where
  func := k.func.trans h.func
  module := h.module.trans k.module
  others j hj := (k.others j (by rw [h.func]; exact hj)).trans (h.others j hj)
  function := h.function.trans k.function
  current hc := k.current (h.current hc)

def Satisfies (b : Builder) : Fact → Prop
  | .plain v => b.function.Plain v
  | .typed v ty => v.index < b.function.values.size ∧ b.function.valueType v = ty
  | .slot a ty => b.function.HasSlot a ty
  | .returns callee ret => ∃ params, b.module.signature? callee = some (params, ret)
  | .inner i => i ≠ Id.entry
  | .moved => b.current ≠ some Id.entry

theorem Before.holds {s b : Builder} (h : s.Before b) {p : Fact} (hp : s.Satisfies p) : b.Satisfies p := by
  cases p with
  | plain v => exact h.function.plain hp
  | typed v ty => exact ⟨Nat.lt_of_lt_of_le hp.1 h.function.size, (h.function.valueType_eq hp.1).trans hp.2⟩
  | slot a ty => exact h.function.slots hp
  | returns callee ret => exact hp.imp fun _ hs => h.module.signature? hs
  | inner i => exact hp
  | moved => exact h.current hp

def discipline (hosts : Set HostDecl) (word : Ty) : Discipline Builder Fact where
  Inv := Discreet hosts word
  Before := Before
  Holds := Satisfies
  refl := .refl
  trans := .trans
  holds h := h.holds

end Builder

/-- Keeps functions discreet. -/
abbrev Emit.Obeys {α : Type} (hosts : Set HostDecl) (word : Ty) (known : List Fact) (x : Emit α)
    (gives : α → List Fact) : Prop := (Builder.discipline hosts word).Obeys known x gives

namespace Builder

variable {hosts : Set HostDecl} {word : Ty} {b : Builder}

theorem grows_modifyFunction {F : Function → Function} (hh : (F b.function).head = b.function.head) :
    b.module.Grows (b.modifyFunction F).module where
  pointerBits := rfl
  structs := rfl
  globals := List.prefix_refl _
  hosts := List.prefix_refl _
  header {j f} hj := by
    have hheads := Emit.heads_modifyFunction hh j
    rw [hj, Option.map_some, Option.map_eq_some_iff] at hheads
    obtain ⟨g, hg, he⟩ := hheads
    simp only [Function.head, Prod.mk.injEq] at he
    exact ⟨g, hg, he.1, he.2.1, he.2.2⟩

/-- An edit that keeps the function discreet; how many blocks have ended does not matter. -/
theorem Discreet.modifyFunction (h : b.Discreet hosts word) {F : Function → Function} (n : Nat)
    (hh : (F b.function).head = b.function.head) (hs : b.function.blocks.size ≤ (F b.function).blocks.size)
    (hb : b.function.Before (F b.function)) (hd : (F b.function).Discreet) :
    ({ b.modifyFunction F with terminators := n } : Builder).Discreet hosts word ∧
      b.Before { b.modifyFunction F with terminators := n } := by
  have hf : ({ b.modifyFunction F with terminators := n } : Builder).function = F b.function :=
    function_modifyFunction h.valid F
  have hgrows := grows_modifyFunction hh
  refine ⟨⟨?_, ?_, h.hosts, ?_, ?_⟩, ⟨rfl, hgrows, fun _ hj => function?_modifyFunction_ne b F hj, ?_, id⟩⟩
  · simpa [Builder.modifyFunction, Module.modifyFunction] using h.valid
  · rw [hf]
    exact Nat.lt_of_lt_of_le h.entry hs
  · exact hgrows.ptrInt.trans h.ptrInt
  · rw [hf]
    exact hd
  · rw [hf]
    exact hb

end Builder

namespace Emit

variable {α : Type} {hosts : Set HostDecl} {word : Ty} {known : List Fact} {a b c : ValueId}

/-! ### Values and blocks -/

theorem pushValue_obeys (ty : Ty) (kind : ValueKind) (name : String) :
    Obeys hosts word known (pushValue ty kind name) fun v => Fact.value v ty := by
  refine ⟨fun {s} hs _ => ?_⟩
  have hedit := hs.modifyFunction (F := (·.addValue ⟨ty, kind, name⟩)) s.terminators rfl (Nat.le_refl _)
    (Function.before_addValue ..) (hs.function.addValue _)
  have hf := Builder.function_modifyFunction hs.valid (·.addValue ⟨ty, kind, name⟩)
  refine ⟨hedit.1, hedit.2, ?_⟩
  show ∀ p ∈ Fact.value ⟨s.function.values.size⟩ ty,
    (s.modifyFunction (·.addValue ⟨ty, kind, name⟩)).Satisfies p
  have hplain := hs.function.plain_addValue ⟨ty, kind, name⟩
  simp only [Fact.mem_value, forall_eq_or_imp, forall_eq, Builder.Satisfies, hf]
  exact ⟨hplain, hplain.entered, Function.valueType_addValue ..⟩

/-- A block behind the entry block. -/
theorem appendBlock_obeys (name : String) : Obeys hosts word known (appendBlock name) fun i => [.inner i] := by
  refine ⟨fun {s} hs _ => ?_⟩
  have hedit := hs.modifyFunction (F := (·.addBlock name)) s.terminators rfl (by simp [Function.addBlock])
    (Function.before_addBlock ..) (hs.function.addBlock _)
  have hinner : (⟨s.function.blocks.size⟩ : BlockId) ≠ Id.entry := fun he =>
    absurd hs.entry (by rw [show s.function.blocks.size = 0 from congrArg Id.index he]; exact Nat.lt_irrefl 0)
  exact ⟨hedit.1, hedit.2, List.forall_mem_singleton.2 hinner⟩

theorem demand_discreet {s : Builder} (hs : s.Discreet hosts word) (d : Demand) (met : Bool) :
    (s.demand d met).Discreet hosts word ∧ s.Before (s.demand d met) := by
  unfold Builder.demand
  split
  · exact ⟨hs, .refl s⟩
  · exact ⟨⟨hs.valid, hs.entry, hs.hosts, hs.ptrInt, hs.function⟩, rfl, .refl _, fun _ _ => rfl, .refl _, id⟩

theorem demand_obeys (d : Demand) (met : Builder → Bool) : Obeys hosts word known (demand d met) fun _ => [] :=
  .modify fun _ hs _ => demand_discreet hs d _

/-- The position moves on, away from the entry block. -/
theorem positionAt_obeys {i : BlockId} (hi : Fact.inner i ∈ known) :
    Obeys hosts word known (positionAt i) fun _ => [.moved] := by
  refine (demand_obeys ..).bind fun _ => ⟨fun {s} hs hp => ?_⟩
  have hmoved : some i ≠ some Id.entry := fun he => hp (.inner i) (by simpa using hi) (Option.some.inj he)
  exact ⟨⟨hs.valid, hs.entry, hs.hosts, hs.ptrInt, hs.function⟩,
    ⟨rfl, .refl _, fun _ _ => rfl, .refl _, fun _ => hmoved⟩, List.forall_mem_singleton.2 hmoved⟩

/-- A change of the module that adds nothing but some of the host functions. -/
theorem onModule_sat {f : Module → α × Module} (hf : ∀ m, m.Grows (f m).2 ∧ (f m).2.functions = m.functions)
    (hk : ∀ m, ∀ d ∈ (f m).2.hosts.toList, d ∈ m.hosts.toList ∨ d ∈ hosts) {s : Builder} (hs : s.Discreet hosts word) :
    (onModule f).Sat s fun _ t => t.Discreet hosts word ∧ s.Before t := by
  obtain ⟨hg, hfun⟩ := hf s.module
  have hsame : ∀ j, (f s.module).2.function? j = s.module.function? j := fun j => by
    simp [Module.function?, hfun]
  have he : ({ s with module := (f s.module).2 } : Builder).function = s.function := by
    simp [Builder.function, hsame]
  have hs' : ({ s with module := (f s.module).2 } : Builder).Discreet hosts word := by
    refine ⟨?_, ?_, fun d hd => (hk _ d hd).elim (hs.hosts d) id, hg.ptrInt.trans hs.ptrInt, ?_⟩
    · show s.func.index < (f s.module).2.functions.size
      rw [hfun]
      exact hs.valid
    · rw [he]
      exact hs.entry
    · rw [he]
      exact hs.function
  have hb : s.Before { s with module := (f s.module).2 } :=
    ⟨rfl, hg, fun j _ => hsame j, by rw [he]; exact .refl _, id⟩
  exact ⟨hs', hb⟩

/-! ### Instructions and endings -/

/-- The values that an instruction reads are known to be plain. -/
theorem discreet_of_known {k : InstKind} (hk : ∀ v ∈ k.operands, Fact.plain v ∈ known) (s : Builder)
    (hs : ∀ p ∈ known, s.Satisfies p) : k.Discreet s.function :=
  InstKind.discreet_of_plain fun v hv => hs _ (hk v hv)

/-- An edit of a block that puts in an instruction which makes no slot. -/
theorem editInsts_obeys {x : Inst} {k : Array Inst → Array Inst} (hi : Function.Inserts x k)
    (ha : x.kind.isAlloca = false) (hx : ∀ s : Builder, (∀ p ∈ known, s.Satisfies p) → x.kind.Discreet s.function)
    {i : BlockId} (hf : ∀ {f : Function}, f.Arranged → (f.editInsts i k).Arranged) :
    Obeys hosts word known (modify (·.modifyFunction (·.editInsts i k))) fun _ => [] :=
  .modify fun s hs hp => hs.modifyFunction s.terminators rfl (by simp [Function.editInsts])
    (Function.before_editInsts hi ha i) (hs.function.editInsts hi ha (hx _ hp) (hf hs.function.arranged))

theorem insert_obeys {k : InstKind} (ha : k.isAlloca = false)
    (hk : ∀ s : Builder, (∀ p ∈ known, s.Satisfies p) → k.Discreet s.function) (r : Option ValueId) :
    Obeys hosts word known (insert k r) fun _ => [] := by
  refine .modify fun s hs hp => ?_
  cases s.current with
  | none => exact demand_discreet hs ..
  | some i =>
    dsimp only
    split
    · exact demand_discreet hs ..
    · have hedit := (editInsts_obeys (Function.inserts_push ⟨r, k⟩) ha hk fun hf => hf.addInst ha i).sat hs hp
      exact ⟨hedit.1, hedit.2.1⟩

theorem emitVoid_obeys {k : InstKind} (ha : k.isAlloca = false) (hk : ∀ v ∈ k.operands, Fact.plain v ∈ known) :
    Obeys hosts word known (emitVoid k) fun _ => [] :=
  insert_obeys ha (discreet_of_known hk) none

/-- An instruction that may use slots. -/
theorem emit_obeys_of {k : InstKind} (ha : k.isAlloca = false)
    (hk : ∀ s : Builder, (∀ p ∈ known, s.Satisfies p) → k.Discreet s.function) (ty : Ty) (name : String) :
    Obeys hosts word known (emit ty k name) fun v => Fact.value v ty := by
  refine .get_bind fun s _ _ => (pushValue_obeys ..).bind fun v => ?_
  refine (insert_obeys ha (fun t ht => hk t fun p hp => ht p (by simp [hp])) _).bind fun _ => .pure ?_
  simp +contextual

theorem emit_obeys {k : InstKind} (ha : k.isAlloca = false) (hk : ∀ v ∈ k.operands, Fact.plain v ∈ known) (ty : Ty)
    (name : String) : Obeys hosts word known (emit ty k name) fun v => Fact.value v ty :=
  emit_obeys_of ha (discreet_of_known hk) ty name

section

variable {t : Terminator} (ht : ∀ v ∈ t.operands, Fact.plain v ∈ known) (hs : ∀ i ∈ t.successors, Fact.inner i ∈ known)

include ht hs

theorem closeBlock_obeys (i : BlockId) : Obeys hosts word known (closeBlock i t) fun _ => [] := by
  refine ⟨fun {s} h hp => ?_⟩
  unfold closeBlock
  simp only [Sat]
  split
  · exact ⟨h, .refl s, by simp⟩
  · have hedit := h.modifyFunction (F := (·.setEnding i t)) (s.terminators + 1) rfl (by simp [Function.setEnding])
      (Function.before_setEnding ..) (h.function.setEnding ⟨fun v hv => hp _ (ht v hv), fun he => hp _ (hs _ he) rfl⟩ i)
    exact ⟨hedit.1, hedit.2, by simp⟩

theorem terminate_obeys : Obeys hosts word known (terminate t) fun _ => [] := by
  refine .get_bind fun s _ _ => ?_
  cases s.current with
  | none => exact demand_obeys ..
  | some i => exact (closeBlock_obeys ht hs i).bind fun _ => demand_obeys ..

end

theorem sealBlock_obeys (i : BlockId) : Obeys hosts word known (sealBlock i) fun _ => [] :=
  closeBlock_obeys (by simp [Terminator.operands]) (by simp [Terminator.successors]) i

theorem br_obeys {i : BlockId} (hi : Fact.inner i ∈ known) : Obeys hosts word known (br i) fun _ => [] :=
  terminate_obeys (by simp [Terminator.operands]) (by simpa [Terminator.successors] using hi)

theorem condBr_obeys {i j : BlockId} (ha : Fact.plain a ∈ known) (hi : Fact.inner i ∈ known)
    (hj : Fact.inner j ∈ known) : Obeys hosts word known (condBr a i j) fun _ => [] :=
  (demand_obeys ..).bind fun _ => terminate_obeys (by simpa [Terminator.operands] using ha)
    (by simpa [Terminator.successors] using ⟨hi, hj⟩)

theorem ret_obeys (ha : Fact.plain a ∈ known) : Obeys hosts word known (ret a) fun _ => [] :=
  terminate_obeys (by simpa [Terminator.operands] using ha) (by simp [Terminator.successors])

theorem retVoid_obeys : Obeys hosts word known retVoid fun _ => [] :=
  terminate_obeys (by simp [Terminator.operands]) (by simp [Terminator.successors])

theorem unreachable_obeys : Obeys hosts word known unreachable fun _ => [] :=
  terminate_obeys (by simp [Terminator.operands]) (by simp [Terminator.successors])

/-! ### Constants -/

theorem constInt_obeys (ty : Ty) (w : UInt64) : Obeys hosts word known (constInt ty w) fun v => Fact.value v ty :=
  pushValue_obeys ..

theorem constBool_obeys (x : Bool) : Obeys hosts word known (constBool x) fun v => Fact.value v .i1 := constInt_obeys ..

theorem constUsize_obeys (w : UInt64) : Obeys hosts word known (constUsize w) fun v => Fact.value v word := by
  refine .get_bind fun s hs _ => ?_
  rw [hs.ptrInt]
  exact constInt_obeys ..

theorem constFloat_obeys (ty : Ty) (w : UInt64) : Obeys hosts word known (constFloat ty w) fun v => Fact.value v ty :=
  pushValue_obeys ..

theorem constNull_obeys : Obeys hosts word known constNull fun v => Fact.value v .ptr := pushValue_obeys ..

theorem globalString_obeys (text : String) :
    Obeys hosts word known (globalString text) fun v => Fact.value v .ptr := by
  have hadd : Obeys hosts word known (onModule (·.addString text)) fun _ => [] := by
    refine ⟨fun hs _ => (onModule_sat (fun m => ⟨addString_grows m text, rfl⟩) (fun _ _ hd => .inl hd) hs).imp ?_⟩
    exact fun _ _ ⟨ht, hb⟩ => ⟨ht, hb, by simp⟩
  exact hadd.bind fun _ => pushValue_obeys ..

/-! ### Memory -/

/-- A new slot. -/
theorem entryAlloca_obeys (ty : Ty) (name : String) :
    Obeys hosts word known (entryAlloca ty name) fun v => [.slot v ty] := by
  refine ⟨fun {s} hs _ => ?_⟩
  let v : Value := ⟨.ptr, .inst Id.entry, name⟩
  let F : Function → Function := fun f => (f.addValue v).addSlot ⟨some ⟨s.function.values.size⟩, .alloca ty⟩
  have hentry : (!(s.modifyFunction (·.addValue v)).function.blocks.isEmpty) = true := by
    rw [Builder.function_modifyFunction hs.valid]
    simpa [Function.addValue, Array.size_pos_iff] using hs.entry
  have hrun : entryAlloca ty name s = (⟨s.function.values.size⟩, s.modifyFunction F) := by
    show (_, ((s.modifyFunction (·.addValue v)).demand .entryExists
      (!(s.modifyFunction (·.addValue v)).function.blocks.isEmpty)).modifyFunction (·.addSlot _)) = _
    rw [Builder.demand, if_pos hentry, modifyFunction_modifyFunction]
    rfl
  have hsize : s.function.blocks.size ≤ (F s.function).blocks.size := by
    simp [F, Function.addSlot, Function.editInsts, Function.addValue]
  have hedit := hs.modifyFunction (F := F) s.terminators rfl hsize (Function.before_withSlot s.function ty v)
    (hs.function.withSlot hs.entry ty v)
  rw [Sat, hrun]
  have hslot : (s.modifyFunction F).function.HasSlot ⟨s.function.values.size⟩ ty := by
    rw [Builder.function_modifyFunction hs.valid]
    exact Function.hasSlot_withSlot hs.entry ty v
  exact ⟨hedit.1, hedit.2, List.forall_mem_singleton.2 hslot⟩

theorem load_obeys (ha : Fact.plain a ∈ known) (ty : Ty) (name : String) :
    Obeys hosts word known (load ty a name) fun v => Fact.value v ty :=
  (demand_obeys ..).bind fun _ => emit_obeys rfl (by simpa [InstKind.operands] using ha) ty name

/-- Reading a slot at its type. -/
theorem load_slot_obeys {ty : Ty} (ha : Fact.slot a ty ∈ known) (name : String) :
    Obeys hosts word known (load ty a name) fun v => Fact.value v ty :=
  (demand_obeys ..).bind fun _ =>
    emit_obeys_of (k := .load ty a) rfl (fun _ hs => .inr (hs (.slot a ty) (by simpa using ha))) ty name

theorem store_obeys (ha : Fact.plain a ∈ known) (hb : Fact.plain b ∈ known) :
    Obeys hosts word known (store a b) fun _ => [] :=
  (demand_obeys ..).bind fun _ => emitVoid_obeys rfl (by simpa [InstKind.operands] using ⟨ha, hb⟩)

/-- Writing a slot at its type. -/
theorem store_slot_obeys (ty : Ty) (ha : Knows known a ty) (hb : Fact.slot b ty ∈ known) :
    Obeys hosts word known (store a b) fun _ => [] := by
  refine (demand_obeys ..).bind fun _ => insert_obeys rfl (fun s hs => ?_) none
  have hplain : s.function.Plain a := hs (.plain a) (by simpa using ha.1)
  have htyped : a.index < s.function.values.size ∧ s.function.valueType a = ty := hs (.typed a ty) (by simpa using ha.2)
  have hslot : s.function.HasSlot b ty := hs (.slot b ty) (by simpa using hb)
  exact ⟨hplain, .inr (htyped.2.symm ▸ hslot)⟩

theorem ptrAdd_obeys (ha : Fact.plain a ∈ known) (hb : Fact.plain b ∈ known) (name : String) :
    Obeys hosts word known (ptrAdd a b name) fun v => Fact.value v .ptr :=
  emit_obeys rfl (by simpa [InstKind.operands] using ⟨ha, hb⟩) ..

theorem fieldPtr_obeys (struct : StructId) (ha : Fact.plain a ∈ known) (field : Nat) (name : String) :
    Obeys hosts word known (fieldPtr struct a field name) fun v => Fact.value v .ptr :=
  (demand_obeys ..).bind fun _ => emit_obeys rfl (by simpa [InstKind.operands] using ha) ..

theorem memCopy_obeys (ha : Fact.plain a ∈ known) (hb : Fact.plain b ∈ known) (hc : Fact.plain c ∈ known) :
    Obeys hosts word known (memCopy a b c) fun _ => [] :=
  emitVoid_obeys rfl (by simpa [InstKind.operands] using ⟨ha, hb, hc⟩)

theorem memMove_obeys (ha : Fact.plain a ∈ known) (hb : Fact.plain b ∈ known) (hc : Fact.plain c ∈ known) :
    Obeys hosts word known (memMove a b c) fun _ => [] :=
  emitVoid_obeys rfl (by simpa [InstKind.operands] using ⟨ha, hb, hc⟩)

/-! ### Arithmetic, comparison and conversion -/

theorem valueType_of_known {s : Builder} {ty : Ty} (hp : ∀ p ∈ known, s.Satisfies p) (ha : Fact.typed a ty ∈ known) :
    s.valueType a = ty := by
  have htyped : a.index < s.function.values.size ∧ s.function.valueType a = ty := hp _ ha
  exact htyped.2

theorem binary_obeys (op : BinOp) (ty : Ty) (ha : Knows known a ty) (hb : Fact.plain b ∈ known) (name : String) :
    Obeys hosts word known (binary op a b name) fun v => Fact.value v ty := by
  refine (demand_obeys ..).bind fun _ => (demand_obeys ..).bind fun _ => .get_bind fun s _ hp => ?_
  rw [valueType_of_known hp (by simpa using ha.2)]
  exact emit_obeys rfl (by simpa [InstKind.operands] using ⟨ha.1, hb⟩) ..

theorem neg_obeys (ty : Ty) (ha : Knows known a ty) (name : String) :
    Obeys hosts word known (neg a name) fun v => Fact.value v ty := by
  refine .get_bind fun s _ hp => ?_
  rw [valueType_of_known hp ha.2]
  exact (constInt_obeys ..).bind fun _ => binary_obeys _ ty (by simp) (by simp [ha]) _

theorem fneg_obeys (ty : Ty) (ha : Knows known a ty) (name : String) :
    Obeys hosts word known (fneg a name) fun v => Fact.value v ty := by
  refine .get_bind fun s _ hp => ?_
  rw [valueType_of_known hp ha.2]
  exact emit_obeys rfl (by simpa [InstKind.operands] using ha.1) ..

theorem not_obeys (ty : Ty) (ha : Knows known a ty) (name : String) :
    Obeys hosts word known (Emit.not a name) fun v => Fact.value v ty := by
  refine .get_bind fun s _ hp => ?_
  rw [valueType_of_known hp ha.2]
  exact (constInt_obeys ..).bind fun _ => binary_obeys _ ty (by simp [ha]) (by simp) _

theorem icmp_obeys (pred : IntPred) (ha : Fact.plain a ∈ known) (hb : Fact.plain b ∈ known) (name : String) :
    Obeys hosts word known (icmp pred a b name) fun v => Fact.value v .i1 :=
  (demand_obeys ..).bind fun _ => emit_obeys rfl (by simpa [InstKind.operands] using ⟨ha, hb⟩) ..

theorem fcmp_obeys (pred : FloatPred) (ha : Fact.plain a ∈ known) (hb : Fact.plain b ∈ known) (name : String) :
    Obeys hosts word known (fcmp pred a b name) fun v => Fact.value v .i1 :=
  emit_obeys rfl (by simpa [InstKind.operands] using ⟨ha, hb⟩) ..

theorem cast_obeys (op : CastOp) (ha : Fact.plain a ∈ known) (ty : Ty) (name : String) :
    Obeys hosts word known (cast op a ty name) fun v => Fact.value v ty :=
  emit_obeys rfl (by simpa [InstKind.operands] using ha) ..

theorem intResize_obeys {ty : Ty} (ha : Knows known a ty) (ht : ty.isInt = true) {target : Ty}
    (hu : target.isInt = true) (signed : Bool) (name : String) :
    Obeys hosts word known (intResize a target signed name) fun v => Fact.value v target := by
  refine .get_bind fun s _ hp => ?_
  rw [valueType_of_known hp ha.2]
  dsimp only
  split
  · rename_i h
    obtain ⟨n, hn⟩ := Option.isSome_iff_exists.1 ht
    obtain ⟨m, hm⟩ := Option.isSome_iff_exists.1 hu
    rw [hn, hm, Option.getD_some, Option.getD_some] at h
    obtain rfl := eq_of_intBits? hn (h ▸ hm)
    exact .pure (by simpa using ha)
  · split <;> exact cast_obeys _ ha.1 ..

/-! ### Selection, merging and calls -/

theorem select_obeys (ty : Ty) (ha : Fact.plain a ∈ known) (hb : Knows known b ty) (hc : Fact.plain c ∈ known)
    (name : String) : Obeys hosts word known (select a b c name) fun v => Fact.value v ty := by
  refine .get_bind fun s _ hp => ?_
  rw [valueType_of_known hp hb.2]
  exact emit_obeys rfl (by simpa [InstKind.operands] using ⟨ha, hb.1, hc⟩) ..

/-- Values are merged behind the entry block, whose first instructions are slots. -/
theorem phi_obeys {incoming : List (ValueId × BlockId)} (hm : Fact.moved ∈ known)
    (hi : ∀ e ∈ incoming, Fact.plain e.1 ∈ known) (ty : Ty) (name : String) :
    Obeys hosts word known (phi ty incoming name) fun v => Fact.value v ty := by
  refine .get_bind fun s _ hp => ?_
  have hmoved : s.current ≠ some Id.entry := hp _ hm
  cases hc : s.current with
  | none => exact (demand_obeys ..).bind fun _ => constInt_obeys ..
  | some i =>
    have hne : i ≠ Id.entry := fun he => hmoved (he ▸ hc)
    refine (pushValue_obeys ..).bind fun v => ?_
    have hins := Function.inserts_insertAfterLeading (·.kind.isPhi) ⟨some v, .phi ty incoming⟩
    refine (editInsts_obeys hins rfl (discreet_of_known ?_) fun hf => hf.editInsts hins rfl hne).bind fun _ =>
      .pure (by simp +contextual)
    simpa [InstKind.operands] using fun v j hv => .inr (hi (v, j) hv)

/-- A call has a result if it returns a value at all. -/
theorem callAt_obeys {args : List ValueId} (hargs : ∀ v ∈ args, Fact.plain v ∈ known) (callee : Callee) {ret ty : Ty}
    (ht : ret ≠ .void → ret = ty) (name : String) :
    Obeys hosts word known (callAt callee ret args name) fun r => r.elim [] (Fact.value · ty) := by
  unfold callAt
  split
  · exact (emitVoid_obeys rfl (by simpa [InstKind.operands] using hargs)).bind fun _ => .pure (by simp)
  · rename_i hret
    rw [ht hret]
    exact (emit_obeys rfl (by simpa [InstKind.operands] using hargs) ..).map (by simp)

theorem call_obeys {args : List ValueId} (hargs : ∀ v ∈ args, Fact.plain v ∈ known) {func : FuncId} {ret : Ty}
    (hf : Fact.returns (.func func) ret ∈ known) (ty : Ty) (ht : ret ≠ .void → ret = ty) (name : String) :
    Obeys hosts word known (call func args name) fun r => r.elim [] (Fact.value · ty) := by
  refine (demand_obeys ..).bind fun _ => .get_bind fun s _ hp => ?_
  obtain ⟨params, hs⟩ : ∃ params, s.module.signature? (.func func) = some (params, ret) :=
    hp (.returns (.func func) ret) (by simpa using hf)
  obtain ⟨f, hfun, hret⟩ := Option.map_eq_some_iff.1 hs
  rw [hfun, Option.elim_some, show f.ret = ret from congrArg Prod.snd hret]
  exact callAt_obeys (by simpa using hargs) _ ht name

theorem callHost_obeys {args : List ValueId} (hargs : ∀ v ∈ args, Fact.plain v ∈ known) (host : HostId)
    (name : String) : Obeys hosts word known (callHost host args name) fun r => r.elim [] ([.plain ·]) := by
  refine .get_bind fun s _ _ => (callAt_obeys hargs _ (fun _ => rfl) name).imp fun r p hp => ?_
  cases r with
  | none => exact absurd hp List.not_mem_nil
  | some v => exact List.mem_append_left _ (Fact.mem_value.2 (.inl (List.mem_singleton.1 hp)))

/-- A call of a host function that is known to return values of the type. -/
theorem callHost_returns_obeys {args : List ValueId} (hargs : ∀ v ∈ args, Fact.plain v ∈ known) {host : HostId}
    {ret : Ty} (hh : Fact.returns (.host host) ret ∈ known) (name : String) :
    Obeys hosts word known (callHost host args name) fun r => r.elim [] (Fact.value · ret) := by
  refine .get_bind fun s _ hp => ?_
  obtain ⟨params, hs⟩ : ∃ params, s.module.signature? (.host host) = some (params, ret) := hp _ hh
  obtain ⟨d, hhost, hret⟩ := Option.map_eq_some_iff.1 hs
  rw [hhost, Option.elim_some, show d.ret = ret from congrArg Prod.snd hret]
  exact callAt_obeys hargs _ (fun _ => rfl) name

theorem mem_hosts_declareHost {m : Module} {name : String} {params : List Ty} {ret : Ty} {d : HostDecl}
    (hd : d ∈ (m.declareHost name params ret).2.hosts.toList) : d ∈ m.hosts.toList ∨ d = ⟨name, params, ret⟩ := by
  unfold Module.declareHost at hd
  split at hd
  · exact .inl hd
  · simpa using hd

theorem host?_declareHost (m : Module) (name : String) (params : List Ty) (ret : Ty) :
    ∃ d, (m.declareHost name params ret).2.host? (m.declareHost name params ret).1 = some d ∧ d.name = name ∧
      d ∈ (m.declareHost name params ret).2.hosts.toList := by
  unfold Module.declareHost
  split
  · rename_i i hi
    obtain ⟨hlt, hn, -⟩ := Array.findIdx?_eq_some_iff_getElem.1 hi
    exact ⟨m.hosts[i], by simp [Module.host?, hlt], by simpa using hn, by simp⟩
  · exact ⟨⟨name, params, ret⟩, by simp [Module.host?], rfl, by simp⟩

theorem declareHost_discreet {name : String} {params : List Ty} {ret : Ty} (hd : ⟨name, params, ret⟩ ∈ hosts)
    {s : Builder} (hs : s.Discreet hosts word) :
    (onModule (·.declareHost name params ret)).Sat s fun _ t => t.Discreet hosts word ∧ s.Before t :=
  onModule_sat (fun m => m.declareHost_grows name params ret)
    (fun _ _ he => (mem_hosts_declareHost he).imp_right fun he => he ▸ hd) hs

theorem declareHost_obeys {name : String} {params : List Ty} {ret : Ty} (hd : ⟨name, params, ret⟩ ∈ hosts) :
    Obeys hosts word known (onModule (·.declareHost name params ret)) fun _ => [] :=
  ⟨fun hs _ => (declareHost_discreet hd hs).imp fun _ _ ⟨ht, hb⟩ => ⟨ht, hb, by simp⟩⟩

/-- A host function that is declared returns what all of the host functions of its name do. -/
theorem declareHost_returns_obeys {name : String} {params : List Ty} {ret : Ty} (hd : ⟨name, params, ret⟩ ∈ hosts)
    (hr : ∀ d ∈ hosts, d.name = name → d.ret = ret) :
    Obeys hosts word known (onModule (·.declareHost name params ret)) fun host => [.returns (.host host) ret] := by
  refine ⟨fun {s} hs _ => ?_⟩
  obtain ⟨ht, hb⟩ := declareHost_discreet hd hs
  obtain ⟨d, hhost, hname, hmem⟩ := host?_declareHost s.module name params ret
  refine ⟨ht, hb, List.forall_mem_singleton.2 ⟨d.params, ?_⟩⟩
  show ((s.module.declareHost name params ret).2.host? (s.module.declareHost name params ret).1).map _ = _
  rw [hhost, ← hr d (ht.hosts d hmem) hname]
  rfl

end Emit

end BlockForge.Ir
