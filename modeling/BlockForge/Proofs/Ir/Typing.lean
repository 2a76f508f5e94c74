import BlockForge.Proofs.Ir.Code

/-!
# Well-typed functions

What every instruction and terminator of a function asks of its operands, given the module around it,
and the order in which a function and its module grow. All of these facts are kept by growth, so what
holds of an instruction when it is emitted holds of it in the finished module.
-/

namespace BlockForge.Ir

/-! ### Types -/

/-- The types of values in registers: integers, floats and addresses. -/
def Ty.isScalar (t : Ty) : Bool := t.isInt || t.isFloat || t.isPtr

/-- What a conversion converts between. -/
def CastOp.Fits (op : CastOp) (source target : Ty) : Prop :=
  match op with
  | .trunc => source.isInt = true ∧ target.isInt = true
  | .sext | .zext =>
    ∃ n k, source.intBits? = some n ∧ target.intBits? = some k ∧ n ≤ k
  | .sitofp | .uitofp => source.isInt = true ∧ target.isFloat = true
  | .fptosi | .fptoui => source.isFloat = true ∧ target.isInt = true
  | .fpext | .fptrunc => source.isFloat = true ∧ target.isFloat = true

/-- Parameter and return types of what a call runs. -/
def Module.signature? (m : Module) : Callee → Option (List Ty × Ty)
  | .func id => (m.function? id).map fun f => (f.params, f.ret)
  | .host id => (m.host? id).map fun h => (h.params, h.ret)

/-- A constant is of the kind of its type and fits its width. -/
def Value.Fits (v : Value) : Prop :=
  match v.kind with
  | .constInt bits => ∃ n, v.ty.intBits? = some n ∧ bits.toNat < 2 ^ n
  | .constFloat _ => v.ty.isFloat = true
  | .constNull | .global _ => v.ty = .ptr
  | .param _ | .inst _ => True

/-! ### Values -/

namespace Function

/-- Whether some instruction gives the value. -/
def Defines (f : Function) (v : ValueId) : Prop :=
  ∃ i, ∃ inst ∈ f.code i, inst.result = some v

/-- A constant, or the result of an instruction, of the given type. -/
structure Has (f : Function) (v : ValueId) (t : Ty) : Prop where
  entry : ∃ val, f.value? v = some val ∧ val.ty = t ∧ (∀ n, val.kind ≠ .param n) ∧
    ∀ b, val.kind = .inst b → f.Defines v
  scalar : t.isScalar = true

/-- A parameter of the given type. -/
structure HasParam (f : Function) (v : ValueId) (t : Ty) : Prop where
  entry : ∃ n name, f.value? v = some ⟨t, .param n, name⟩ ∧ f.params[n]? = some t
  scalar : t.isScalar = true

theorem Has.valueType_eq {f : Function} {v : ValueId} {t : Ty} (h : f.Has v t) :
    f.valueType v = t := by
  obtain ⟨val, hv, ht, -⟩ := h.entry
  simp [valueType, hv, ht]

theorem Has.unique {f : Function} {v : ValueId} {t u : Ty} (h : f.Has v t) (k : f.Has v u) :
    t = u := h.valueType_eq.symm.trans k.valueType_eq

theorem HasParam.valueType_eq {f : Function} {v : ValueId} {t : Ty} (h : f.HasParam v t) :
    f.valueType v = t := by
  obtain ⟨n, name, hv, -⟩ := h.entry
  simp [valueType, hv]

end Function

/-! ### Instructions and terminators -/

/-- What an instruction asks of its operands, and the type of its result. -/
def InstKind.Typed (m : Module) (f : Function) : InstKind → Option Ty → Prop
  | .alloca t, r => t.isScalar = true ∧ r = some .ptr
  | .load t p, r => f.Has p .ptr ∧ t.isScalar = true ∧ r = some t
  | .store v p, r => ((∃ t, f.Has v t) ∨ ∃ t, f.HasParam v t) ∧ f.Has p .ptr ∧ r = none
  | .binary op a b, r =>
    ∃ t, f.Has a t ∧ f.Has b t ∧ op.isFloat = t.isFloat ∧ (t.isFloat = true ∨ t.isInt = true) ∧
      r = some t
  | .fneg a, r => ∃ t, f.Has a t ∧ t.isFloat = true ∧ r = some t
  | .icmp _ a b, r =>
    ∃ t, f.Has a t ∧ f.Has b t ∧ (t.isInt = true ∨ t = .ptr) ∧ r = some .i1
  | .fcmp _ a b, r => ∃ t, f.Has a t ∧ f.Has b t ∧ t.isFloat = true ∧ r = some .i1
  | .cast op v target, r => ∃ t, f.Has v t ∧ op.Fits t target ∧ r = some target
  | .select c a b, r => ∃ t, f.Has c .i1 ∧ f.Has a t ∧ f.Has b t ∧ r = some t
  | .phi t incoming, r => (∀ e ∈ incoming, f.Has e.1 t) ∧ r = some t
  | .call callee args ret, r =>
    ∃ params, m.signature? callee = some (params, ret) ∧ List.Forall₂ f.Has args params ∧
      r = if ret = .void then none else some ret
  | .ptrAdd p o, r => f.Has p .ptr ∧ f.Has o m.ptrInt ∧ r = some .ptr
  | .fieldPtr s p k, r => f.Has p .ptr ∧ k < (m.structFields s).length ∧ r = some .ptr
  | .memCopy d s l, r | .memMove d s l, r =>
    f.Has d .ptr ∧ f.Has s .ptr ∧ f.Has l m.ptrInt ∧ r = none

/-- An instruction whose operands fit and whose result is entered as one. -/
structure Inst.Ok (m : Module) (f : Function) (i : Inst) : Prop where
  result : ∀ r, i.result = some r → ∃ val b, f.value? r = some val ∧ val.kind = .inst b
  typed : i.kind.Typed m f (i.result.map f.valueType)

def Terminator.Ok (f : Function) : Terminator → Prop
  | .br b => b.index < f.blocks.size
  | .condBr c a b => f.Has c .i1 ∧ a.index < f.blocks.size ∧ b.index < f.blocks.size
  | .ret none => f.ret = .void
  | .ret (some v) => f.Has v f.ret
  | .unreachable => True

theorem Terminator.Ok.lt_size {f : Function} {t : Terminator} (h : t.Ok f) :
    ∀ b ∈ t.successors, b.index < f.blocks.size := by
  intro b hb
  cases t with
  | br a =>
    obtain rfl : b = a := by simpa [successors] using hb
    exact h
  | condBr c x y =>
    rcases (by simpa [successors] using hb : b = x ∨ b = y) with rfl | rfl
    · exact h.2.1
    · exact h.2.2
  | ret v => simp [successors] at hb
  | unreachable => simp [successors] at hb

/-! ### Growth -/

/-- Control can get from one block to another. -/
def Function.Path (f : Function) : BlockId → BlockId → Prop :=
  Relation.ReflTransGen fun i j => j ∈ f.succs i

/-- A function that has been built further: nothing that was there has changed, but a block that had
not ended may have gone on. -/
structure Function.Grows (f g : Function) : Prop where
  name : g.name = f.name
  params : g.params = f.params
  ret : g.ret = f.ret
  values : f.values.toList <+: g.values.toList
  size : f.blocks.size ≤ g.blocks.size
  slots : ∀ i, f.slots i <+: g.slots i
  body : ∀ i, f.body i <+: g.body i
  ended : ∀ {i t}, f.ending i = some t → g.ending i = some t ∧ g.body i = f.body i

/-- A module in which more has been declared; struct types and signatures stay. -/
structure Module.Grows (m n : Module) : Prop where
  pointerBits : n.pointerBits = m.pointerBits
  structs : n.structs = m.structs
  globals : m.globals.toList <+: n.globals.toList
  hosts : m.hosts.toList <+: n.hosts.toList
  header : ∀ {j f}, m.function? j = some f →
    ∃ g, n.function? j = some g ∧ g.name = f.name ∧ g.params = f.params ∧ g.ret = f.ret

theorem getElem?_of_prefix {α : Type} {xs ys : Array α} (h : xs.toList <+: ys.toList) {i : Nat}
    {a : α} (hi : xs[i]? = some a) : ys[i]? = some a := by
  have hlt : i < xs.size := (Array.getElem?_eq_some_iff.1 hi).1
  obtain ⟨rest, hrest⟩ := h
  rw [← Array.getElem?_toList] at hi ⊢
  rw [← hrest, List.getElem?_append_left (by simpa using hlt), hi]

namespace Function.Grows

theorem refl (f : Function) : f.Grows f where
  name := rfl
  params := rfl
  ret := rfl
  values := List.prefix_refl _
  size := Nat.le_refl _
  slots _ := List.prefix_refl _
  body _ := List.prefix_refl _
  ended h := ⟨h, rfl⟩

theorem trans {f g h : Function} (a : f.Grows g) (b : g.Grows h) : f.Grows h where
  name := b.name.trans a.name
  params := b.params.trans a.params
  ret := b.ret.trans a.ret
  values := a.values.trans b.values
  size := Nat.le_trans a.size b.size
  slots i := (a.slots i).trans (b.slots i)
  body i := (a.body i).trans (b.body i)
  ended ht := by
    obtain ⟨h₁, h₂⟩ := a.ended ht
    obtain ⟨h₃, h₄⟩ := b.ended h₁
    exact ⟨h₃, h₄.trans h₂⟩

variable {f g : Function} (h : f.Grows g)

include h

theorem value? {v : ValueId} {val : Value} (hv : f.value? v = some val) : g.value? v = some val :=
  getElem?_of_prefix h.values hv

theorem valuesSize : f.values.size ≤ g.values.size := by
  simpa using h.values.length_le

theorem mem_code {i : BlockId} {inst : Inst} (hi : inst ∈ f.code i) : inst ∈ g.code i := by
  rcases mem_code_iff.1 hi with hs | hb
  · exact mem_code_iff.2 (.inl ((h.slots i).subset hs))
  · exact mem_code_iff.2 (.inr ((h.body i).subset hb))

theorem defines {v : ValueId} (hv : f.Defines v) : g.Defines v := by
  obtain ⟨i, inst, hi, hr⟩ := hv
  exact ⟨i, inst, h.mem_code hi, hr⟩

theorem has {v : ValueId} {t : Ty} (hv : f.Has v t) : g.Has v t := by
  obtain ⟨val, hval, ht, hp, hd⟩ := hv.entry
  exact ⟨⟨val, h.value? hval, ht, hp, fun b hb => h.defines (hd b hb)⟩, hv.scalar⟩

theorem hasParam {v : ValueId} {t : Ty} (hv : f.HasParam v t) : g.HasParam v t := by
  obtain ⟨n, name, hval, ht⟩ := hv.entry
  exact ⟨⟨n, name, h.value? hval, by rw [h.params]; exact ht⟩, hv.scalar⟩

theorem hasAll {vs : List ValueId} {ts : List Ty} (hv : List.Forall₂ f.Has vs ts) :
    List.Forall₂ g.Has vs ts := hv.imp fun _ _ => h.has

theorem valueType_eq {v : ValueId} {val : Value} (hv : f.value? v = some val) :
    g.valueType v = f.valueType v := by
  simp [valueType, hv, h.value? hv]

theorem succs {i j : BlockId} (hj : j ∈ f.succs i) : j ∈ g.succs i := by
  cases ht : f.ending i with
  | none => simp [Function.succs, ht] at hj
  | some t =>
    simp only [Function.succs, ht, (h.ended ht).1] at hj ⊢
    exact hj

theorem path {i j : BlockId} (hp : f.Path i j) : g.Path i j :=
  Relation.ReflTransGen.mono (fun _ _ => h.succs) _ _ hp

theorem terminatorOk {t : Terminator} (ht : t.Ok f) : t.Ok g := by
  cases t with
  | br b => exact Nat.lt_of_lt_of_le (show b.index < f.blocks.size from ht) h.size
  | condBr c a b =>
    exact ⟨h.has ht.1, Nat.lt_of_lt_of_le ht.2.1 h.size, Nat.lt_of_lt_of_le ht.2.2 h.size⟩
  | ret v =>
    cases v with
    | none => exact h.ret.trans ht
    | some v =>
      have := h.has (show f.Has v f.ret from ht)
      rw [← h.ret] at this
      exact this
  | unreachable => trivial

end Function.Grows

namespace Module.Grows

theorem refl (m : Module) : m.Grows m where
  pointerBits := rfl
  structs := rfl
  globals := List.prefix_refl _
  hosts := List.prefix_refl _
  header h := ⟨_, h, rfl, rfl, rfl⟩

theorem trans {m n o : Module} (a : m.Grows n) (b : n.Grows o) : m.Grows o where
  pointerBits := b.pointerBits.trans a.pointerBits
  structs := b.structs.trans a.structs
  globals := a.globals.trans b.globals
  hosts := a.hosts.trans b.hosts
  header h := by
    obtain ⟨g, hg, h₁, h₂, h₃⟩ := a.header h
    obtain ⟨k, hk, h₄, h₅, h₆⟩ := b.header hg
    exact ⟨k, hk, h₄.trans h₁, h₅.trans h₂, h₆.trans h₃⟩

variable {m n : Module} (h : m.Grows n)

include h

theorem ptrInt : n.ptrInt = m.ptrInt := by simp [Module.ptrInt, h.pointerBits]

theorem structFields (s : StructId) : n.structFields s = m.structFields s := by
  simp [Module.structFields, h.structs]

theorem host? {i : HostId} {d : HostDecl} (hd : m.host? i = some d) : n.host? i = some d :=
  getElem?_of_prefix h.hosts hd

theorem signature? {c : Callee} {s : List Ty × Ty} (hs : m.signature? c = some s) :
    n.signature? c = some s := by
  cases c with
  | func id =>
    obtain ⟨f, hf, rfl⟩ := Option.map_eq_some_iff.1 hs
    obtain ⟨g, hg, -, hp, hr⟩ := h.header hf
    simp [Module.signature?, hg, hp, hr]
  | host id =>
    obtain ⟨d, hd, rfl⟩ := Option.map_eq_some_iff.1 hs
    simp [Module.signature?, h.host? hd]

end Module.Grows

theorem InstKind.Typed.mono {m n : Module} {f g : Function} (hm : m.Grows n) (hf : f.Grows g)
    {k : InstKind} {r : Option Ty} (h : k.Typed m f r) : k.Typed n g r := by
  cases k with
  | alloca t => exact h
  | load t p => exact ⟨hf.has h.1, h.2⟩
  | store v p =>
    obtain ⟨hv, hp, hr⟩ := h
    refine ⟨?_, hf.has hp, hr⟩
    rcases hv with ⟨t, ht⟩ | ⟨t, ht⟩
    · exact .inl ⟨t, hf.has ht⟩
    · exact .inr ⟨t, hf.hasParam ht⟩
  | binary op a b =>
    obtain ⟨t, ha, hb, h⟩ := h
    exact ⟨t, hf.has ha, hf.has hb, h⟩
  | fneg a =>
    obtain ⟨t, ha, h⟩ := h
    exact ⟨t, hf.has ha, h⟩
  | icmp p a b =>
    obtain ⟨t, ha, hb, h⟩ := h
    exact ⟨t, hf.has ha, hf.has hb, h⟩
  | fcmp p a b =>
    obtain ⟨t, ha, hb, h⟩ := h
    exact ⟨t, hf.has ha, hf.has hb, h⟩
  | cast op v target =>
    obtain ⟨t, hv, h⟩ := h
    exact ⟨t, hf.has hv, h⟩
  | select c a b =>
    obtain ⟨t, hc, ha, hb, h⟩ := h
    exact ⟨t, hf.has hc, hf.has ha, hf.has hb, h⟩
  | phi t incoming => exact ⟨fun e he => hf.has (h.1 e he), h.2⟩
  | call callee args ret =>
    obtain ⟨params, hs, ha, h⟩ := h
    exact ⟨params, hm.signature? hs, hf.hasAll ha, h⟩
  | ptrAdd p o => exact ⟨hf.has h.1, by rw [hm.ptrInt]; exact hf.has h.2.1, h.2.2⟩
  | fieldPtr s p k => exact ⟨hf.has h.1, by rw [hm.structFields]; exact h.2⟩
  | memCopy d s l =>
    exact ⟨hf.has h.1, hf.has h.2.1, by rw [hm.ptrInt]; exact hf.has h.2.2.1, h.2.2.2⟩
  | memMove d s l =>
    exact ⟨hf.has h.1, hf.has h.2.1, by rw [hm.ptrInt]; exact hf.has h.2.2.1, h.2.2.2⟩

theorem Inst.Ok.mono {m n : Module} {f g : Function} (hm : m.Grows n) (hf : f.Grows g) {i : Inst}
    (h : i.Ok m f) : i.Ok n g := by
  constructor
  · intro r hr
    obtain ⟨val, b, hv, hk⟩ := h.result r hr
    exact ⟨val, b, hf.value? hv, hk⟩
  · have ht := h.typed.mono hm hf
    cases hr : i.result with
    | none =>
      rw [hr] at ht
      exact ht
    | some r =>
      obtain ⟨val, b, hv, -⟩ := h.result r hr
      rw [hr, Option.map_some, ← hf.valueType_eq hv] at ht
      exact ht

end BlockForge.Ir
