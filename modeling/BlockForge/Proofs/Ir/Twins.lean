import BlockForge.Proofs.Ir.Shape
import BlockForge.Proofs.Ir.Tandem

/-!
# Building one function in two modules

Modules with the same declarations may differ in the bodies of functions, in their constant texts and in the
host functions declared so far. Two builders for the same function of such modules are `Twins` if they are at
the same position of the same code, where texts and host functions may have other numbers. Every operation of
the builder gives the same result on twins and leaves twins.
-/

/-! ### Two runs -/

/-- What holds of the results and of the states after two stateful computations. -/
def StateM.Coupled {σ α β : Type} (x : StateM σ α) (s : σ) (y : StateM σ β) (t : σ)
    (Q : α → σ → β → σ → Prop) : Prop :=
  Q (x s).1 (x s).2 (y t).1 (y t).2

/-- Gives one result and related states, wherever it starts. -/
structure StateM.Agrees {σ α : Type} (R : σ → σ → Prop) (x : StateM σ α) : Prop where
  run : ∀ {s t}, R s t → x.Coupled s x t fun a s' a' t' => a' = a ∧ R s' t'

namespace StateM

variable {σ α β γ δ : Type} {R : σ → σ → Prop}

theorem Coupled.bind {x : StateM σ α} {y : StateM σ β} {f : α → StateM σ γ} {g : β → StateM σ δ} {s t : σ}
    {P : α → σ → β → σ → Prop} {Q : γ → σ → δ → σ → Prop} (h : x.Coupled s y t P)
    (k : ∀ a s' b t', P a s' b t' → (f a).Coupled s' (g b) t' Q) : (x >>= f).Coupled s (y >>= g) t Q :=
  k _ _ _ _ h

theorem Coupled.get_bind {f : σ → StateM σ α} {g : σ → StateM σ β} {s t : σ} {Q : α → σ → β → σ → Prop}
    (h : (f s).Coupled s (g t) t Q) : (get >>= f).Coupled s (get >>= g) t Q := h

theorem Agrees.pure (a : α) : Agrees R (Pure.pure a) := ⟨fun h => ⟨rfl, h⟩⟩

theorem Agrees.bind {x : StateM σ α} {f : α → StateM σ β} (h : Agrees R x) (k : ∀ a, Agrees R (f a)) :
    Agrees R (x >>= f) := by
  refine ⟨fun hst => Coupled.bind (h.run hst) ?_⟩
  rintro a s' _ t' ⟨rfl, hst'⟩
  exact (k _).run hst'

theorem Agrees.map {x : StateM σ α} (f : α → β) (h : Agrees R x) : Agrees R (f <$> x) := by
  refine ⟨fun hst => ?_⟩
  obtain ⟨ha, hst'⟩ := h.run hst
  exact ⟨congrArg f ha, hst'⟩

/-- Reading the state agrees if it goes on with what is the same in both. -/
theorem Agrees.get_bind {f : σ → StateM σ α}
    (h : ∀ s t, R s t → (f s).Coupled s (f t) t fun a s' a' t' => a' = a ∧ R s' t') : Agrees R (get >>= f) :=
  ⟨fun hst => h _ _ hst⟩

theorem Agrees.modify {f : σ → σ} (h : ∀ s t, R s t → R (f s) (f t)) : Agrees R (modify f) :=
  ⟨fun hst => ⟨rfl, h _ _ hst⟩⟩

open BlockForge.Ir (Links Linkable ValueId) in
/-- What agrees with itself follows itself, every value linked to itself. -/
theorem Agrees.follows [Linkable α] {x y : StateM σ α} {known : List (ValueId × ValueId)} (h : Agrees R x)
    (hxy : (∀ v w, (v, w) ∈ known → w = v) → y = x)
    (hself : ∀ a : α, Linkable.same a a ∧ ∀ p ∈ Linkable.pairs a a, p.2 = p.1) :
    Follows (fun L s t => L.Diagonal ∧ R s t) known x y := by
  refine ⟨fun {L s t} hL ⟨hd, hst⟩ => ?_⟩
  obtain rfl := hxy fun v w hp => hd.eq (hL _ hp)
  obtain ⟨ha, hst'⟩ := h.run hst
  rw [ha]
  refine ⟨L ∪ {p | p ∈ Linkable.pairs (y s).1 (y s).1}, Set.subset_union_left, ⟨?_, hst'⟩, (hself _).1, ?_⟩
  · rintro p (hp | hp)
    · exact hd p hp
    · exact (hself _).2 p hp
  · exact fun p hp => .inr hp

end StateM

namespace BlockForge.Ir

open StateM

/-! ### Arrays entry by entry -/

/-- Arrays of one size whose entries are related one by one. -/
def Paired {α β : Type} (R : α → β → Prop) (xs : Array α) (ys : Array β) : Prop :=
  List.Forall₂ R xs.toList ys.toList

namespace Paired

variable {α β : Type} {R S : α → β → Prop} {xs : Array α} {ys : Array β}

theorem size_eq (h : Paired R xs ys) : ys.size = xs.size := by
  have := h.length_eq
  simpa using this.symm

theorem imp (h : Paired R xs ys) (k : ∀ x y, R x y → S x y) : Paired S xs ys :=
  List.Forall₂.imp (fun x y hxy => k x y hxy) h

theorem push (h : Paired R xs ys) {x : α} {y : β} (hxy : R x y) : Paired R (xs.push x) (ys.push y) := by
  unfold Paired
  rw [Array.toList_push, Array.toList_push]
  exact List.rel_append h (.cons hxy .nil)

/-- What stands at a position of both. -/
theorem entry (h : Paired R xs ys) (i : Nat) :
    (xs[i]? = none ∧ ys[i]? = none) ∨ ∃ x y, xs[i]? = some x ∧ ys[i]? = some y ∧ R x y := by
  by_cases hi : i < xs.size
  · have hi' : i < ys.size := by rw [h.size_eq]; exact hi
    refine .inr ⟨xs[i], ys[i], Array.getElem?_eq_getElem hi, Array.getElem?_eq_getElem hi', ?_⟩
    exact List.Forall₂.get h (by simpa using hi) (by simpa using hi')
  · have hi' : ¬ i < ys.size := by rw [h.size_eq]; exact hi
    exact .inl ⟨by simpa using hi, by simpa using hi'⟩

theorem of_entries (hsize : ys.size = xs.size)
    (h : ∀ (i : Nat) x y, xs[i]? = some x → ys[i]? = some y → R x y) : Paired R xs ys := by
  refine List.forall₂_iff_get.2 ⟨by simpa using hsize.symm, fun i hx hy => ?_⟩
  exact h i _ _ (by simp) (by simp)

theorem modify (h : Paired R xs ys) (i : Nat) {f : α → α} {g : β → β}
    (k : ∀ x y, R x y → R (f x) (g y)) : Paired R (xs.modify i f) (ys.modify i g) := by
  refine of_entries (by simp [h.size_eq]) fun j x y hx hy => ?_
  rw [Array.getElem?_modify] at hx hy
  rcases h.entry j with ⟨hn, -⟩ | ⟨x', y', hx', hy', hxy⟩
  · rw [hn] at hx
    split at hx <;> cases hx
  · rw [hx'] at hx
    rw [hy'] at hy
    by_cases hij : i = j
    · rw [if_pos hij] at hx hy
      cases hx
      cases hy
      exact k _ _ hxy
    · rw [if_neg hij] at hx hy
      cases hx
      cases hy
      exact hxy

theorem same {S : α → α → Prop} (h : ∀ x ∈ xs, S x x) : Paired S xs xs :=
  List.forall₂_same.2 fun x hx => h x (by simpa using hx)

theorem flip (h : Paired R xs ys) : Paired (fun y x => R x y) ys xs := List.Forall₂.flip h

theorem comp {γ : Type} {zs : Array γ} {T : β → γ → Prop} {U : α → γ → Prop} (h : Paired R xs ys)
    (h' : Paired T ys zs) (k : ∀ x y z, R x y → T y z → U x z) : Paired U xs zs := by
  refine of_entries (h'.size_eq.trans h.size_eq) fun i x z hx hz => ?_
  rcases h.entry i with ⟨hn, -⟩ | ⟨x', y, hx', hy, hxy⟩
  · rw [hn] at hx
    cases hx
  · rcases h'.entry i with ⟨hn, -⟩ | ⟨y', z', hy', hz', hyz⟩
    · rw [hn] at hy
      cases hy
    · rw [hx] at hx'
      rw [hy] at hy'
      rw [hz] at hz'
      cases hx'
      cases hy'
      cases hz'
      exact k x y z hxy hyz

theorem map_eq {γ : Type} (h : Paired R xs ys) {f : α → γ} {g : β → γ} (k : ∀ x y, R x y → g y = f x) :
    ys.map g = xs.map f := by
  refine Array.ext_getElem? fun i => ?_
  rw [Array.getElem?_map, Array.getElem?_map]
  rcases h.entry i with ⟨hx, hy⟩ | ⟨x, y, hx, hy, hxy⟩
  · rw [hx, hy]
    rfl
  · rw [hx, hy, Option.map_some, Option.map_some, k x y hxy]

end Paired

/-! ### Code up to numbers -/

/-- What the functions of a module share: constant texts and host functions. -/
structure Shared where
  globals : Array Global
  hosts : Array HostDecl

def Module.shared (m : Module) : Shared := ⟨m.globals, m.hosts⟩

/-- Everything shared has kept its number. -/
structure Shared.Grows (S T : Shared) : Prop where
  globals : S.globals.toList <+: T.globals.toList
  hosts : S.hosts.toList <+: T.hosts.toList

theorem Shared.Grows.refl (S : Shared) : S.Grows S := ⟨List.prefix_refl _, List.prefix_refl _⟩

theorem Shared.Grows.trans {S T U : Shared} (h : S.Grows T) (k : T.Grows U) : S.Grows U :=
  ⟨h.globals.trans k.globals, h.hosts.trans k.hosts⟩

/-- Whether an instruction calls the host. -/
def InstKind.callsHost : InstKind → Bool
  | .call (.host _) _ _ => true
  | _ => false

/-- The same value, where a text may have another number. -/
inductive Value.Alike (S T : Shared) : Value → Value → Prop
  | same {v : Value} (h : ∀ i, v.kind ≠ .global i) : Alike S T v v
  | text {ty : Ty} {name : String} {i j : GlobalId} {g h : Global} (hi : S.globals[i.index]? = some g)
      (hj : T.globals[j.index]? = some h) (hbytes : h.bytes = g.bytes) :
      Alike S T ⟨ty, .global i, name⟩ ⟨ty, .global j, name⟩

/-- The same instruction, where a host function may have another number. -/
inductive Inst.Alike (S T : Shared) : Inst → Inst → Prop
  | same {i : Inst} (h : i.kind.callsHost = false) : Alike S T i i
  | host {r : Option ValueId} {i j : HostId} {args : List ValueId} {ret : Ty} {d : HostDecl}
      (hi : S.hosts[i.index]? = some d) (hj : T.hosts[j.index]? = some d) :
      Alike S T ⟨r, .call (.host i) args ret⟩ ⟨r, .call (.host j) args ret⟩

structure Block.Alike (S T : Shared) (b c : Block) : Prop where
  name : c.name = b.name
  insts : Paired (Inst.Alike S T) b.insts c.insts
  terminator : c.terminator = b.terminator

structure Function.Alike (S T : Shared) (f g : Function) : Prop where
  name : g.name = f.name
  params : g.params = f.params
  ret : g.ret = f.ret
  values : Paired (Value.Alike S T) f.values g.values
  blocks : Paired (Block.Alike S T) f.blocks g.blocks

section

variable {S S' T T' : Shared} {f g : Function}

theorem Value.Alike.grows {v w : Value} (h : v.Alike S T w) (hS : S.Grows S') (hT : T.Grows T') :
    v.Alike S' T' w := by
  cases h with
  | same h => exact .same h
  | text hi hj hb => exact .text ( getElem?_of_prefix hS.globals hi) ( getElem?_of_prefix hT.globals hj) hb

theorem Inst.Alike.grows {i j : Inst} (h : i.Alike S T j) (hS : S.Grows S') (hT : T.Grows T') :
    i.Alike S' T' j := by
  cases h with
  | same h => exact .same h
  | host hi hj => exact .host ( getElem?_of_prefix hS.hosts hi) ( getElem?_of_prefix hT.hosts hj)

theorem Function.Alike.grows (h : f.Alike S T g) (hS : S.Grows S') (hT : T.Grows T') : f.Alike S' T' g where
  name := h.name
  params := h.params
  ret := h.ret
  values := h.values.imp fun _ _ hv => hv.grows hS hT
  blocks := h.blocks.imp fun _ _ hb => ⟨hb.name, hb.insts.imp fun _ _ hi => hi.grows hS hT, hb.terminator⟩

theorem Inst.Alike.isAlloca {i j : Inst} (h : i.Alike S T j) : j.kind.isAlloca = i.kind.isAlloca := by
  cases h <;> rfl

theorem Inst.Alike.isPhi {i j : Inst} (h : i.Alike S T j) : j.kind.isPhi = i.kind.isPhi := by
  cases h <;> rfl

/-- A declared function, in any two modules. -/
theorem Function.declare_alike (name : String) (params : List Ty) (ret : Ty) :
    (declare name params ret).Alike S T (declare name params ret) := by
  have hparam : ∀ v ∈ (declare name params ret).values.toList, v.Alike S T v := by
    intro v hv
    obtain ⟨i, hi, rfl⟩ := List.mem_mapIdx.1 hv
    exact .same fun j => by simp
  refine ⟨rfl, rfl, rfl, ?_, .nil⟩
  unfold Paired
  exact List.forall₂_same.2 hparam

/-! ### Reading alike functions -/

namespace Function.Alike

variable (h : f.Alike S T g)

include h

theorem valueType (v : ValueId) : g.valueType v = f.valueType v := by
  unfold Function.valueType Function.value?
  rcases h.values.entry v.index with ⟨hx, hy⟩ | ⟨x, y, hx, hy, hxy⟩
  · rw [hx, hy]
  · rw [hx, hy]
    cases hxy <;> rfl

/-- Constants are the same. -/
theorem constant (v : ValueId) (ty : Ty) (bits : UInt64) (name : String) :
    g.value? v = some ⟨ty, .constInt bits, name⟩ ↔ f.value? v = some ⟨ty, .constInt bits, name⟩ := by
  unfold Function.value?
  rcases h.values.entry v.index with ⟨hx, hy⟩ | ⟨x, y, hx, hy, hxy⟩
  · rw [hx, hy]
  · rw [hx, hy]
    cases hxy with
    | same => rfl
    | text => simp

theorem ending (i : BlockId) : g.ending i = f.ending i := by
  unfold Function.ending
  rcases h.blocks.entry i.index with ⟨hx, hy⟩ | ⟨x, y, hx, hy, hxy⟩
  · rw [hx, hy]
  · rw [hx, hy]
    simp [hxy.terminator]

theorem successorLists : g.successorLists = f.successorLists := by
  unfold Function.successorLists
  exact h.blocks.map_eq fun b c hbc => by rw [Block.successors, Block.successors, hbc.terminator]

/-! ### Changing alike functions -/

theorem addValue {v w : Value} (hv : v.Alike S T w) : (f.addValue v).Alike S T (g.addValue w) :=
  ⟨h.name, h.params, h.ret, h.values.push hv, h.blocks⟩

theorem addBlock (name : String) : (f.addBlock name).Alike S T (g.addBlock name) :=
  ⟨h.name, h.params, h.ret, h.values, h.blocks.push ⟨rfl, .nil, rfl⟩⟩

theorem setEnding (i : BlockId) (t : Terminator) : (f.setEnding i t).Alike S T (g.setEnding i t) :=
  ⟨h.name, h.params, h.ret, h.values, h.blocks.modify i.index fun _ _ hb => ⟨hb.name, hb.insts, rfl⟩⟩

theorem editInsts (i : BlockId) {k l : Array Inst → Array Inst}
    (hk : ∀ xs ys, Paired (Inst.Alike S T) xs ys → Paired (Inst.Alike S T) (k xs) (l ys)) :
    (f.editInsts i k).Alike S T (g.editInsts i l) :=
  ⟨h.name, h.params, h.ret, h.values, h.blocks.modify i.index fun _ _ hb => ⟨hb.name, hk _ _ hb.insts, hb.terminator⟩⟩

theorem addInst (i : BlockId) {x y : Inst} (hx : x.Alike S T y) : (f.addInst i x).Alike S T (g.addInst i y) :=
  h.editInsts i fun _ _ hp => hp.push hx

end Function.Alike

theorem Paired.insertAfterLeading {xs ys : Array Inst} (h : Paired (Inst.Alike S T) xs ys) {x y : Inst}
    (hx : x.Alike S T y) {leading : Inst → Bool} (hl : ∀ i j, Inst.Alike S T i j → leading j = leading i) :
    Paired (Inst.Alike S T) (insertAfterLeading leading x xs) (insertAfterLeading leading y ys) := by
  have hsplit : ∀ {is js : List Inst}, List.Forall₂ (Inst.Alike S T) is js →
      List.Forall₂ (Inst.Alike S T) (is.takeWhile leading) (js.takeWhile leading) ∧
        List.Forall₂ (Inst.Alike S T) (is.dropWhile leading) (js.dropWhile leading) := by
    intro is js hp
    induction hp with
    | nil => exact ⟨.nil, .nil⟩
    | cons hij hrest ih =>
      rw [List.takeWhile_cons, List.takeWhile_cons, List.dropWhile_cons, List.dropWhile_cons, hl _ _ hij]
      split
      · exact ⟨.cons hij ih.1, ih.2⟩
      · exact ⟨.nil, .cons hij hrest⟩
  obtain ⟨htake, hdrop⟩ := hsplit h
  exact List.rel_append htake (.cons hx hdrop)

end

/-! ### Twins -/

/-- Two modules with the same declarations, and one of their functions. -/
structure Peers where
  left : Module
  right : Module
  func : FuncId
  pointerBits : right.pointerBits = left.pointerBits
  structs : right.structs = left.structs
  heads : ∀ j, (right.function? j).map Function.head = (left.function? j).map Function.head

namespace Builder

/-- A builder that has worked on one function of a module. -/
structure Along (m : Module) (func : FuncId) (b : Builder) : Prop where
  func : b.func = func
  valid : b.func.index < b.module.functions.size
  pointerBits : b.module.pointerBits = m.pointerBits
  structs : b.module.structs = m.structs
  heads : ∀ j, (b.module.function? j).map Function.head = (m.function? j).map Function.head
  others : ∀ j, j ≠ b.func → b.module.function? j = m.function? j
  shared : m.shared.Grows b.module.shared

/-- Builders of one function in two modules, at the same position of the same code. -/
structure Twins (P : Peers) (b c : Builder) : Prop where
  current : c.current = b.current
  terminators : c.terminators = b.terminators
  left : b.Along P.left P.func
  right : c.Along P.right P.func
  leftKnown : b.module.HostsKnown
  rightKnown : c.module.HostsKnown
  function : b.function.Alike b.module.shared c.module.shared c.function

/-- The rest of a builder does not matter. -/
theorem Along.of_eq {m : Module} {func : FuncId} {b c : Builder} (h : b.Along m func) (hf : c.func = b.func)
    (hm : c.module = b.module) : c.Along m func := by
  obtain ⟨module, f, current, terminators, broken⟩ := c
  dsimp only at hf hm
  subst hf hm
  exact ⟨h.func, h.valid, h.pointerBits, h.structs, h.heads, h.others, h.shared⟩

theorem Along.refl {b : Builder} (hv : b.func.index < b.module.functions.size) : b.Along b.module b.func :=
  ⟨rfl, hv, rfl, rfl, fun _ => rfl, fun _ _ => rfl, .refl _⟩

theorem Along.trans {m : Module} {func : FuncId} {b c : Builder} (h : b.Along m func)
    (k : c.Along b.module b.func) : c.Along m func where
  func := k.func.trans h.func
  valid := k.valid
  pointerBits := k.pointerBits.trans h.pointerBits
  structs := k.structs.trans h.structs
  heads j := (k.heads j).trans (h.heads j)
  others j hj := (k.others j hj).trans (h.others j (by rwa [← k.func]))
  shared := h.shared.trans k.shared

theorem Along.modifyFunction {m : Module} {func : FuncId} {b : Builder} (h : b.Along m func)
    {F : Function → Function} (hF : (F b.function).head = b.function.head) :
    (b.modifyFunction F).Along m func where
  func := h.func
  valid := by simpa [Builder.modifyFunction, Module.modifyFunction] using h.valid
  pointerBits := h.pointerBits
  structs := h.structs
  heads j := by
    rw [← h.heads j]
    by_cases hj : j = b.func
    · subst hj
      have hvalid : (b.modifyFunction F).func.index < (b.modifyFunction F).module.functions.size := by
        simpa [Builder.modifyFunction, Module.modifyFunction] using h.valid
      have := function?_eq hvalid
      rw [function_modifyFunction h.valid] at this
      rw [function?_eq h.valid, Option.map_some, ← hF]
      exact congrArg (Option.map Function.head) this
    · rw [function?_modifyFunction_ne b F hj]
  others j hj := (function?_modifyFunction_ne b F hj).trans (h.others j hj)
  shared := h.shared

namespace Twins

variable {P : Peers} {b c : Builder} (h : Twins P b c)

include h

theorem modifyFunction {F G : Function → Function} (hF : (F b.function).head = b.function.head)
    (hFG : (F b.function).Alike b.module.shared c.module.shared (G c.function)) :
    Twins P (b.modifyFunction F) (c.modifyFunction G) where
  current := h.current
  terminators := h.terminators
  left := h.left.modifyFunction hF
  right := by
    refine h.right.modifyFunction ?_
    have hb : (G c.function).head = (F b.function).head := by
      rw [Function.head, Function.head, hFG.name, hFG.params, hFG.ret]
    rw [hb, hF, Function.head, Function.head, h.function.name, h.function.params, h.function.ret]
  leftKnown := h.leftKnown
  rightKnown := h.rightKnown
  function := by
    rw [function_modifyFunction h.left.valid, function_modifyFunction h.right.valid]
    exact hFG

theorem demand (d e : Demand) (met met' : Bool) : Twins P (b.demand d met) (c.demand e met') := by
  cases met <;> cases met' <;>
    exact ⟨h.current, h.terminators, h.left.of_eq rfl rfl, h.right.of_eq rfl rfl, h.leftKnown, h.rightKnown, h.function⟩

theorem pointerBits : c.module.pointerBits = b.module.pointerBits := by
  rw [h.right.pointerBits, P.pointerBits, h.left.pointerBits]

theorem structs : c.module.structs = b.module.structs := by
  rw [h.right.structs, P.structs, h.left.structs]

theorem ptrInt : c.module.ptrInt = b.module.ptrInt := by
  rw [Module.ptrInt, Module.ptrInt, h.pointerBits]

theorem heads (j : FuncId) :
    (c.module.function? j).map Function.head = (b.module.function? j).map Function.head := by
  rw [h.right.heads, P.heads, h.left.heads]

theorem valueType (v : ValueId) : c.valueType v = b.valueType v := h.function.valueType v

theorem hasTerminator (i : BlockId) : c.hasTerminator i = b.hasTerminator i := by
  rw [hasTerminator_eq, hasTerminator_eq, h.function.ending]

theorem currentTerminated : c.currentTerminated = b.currentTerminated := by
  unfold Builder.currentTerminated
  rw [h.current]
  cases b.current with
  | none => rfl
  | some i => exact h.hasTerminator i

theorem values_size : c.function.values.size = b.function.values.size := h.function.values.size_eq

theorem blocks_size : c.function.blocks.size = b.function.blocks.size := h.function.blocks.size_eq

theorem knownHosts : c.module.knownHosts = b.module.knownHosts := by
  rw [Module.knownHosts, Module.knownHosts, h.ptrInt]

/-- Whether a value is a certain constant is the same in both. -/
theorem constIntValue? (v : ValueId) : c.constIntValue? v = b.constIntValue? v := by
  have hiff : ∀ bits, c.constIntValue? v = some bits ↔ b.constIntValue? v = some bits := by
    have hval : ∀ (b : Builder) (bits : UInt64), b.constIntValue? v = some bits ↔
        ∃ ty name, b.function.value? v = some ⟨ty, .constInt bits, name⟩ := by
      intro b bits
      unfold Builder.constIntValue?
      split
      · rename_i ty w name hv
        rw [hv]
        simp
      · rename_i hne
        refine ⟨by simp, ?_⟩
        rintro ⟨ty, name, hv⟩
        exact absurd hv (hne ty bits name)
    intro bits
    rw [hval, hval]
    simp only [h.function.constant]
  exact Option.ext hiff

theorem moveTo (i : BlockId) : Twins P { b with current := some i } { c with current := some i } where
  current := rfl
  terminators := h.terminators
  left := h.left.of_eq rfl rfl
  right := h.right.of_eq rfl rfl
  leftKnown := h.leftKnown
  rightKnown := h.rightKnown
  function := h.function

end Twins

theorem Along.onModule {m n : Module} {func : FuncId} {b : Builder} (h : b.Along m func) (hg : b.module.Grows n)
    (hf : n.functions = b.module.functions) : ({ b with module := n } : Builder).Along m func where
  func := h.func
  valid := by rw [hf]; exact h.valid
  pointerBits := hg.pointerBits.trans h.pointerBits
  structs := hg.structs.trans h.structs
  heads j := by rw [← h.heads j, Module.function?, Module.function?, hf]
  others j hj := by rw [← h.others j hj, Module.function?, Module.function?, hf]
  shared := h.shared.trans ⟨hg.globals, hg.hosts⟩

/-- The code stays. -/
theorem function_onModule (b : Builder) {n : Module} (hf : n.functions = b.module.functions) :
    ({ b with module := n } : Builder).function = b.function := by
  simp only [Builder.function, Module.function?, hf]

/-- More is shared; the code stays. -/
theorem Twins.onModule {P : Peers} {b c : Builder} (h : Twins P b c) {m n : Module} (hm : b.module.Grows m)
    (hn : c.module.Grows n) (fm : m.functions = b.module.functions) (fn : n.functions = c.module.functions)
    (km : m.HostsKnown) (kn : n.HostsKnown) : Twins P { b with module := m } { c with module := n } where
  current := h.current
  terminators := h.terminators
  left := h.left.onModule hm fm
  right := h.right.onModule hn fn
  leftKnown := km
  rightKnown := kn
  function := by
    rw [function_onModule b fm, function_onModule c fn]
    exact h.function.grows ⟨hm.globals, hm.hosts⟩ ⟨hn.globals, hn.hosts⟩

end Builder

namespace Emit

open Builder

variable {P : Peers}

/-- Gives the same result on twins and leaves twins. -/
abbrev Even (P : Peers) {α : Type} (x : Emit α) : Prop := Agrees (Twins P) x

/-! ### Values and blocks -/

theorem demand_even (d : Demand) (met : Builder → Bool) : Even P (demand d met) :=
  ⟨fun h => ⟨rfl, h.demand ..⟩⟩

/-- Twins get values of the same number. -/
theorem pushValue_coupled {b c : Builder} (h : Twins P b c) {k l : ValueKind} {ty : Ty} {name : String}
    (hv : Value.Alike b.module.shared c.module.shared ⟨ty, k, name⟩ ⟨ty, l, name⟩) :
    (pushValue ty k name).Coupled b (pushValue ty l name) c fun v b' w c' => w = v ∧ Twins P b' c' :=
  ⟨Id.ext h.values_size, h.modifyFunction rfl (h.function.addValue hv)⟩

theorem pushValue_even {k : ValueKind} (hk : ∀ i, k ≠ .global i) (ty : Ty) (name : String) :
    Even P (pushValue ty k name) :=
  ⟨fun h => pushValue_coupled h (.same hk)⟩

theorem appendBlock_even (name : String) : Even P (appendBlock name) :=
  ⟨fun h => ⟨Id.ext h.blocks_size, h.modifyFunction rfl (h.function.addBlock name)⟩⟩

theorem closeBlock_even (i : BlockId) (t : Terminator) : Even P (closeBlock i t) := by
  refine ⟨fun {b c} h => ?_⟩
  unfold Coupled closeBlock
  rw [h.hasTerminator]
  split
  · exact ⟨rfl, h⟩
  · have k : Twins P (b.modifyFunction (·.setEnding i t)) (c.modifyFunction (·.setEnding i t)) :=
      h.modifyFunction rfl (h.function.setEnding i t)
    exact ⟨rfl, k.current, congrArg (· + 1) h.terminators, k.left.of_eq rfl rfl, k.right.of_eq rfl rfl, k.leftKnown,
      k.rightKnown, k.function⟩

/-! ### Emission -/

theorem insert_coupled {b c : Builder} (h : Twins P b c) {k l : InstKind} {r : Option ValueId}
    (hi : Inst.Alike b.module.shared c.module.shared ⟨r, k⟩ ⟨r, l⟩) :
    (insert k r).Coupled b (insert l r) c fun _ b' _ c' => Twins P b' c' := by
  simp only [Coupled, insert, modify, modifyGet, MonadStateOf.modifyGet, StateT.modifyGet, pure, h.current]
  split
  · exact h.demand ..
  · rename_i i _
    rw [h.hasTerminator]
    split
    · exact h.demand ..
    · exact h.modifyFunction rfl (h.function.addInst i hi)

theorem emitVoid_even {k : InstKind} (hk : k.callsHost = false) : Even P (emitVoid k) :=
  ⟨fun h => ⟨rfl, insert_coupled h (.same hk)⟩⟩

/-- An instruction that is the same in both modules once it has a result. -/
theorem emit_coupled {b c : Builder} (h : Twins P b c) {k l : InstKind} (ty : Ty) (name : String)
    (hi : ∀ r, Inst.Alike b.module.shared c.module.shared ⟨r, k⟩ ⟨r, l⟩) :
    (emit ty k name).Coupled b (emit ty l name) c fun v b' w c' => w = v ∧ Twins P b' c' := by
  refine Coupled.get_bind ?_
  rw [h.current]
  refine Coupled.bind (P := fun v b' w c' => (w = v ∧ Twins P b' c') ∧ b'.module.shared = b.module.shared ∧
    c'.module.shared = c.module.shared) ⟨pushValue_coupled h (.same fun i => by simp), rfl, rfl⟩ ?_
  rintro v b' _ c' ⟨⟨rfl, h'⟩, hb, hc⟩
  refine Coupled.bind (insert_coupled h' ?_) fun _ _ _ _ h'' => ⟨rfl, h''⟩
  rw [hb, hc]
  exact hi _

theorem emit_even {k : InstKind} (hk : k.callsHost = false) (ty : Ty) (name : String) : Even P (emit ty k name) :=
  ⟨fun h => emit_coupled h ty name fun _ => .same hk⟩

theorem entryAlloca_even (ty : Ty) (name : String) : Even P (entryAlloca ty name) := by
  refine (pushValue_even (by simp) _ _).bind fun r => (demand_even _ _).bind fun _ => ?_
  refine .bind (.modify fun b c h => ?_) fun _ => .pure r
  refine h.modifyFunction rfl (h.function.editInsts Id.entry fun xs ys hp => ?_)
  exact hp.insertAfterLeading (.same rfl) fun _ _ hi => hi.isAlloca

theorem phi_even (ty : Ty) (incoming : List (ValueId × BlockId)) (name : String) :
    Even P (phi ty incoming name) := by
  refine .get_bind fun b c h => ?_
  rw [h.current]
  cases b.current with
  | none => exact ((demand_even _ _).bind fun _ => pushValue_even (by simp) ..).run h
  | some i =>
    refine ((pushValue_even (by simp) ty name).bind fun r => ?_).run h
    refine .bind (.modify fun b c h => ?_) fun _ => .pure r
    refine h.modifyFunction rfl (h.function.editInsts i fun xs ys hp => ?_)
    exact hp.insertAfterLeading (.same rfl) fun _ _ hi => hi.isPhi

/-- A call of what is the same in both modules. -/
theorem callAt_coupled {b c : Builder} (h : Twins P b c) {f g : Callee} (ret : Ty) (args : List ValueId)
    (name : String) (hi : ∀ r, Inst.Alike b.module.shared c.module.shared ⟨r, .call f args ret⟩ ⟨r, .call g args ret⟩) :
    (callAt f ret args name).Coupled b (callAt g ret args name) c fun v b' w c' => w = v ∧ Twins P b' c' := by
  unfold callAt
  split
  · exact Coupled.bind (insert_coupled h (hi none)) fun _ _ _ _ h' => ⟨rfl, h'⟩
  · obtain ⟨hv, h'⟩ := emit_coupled h ret name hi
    exact ⟨congrArg some hv, h'⟩

/-! ### Texts and host functions -/

theorem globalString_even (text : String) : Even P (globalString text) := by
  refine ⟨fun {b c} h => ?_⟩
  have h' := h.onModule (addString_grows b.module text) (addString_grows c.module text) rfl rfl h.leftKnown
    h.rightKnown
  exact pushValue_coupled h' (.text Array.getElem?_push_size Array.getElem?_push_size rfl)

/-- Both modules have the host function then. -/
theorem declareHost_coupled {b c : Builder} (h : Twins P b c) {d : HostDecl} (hd : d ∈ b.module.knownHosts) :
    (onModule (·.declareHost d.name d.params d.ret)).Coupled b (onModule (·.declareHost d.name d.params d.ret)) c
      fun i b' j c' => Twins P b' c' ∧ b'.module.host? i = some d ∧ c'.module.host? j = some d := by
  have hm := Module.declareHost_grows b.module d.name d.params d.ret
  have hn := Module.declareHost_grows c.module d.name d.params d.ret
  have km := Module.declareHost_known h.leftKnown hd
  have kn := Module.declareHost_known h.rightKnown (by rw [h.knownHosts]; exact hd)
  exact ⟨h.onModule hm.1 hn.1 hm.2 hn.2 km.1 kn.1, km.2, kn.2⟩

theorem callHost_coupled {b c : Builder} (h : Twins P b c) {i j : HostId} {d : HostDecl}
    (hi : b.module.host? i = some d) (hj : c.module.host? j = some d) (args : List ValueId) (name : String) :
    (callHost i args name).Coupled b (callHost j args name) c fun v b' w c' => w = v ∧ Twins P b' c' := by
  refine Coupled.get_bind ?_
  rw [hi, hj]
  exact callAt_coupled h _ args name fun _ => .host hi hj

end Emit

/-! ### Twins in tandem -/

section

variable {ρ : ValueId → ValueId → Prop} {t t' : Terminator} {k k' : InstKind}

theorem Terminator.Like.eq_of (h : t.Like ρ t') (hρ : ∀ v w, ρ v w → w = v) : t' = t := (h.imp hρ).eq

theorem InstKind.Like.eq_of (h : k.Like ρ k') (hρ : ∀ v w, ρ v w → w = v) : k' = k := (h.imp hρ).eq

theorem InstKind.Like.callsHost (h : k.Like ρ k') : k.callsHost = false := by
  cases h <;> rfl

end

/-- Twins have the same values under the same numbers. -/
def Peers.tandem (P : Peers) : Tandem where
  Rel L b c := L.Diagonal ∧ Builder.Twins P b c
  current h := h.2.current
  terminators h := h.2.terminators
  hasTerminator h := h.2.hasTerminator
  successorLists h := h.2.function.successorLists
  blocks h := h.2.blocks_size
  pointerBits h := h.2.pointerBits
  structs h := h.2.structs
  heads h := h.2.heads
  valueType h hL := by obtain rfl := h.1.eq hL; exact h.2.valueType _
  constIntValue? h hL := by obtain rfl := h.1.eq hL; exact h.2.constIntValue? _
  demand h _ _ := ⟨h.1, h.2.demand ..⟩
  moveTo h i := ⟨h.1, h.2.moveTo i⟩
  appendBlock _ := (Emit.appendBlock_even _).follows (fun _ => rfl) (by simp)
  closeBlock i ht := (Emit.closeBlock_even i _).follows
    (fun hd => by rw [ht.eq_of hd]) (by simp)
  constInt _ _ := (Emit.pushValue_even (by simp) ..).follows (fun _ => rfl) (by simp)
  constFloat _ _ := (Emit.pushValue_even (by simp) ..).follows (fun _ => rfl) (by simp)
  constNull := (Emit.pushValue_even (by simp) ..).follows (fun _ => rfl) (by simp)
  globalString _ := (Emit.globalString_even _).follows (fun _ => rfl) (by simp)
  entryAlloca _ _ := (Emit.entryAlloca_even ..).follows (fun _ => rfl) (by simp)
  phi ty name h := (Emit.phi_even ..).follows
    (fun hd => by cases (InstKind.Like.phi ty h).eq_of hd; rfl) (by simp)
  emit ty name _ _ h := (Emit.emit_even h.callsHost ty name).follows
    (fun hd => by rw [h.eq_of hd]) (by simp)
  emitVoid _ _ h := (Emit.emitVoid_even h.callsHost).follows
    (fun hd => by rw [h.eq_of hd]) (by simp)

end BlockForge.Ir
