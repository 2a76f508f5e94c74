import BlockForge.Lowering.VectorCode
import BlockForge.Proofs.Ir.Twins

/-!
# Code up to the numbers of its values

Two functions with the same blocks, whose values may have other numbers and which may call other host functions in
between. Apart from these calls they run the same instructions one by one; only what is stored first as the elements
and as the capacity of a new vector may differ. Which values correspond is told by a trace: both functions get their
values together, one by one or by a run of the allocators of both.
-/

namespace BlockForge.Ir

open Lowering (AllocKind Allocator VectorField VectorShape callBoundsError)

/-- Links that pair each value with one other. -/
def Links.OneToOne (L : Links) : Prop := ∀ p ∈ L, ∀ q ∈ L, p.1 = q.1 ↔ p.2 = q.2

theorem Links.OneToOne.insert {L : Links} (h : L.OneToOne) {p : ValueId × ValueId}
    (hp : ∀ q ∈ L, q.1 ≠ p.1 ∧ q.2 ≠ p.2) : Links.OneToOne (Set.insert p L) := by
  rintro q (rfl | hq) r (rfl | hr)
  · simp
  · exact ⟨fun he => absurd he.symm (hp r hr).1, fun he => absurd he.symm (hp r hr).2⟩
  · exact ⟨fun he => absurd he (hp q hq).1, fun he => absurd he (hp q hq).2⟩
  · exact h q hq r hr

/-! ### Numberings -/

/-- Why two values correspond. -/
inductive Role where
  /-- Lowering makes the same value in both. -/
  | own
  /-- The allocators give these addresses. -/
  | given
  /-- A field of a new vector's descriptor, a struct of this type, is set to these. -/
  | initial (struct : StructId) (field : VectorField)
  deriving DecidableEq

/-- How the values of two functions correspond. -/
abbrev Numbering := Role → Links

namespace Numbering

/-- The values that stand for each other as operands. -/
def links (N : Numbering) : Links := N .own ∪ N .given

/-- All values that correspond for some reason. -/
def all (N : Numbering) : Links := {p | ∃ role, p ∈ N role}

/-- Parameters correspond to themselves. -/
def params (count : Nat) : Numbering
  | .own => {p | p.2 = p.1 ∧ p.1.index < count}
  | _ => ∅

/-- One more pair of values. -/
def add (N : Numbering) (role : Role) (p : ValueId × ValueId) : Numbering :=
  Function.update N role (Set.insert p (N role))

variable {N : Numbering} {role : Role} {p : ValueId × ValueId}

theorem le_add (N : Numbering) (role : Role) (p : ValueId × ValueId) : N ≤ N.add role p := by
  intro r
  by_cases hr : r = role
  · subst hr
    rw [add, Function.update_self]
    exact Set.subset_insert ..
  · rw [add, Function.update_of_ne hr]

theorem mem_add (N : Numbering) (role : Role) (p : ValueId × ValueId) : p ∈ N.add role p role := by
  rw [add, Function.update_self]
  exact Set.mem_insert ..

theorem eq_of_mem_add {r : Role} {q : ValueId × ValueId} (h : q ∈ N.add role p r) :
    (q = p ∧ r = role) ∨ q ∈ N r := by
  by_cases hr : r = role
  · subst hr
    rw [add, Function.update_self] at h
    exact h.imp (⟨·, rfl⟩) id
  · rw [add, Function.update_of_ne hr] at h
    exact .inr h

theorem links_mono {M : Numbering} (h : N ≤ M) : N.links ⊆ M.links := Set.union_subset_union (h _) (h _)

theorem all_add : (N.add role p).all = Set.insert p N.all := by
  ext q
  refine ⟨fun ⟨r, hq⟩ => ?_, ?_⟩
  · exact (eq_of_mem_add hq).imp (·.1) fun hq => ⟨r, hq⟩
  · rintro (rfl | ⟨r, hq⟩)
    · exact ⟨role, N.mem_add ..⟩
    · exact ⟨r, N.le_add role p r hq⟩

end Numbering

/-! ### Code -/

/-- The same instructions with corresponding values, but for what the fields of new descriptors are set to. -/
inductive Code.Renumbered (N : Numbering) : List Inst → List Inst → Prop
  | nil : Renumbered N [] []
  | cons {r r' : Option ValueId} {k k' : InstKind} {is js : List Inst}
      (hr : Option.Rel (fun v w => (v, w) ∈ N .own) r r') (hk : k.Like (fun v w => (v, w) ∈ N.links) k')
      (h : Renumbered N is js) : Renumbered N (⟨r, k⟩ :: is) (⟨r', k'⟩ :: js)
  | initial {p p' d d' v v' : ValueId} {is js : List Inst} (struct : StructId) (field : VectorField)
      (hp : (p, p') ∈ N .own) (hd : (d, d') ∈ N.links) (hv : (v, v') ∈ N (.initial struct field))
      (h : Renumbered N is js) :
      Renumbered N (⟨some p, .fieldPtr struct d field.position⟩ :: ⟨none, .store v p⟩ :: is)
        (⟨some p', .fieldPtr struct d' field.position⟩ :: ⟨none, .store v' p'⟩ :: js)

/-- The instructions of a block other than calls of the host. -/
def ownCode (is : Array Inst) : List Inst := is.toList.filter fun i => !i.kind.callsHost

/-- The same block: its name, how it ends, and its own code. -/
structure Block.Renumbered (N : Numbering) (b c : Block) : Prop where
  name : c.name = b.name
  code : Code.Renumbered N (ownCode b.insts) (ownCode c.insts)
  terminator : Option.Rel (Terminator.Like fun v w => (v, w) ∈ N.links) b.terminator c.terminator

/-- The same function, block by block; each parameter stands for itself. -/
structure Function.Renumbered (N : Numbering) (f g : Function) : Prop where
  name : g.name = f.name
  params : g.params = f.params
  parameters : ∀ i < f.params.length, (⟨i⟩, ⟨i⟩) ∈ N .own
  ret : g.ret = f.ret
  blocks : Paired (Block.Renumbered N) f.blocks g.blocks

namespace Code.Renumbered

variable {N M : Numbering} {is js is' js' : List Inst}

theorem mono (h : Renumbered N is js) (hN : N ≤ M) : Renumbered M is js := by
  have hl : ∀ v w, (v, w) ∈ N.links → (v, w) ∈ M.links := fun _ _ hv => Numbering.links_mono hN hv
  induction h with
  | nil => exact .nil
  | cons hr hk _ ih => exact .cons (by cases hr <;> constructor; exact hN _ ‹_›) (hk.imp hl) ih
  | initial struct field hp hd hv _ ih => exact .initial struct field (hN _ hp) (hl _ _ hd) (hN _ hv) ih

theorem append (h : Renumbered N is js) (h' : Renumbered N is' js') : Renumbered N (is ++ is') (js ++ js') := by
  induction h with
  | nil => exact h'
  | cons hr hk _ ih => exact .cons hr hk ih
  | initial struct field hp hd hv _ ih => exact .initial struct field hp hd hv ih

/-- An instruction behind the leading ones of a class: no descriptor is filled in between. -/
theorem insert {c : InstKind → Bool} (hc : c = InstKind.isAlloca ∨ c = InstKind.isPhi) {x y : Inst}
    (h : Renumbered N is js) (hx : Renumbered N [x] [y]) :
    Renumbered N (is.takeWhile (fun i => c i.kind) ++ x :: is.dropWhile fun i => c i.kind)
      (js.takeWhile (fun i => c i.kind) ++ y :: js.dropWhile fun i => c i.kind) := by
  induction h with
  | nil => exact hx
  | @cons r r' k k' is js hr hk h ih =>
    have hlead : c k' = c k := by
      rcases hc with rfl | rfl <;> cases hk <;> rfl
    cases hk' : c k with
    | true =>
      rw [hk'] at hlead
      simpa [List.takeWhile_cons, List.dropWhile_cons, hk', hlead] using Renumbered.cons hr hk ih
    | false =>
      rw [hk'] at hlead
      simpa [List.takeWhile_cons, List.dropWhile_cons, hk', hlead] using hx.append (.cons hr hk h)
  | initial struct field hp hd hv h ih =>
    have hlead : ∀ d, c (.fieldPtr struct d field.position) = false := by
      rcases hc with rfl | rfl <;> exact fun _ => rfl
    simpa [List.takeWhile_cons, List.dropWhile_cons, hlead] using hx.append (.initial struct field hp hd hv h)

end Code.Renumbered

/-! ### Calls in between -/

/-- Slots and merges stand before all calls of the host. -/
def Orderly (is : List Inst) : Prop :=
  is.Pairwise fun i j => i.kind.callsHost = true → j.kind.isAlloca = false ∧ j.kind.isPhi = false

theorem Orderly.append_one {is : List Inst} (h : Orderly is) {x : Inst} (ha : x.kind.isAlloca = false)
    (hp : x.kind.isPhi = false) : Orderly (is ++ [x]) := by
  refine List.pairwise_append.2 ⟨h, List.pairwise_singleton .., fun i _ j hj _ => ?_⟩
  obtain rfl := List.mem_singleton.1 hj
  exact ⟨ha, hp⟩

section

variable {c : InstKind → Bool} {is : List Inst} {x : Inst}

theorem callsHost_of_class (hc : c = InstKind.isAlloca ∨ c = InstKind.isPhi) {k : InstKind} (h : c k = true) :
    k.callsHost = false := by
  rcases hc with rfl | rfl <;> cases k <;> simp_all [InstKind.isAlloca, InstKind.isPhi, InstKind.callsHost]

theorem Orderly.insert (hc : c = InstKind.isAlloca ∨ c = InstKind.isPhi) (h : Orderly is)
    (hx : x.kind.callsHost = false) :
    Orderly (is.takeWhile (fun i => c i.kind) ++ x :: is.dropWhile fun i => c i.kind) := by
  -- nothing before the new instruction calls the host
  have hbefore : ∀ i ∈ is.takeWhile (fun i => c i.kind), i.kind.callsHost = false :=
    fun i hi => callsHost_of_class hc (List.mem_takeWhile_imp (p := fun i : Inst => c i.kind) hi)
  rw [← List.takeWhile_append_dropWhile (p := fun i : Inst => c i.kind) (l := is)] at h
  obtain ⟨hl, hr, hlr⟩ := List.pairwise_append.1 h
  refine List.pairwise_append.2 ⟨hl, List.pairwise_cons.2 ⟨fun _ _ hcall => ?_, hr⟩, fun i hi j _ hcall => ?_⟩
  · rw [hx] at hcall
    cases hcall
  · rw [hbefore i hi] at hcall
    cases hcall

/-- Without the calls of the host, the new instruction stands behind the same leading ones. -/
theorem Orderly.filter_insert (hc : c = InstKind.isAlloca ∨ c = InstKind.isPhi) (h : Orderly is)
    (hx : x.kind.callsHost = false) :
    (is.takeWhile (fun i => c i.kind) ++ x :: is.dropWhile fun i => c i.kind).filter (fun i => !i.kind.callsHost) =
      (is.filter fun i => !i.kind.callsHost).takeWhile (fun i => c i.kind) ++
        x :: (is.filter fun i => !i.kind.callsHost).dropWhile fun i => c i.kind := by
  induction is with
  | nil => simp [hx]
  | cons i is ih =>
    obtain ⟨hi, his⟩ := List.pairwise_cons.1 h
    cases hci : c i.kind with
    | true =>
      have hown := callsHost_of_class hc hci
      simpa [List.takeWhile_cons, List.dropWhile_cons, List.filter_cons, hci, hown] using ih his
    | false =>
      cases hown : i.kind.callsHost with
      | false => simp [hci, hown, hx]
      | true =>
        -- nothing of the class comes after a call of the host
        have hnone : ∀ xs : List Inst, (∀ j ∈ xs, c j.kind = false) →
            xs.takeWhile (fun i => c i.kind) = [] ∧ xs.dropWhile (fun i => c i.kind) = xs := by
          rintro (_ | ⟨j, js⟩) hj
          · exact ⟨rfl, rfl⟩
          · simp [hj j]
        obtain ⟨htake, hdrop⟩ := hnone (is.filter fun i => !i.kind.callsHost) fun j hj => by
          have := hi j (List.mem_of_mem_filter hj) hown
          rcases hc with rfl | rfl
          · exact this.1
          · exact this.2
        simp [hci, hown, hx, htake, hdrop]

end

/-! ### Values -/

/-- Of the type of addresses, and not a number. -/
def Value.IsAddress (v : Value) : Prop := v.ty = .ptr ∧ ∀ bits, v.kind ≠ .constInt bits

/-- A constant as wide as a pointer. -/
def Module.word (m : Module) (n : UInt64) : Value :=
  ⟨m.ptrInt, .constInt (Word.mask n (m.ptrInt.intBits?.getD 64)), ""⟩

/-- What may be different about two lowerings: their allocators, which host functions these declare, whether both
always give new values, and the capacity of a new vector. The descriptors of vectors are of the same type. -/
structure Variation where
  leftHosts : Set HostDecl
  rightHosts : Set HostDecl
  leftAllocator : Allocator
  rightAllocator : Allocator
  leftCapacity : UInt64
  rightCapacity : UInt64
  descriptor : StructId
  anew : Prop

/-- The same, with the capacities as values. -/
structure Contrast extends Variation where
  left : Value
  right : Value

/-- What the values have in common that correspond for some reason. -/
def Role.Relates (C : Contrast) (S T : Shared) : Role → Value → Value → Prop
  | .own, x, y => x.Alike S T y
  | .given, x, y => x.IsAddress ∧ y.IsAddress
  | .initial struct .elems, x, y => struct = C.descriptor ∧ x.IsAddress ∧ y.IsAddress
  | .initial _ .size, _, _ => False
  | .initial struct .capacity, x, y => struct = C.descriptor ∧ x = C.left ∧ y = C.right

/-! ### Traces -/

/-- The same parameters, and at least the same values. -/
structure Function.Widens (f f' : Function) : Prop where
  params : f'.params = f.params
  values : f.values.toList <+: f'.values.toList

theorem Function.Widens.refl (f : Function) : f.Widens f := ⟨rfl, List.prefix_refl _⟩

theorem Function.Widens.trans {f g h : Function} (k : f.Widens g) (l : g.Widens h) : f.Widens h :=
  ⟨l.params.trans k.params, k.values.trans l.values⟩

/-- While a function was built, code was run in a block: it found `m` values, gave `a`, and left `m'` values. -/
def Function.Ran {α : Type} (f : Function) (block : Option BlockId) (x : Emit α) (m : Nat) (a : α) (m' : Nat) : Prop :=
  ∃ b : Builder, b.current = block ∧ (x b).1 = a ∧ b.function.values.size = m ∧ (x b).2.function.values.size = m' ∧
    b.function.Widens f ∧ (x b).2.function.Widens f

/-- How two functions get their first values, `m` in one and `n` in the other, and which of them correspond. -/
inductive Numbering.Traced (C : Contrast) (f g : Function) : (m n : Nat) → Numbering → Prop
  /-- Both start with the same parameters. -/
  | params (h : g.params = f.params) : Traced C f g f.params.length f.params.length (.params f.params.length)
  /-- Lowering makes a value in both. -/
  | own {m n : Nat} {N : Numbering} (h : Traced C f g m n N) : Traced C f g (m + 1) (n + 1) (N.add .own (⟨m⟩, ⟨n⟩))
  /-- Lowering makes the capacity of a new vector in both. -/
  | capacity {m n : Nat} {N : Numbering} (h : Traced C f g m n N) :
      Traced C f g (m + 1) (n + 1) (N.add (.initial C.descriptor .capacity) (⟨m⟩, ⟨n⟩))
  /-- The same is allocated in both, in the same block and of corresponding sizes. -/
  | given {m m' n n' : Nat} {N : Numbering} {block : Option BlockId} {size size' a a' : ValueId} {kind : AllocKind}
      {name : String} (h : Traced C f g m n N) (hs : (size, size') ∈ N.links)
      (hf : f.Ran block (C.leftAllocator.allocate size kind name) m a m')
      (hg : g.Ran block (C.rightAllocator.allocate size' kind name) n a' n') :
      Traced C f g m' n' (N.add .given (a, a'))
  /-- The elements of the same new vector get their first buffer in both. -/
  | elems {m m' n n' : Nat} {N : Numbering} {block : Option BlockId} {a a' : ValueId} {v : VectorShape}
      (h : Traced C f g m n N) (hv : v.struct = C.descriptor)
      (hf : f.Ran block ({ v with allocator := C.leftAllocator }.newBuffer C.leftCapacity) m a m')
      (hg : g.Ran block ({ v with allocator := C.rightAllocator }.newBuffer C.rightCapacity) n a' n') :
      Traced C f g m' n' (N.add (.initial C.descriptor .elems) (a, a'))
  /-- The hook for the same failed bounds check is called in both. -/
  | hook {m m' n n' : Nat} {N : Numbering} {block : Option BlockId} {index index' size size' : ValueId}
      (h : Traced C f g m n N) (hi : (index, index') ∈ N.links) (hs : (size, size') ∈ N.links)
      (hf : f.Ran block (callBoundsError index size) m () m')
      (hg : g.Ran block (callBoundsError index' size') n () n') : Traced C f g m' n' N

section

variable {C : Contrast} {f f' g g' : Function} {N : Numbering} {m n : Nat}

theorem Function.Ran.widens {α : Type} {block : Option BlockId} {x : Emit α} {a : α} {m' : Nat}
    (h : f.Ran block x m a m') (hf : f.Widens f') : f'.Ran block x m a m' := by
  obtain ⟨b, hb, ha, hm, hm', hw, hw'⟩ := h
  exact ⟨b, hb, ha, hm, hm', hw.trans hf, hw'.trans hf⟩

theorem Numbering.Traced.widens (h : N.Traced C f g m n) (hf : f.Widens f') (hg : g.Widens g') :
    N.Traced C f' g' m n := by
  induction h with
  | params h =>
    rw [← hf.params]
    exact .params (hg.params.trans (h.trans hf.params.symm))
  | own _ ih => exact ih.own
  | capacity _ ih => exact ih.capacity
  | given _ hs kf kg ih => exact ih.given hs (kf.widens hf) (kg.widens hg)
  | elems _ hv kf kg ih => exact ih.elems hv (kf.widens hf) (kg.widens hg)
  | hook _ hi hs kf kg ih => exact ih.hook hi hs (kf.widens hf) (kg.widens hg)

/-- Each parameter stands for itself. -/
theorem Numbering.Traced.parameters (h : N.Traced C f g m n) : ∀ i < f.params.length, (⟨i⟩, ⟨i⟩) ∈ N .own := by
  intro i hi
  induction h with
  | params => exact ⟨rfl, hi⟩
  | own _ ih => exact Numbering.le_add _ _ _ _ ih
  | capacity _ ih => exact Numbering.le_add _ _ _ _ ih
  | given _ _ _ _ ih => exact Numbering.le_add _ _ _ _ ih
  | elems _ _ _ _ ih => exact Numbering.le_add _ _ _ _ ih
  | hook _ _ _ _ _ ih => exact ih

end

/-! ### Numberings of values -/

/-- Corresponding values exist and have in common what their role says, and the trace of all values of both accounts
for them. What lowering makes is paired one to one, and so is everything if allocators always give new values. -/
structure Numbering.Fits (N : Numbering) (C : Contrast) (S T : Shared) (f g : Function) : Prop where
  related : ∀ role, ∀ p ∈ N role, ∃ x y, f.value? p.1 = some x ∧ g.value? p.2 = some y ∧ role.Relates C S T x y
  traced : N.Traced C f g f.values.size g.values.size
  own : (N .own).OneToOne
  anew : C.anew → N.all.OneToOne

section

variable {C : Contrast} {S S' T T' : Shared} {role : Role}

theorem Role.Relates.grows {x y : Value} (h : role.Relates C S T x y) (hS : S.Grows S') (hT : T.Grows T') :
    role.Relates C S' T' x y := by
  cases role with
  | own => exact Value.Alike.grows h hS hT
  | given => exact h
  | initial struct field => cases field <;> exact h

theorem Value.Alike.constant {x y : Value} (h : x.Alike S T y) {ty : Ty} {bits : UInt64} {name : String} :
    y = ⟨ty, .constInt bits, name⟩ ↔ x = ⟨ty, .constInt bits, name⟩ := by
  cases h with
  | same => rfl
  | text => simp

/-- Operands that correspond have the same type and are the same number, if one. -/
theorem Numbering.Fits.operand {N : Numbering} {f g : Function} (h : N.Fits C S T f g) {v w : ValueId}
    (hvw : (v, w) ∈ N.links) : ∃ x y, f.value? v = some x ∧ g.value? w = some y ∧ y.ty = x.ty ∧
      ∀ ty bits name, y = ⟨ty, .constInt bits, name⟩ ↔ x = ⟨ty, .constInt bits, name⟩ := by
  rcases hvw with hvw | hvw
  · obtain ⟨x, y, hx, hy, hxy⟩ := h.related _ _ hvw
    exact ⟨x, y, hx, hy, by cases hxy <;> rfl, fun _ _ _ => Value.Alike.constant hxy⟩
  · obtain ⟨x, y, hx, hy, hax, hay⟩ := h.related _ _ hvw
    have hnot : ∀ {z : Value}, z.IsAddress → ∀ ty bits name, ¬z = ⟨ty, .constInt bits, name⟩ := by
      rintro z hz ty bits name rfl
      exact hz.2 bits rfl
    exact ⟨x, y, hx, hy, hay.1.trans hax.1.symm, fun ty bits name =>
      iff_of_false (hnot hay ty bits name) (hnot hax ty bits name)⟩

/-- More values in both, and a pair of them added: new ones, where values are paired one to one. -/
theorem Numbering.Fits.add {N : Numbering} {f f' g g' : Function} (h : N.Fits C S T f g) (hf : f.Widens f')
    (hg : g.Widens g') (hS : S.Grows S') (hT : T.Grows T') {v w : ValueId} {x y : Value} (hx : f'.value? v = some x)
    (hy : g'.value? w = some y) (hxy : role.Relates C S' T' x y)
    (ht : N.Traced C f' g' f.values.size g.values.size →
      (N.add role (v, w)).Traced C f' g' f'.values.size g'.values.size)
    (hnew : role = .own ∨ C.anew → f.values.size ≤ v.index ∧ g.values.size ≤ w.index) :
    (N.add role (v, w)).Fits C S' T' f' g' := by
  -- pairs so far are of values that there were before
  have hold : role = .own ∨ C.anew → ∀ q ∈ N.all, q.1 ≠ v ∧ q.2 ≠ w := by
    rintro hr q ⟨r, hq⟩
    obtain ⟨_, _, hqx, hqy, -⟩ := h.related r q hq
    obtain ⟨hv, hw⟩ := hnew hr
    refine ⟨?_, ?_⟩
    · rintro rfl
      exact Nat.not_lt.2 hv (Array.getElem?_eq_some_iff.1 hqx).1
    · rintro rfl
      exact Nat.not_lt.2 hw (Array.getElem?_eq_some_iff.1 hqy).1
  refine ⟨fun r q hq => ?_, ht (h.traced.widens hf hg), ?_, fun hanew => ?_⟩
  · rcases eq_of_mem_add hq with ⟨rfl, rfl⟩ | hq
    · exact ⟨x, y, hx, hy, hxy⟩
    · obtain ⟨x, y, hx, hy, hxy⟩ := h.related r q hq
      exact ⟨x, y, getElem?_of_prefix hf.values hx, getElem?_of_prefix hg.values hy, hxy.grows hS hT⟩
  · by_cases hr : role = .own
    · subst hr
      rw [Numbering.add, Function.update_self]
      exact h.own.insert fun q hq => hold (.inl rfl) q ⟨_, hq⟩
    · rw [Numbering.add, Function.update_of_ne (Ne.symm hr)]
      exact h.own
  · rw [all_add]
    exact (h.anew hanew).insert fun q hq => hold (.inr hanew) q hq

/-- More values in both, which the trace accounts for without another pair. -/
theorem Numbering.Fits.grows {N : Numbering} {f f' g g' : Function} (h : N.Fits C S T f g) (hf : f.Widens f')
    (hg : g.Widens g') (hS : S.Grows S') (hT : T.Grows T')
    (ht : N.Traced C f' g' f.values.size g.values.size → N.Traced C f' g' f'.values.size g'.values.size) :
    N.Fits C S' T' f' g' where
  related r q hq := by
    obtain ⟨x, y, hx, hy, hxy⟩ := h.related r q hq
    exact ⟨x, y, getElem?_of_prefix hf.values hx, getElem?_of_prefix hg.values hy, hxy.grows hS hT⟩
  traced := ht (h.traced.widens hf hg)
  own := h.own
  anew := h.anew

/-- The values stay. -/
theorem Numbering.Fits.keeps {N : Numbering} {f f' g g' : Function} (h : N.Fits C S T f g) (hp : f'.params = f.params)
    (hv : f'.values = f.values) (kp : g'.params = g.params) (kv : g'.values = g.values) (hS : S.Grows S')
    (hT : T.Grows T') : N.Fits C S' T' f' g' := by
  refine h.grows ⟨hp, by rw [hv]⟩ ⟨kp, by rw [kv]⟩ hS hT fun ht => ?_
  rw [hv, kv]
  exact ht

end

end BlockForge.Ir
