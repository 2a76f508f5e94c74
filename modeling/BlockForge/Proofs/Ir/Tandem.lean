import BlockForge.Proofs.Ir.Layout
import BlockForge.Proofs.Ir.Shape

/-!
# Two builders in tandem

Two runs of the same steps whose values may have different numbers. `Follows` says of two computations that they
keep a relation between their states in which more and more values are linked, if the values they start from are;
a `Tandem` is such a relation that every operation of the builder keeps. What is built on these operations is
then followed through once, for every relation of this kind.
-/

namespace BlockForge.Ir

/-- Values of one run with the values of another that they correspond to. -/
abbrev Links := Set (ValueId × ValueId)

/-- Links of values with themselves. -/
def Links.Diagonal (L : Links) : Prop := ∀ p ∈ L, p.2 = p.1

theorem Links.Diagonal.eq {L : Links} (h : L.Diagonal) {v w : ValueId} (hL : (v, w) ∈ L) : w = v := h _ hL

/-- How results of two runs correspond: what has to be the same in both, and the values in them, side by side. -/
class Linkable (α : Type) where
  same : α → α → Prop
  pairs : α → α → List (ValueId × ValueId)

namespace Linkable

/-- Results without values. -/
abbrev exact (α : Type) : Linkable α := ⟨Eq, fun _ _ => []⟩

instance : Linkable Unit := exact Unit
instance : Linkable Bool := exact Bool
instance : Linkable BlockId := exact BlockId
instance : Linkable ValueId := ⟨fun _ _ => True, fun v w => [(v, w)]⟩

instance {α : Type} [Linkable α] : Linkable (Option α) where
  same
    | some a, some b => same a b
    | none, none => True
    | _, _ => False
  pairs
    | some a, some b => pairs a b
    | _, _ => []

instance {α β : Type} [Linkable α] [Linkable β] : Linkable (α × β) where
  same a b := same a.1 b.1 ∧ same a.2 b.2
  pairs a b := pairs a.1 b.1 ++ pairs a.2 b.2

instance {α : Type} [Linkable α] : Linkable (List α) where
  same := List.Forall₂ same
  pairs as bs := (as.zipWith pairs bs).flatten

variable {α β : Type} [Linkable α] [Linkable β]

@[simp] theorem same_unit (a b : Unit) : same a b ↔ True := by simp [same]
@[simp] theorem same_bool (a b : Bool) : same a b ↔ a = b := .rfl
@[simp] theorem same_block (a b : BlockId) : same a b ↔ a = b := .rfl
@[simp] theorem same_value (v w : ValueId) : same v w ↔ True := .rfl
@[simp] theorem same_some (a b : α) : same (some a) (some b) ↔ same a b := .rfl
@[simp] theorem same_none : same (none : Option α) none ↔ True := .rfl
@[simp] theorem same_prod (a b : α × β) : same a b ↔ same a.1 b.1 ∧ same a.2 b.2 := .rfl

@[simp] theorem pairs_unit (a b : Unit) : pairs a b = [] := rfl
@[simp] theorem pairs_bool (a b : Bool) : pairs a b = [] := rfl
@[simp] theorem pairs_block (a b : BlockId) : pairs a b = [] := rfl
@[simp] theorem pairs_value (v w : ValueId) : pairs v w = [(v, w)] := rfl
@[simp] theorem pairs_some (a b : α) : pairs (some a) (some b) = pairs a b := rfl
@[simp] theorem pairs_none : pairs (none : Option α) none = [] := rfl
@[simp] theorem pairs_prod (a b : α × β) : pairs a b = pairs a.1 b.1 ++ pairs a.2 b.2 := rfl
@[simp] theorem pairs_nil : pairs ([] : List α) [] = [] := rfl
@[simp] theorem pairs_cons (a b : α) (as bs : List α) : pairs (a :: as) (b :: bs) = pairs a b ++ pairs as bs := rfl

/-- Two results of which both failed, or neither. -/
theorem same_option {a b : Option α} (h : same a b) :
    (a = none ∧ b = none) ∨ ∃ x y, a = some x ∧ b = some y ∧ same x y := by
  cases a <;> cases b <;> first | exact h.elim | simp_all

end Linkable

end BlockForge.Ir

open BlockForge.Ir (Links Linkable ValueId)

/-- From related states and known links, both computations give corresponding results and related states, perhaps
with more links. -/
structure StateM.Follows {σ α : Type} [Linkable α] (R : Links → σ → σ → Prop)
    (known : List (ValueId × ValueId)) (x y : StateM σ α) : Prop where
  run : ∀ {L : Links} {s t : σ}, (∀ p ∈ known, p ∈ L) → R L s t →
    ∃ L' : Links, L ⊆ L' ∧ R L' (x s).2 (y t).2 ∧ Linkable.same (x s).1 (y t).1 ∧
      ∀ p ∈ Linkable.pairs (x s).1 (y t).1, p ∈ L'

namespace StateM.Follows

variable {σ α β : Type} [Linkable α] [Linkable β] {R : Links → σ → σ → Prop} {known : List (ValueId × ValueId)}

theorem mono {known' : List (ValueId × ValueId)} {x y : StateM σ α} (h : Follows R known x y)
    (hk : ∀ p ∈ known, p ∈ known') : Follows R known' x y :=
  ⟨fun hL hst => h.run (fun p hp => hL p (hk p hp)) hst⟩

/-- A computation that follows from no link follows from any. -/
theorem weaken {x y : StateM σ α} (h : Follows R [] x y) : Follows R known x y := h.mono (by simp)

theorem pure {a b : α} (hs : Linkable.same a b) (hp : ∀ p ∈ Linkable.pairs a b, p ∈ known) :
    Follows R known (Pure.pure a) (Pure.pure b) :=
  ⟨fun {L} _ _ hL hst => ⟨L, subset_rfl, hst, hs, fun p hm => hL p (hp p hm)⟩⟩

theorem bind {x y : StateM σ α} {f g : α → StateM σ β} (h : Follows R known x y)
    (k : ∀ a b, Linkable.same a b → Follows R (Linkable.pairs a b ++ known) (f a) (g b)) :
    Follows R known (x >>= f) (y >>= g) := by
  refine ⟨fun {L s t} hL hst => ?_⟩
  obtain ⟨L₁, h₁, hst₁, hs, hp⟩ := h.run hL hst
  have hknown : ∀ p ∈ Linkable.pairs (x s).1 (y t).1 ++ known, p ∈ L₁ := by
    intro p hm
    rcases List.mem_append.1 hm with hm | hm
    · exact hp p hm
    · exact h₁ (hL p hm)
  obtain ⟨L₂, h₂, hrest⟩ := (k _ _ hs).run hknown hst₁
  exact ⟨L₂, h₁.trans h₂, hrest⟩

theorem map {x y : StateM σ α} {f g : α → β} (h : Follows R known x y)
    (hs : ∀ a b, Linkable.same a b → Linkable.same (f a) (g b))
    (hp : ∀ a b, Linkable.same a b → ∀ p ∈ Linkable.pairs (f a) (g b), p ∈ Linkable.pairs a b ++ known) :
    Follows R known (f <$> x) (g <$> y) :=
  bind h fun a b hab => pure (hs a b hab) (hp a b hab)

/-- Reading the states, if what comes after follows for any two that are related. -/
theorem get_bind {f g : σ → StateM σ α}
    (h : ∀ {L s t}, (∀ p ∈ known, p ∈ L) → R L s t → Follows R known (f s) (g t)) :
    Follows R known (get >>= f) (get >>= g) :=
  ⟨fun hL hst => (h hL hst).run hL hst⟩

/-- Reading the states together with links that they have. -/
theorem get_links {f g : σ → StateM σ α}
    (h : ∀ {L s t}, (∀ p ∈ known, p ∈ L) → R L s t →
      ∃ more : List (ValueId × ValueId), (∀ p ∈ more, p ∈ L) ∧ Follows R (more ++ known) (f s) (g t)) :
    Follows R known (get >>= f) (get >>= g) := by
  refine ⟨fun {L s t} hL hst => ?_⟩
  obtain ⟨more, hmore, hfollows⟩ := h hL hst
  refine hfollows.run (fun p hp => ?_) hst
  rcases List.mem_append.1 hp with hp | hp
  · exact hmore p hp
  · exact hL p hp

theorem modify {f g : σ → σ} (h : ∀ {L s t}, (∀ p ∈ known, p ∈ L) → R L s t → R L (f s) (g t)) :
    Follows R known (modify f) (modify g) :=
  ⟨fun {L} _ _ hL hst => ⟨L, subset_rfl, h hL hst, rfl, by simp⟩⟩

theorem ite {c : Prop} [Decidable c] {x y x' y' : StateM σ α} (h : Follows R known x y)
    (h' : Follows R known x' y') : Follows R known (if c then x else x') (if c then y else y') := by
  split
  · exact h
  · exact h'

end StateM.Follows

namespace BlockForge.Ir

open StateM

/-! ### Code with linked operands -/

/-- The same terminator with linked operands. -/
inductive Terminator.Like (ρ : ValueId → ValueId → Prop) : Terminator → Terminator → Prop
  | br (block : BlockId) : Like ρ (.br block) (.br block)
  | condBr {c c' : ValueId} (hc : ρ c c') (ifTrue ifFalse : BlockId) :
      Like ρ (.condBr c ifTrue ifFalse) (.condBr c' ifTrue ifFalse)
  | ret {v v' : ValueId} (hv : ρ v v') : Like ρ (.ret (some v)) (.ret (some v'))
  | retVoid : Like ρ (.ret none) (.ret none)
  | unreachable : Like ρ .unreachable .unreachable

/-- The same instruction with linked operands; none that calls the host. -/
inductive InstKind.Like (ρ : ValueId → ValueId → Prop) : InstKind → InstKind → Prop
  | alloca (ty : Ty) : Like ρ (.alloca ty) (.alloca ty)
  | load (ty : Ty) {p p' : ValueId} (hp : ρ p p') : Like ρ (.load ty p) (.load ty p')
  | store {v v' p p' : ValueId} (hv : ρ v v') (hp : ρ p p') : Like ρ (.store v p) (.store v' p')
  | binary (op : BinOp) {a a' b b' : ValueId} (ha : ρ a a') (hb : ρ b b') :
      Like ρ (.binary op a b) (.binary op a' b')
  | fneg {a a' : ValueId} (ha : ρ a a') : Like ρ (.fneg a) (.fneg a')
  | icmp (pred : IntPred) {a a' b b' : ValueId} (ha : ρ a a') (hb : ρ b b') :
      Like ρ (.icmp pred a b) (.icmp pred a' b')
  | fcmp (pred : FloatPred) {a a' b b' : ValueId} (ha : ρ a a') (hb : ρ b b') :
      Like ρ (.fcmp pred a b) (.fcmp pred a' b')
  | cast (op : CastOp) {a a' : ValueId} (ha : ρ a a') (ty : Ty) : Like ρ (.cast op a ty) (.cast op a' ty)
  | select {c c' a a' b b' : ValueId} (hc : ρ c c') (ha : ρ a a') (hb : ρ b b') :
      Like ρ (.select c a b) (.select c' a' b')
  | phi (ty : Ty) {incoming incoming' : List (ValueId × BlockId)}
      (h : List.Forall₂ (fun e e' => ρ e.1 e'.1 ∧ e'.2 = e.2) incoming incoming') :
      Like ρ (.phi ty incoming) (.phi ty incoming')
  | call (func : FuncId) {args args' : List ValueId} (h : List.Forall₂ ρ args args') (ret : Ty) :
      Like ρ (.call (.func func) args ret) (.call (.func func) args' ret)
  | ptrAdd {p p' o o' : ValueId} (hp : ρ p p') (ho : ρ o o') : Like ρ (.ptrAdd p o) (.ptrAdd p' o')
  | fieldPtr (struct : StructId) {p p' : ValueId} (hp : ρ p p') (field : Nat) :
      Like ρ (.fieldPtr struct p field) (.fieldPtr struct p' field)
  | memCopy {d d' s s' l l' : ValueId} (hd : ρ d d') (hs : ρ s s') (hl : ρ l l') :
      Like ρ (.memCopy d s l) (.memCopy d' s' l')
  | memMove {d d' s s' l l' : ValueId} (hd : ρ d d') (hs : ρ s s') (hl : ρ l l') :
      Like ρ (.memMove d s l) (.memMove d' s' l')

theorem Terminator.Like.imp {ρ τ : ValueId → ValueId → Prop} (h : ∀ v w, ρ v w → τ v w) {t t' : Terminator}
    (ht : t.Like ρ t') : t.Like τ t' := by
  cases ht with
  | condBr hc => exact .condBr (h _ _ hc) ..
  | ret hv => exact .ret (h _ _ hv)
  | _ => constructor

theorem InstKind.Like.imp {ρ τ : ValueId → ValueId → Prop} (h : ∀ v w, ρ v w → τ v w) {k k' : InstKind}
    (hk : k.Like ρ k') : k.Like τ k' := by
  cases hk with
  | phi ty he => exact .phi ty (he.imp fun _ _ ⟨hv, hb⟩ => ⟨h _ _ hv, hb⟩)
  | call f ha ret => exact .call f (ha.imp h) ret
  | _ => constructor <;> apply h <;> assumption

theorem Terminator.Like.successors {ρ : ValueId → ValueId → Prop} {t t' : Terminator} (h : t.Like ρ t') :
    t'.successors = t.successors := by
  cases h <;> rfl

theorem Terminator.Like.eq {t t' : Terminator} (h : t.Like (fun v w => w = v) t') : t' = t := by
  cases h <;> simp_all

theorem InstKind.Like.eq {k k' : InstKind} (h : k.Like (fun v w => w = v) k') : k' = k := by
  cases h with
  | phi ty he =>
    congr 1
    induction he with
    | nil => rfl
    | cons hd _ ih => rw [ih, Prod.ext_iff.2 hd]
  | call f ha ret =>
    congr 1
    induction ha with
    | nil => rfl
    | cons hd _ ih => rw [ih, hd]
  | _ => simp_all

/-! ### Tandems -/

/-- Whether a name ends like that of a block: neither in a digit nor in a dot. -/
def IsLabel (name : String) : Prop := ∃ c ∈ name.toList.getLast?, (c.isDigit || c == '.') = false

/-- A pair that is known to be linked. -/
abbrev Known (known : List (ValueId × ValueId)) (v w : ValueId) : Prop := (v, w) ∈ known

/-- A relation between builders that all operations of the builder keep. -/
structure Tandem where
  Rel : Links → Builder → Builder → Prop
  current {L b c} : Rel L b c → c.current = b.current
  terminators {L b c} : Rel L b c → c.terminators = b.terminators
  hasTerminator {L b c} : Rel L b c → ∀ i, c.hasTerminator i = b.hasTerminator i
  successorLists {L b c} : Rel L b c → c.function.successorLists = b.function.successorLists
  blocks {L b c} : Rel L b c → c.function.blocks.size = b.function.blocks.size
  pointerBits {L b c} : Rel L b c → c.module.pointerBits = b.module.pointerBits
  structs {L b c} : Rel L b c → c.module.structs = b.module.structs
  heads {L b c} : Rel L b c → ∀ f, (c.module.function? f).map Function.head = (b.module.function? f).map Function.head
  valueType {L b c v w} : Rel L b c → (v, w) ∈ L → c.valueType w = b.valueType v
  constIntValue? {L b c v w} : Rel L b c → (v, w) ∈ L → c.constIntValue? w = b.constIntValue? v
  demand {L b c} : Rel L b c → ∀ d met, Rel L (b.demand d met) (c.demand d met)
  moveTo {L b c} : Rel L b c → ∀ i, Rel L { b with current := some i } { c with current := some i }
  appendBlock {name : String} : IsLabel name → Follows Rel [] (Emit.appendBlock name) (Emit.appendBlock name)
  closeBlock {known t t'} (i : BlockId) : Terminator.Like (Known known) t t' →
    Follows Rel known (Emit.closeBlock i t) (Emit.closeBlock i t')
  constInt (ty : Ty) (value : UInt64) : Follows Rel [] (Emit.constInt ty value) (Emit.constInt ty value)
  constFloat (ty : Ty) (bits : UInt64) : Follows Rel [] (Emit.constFloat ty bits) (Emit.constFloat ty bits)
  constNull : Follows Rel [] Emit.constNull Emit.constNull
  globalString (text : String) : Follows Rel [] (Emit.globalString text) (Emit.globalString text)
  entryAlloca (ty : Ty) (name : String) : Follows Rel [] (Emit.entryAlloca ty name) (Emit.entryAlloca ty name)
  phi {known incoming incoming'} (ty : Ty) (name : String) :
    List.Forall₂ (fun e e' => Known known e.1 e'.1 ∧ e'.2 = e.2) incoming incoming' →
    Follows Rel known (Emit.phi ty incoming name) (Emit.phi ty incoming' name)
  emit {known k k'} (ty : Ty) (name : String) : k.isAlloca = false → k.isPhi = false →
    InstKind.Like (Known known) k k' → Follows Rel known (Emit.emit ty k name) (Emit.emit ty k' name)
  emitVoid {known k k'} : k.isAlloca = false → k.isPhi = false →
    InstKind.Like (Known known) k k' → Follows Rel known (Emit.emitVoid k) (Emit.emitVoid k')

namespace Tandem

variable (T : Tandem) {known : List (ValueId × ValueId)} {α β : Type} [Linkable α] [Linkable β]

/-- Two runs that keep the relation of a tandem. -/
abbrev Follows (known : List (ValueId × ValueId)) (x y : Emit α) : Prop := StateM.Follows T.Rel known x y

theorem ptrInt {L : Links} {b c : Builder} (h : T.Rel L b c) : c.module.ptrInt = b.module.ptrInt := by
  rw [Module.ptrInt, Module.ptrInt, T.pointerBits h]

theorem returns {L : Links} {b c : Builder} (h : T.Rel L b c) (f : FuncId) :
    (c.module.function? f).elim Ty.void (·.ret) = (b.module.function? f).elim Ty.void (·.ret) := by
  have hret : ∀ o : Option Function, o.elim Ty.void (·.ret) = (o.map Function.head).elim Ty.void (·.2.2) := by
    rintro (_ | f) <;> rfl
  rw [hret, T.heads h, ← hret]

theorem paramCount {L : Links} {b c : Builder} (h : T.Rel L b c) (f : FuncId) :
    (c.module.function? f).elim 0 (·.params.length) = (b.module.function? f).elim 0 (·.params.length) := by
  have hcount : ∀ o : Option Function, o.elim 0 (·.params.length) = (o.map Function.head).elim 0 (·.2.1.length) := by
    rintro (_ | f) <;> rfl
  rw [hcount, T.heads h, ← hcount]

theorem currentTerminated {L : Links} {b c : Builder} (h : T.Rel L b c) :
    c.currentTerminated = b.currentTerminated := by
  unfold Builder.currentTerminated
  rw [T.current h]
  cases b.current with
  | none => rfl
  | some i => exact T.hasTerminator h i

variable {a a' b b' c c' : ValueId}

theorem demands (d : Demand) {met met' : Builder → Bool}
    (hm : ∀ {L b c}, (∀ p ∈ known, p ∈ L) → T.Rel L b c → met' c = met b) :
    T.Follows known (Emit.demand d met) (Emit.demand d met') := by
  refine .modify fun hL h => ?_
  rw [hm hL h]
  exact T.demand h d _

theorem positionAt (i : BlockId) : T.Follows known (Emit.positionAt i) (Emit.positionAt i) :=
  (T.demands _ fun _ h => by rw [T.blocks h]).bind fun _ _ _ => .modify fun _ h => T.moveTo h i

theorem sealBlock (i : BlockId) : T.Follows known (Emit.sealBlock i) (Emit.sealBlock i) :=
  T.closeBlock i .unreachable

/-! ### Constants and memory -/

theorem constBool (value : Bool) : T.Follows known (Emit.constBool value) (Emit.constBool value) :=
  (T.constInt ..).weaken

theorem constUsize (value : UInt64) : T.Follows known (Emit.constUsize value) (Emit.constUsize value) := by
  refine .get_bind fun _ h => ?_
  rw [T.ptrInt h]
  exact (T.constInt ..).weaken

theorem load (ty : Ty) (ha : Known known a a') (name : String) :
    T.Follows known (Emit.load ty a name) (Emit.load ty a' name) :=
  (T.demands _ fun hL h => by rw [T.valueType h (hL _ ha)]).bind fun _ _ _ => T.emit _ _ rfl rfl (.load _ ha)

theorem store (ha : Known known a a') (hb : Known known b b') :
    T.Follows known (Emit.store a b) (Emit.store a' b') :=
  (T.demands _ fun hL h => by rw [T.valueType h (hL _ hb)]).bind fun _ _ _ => T.emitVoid rfl rfl (.store ha hb)

theorem ptrAdd (ha : Known known a a') (hb : Known known b b') (name : String) :
    T.Follows known (Emit.ptrAdd a b name) (Emit.ptrAdd a' b' name) :=
  T.emit _ _ rfl rfl (.ptrAdd ha hb)

theorem fieldPtr (struct : StructId) (ha : Known known a a') (field : Nat) (name : String) :
    T.Follows known (Emit.fieldPtr struct a field name) (Emit.fieldPtr struct a' field name) :=
  (T.demands _ fun _ h => by rw [Module.structFields, Module.structFields, T.structs h]).bind fun _ _ _ => T.emit _ _ rfl rfl (.fieldPtr _ ha _)

theorem memCopy (ha : Known known a a') (hb : Known known b b') (hc : Known known c c') :
    T.Follows known (Emit.memCopy a b c) (Emit.memCopy a' b' c') :=
  T.emitVoid rfl rfl (.memCopy ha hb hc)

theorem memMove (ha : Known known a a') (hb : Known known b b') (hc : Known known c c') :
    T.Follows known (Emit.memMove a b c) (Emit.memMove a' b' c') :=
  T.emitVoid rfl rfl (.memMove ha hb hc)

/-! ### Arithmetic, comparison and conversion -/

theorem binary (op : BinOp) (ha : Known known a a') (hb : Known known b b') (name : String) :
    T.Follows known (Emit.binary op a b name) (Emit.binary op a' b' name) := by
  refine (T.demands _ fun hL h => by rw [T.valueType h (hL _ ha), T.valueType h (hL _ hb)]).bind fun _ _ _ => ?_
  refine (T.demands _ fun hL h => ?_).bind fun _ _ _ => .get_bind fun hL h => ?_
  · rw [T.valueType h (hL _ (by simpa using ha))]
  · rw [T.valueType h (hL _ (by simpa using ha))]
    exact T.emit _ _ rfl rfl (.binary _ (by simpa using ha) (by simpa using hb))

theorem neg (ha : Known known a a') (name : String) : T.Follows known (Emit.neg a name) (Emit.neg a' name) := by
  refine .get_bind fun hL h => ?_
  rw [T.valueType h (hL _ ha)]
  exact (T.constInt ..).weaken.bind fun zero zero' _ => T.binary _ (by simp) (by simp [ha]) _

theorem fneg (ha : Known known a a') (name : String) : T.Follows known (Emit.fneg a name) (Emit.fneg a' name) := by
  refine .get_bind fun hL h => ?_
  rw [T.valueType h (hL _ ha)]
  exact T.emit _ _ rfl rfl (.fneg ha)

theorem not (ha : Known known a a') (name : String) : T.Follows known (Emit.not a name) (Emit.not a' name) := by
  refine .get_bind fun hL h => ?_
  rw [T.valueType h (hL _ ha)]
  exact (T.constInt ..).weaken.bind fun ones ones' _ => T.binary _ (by simp [ha]) (by simp) _

theorem icmp (pred : IntPred) (ha : Known known a a') (hb : Known known b b') (name : String) :
    T.Follows known (Emit.icmp pred a b name) (Emit.icmp pred a' b' name) :=
  (T.demands _ fun hL h => by rw [T.valueType h (hL _ ha), T.valueType h (hL _ hb)]).bind fun _ _ _ => T.emit _ _ rfl rfl (.icmp _ ha hb)

theorem fcmp (pred : FloatPred) (ha : Known known a a') (hb : Known known b b') (name : String) :
    T.Follows known (Emit.fcmp pred a b name) (Emit.fcmp pred a' b' name) :=
  T.emit _ _ rfl rfl (.fcmp _ ha hb)

theorem cast (op : CastOp) (ha : Known known a a') (ty : Ty) (name : String) :
    T.Follows known (Emit.cast op a ty name) (Emit.cast op a' ty name) :=
  T.emit _ _ rfl rfl (.cast _ ha _)

theorem intResize (ha : Known known a a') (ty : Ty) (signed : Bool) (name : String) :
    T.Follows known (Emit.intResize a ty signed name) (Emit.intResize a' ty signed name) := by
  refine .get_bind fun hL h => ?_
  rw [T.valueType h (hL _ ha)]
  exact .ite (.pure (by simp) (by simp [ha])) (.ite (T.cast _ ha _ _) (T.cast _ ha _ _))

theorem select (ha : Known known a a') (hb : Known known b b') (hc : Known known c c') (name : String) :
    T.Follows known (Emit.select a b c name) (Emit.select a' b' c' name) := by
  refine .get_bind fun hL h => ?_
  rw [T.valueType h (hL _ hb)]
  exact T.emit _ _ rfl rfl (.select ha hb hc)

/-! ### Calls and terminators -/

theorem call (func : FuncId) {args args' : List ValueId} (h : List.Forall₂ (Known known) args args') (name : String) :
    T.Follows known (Emit.call func args name) (Emit.call func args' name) := by
  refine (T.demands _ fun _ hst => ?_).bind fun _ _ _ => .get_bind fun hL hst => ?_
  · rw [T.paramCount hst, h.length_eq]
  rw [T.returns hst]
  unfold Emit.callAt
  refine .ite ?_ ?_
  · exact (T.emitVoid rfl rfl (.call _ h _)).bind fun _ _ _ => .pure (by simp) (by simp)
  · exact (T.emit _ _ rfl rfl (.call _ h _)).map (by simp) (by simp)

theorem terminate {t t' : Terminator} (ht : t.Like (Known known) t') :
    T.Follows known (Emit.terminate t) (Emit.terminate t') := by
  refine .get_bind fun hL h => ?_
  rw [T.current h]
  cases Builder.current _ with
  | none => exact T.demands _ fun _ _ => rfl
  | some i =>
    refine (T.closeBlock i ht).bind fun closed _ hc => ?_
    obtain rfl := (Linkable.same_bool ..).1 hc
    exact T.demands _ fun _ _ => rfl

theorem br (i : BlockId) : T.Follows known (Emit.br i) (Emit.br i) := T.terminate (.br i)

theorem condBr (ha : Known known a a') (i j : BlockId) :
    T.Follows known (Emit.condBr a i j) (Emit.condBr a' i j) :=
  (T.demands _ fun hL h => by rw [T.valueType h (hL _ ha)]).bind fun _ _ _ => T.terminate (.condBr ha i j)

theorem ret (ha : Known known a a') : T.Follows known (Emit.ret a) (Emit.ret a') := T.terminate (.ret ha)

theorem retVoid : T.Follows known Emit.retVoid Emit.retVoid := T.terminate .retVoid

theorem unreachable : T.Follows known Emit.unreachable Emit.unreachable := T.terminate .unreachable

end Tandem

end BlockForge.Ir
