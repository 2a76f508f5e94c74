import BlockForge.Proofs.Ir.Tidy
import BlockForge.Proofs.Lowering.Allocators
import BlockForge.Proofs.Lowering.Renumbering.Code

/-!
# Building code up to the numbers of its values

Two builders at the same point of one function, whose values may have other numbers. Every operation of the builder
leaves them so, if its operands correspond, and what it makes corresponds as well.
-/

namespace BlockForge.Ir

open Lowering (HostsOf)
open StateM

/-! ### Plain instructions -/

/-- Neither a slot nor a merge nor a call of the host. -/
structure InstKind.Plain (k : InstKind) : Prop where
  isAlloca : k.isAlloca = false
  isPhi : k.isPhi = false
  callsHost : k.callsHost = false

theorem InstKind.Like.plain {ρ : ValueId → ValueId → Prop} {k k' : InstKind} (h : k.Like ρ k')
    (ha : k.isAlloca = false) (hp : k.isPhi = false) : k.Plain ∧ k'.Plain := by
  cases h with
  | alloca => cases ha
  | phi => cases hp
  | _ => exact ⟨⟨rfl, rfl, rfl⟩, rfl, rfl, rfl⟩

theorem Orderly.append {is js : List Inst} (h : Orderly is) (hj : ∀ x ∈ js, x.kind.Plain) : Orderly (is ++ js) :=
  List.pairwise_append.2 ⟨h, List.pairwise_of_forall_mem_list fun _ _ j hm _ => ⟨(hj j hm).isAlloca, (hj j hm).isPhi⟩,
    fun _ _ j hm _ => ⟨(hj j hm).isAlloca, (hj j hm).isPhi⟩⟩

/-! ### Blocks side by side -/

/-- Instructions of one block: the same without calls of the host, and orderly with them. -/
structure Code.Abreast (N : Numbering) (xs ys : Array Inst) : Prop where
  left : Orderly xs.toList
  right : Orderly ys.toList
  own : Code.Renumbered N (ownCode xs) (ownCode ys)

structure Block.Abreast (N : Numbering) (b c : Block) : Prop where
  name : c.name = b.name
  insts : Code.Abreast N b.insts c.insts
  terminator : Option.Rel (Terminator.Like fun v w => (v, w) ∈ N.links) b.terminator c.terminator

section

variable {N M : Numbering} {xs ys : Array Inst} {x y : Inst}

theorem Code.Abreast.mono (h : Code.Abreast N xs ys) (hN : N ≤ M) : Code.Abreast M xs ys :=
  ⟨h.left, h.right, h.own.mono hN⟩

theorem Block.Abreast.mono {b c : Block} (h : b.Abreast N c) (hN : N ≤ M) : b.Abreast M c where
  name := h.name
  insts := h.insts.mono hN
  terminator := by
    have ht := h.terminator
    generalize b.terminator = s, c.terminator = t at ht ⊢
    cases ht with
    | none => exact .none
    | some ht => exact .some (ht.imp fun _ _ hv => Numbering.links_mono hN hv)

theorem Code.Abreast.append (h : Code.Abreast N xs ys) {is js : List Inst} (hx : Code.Renumbered N is js)
    (hi : ∀ x ∈ is ++ js, x.kind.Plain) :
    Code.Abreast N (xs ++ is.toArray) (ys ++ js.toArray) := by
  have hown : ∀ (xs : Array Inst) {is : List Inst}, (∀ x ∈ is, x.kind.Plain) →
      ownCode (xs ++ is.toArray) = ownCode xs ++ is := by
    intro xs is hi
    have hf : is.filter (fun i => !i.kind.callsHost) = is :=
      List.filter_eq_self.2 fun x hx => by simp [(hi x hx).callsHost]
    simp [ownCode, hf]
  have hl : ∀ x ∈ is, x.kind.Plain := fun x hm => hi x (List.mem_append_left _ hm)
  have hr : ∀ x ∈ js, x.kind.Plain := fun x hm => hi x (List.mem_append_right _ hm)
  refine ⟨by simpa using h.left.append hl, by simpa using h.right.append hr, ?_⟩
  rw [hown xs hl, hown ys hr]
  exact Code.Renumbered.append h.own hx

theorem Code.Abreast.insert {c : InstKind → Bool} (hc : c = InstKind.isAlloca ∨ c = InstKind.isPhi)
    (h : Code.Abreast N xs ys) (hx : Code.Renumbered N [x] [y]) :
    Code.Abreast N (insertAfterLeading (fun i => c i.kind) x xs) (insertAfterLeading (fun i => c i.kind) y ys) := by
  cases hx with
  | @cons r r' k k' _ _ hr hl hnil =>
    have hk : k.callsHost = false ∧ k'.callsHost = false := by
      cases hl <;> exact ⟨rfl, rfl⟩
    refine ⟨h.left.insert hc hk.1, h.right.insert hc hk.2, ?_⟩
    rw [ownCode, ownCode]
    dsimp only [insertAfterLeading]
    rw [h.left.filter_insert hc hk.1, h.right.filter_insert hc hk.2]
    exact h.own.insert hc (.cons hr hl hnil)

end

/-! ### Builders side by side -/

/-- The capacities as values of two modules. -/
def Variation.contrast (V : Variation) (m n : Module) : Contrast :=
  { V with left := m.word V.leftCapacity, right := n.word V.rightCapacity }

/-- One function in two modules that are made by different lowerings. -/
structure Setting extends Peers, Variation

def Setting.contrast (S : Setting) : Contrast := S.toVariation.contrast S.left S.right

namespace Builder

/-- Places instructions at the current position, if it is open. -/
def place (b : Builder) (is : List Inst) : Builder :=
  match b.current with
  | none => b
  | some i => if b.hasTerminator i then b else b.modifyFunction (·.editInsts i (· ++ is.toArray))

/-- With other demands that have not been met. -/
def breaking (b : Builder) (w : List Demand) : Builder := { b with broken := w }

theorem place_breaking (b : Builder) (is : List Inst) (w : List Demand) :
    (b.breaking w).place is = (b.place is).breaking w := by
  obtain ⟨m, f, current, t, w'⟩ := b
  cases current with
  | none => rfl
  | some i =>
    unfold place breaking
    dsimp only
    rw [show ({ module := m, func := f, current := some i, terminators := t, broken := w } : Builder).hasTerminator i =
      ({ module := m, func := f, current := some i, terminators := t, broken := w' } : Builder).hasTerminator i from rfl]
    split <;> rfl

theorem place_place {b : Builder} (hv : b.func.index < b.module.functions.size) (is js : List Inst) :
    (b.place is).place js = b.place (is ++ js) := by
  cases hb : b.current with
  | none => simp [place, hb]
  | some i =>
    cases ht : b.hasTerminator i with
    | true => simp [place, hb, ht]
    | false =>
      have hplace : ∀ is, b.place is = b.modifyFunction (·.editInsts i (· ++ is.toArray)) := by
        intro is
        simp [place, hb, ht]
      have hopen : (b.modifyFunction (·.editInsts i (· ++ is.toArray))).hasTerminator i = false := by
        rw [hasTerminator_eq, function_modifyFunction hv, Function.ending_editInsts, ← hasTerminator_eq, ht]
      have hcurrent : (b.modifyFunction (·.editInsts i (· ++ is.toArray))).current = some i := hb
      rw [hplace, hplace, place, hcurrent]
      dsimp only
      rw [hopen, if_neg (by simp), Emit.modifyFunction_modifyFunction]
      congr 1
      funext f
      have hlist : (f.blocks.modify i.index fun bl => { bl with insts := bl.insts ++ is.toArray }).modify i.index
          (fun bl => { bl with insts := bl.insts ++ js.toArray }) =
            f.blocks.modify i.index fun bl => { bl with insts := bl.insts ++ (is ++ js).toArray } :=
        Array.toList_inj.1 (by simp [List.modify_modify_eq, Function.comp_def])
      simp only [Function.comp_apply, Function.editInsts, hlist]

/-- Builders at the same point of the same function, up to the numbers of values. -/
structure Renumbered (S : Setting) (N : Numbering) (b c : Builder) : Prop where
  current : c.current = b.current
  terminators : c.terminators = b.terminators
  left : b.Along S.left S.func
  right : c.Along S.right S.func
  leftHosts : HostsOf S.leftHosts b.module
  rightHosts : HostsOf S.rightHosts c.module
  values : N.Fits S.contrast b.module.shared c.module.shared b.function c.function
  blocks : Paired (Block.Abreast N) b.function.blocks c.function.blocks

end Builder

/-- An instruction is placed, or a demand is not met. -/
theorem Emit.insert_eq_place (k : InstKind) (r : Option ValueId) (b : Builder) :
    ∃ w, (Emit.insert k r b).2 = (b.place [⟨r, k⟩]).breaking w := by
  simp only [Emit.insert, modify, modifyGet, MonadStateOf.modifyGet, StateT.modifyGet, pure, Builder.place]
  cases b.current with
  | none => exact ⟨_, rfl⟩
  | some i =>
    dsimp only
    split
    · exact ⟨_, rfl⟩
    · exact ⟨b.broken, by simp; rfl⟩

namespace Builder

namespace Renumbered

variable {S : Setting} {N M : Numbering} {b c : Builder} (h : Renumbered S N b c)

include h

/-- Which demands have not been met does not matter. -/
theorem breaking (w w' : List Demand) : Renumbered S N (b.breaking w) (c.breaking w') :=
  ⟨h.current, h.terminators, h.left.of_eq rfl rfl, h.right.of_eq rfl rfl, h.leftHosts, h.rightHosts, h.values, h.blocks⟩

theorem demand (d e : Demand) (met met' : Bool) : Renumbered S N (b.demand d met) (c.demand e met') := by
  cases met <;> cases met' <;> exact h.breaking ..

theorem moveTo (i : BlockId) : Renumbered S N { b with current := some i } { c with current := some i } :=
  ⟨rfl, h.terminators, h.left.of_eq rfl rfl, h.right.of_eq rfl rfl, h.leftHosts, h.rightHosts, h.values, h.blocks⟩

theorem modifyFunction {F G : Function → Function} (hF : (F b.function).head = b.function.head)
    (hG : (G c.function).head = c.function.head)
    (hv : M.Fits S.contrast b.module.shared c.module.shared (F b.function) (G c.function))
    (hb : Paired (Block.Abreast M) (F b.function).blocks (G c.function).blocks) :
    Renumbered S M (b.modifyFunction F) (c.modifyFunction G) where
  current := h.current
  terminators := h.terminators
  left := h.left.modifyFunction hF
  right := h.right.modifyFunction hG
  leftHosts := h.leftHosts
  rightHosts := h.rightHosts
  values := by
    rw [function_modifyFunction h.left.valid, function_modifyFunction h.right.valid]
    exact hv
  blocks := by
    rw [function_modifyFunction h.left.valid, function_modifyFunction h.right.valid]
    exact hb

/-- What is emitted into one block of both. -/
theorem editInsts (i : BlockId) {k l : Array Inst → Array Inst}
    (hk : ∀ xs ys, Code.Abreast N xs ys → Code.Abreast N (k xs) (l ys)) :
    Renumbered S N (b.modifyFunction (·.editInsts i k)) (c.modifyFunction (·.editInsts i l)) := by
  refine h.modifyFunction rfl rfl (h.values.keeps rfl rfl rfl rfl (.refl _) (.refl _)) ?_
  exact h.blocks.modify i.index fun _ _ hb => ⟨hb.name, hk _ _ hb.insts, hb.terminator⟩

theorem addBlock (name : String) :
    Renumbered S N (b.modifyFunction (·.addBlock name)) (c.modifyFunction (·.addBlock name)) := by
  refine h.modifyFunction rfl rfl (h.values.keeps rfl rfl rfl rfl (.refl _) (.refl _)) ?_
  exact h.blocks.push ⟨rfl, ⟨.nil, .nil, .nil⟩, .none⟩

theorem setEnding (i : BlockId) {t t' : Terminator} (ht : t.Like (fun v w => (v, w) ∈ N.links) t') :
    Renumbered S N (b.modifyFunction (·.setEnding i t)) (c.modifyFunction (·.setEnding i t')) := by
  refine h.modifyFunction rfl rfl (h.values.keeps rfl rfl rfl rfl (.refl _) (.refl _)) ?_
  exact h.blocks.modify i.index fun _ _ hb => ⟨hb.name, hb.insts, .some ht⟩

/-! ### What both have in common -/

theorem pointerBits : c.module.pointerBits = b.module.pointerBits := by
  rw [h.right.pointerBits, S.pointerBits, h.left.pointerBits]

theorem heads (j : FuncId) :
    (c.module.function? j).map Function.head = (b.module.function? j).map Function.head := by
  rw [h.right.heads, S.heads, h.left.heads]

theorem ending (i : BlockId) :
    Option.Rel (Terminator.Like fun v w => (v, w) ∈ N.links) (b.function.ending i) (c.function.ending i) := by
  unfold Function.ending
  rcases h.blocks.entry i.index with ⟨hx, hy⟩ | ⟨x, y, hx, hy, hxy⟩
  · rw [hx, hy]
    exact .none
  · rw [hx, hy]
    exact hxy.terminator

theorem hasTerminator (i : BlockId) : c.hasTerminator i = b.hasTerminator i := by
  rw [hasTerminator_eq, hasTerminator_eq]
  have := h.ending i
  generalize b.function.ending i = x, c.function.ending i = y at this
  cases this <;> rfl

theorem successorLists : c.function.successorLists = b.function.successorLists := by
  unfold Function.successorLists
  refine h.blocks.map_eq fun x y hxy => ?_
  rw [Block.successors, Block.successors]
  obtain ⟨-, -, ht⟩ := hxy
  generalize x.terminator = s, y.terminator = t at ht
  cases ht with
  | none => rfl
  | some ht => exact ht.successors

theorem valueType {v w : ValueId} (hvw : (v, w) ∈ N.links) : c.valueType w = b.valueType v := by
  obtain ⟨x, y, hx, hy, hty, -⟩ := h.values.operand hvw
  rw [Builder.valueType, Builder.valueType, Function.valueType, Function.valueType, hx, hy]
  exact hty

theorem constIntValue? {v w : ValueId} (hvw : (v, w) ∈ N.links) : c.constIntValue? w = b.constIntValue? v := by
  obtain ⟨x, y, hx, hy, -, hnum⟩ := h.values.operand hvw
  rw [Builder.constIntValue?, Builder.constIntValue?, hx, hy]
  -- both are the same number, or neither is one
  split
  · rename_i ty bits name hb
    have := (hnum ty bits name).1 (Option.some.inj hb)
    rw [this]
  · rename_i hno
    split
    · rename_i ty bits name hb
      exact absurd (congrArg some ((hnum ty bits name).2 (Option.some.inj hb))) (hno ty bits name)
    · rfl

/-! ### New values -/

/-- Both get a value more that is the same in both. -/
theorem addValue {x y : Value} (hxy : x.Alike b.module.shared c.module.shared y) :
    Renumbered S (N.add .own (⟨b.function.values.size⟩, ⟨c.function.values.size⟩))
      (b.modifyFunction (·.addValue x)) (c.modifyFunction (·.addValue y)) := by
  refine h.modifyFunction rfl rfl ?_ (h.blocks.imp fun _ _ hb => hb.mono (N.le_add _ _))
  have hwidens : ∀ (f : Function) (x : Value), f.Widens (f.addValue x) := fun _ _ => ⟨rfl, by simp [Function.addValue]⟩
  have hlast : ∀ (f : Function) (x : Value), (f.addValue x).value? ⟨f.values.size⟩ = some x := fun _ _ => by
    simp [Function.value?, Function.addValue]
  have hrel : Role.own.Relates S.contrast b.module.shared c.module.shared x y := hxy
  refine h.values.add (hwidens _ _) (hwidens _ _) (.refl _) (.refl _) (hlast _ _) (hlast _ _) hrel (fun ht => ?_)
    fun _ => ⟨Nat.le_refl _, Nat.le_refl _⟩
  simpa [Function.addValue] using ht.own

/-- Plain instructions placed in both. -/
theorem place {is js : List Inst} (hx : Code.Renumbered N is js) (hi : ∀ x ∈ is ++ js, x.kind.Plain) :
    Renumbered S N (b.place is) (c.place js) := by
  unfold Builder.place
  rw [h.current]
  split
  · exact h
  · rename_i i _
    rw [h.hasTerminator]
    split
    · exact h
    · exact h.editInsts i fun _ _ hxs => hxs.append hx hi

theorem insert {r r' : Option ValueId} {k k' : InstKind} (hx : Code.Renumbered N [⟨r, k⟩] [⟨r', k'⟩])
    (hk : k.Plain ∧ k'.Plain) : Renumbered S N (Emit.insert k r b).2 (Emit.insert k' r' c).2 := by
  obtain ⟨w, hb⟩ := Emit.insert_eq_place k r b
  obtain ⟨w', hc⟩ := Emit.insert_eq_place k' r' c
  rw [hb, hc]
  exact (h.place hx (by simp [hk])).breaking w w'

/-- More is shared; the code stays. -/
theorem onModule {m n : Module} (hm : b.module.Grows m) (hn : c.module.Grows n)
    (fm : m.functions = b.module.functions) (fn : n.functions = c.module.functions)
    (km : HostsOf S.leftHosts m) (kn : HostsOf S.rightHosts n) :
    Renumbered S N { b with module := m } { c with module := n } where
  current := h.current
  terminators := h.terminators
  left := h.left.onModule hm fm
  right := h.right.onModule hn fn
  leftHosts := km
  rightHosts := kn
  values := by
    rw [function_onModule b fm, function_onModule c fn]
    exact h.values.keeps rfl rfl rfl rfl ⟨hm.globals, hm.hosts⟩ ⟨hn.globals, hn.hosts⟩
  blocks := by
    rw [function_onModule b fm, function_onModule c fn]
    exact h.blocks

end Renumbered

end Builder

/-! ### The tandem -/

namespace Setting

variable {S : Setting} {known : List (ValueId × ValueId)}

/-- Links between operands of builders side by side. -/
def Rel (S : Setting) (L : Links) (b c : Builder) : Prop :=
  ∃ N : Numbering, L ⊆ N.links ∧ b.Renumbered S N c

theorem Rel.of {N : Numbering} {b c : Builder} (h : b.Renumbered S N c) : S.Rel N.links b c := ⟨N, subset_rfl, h⟩

/-- Builders that stay side by side, with a result that has no values in it. -/
theorem follows_of {α : Type} [Linkable α] {x y : Emit α} (hno : ∀ a b : α, Linkable.pairs a b = [])
    (h : ∀ {N b c}, (∀ p ∈ known, p ∈ N.links) → b.Renumbered S N c →
      Linkable.same (x b).1 (y c).1 ∧ (x b).2.Renumbered S N (y c).2) : Follows S.Rel known x y := by
  refine ⟨fun {L b c} hL ⟨N, hN, hbc⟩ => ?_⟩
  obtain ⟨hs, hnext⟩ := h (fun p hp => hN (hL p hp)) hbc
  exact ⟨N.links, hN, .of hnext, hs, by simp [hno]⟩

/-- Both make a value. -/
theorem follows_new {x y : Emit ValueId}
    (h : ∀ {N b c}, (∀ p ∈ known, p ∈ N.links) → b.Renumbered S N c →
      (x b).2.Renumbered S (N.add .own ((x b).1, (y c).1)) (y c).2) : Follows S.Rel known x y := by
  refine ⟨fun {L b c} hL ⟨N, hN, hbc⟩ => ?_⟩
  refine ⟨_, hN.trans (Numbering.links_mono (N.le_add _ _)), .of (h (fun p hp => hN (hL p hp)) hbc), trivial, ?_⟩
  intro p hp
  obtain rfl := List.mem_singleton.1 hp
  exact .inl (N.mem_add ..)

theorem pushValue_follows {kind : ValueKind} (hk : ∀ i, kind ≠ .global i) (ty : Ty) (name : String) :
    Follows S.Rel known (Emit.pushValue ty kind name) (Emit.pushValue ty kind name) :=
  follows_new fun _ h => h.addValue (.same hk)

/-- Operands of the operation are operands of what it makes a value for. -/
theorem like_add {N : Numbering} (hN : ∀ p ∈ known, p ∈ N.links) (p : ValueId × ValueId) {k k' : InstKind}
    (hk : k.Like (Known known) k') : Code.Renumbered (N.add .own p) [⟨some p.1, k⟩] [⟨some p.2, k'⟩] := by
  refine .cons (.some (N.mem_add ..)) (hk.imp fun v w hvw => ?_) .nil
  exact Numbering.links_mono (N.le_add _ _) (hN _ hvw)

theorem emit_renumbered {N : Numbering} {b c : Builder} (h : b.Renumbered S N c) (hN : ∀ p ∈ known, p ∈ N.links)
    {k k' : InstKind} (hk : k.Like (Known known) k') (ha : k.isAlloca = false) (hp : k.isPhi = false) (ty : Ty)
    (name : String) : (Emit.emit ty k name b).2.Renumbered S
      (N.add .own ((Emit.emit ty k name b).1, (Emit.emit ty k' name c).1)) (Emit.emit ty k' name c).2 := by
  have hadd := h.addValue (x := ⟨ty, .inst (b.current.getD Id.entry), name⟩) (.same (by simp))
  have hins := hadd.insert (like_add hN (⟨b.function.values.size⟩, ⟨c.function.values.size⟩) hk) (hk.plain ha hp)
  unfold Emit.emit
  show Builder.Renumbered S (N.add .own (⟨b.function.values.size⟩, ⟨c.function.values.size⟩))
    (Emit.insert k _ (b.modifyFunction (·.addValue ⟨ty, .inst (b.current.getD Id.entry), name⟩))).2
    (Emit.insert k' _ (c.modifyFunction (·.addValue ⟨ty, .inst (c.current.getD Id.entry), name⟩))).2
  rw [h.current]
  exact hins

theorem emitVoid_renumbered {N : Numbering} {b c : Builder} (h : b.Renumbered S N c)
    (hN : ∀ p ∈ known, p ∈ N.links) {k k' : InstKind} (hk : k.Like (Known known) k') (ha : k.isAlloca = false)
    (hp : k.isPhi = false) : (Emit.emitVoid k b).2.Renumbered S N (Emit.emitVoid k' c).2 :=
  h.insert (.cons .none (hk.imp fun _ _ hvw => hN _ hvw) .nil) (hk.plain ha hp)

theorem entryAlloca_follows (ty : Ty) (name : String) :
    Follows S.Rel known (Emit.entryAlloca ty name) (Emit.entryAlloca ty name) := by
  refine follows_new fun {N b c} hN h => ?_
  have hadd := h.addValue (x := ⟨.ptr, .inst Id.entry, name⟩) (.same (by simp))
  refine (hadd.demand .entryExists .entryExists _ _).editInsts Id.entry fun xs ys hxs => ?_
  exact hxs.insert (.inl rfl) (like_add hN (⟨b.function.values.size⟩, ⟨c.function.values.size⟩) (.alloca ty))

theorem phi_follows {incoming incoming' : List (ValueId × BlockId)} (ty : Ty) (name : String)
    (hi : List.Forall₂ (fun e e' => Known known e.1 e'.1 ∧ e'.2 = e.2) incoming incoming') :
    Follows S.Rel known (Emit.phi ty incoming name) (Emit.phi ty incoming' name) := by
  refine follows_new fun {N b c} hN h => ?_
  have hrun : ∀ incoming (b : Builder), Emit.phi ty incoming name b = (match b.current with
      | none => (do Emit.demand .position fun _ => false; Emit.constInt ty 0 : Emit ValueId)
      | some i => do
        let result ← Emit.pushValue ty (.inst i) name
        modify fun b : Builder => b.modifyFunction
          (·.editInsts i (insertAfterLeading (·.kind.isPhi) ⟨some result, .phi ty incoming⟩))
        pure result) b := fun _ _ => rfl
  rw [hrun, hrun, h.current]
  cases b.current with
  | none => exact (h.demand .position .position false false).addValue (.same (by simp))
  | some i =>
    have hadd := h.addValue (x := ⟨ty, .inst i, name⟩) (.same (by simp))
    refine hadd.editInsts i fun xs ys hxs => hxs.insert (.inr rfl) ?_
    exact like_add hN (⟨b.function.values.size⟩, ⟨c.function.values.size⟩) (.phi ty hi)

theorem closeBlock_follows {t t' : Terminator} (i : BlockId) (ht : t.Like (Known known) t') :
    Follows S.Rel known (Emit.closeBlock i t) (Emit.closeBlock i t') := by
  refine follows_of (fun _ _ => rfl) fun {N b c} hN h => ?_
  unfold Emit.closeBlock
  rw [h.hasTerminator]
  split
  · exact ⟨rfl, h⟩
  · have k := h.setEnding i (ht.imp fun v w hvw => hN _ hvw)
    exact ⟨rfl, k.current, congrArg (· + 1) h.terminators, k.left.of_eq rfl rfl, k.right.of_eq rfl rfl, k.leftHosts,
      k.rightHosts, k.values, k.blocks⟩

theorem globalString_follows (text : String) :
    Follows S.Rel known (Emit.globalString text) (Emit.globalString text) := by
  refine follows_new fun {N b c} hN h => ?_
  have h' := h.onModule (Emit.addString_grows b.module text) (Emit.addString_grows c.module text) rfl rfl h.leftHosts
    h.rightHosts
  exact h'.addValue (.text Array.getElem?_push_size Array.getElem?_push_size rfl)

/-- Builders side by side, in tandem. -/
def tandem (S : Setting) : Tandem where
  Rel := S.Rel
  current := fun ⟨_, _, h⟩ => h.current
  terminators := fun ⟨_, _, h⟩ => h.terminators
  hasTerminator := fun ⟨_, _, h⟩ => h.hasTerminator
  successorLists := fun ⟨_, _, h⟩ => h.successorLists
  blocks := fun ⟨_, _, h⟩ => h.blocks.size_eq
  pointerBits := fun ⟨_, _, h⟩ => h.pointerBits
  structs := fun ⟨_, _, h⟩ => by rw [h.right.structs, S.structs, h.left.structs]
  heads := fun ⟨_, _, h⟩ => h.heads
  valueType := fun ⟨_, hN, h⟩ hL => h.valueType (hN hL)
  constIntValue? := fun ⟨_, hN, h⟩ hL => h.constIntValue? (hN hL)
  demand := fun ⟨N, hN, h⟩ _ _ => ⟨N, hN, h.demand ..⟩
  moveTo := fun ⟨N, hN, h⟩ i => ⟨N, hN, h.moveTo i⟩
  appendBlock _ := follows_of (fun _ _ => rfl) fun _ h => ⟨Id.ext h.blocks.size_eq.symm, h.addBlock _⟩
  closeBlock := closeBlock_follows
  constInt _ _ := pushValue_follows (by simp) ..
  constFloat _ _ := pushValue_follows (by simp) ..
  constNull := pushValue_follows (by simp) ..
  globalString := globalString_follows
  entryAlloca := entryAlloca_follows
  phi := phi_follows
  emit ty name ha hp hk := follows_new fun hN h => emit_renumbered h hN hk ha hp ty name
  emitVoid ha hp hk := follows_of (fun _ _ => rfl) fun hN h => ⟨rfl, emitVoid_renumbered h hN hk ha hp⟩

end Setting

end BlockForge.Ir
