import BlockForge.Lowering.Reach
import BlockForge.Proofs.Ir.Operations

/-!
# The cache of reachable blocks is never stale

Builder operations and queries may alternate in any order. The cache is computed anew only when a terminator has
been counted since; until then the edges are the same, and a block that was appended since has no way in.
-/

namespace BlockForge.Lowering

open Ir (BlockId Builder FuncId Marked Module Operation)

/-! ### Interleavings -/

/-- A step of a session with one builder and one cache. -/
inductive Action where
  | build (op : Operation)
  | query (block : BlockId)

/-- A builder and the cache that is asked about it. -/
structure Watched where
  builder : Builder
  cache : ReachCache := {}

namespace Watched

def answer (w : Watched) (block : BlockId) : Bool := (w.cache.isReachable w.builder block).1

/-- What a new walk over the current graph says about a block. -/
def walked (w : Watched) (block : BlockId) : Bool :=
  (Ir.reachableSet w.builder.function.successorLists).getD block.index false

def step (w : Watched) : Action → Watched
  | .build op => { w with builder := (op.run w.builder).2 }
  | .query block => { w with cache := (w.cache.isReachable w.builder block).2 }

def run (w : Watched) (actions : List Action) : Watched := actions.foldl step w

/-- Terminators lead to blocks that exist when they are set. -/
def Allows (w : Watched) : List Action → Prop
  | [] => True
  | .build op :: rest => (∀ t ∈ op.targets, t.index < w.builder.function.blocks.size) ∧
      (w.step (.build op)).Allows rest
  | .query block :: rest => (w.step (.query block)).Allows rest

/-! ### The invariant -/

/-- The cache is older than the builder, or marks what control can get to beside the entry block. -/
structure Faithful (w : Watched) : Prop where
  valid : w.builder.func.index < w.builder.module.functions.size
  bounded : w.builder.function.Bounded
  older : ∀ {n}, w.cache.terminators = some n → n ≤ w.builder.terminators
  marks : w.cache.terminators = some w.builder.terminators → ∀ {i : BlockId}, i ≠ Ir.Id.entry →
    (Marked w.cache.seen i.index ↔ w.builder.function.Path Ir.Id.entry i)

theorem Faithful.build {w : Watched} (h : w.Faithful) {op : Operation}
    (ht : ∀ t ∈ op.targets, t.index < w.builder.function.blocks.size) : (w.step (.build op)).Faithful := by
  have hwires := op.wires h.valid
  constructor
  · exact hwires.valid h.valid
  · exact hwires.bounded h.bounded ht
  · exact fun hn => Nat.le_trans (h.older hn) hwires.terminators
  · intro hn i hi
    -- the count that the cache knows lies between the old and the new one, so no edge was added
    have hold := h.older hn
    have hsame := Nat.le_antisymm hold hwires.terminators
    exact (h.marks (hn.trans (congrArg some hsame)) hi).trans (hwires.path_iff hsame _ _).symm

theorem Faithful.query {w : Watched} (h : w.Faithful) (block : BlockId) :
    (w.step (.query block)).Faithful := by
  refine ⟨h.valid, h.bounded, ?_, ?_⟩
  · intro n hn
    simp only [step, ReachCache.isReachable] at hn
    split at hn
    · exact h.older hn
    · exact Nat.le_of_eq (Option.some.inj hn).symm
  · intro hn i hi
    simp only [step, ReachCache.isReachable] at hn ⊢
    split
    · rename_i hcount
      exact h.marks hcount hi
    · exact h.bounded.marked_iff_path (.inl hi)

theorem Faithful.run {w : Watched} (h : w.Faithful) {actions : List Action} (ha : w.Allows actions) :
    (w.run actions).Faithful := by
  induction actions generalizing w with
  | nil => exact h
  | cons action rest ih =>
    cases action with
    | build op => exact ih (h.build ha.1) ha.2
    | query block => exact ih (h.query block) ha

theorem query_terminators (w : Watched) (block : BlockId) :
    (w.step (.query block)).cache.terminators = some w.builder.terminators := by
  simp only [step, ReachCache.isReachable]
  split
  · assumption
  · rfl

theorem Faithful.answer_eq {w : Watched} (h : w.Faithful) {block : BlockId} (hb : block ≠ Ir.Id.entry) :
    w.answer block = w.walked block := by
  have hasked : w.answer block = true ↔ w.builder.function.Path Ir.Id.entry block :=
    (h.query block).marks (w.query_terminators block) hb
  rw [Bool.eq_iff_iff, hasked]
  exact (h.bounded.marked_iff_path (.inl hb)).symm

/-- A builder for a function without blocks, and a cache that was never asked. -/
theorem faithful_start {m : Module} {func : FuncId} {f : Ir.Function} (hf : m.function? func = some f)
    (hempty : f.blocks = #[]) : (⟨.start m func, {}⟩ : Watched).Faithful := by
  have hfun : ({ module := m, func } : Builder).function = f := by simp [Builder.function, hf]
  have hstart : Builder.start m func = { module := m, func } := by
    simp [Builder.start, Builder.demand, hfun, Ir.Function.isDeclaration, hempty]
  rw [hstart]
  constructor
  · exact (Array.getElem?_eq_some_iff.1 hf).1
  · intro i j hi
    have hlt := Ir.Function.lt_size_of_mem_succs hi
    rw [hfun, hempty] at hlt
    exact absurd hlt (Nat.not_lt_zero _)
  · intro n hn
    cases hn
  · intro hn
    cases hn

/-- However operations and queries alternate, the cache answers as a new walk would. -/
theorem cache_answers_as_walked (m : Module) (func : FuncId) (f : Ir.Function) (hf : m.function? func = some f)
    (hempty : f.blocks = #[]) (actions : List Action) (ha : Allows ⟨.start m func, {}⟩ actions) (block : BlockId)
    (hb : block ≠ Ir.Id.entry) :
    (run ⟨.start m func, {}⟩ actions).answer block = (run ⟨.start m func, {}⟩ actions).walked block :=
  ((faithful_start hf hempty).run ha).answer_eq hb

/-- Asked before there are blocks, after the first edge, and about a block that was appended since. -/
def lateBlock : List Action :=
  [.query ⟨1⟩, .build (.appendBlock "entry"), .build (.appendBlock "next"), .query ⟨1⟩,
    .build (.positionAt ⟨0⟩), .build (.emission (.constBool true)),
    .build (.terminate (.condBr ⟨0⟩ ⟨1⟩ ⟨0⟩)), .query ⟨1⟩, .build (.sealBlock ⟨1⟩), .query ⟨1⟩,
    .build (.appendBlock "late")]

def emptyBody : Module where
  name := "m"
  pointerBits := 64
  functions := #[.declare "f" [] .void]

theorem cache_answers_as_walked_lateBlock : Allows ⟨.start emptyBody ⟨0⟩, {}⟩ lateBlock ∧
    (run ⟨.start emptyBody ⟨0⟩, {}⟩ lateBlock).answer ⟨1⟩ = true ∧
    (run ⟨.start emptyBody ⟨0⟩, {}⟩ lateBlock).answer ⟨2⟩ = false := by
  have ha : Allows ⟨.start emptyBody ⟨0⟩, {}⟩ lateBlock := by
    simp only [lateBlock, Allows]
    decide
  have hanswer := cache_answers_as_walked emptyBody ⟨0⟩ (.declare "f" [] .void) rfl rfl lateBlock ha
  exact ⟨ha, (hanswer ⟨1⟩ (by decide)).trans (by cbv), (hanswer ⟨2⟩ (by decide)).trans (by cbv)⟩

end Watched

end BlockForge.Lowering
