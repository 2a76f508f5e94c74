import BlockForge.Proofs.Lowering.Definitions
import BlockForge.Proofs.Lowering.Uniform

/-!
# One way in, one way out

An expression is lowered from one open block to one open block. In between it may split the code into
blocks, for a short circuit or a check, and may fail halfway; but in the end there is one block left to go
on in, and nothing that was there but the block it started in has changed.
-/

namespace BlockForge.Lowering

open Ir (BlockId Builder Emit)
open Ir.Emit
open Source (Expr FunctionDef Program)
open BlockForge.Types (Ty)

/-- From one open block that control can get to to another. -/
structure SingleExit (s t : State) : Prop where
  opened : t.builder.Opened
  reached : t.builder.Reached
  /-- The block it started in, unless it is still there. -/
  start : ∀ {i : BlockId}, s.builder.current = some i → t.builder.current ≠ some i →
    t.builder.hasTerminator i = true
  /-- The blocks made meanwhile, but for the one it ends in. -/
  made : ∀ {i : BlockId}, s.builder.function.blocks.size ≤ i.index → i.index < t.builder.function.blocks.size →
    t.builder.current ≠ some i → t.builder.hasTerminator i = true
  kept : ∀ {i : BlockId}, i.index < s.builder.function.blocks.size → s.builder.current ≠ some i →
    t.builder.function.block? i = s.builder.function.block? i
  func : t.builder.func = s.builder.func
  scope : t.scope = s.scope
  loops : t.loops = s.loops
  deadReported : t.deadReported = s.deadReported

section

variable {s : State}

theorem hasTerminator_of_advances {b b' : Builder} (h : Advances b b') {i : BlockId}
    (hlt : i.index < b'.function.blocks.size) (hi : b.function.blocks.size ≤ i.index ∨ b.current = some i)
    (hne : b'.current ≠ some i) : b'.hasTerminator i = true := by
  rw [Ir.Builder.hasTerminator_eq]
  cases ht : b'.function.ending i with
  | some t => rfl
  | none =>
    rcases h.opens hlt ht with hc | ⟨hold, hc⟩
    · exact absurd hc hne
    · rcases hi with hi | hi
      · omega
      · exact absurd hi hc

/-- The shape of the blocks, their contents, and the rest of the state. -/
theorem singleExit_of_advances {b : Builder} {q : Diagnostic.Queue} (hr : s.builder.Reached) (ho : s.builder.Opened)
    (h : Advances s.builder b) (hk : Confined s.builder b) : SingleExit s { s with builder := b, diags := q } where
  opened := h.opened
  reached := Builder.Reached.advances hr h
  start hi hne := by
    obtain ⟨c, hc, hlt, -⟩ := ho.position
    obtain rfl : c = _ := Option.some.inj (hc.symm.trans hi)
    exact hasTerminator_of_advances h (Nat.lt_of_lt_of_le hlt h.size) (.inr hc) hne
  made hi hlt hne := hasTerminator_of_advances h hlt (.inl hi) hne
  kept hi hne := hk.keep hi hne
  func := h.func
  scope := rfl
  loops := rfl
  deadReported := rfl

end

/-- Expressions keep to the block they start in and to blocks of their own. -/
theorem lowerExpr_confined {env : Env} (ha : env.allocator.IsConfined) (e : Expr) (expected : Option Ty) {s : State}
    (ho : s.builder.Opened) : Confined s.builder ((lowerExpr env e expected).run s).2.builder := by
  obtain ⟨c, hc, -⟩ := ho.position
  have hp : Positioned s.builder := ⟨ho.valid, by rw [hc]; rfl⟩
  exact (Lower.Concords.keeps (fun _ _ => ((operand_uniform ha e).lower expected).run) rfl hp).1

/-- Wherever in a function an expression is lowered, and whether or not it has a value, lowering goes from
one open block to one open block and leaves the rest as it was. -/
theorem expressions_have_one_exit {config : Config} {allocator : Allocator} (hi : allocator.IsInline)
    (ha : allocator.IsConfined) {p : Program} {d : FunctionDef} {sig : Signature} {env : Env}
    (henv : env = definitionEnv config allocator (Collection.ofProgram config p).tables d sig) (e : Expr)
    (expected : Option Ty) {s : State} (ho : s.builder.Opened) (hr : s.builder.Reached) :
    SingleExit s ((lowerExpr env e expected).run s).2 := by
  have hshaped : env.Shaped := henv ▸ definitionEnv_shaped (Collection.ofProgram_fits config p) hi d sig
  have hconfined : env.allocator.IsConfined := by
    rw [henv]
    exact ha
  obtain ⟨r, b, log, hy, -, h, -⟩ : (lowerExpr env e expected).run.Works s.scope s.builder _ :=
    ((operand_sound hshaped e).judged expected ho).run
  have hrun := hy s rfl rfl
  have hk := lowerExpr_confined hconfined e expected ho
  rw [hrun] at hk ⊢
  exact singleExit_of_advances hr ho h hk

/-- At the start of a function without code. -/
def atEntry : State where
  builder :=
    { module := ⟨"m", 64, #[], #[], #[], #[⟨"f", [], .void, #[], #[⟨"entry", #[], none⟩]⟩]⟩
      func := ⟨0⟩
      current := some ⟨0⟩ }
  diags := {}

def emptyBody : FunctionDef := ⟨"f", none, [], .unit, [], ⟨0, 1⟩⟩

/-- A short circuit with an unknown name on the right. -/
def halfKnown : Expr := .binary ⟨0, 9⟩ .and (.bool ⟨0, 1⟩ true) (.ident ⟨4, 5⟩ "x")

def halfKnownRun : Option Typed × State :=
  (lowerExpr (definitionEnv {} .collector (Collection.ofProgram {} ⟨[], [emptyBody]⟩).tables emptyBody
    ⟨⟨0⟩, 0, none, [], .unit⟩) halfKnown none).run atEntry

/-- The right operand fails in a block of its own, which ends all the same. -/
theorem expressions_have_one_exit_halfKnown :
    halfKnownRun.1 = none ∧ halfKnownRun.2.builder.current = some ⟨2⟩ ∧ halfKnownRun.2.builder.Opened ∧
      halfKnownRun.2.builder.hasTerminator ⟨0⟩ = true ∧ halfKnownRun.2.builder.hasTerminator ⟨1⟩ = true := by
  have ho : atEntry.builder.Opened := ⟨by decide, ⟨0⟩, rfl, by decide, rfl⟩
  have hr : atEntry.builder.Reached := ⟨⟨0⟩, rfl, rfl, .refl⟩
  have h : SingleExit atEntry halfKnownRun.2 :=
    expressions_have_one_exit collector_inline collector_confined (p := ⟨[], [emptyBody]⟩) rfl halfKnown none ho hr
  have hnone : halfKnownRun.1.isNone = true := by decide +kernel
  have hc : halfKnownRun.2.builder.current = some ⟨2⟩ := by decide +kernel
  have hsize : halfKnownRun.2.builder.function.blocks.size = 3 := by decide +kernel
  refine ⟨Option.isNone_iff_eq_none.1 hnone, hc, h.opened, h.start rfl ?_, h.made ?_ ?_ ?_⟩
  · rw [hc]
    decide
  · decide
  · rw [hsize]
    decide
  · rw [hc]
    decide

end BlockForge.Lowering
