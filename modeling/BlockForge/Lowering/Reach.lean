import BlockForge.Lowering.State

/-!
# Reachability while lowering

A position is dead once its block has ended or cannot be reached from the entry block. Dead
statements are skipped, and a body that can fall off its end returns `()` or is reported.
-/

namespace BlockForge.Lowering

open Ir (BlockId Emit)
open Source (Span)

/-- Whether a block is reachable. The graph is walked again only if blocks have ended since the last
walk; a block made since then has no way in yet. -/
def ReachCache.isReachable (cache : ReachCache) (b : Ir.Builder) (block : BlockId) :
    Bool × ReachCache :=
  let cache :=
    if cache.terminators = some b.terminators then cache
    else ⟨some b.terminators, Ir.reachableSet b.function.successorLists⟩
  (cache.seen.getD block.index false, cache)

namespace Lower

/-- Whether what is emitted now could never run. -/
def positionIsDead : Lower Bool := do
  let s ← get
  match s.builder.current with
  | none => pure true
  | some block =>
    if s.builder.hasTerminator block then pure true
    else if block = Ir.Id.entry then pure false
    else
      let (reachable, reach) := s.reach.isReachable s.builder block
      modify fun s => { s with reach }
      pure !reachable

/-- Branches to a block, unless the position is dead. -/
def branchIfLive (target : BlockId) : Lower Unit := do
  if !(← positionIsDead) then emit (Emit.br target)

/-- Ends every block that has not ended. -/
def sealBlocks : List BlockId → Emit Unit
  | [] => pure ()
  | b :: rest => do
    let _ ← Emit.sealBlock b
    sealBlocks rest

/-- Ends the body: a live end returns `()`, or is reported if the function returns a value. -/
def finishBody (env : Env) (span : Span) : Lower Unit := do
  if !(← positionIsDead) then
    if env.returnType.isUnit then emit Emit.retVoid
    else
      report (Problem.missingReturn span env.functionName env.returnType.render)
      emit Emit.unreachable
  let blocks := (List.range (← get).builder.function.blocks.size).map Ir.Id.mk
  emit (sealBlocks blocks)

end Lower

end BlockForge.Lowering
