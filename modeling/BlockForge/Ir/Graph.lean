import BlockForge.Ir.Module

/-!
# The block graph

Predecessors and reachability over the terminator edges of a function. Edges to blocks that do not
exist are ignored.
-/

namespace BlockForge.Ir

/-- The successor list of every block. -/
def Function.successorLists (f : Function) : Array (List BlockId) := f.blocks.map Block.successors

/-- Adds `source` to the predecessors of `target`, once. -/
def addPredecessor (source target : BlockId) (preds : Array (List BlockId)) :
    Array (List BlockId) :=
  preds.modify target.index fun ps => if ps.contains source then ps else ps ++ [source]

/-- The distinct predecessors of every block, in block order. -/
def Function.predecessors (f : Function) : Array (List BlockId) :=
  f.blocks.toList.zipIdx.foldl (fun preds (b, i) =>
      b.successors.foldl (fun preds t => addPredecessor ⟨i⟩ t preds) preds)
    (f.blocks.map fun _ => [])

/-- Marks a block and puts it on the worklist, unless it is marked or does not exist. -/
def markBlock (work : List Nat) (seen : Array Bool) (b : BlockId) : List Nat × Array Bool :=
  if seen[b.index]? = some false then (b.index :: work, seen.setIfInBounds b.index true)
  else (work, seen)

/-- Takes blocks off the worklist and marks their successors. Every block enters the worklist at most
once, so the number of blocks bounds the steps. -/
def walk (successors : Array (List BlockId)) :
    (steps : Nat) → (work : List Nat) → (seen : Array Bool) → Array Bool
  | 0, _, seen => seen
  | _ + 1, [], seen => seen
  | steps + 1, b :: work, seen =>
    let (work, seen) := (successors.getD b []).foldl
      (fun (work, seen) s => markBlock work seen s) (work, seen)
    walk successors steps work seen

/-- Which blocks can be reached from the entry block. -/
def reachableSet (successors : Array (List BlockId)) : Array Bool :=
  let (work, seen) := markBlock [] (Array.replicate successors.size false) Id.entry
  walk successors successors.size work seen

/-- The reachable blocks in increasing order. -/
def Function.reachableBlocks (f : Function) : List BlockId :=
  let seen := reachableSet f.successorLists
  ((List.range f.blocks.size).filter fun i => seen.getD i false).map Id.mk

end BlockForge.Ir
