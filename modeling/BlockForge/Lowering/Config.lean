import BlockForge.Types.Layout

/-!
# Lowering configuration
-/

namespace BlockForge.Lowering

/-- Target and policy of one lowering. -/
structure Config where
  /-- The width of pointers and of `isize` and `usize`. -/
  pointerBits : Nat := 64
  /-- How many elements a new vector has room for; with none, the first `add` makes room. -/
  initialCapacity : UInt64 := 4
  /-- The function that the program starts with. -/
  entryPoint : String := "main"
  moduleName : String := "reso"
  deriving Repr, Inhabited

def Config.layout (c : Config) : Types.Layout := ⟨c.pointerBits⟩

end BlockForge.Lowering
