import BlockForge.Decimal.Layout
import BlockForge.Numeric.Word

/-!
# Run-time values

A register holds an integer word, a float or an address. Integers are zero-extended words; a float
is the bits of a binary64, rounded already if its type is single precision.
-/

namespace BlockForge.Machine

inductive Val where
  | int (bits : UInt64)
  | float (bits : UInt64)
  | ptr (addr : UInt64)
  deriving DecidableEq, Repr, Inhabited

namespace Val

/-- The null address. -/
def null : Val := ptr 0

def bool (b : Bool) : Val := int (if b then 1 else 0)

/-- A signed integer at the given width. -/
def ofInt64 (value : Int64) (bits : Nat) : Val := int (Word.mask value.toUInt64 bits)

/-- The value as shown in messages. -/
def render : Val → String
  | int bits => "Int(" ++ toString bits ++ ")"
  | float bits => "Float(" ++ Decimal.Layout.plain.render bits ++ ")"
  | ptr addr => "Ptr(" ++ toString addr ++ ")"

end Val

end BlockForge.Machine
