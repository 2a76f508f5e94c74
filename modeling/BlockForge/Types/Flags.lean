import BlockForge.Types.Basic

/-!
# Classification bits

A type's classes packed into one word: what it is, and what it can do. `flags_isReference` and its
companions say that the bits agree with the predicates on types.
-/

namespace BlockForge.Types

/-- A set of classification bits. -/
structure Flags where
  bits : UInt16
  deriving DecidableEq, Repr

namespace Flags

def empty : Flags := ⟨0⟩

def integer : Flags := ⟨1⟩
def float : Flags := ⟨2⟩
def bool : Flags := ⟨4⟩
def char : Flags := ⟨8⟩
def unit : Flags := ⟨16⟩
def reference : Flags := ⟨32⟩
def nullable : Flags := ⟨64⟩
def null : Flags := ⟨128⟩
def signed : Flags := ⟨256⟩
def equatable : Flags := ⟨512⟩
def ordered : Flags := ⟨1024⟩
def convertible : Flags := ⟨2048⟩

def union (f g : Flags) : Flags := ⟨f.bits ||| g.bits⟩

instance : Append Flags := ⟨union⟩

/-- Equatable, ordered and convertible. -/
def numericOrdered : Flags := equatable ++ ordered ++ convertible

def intersects (f g : Flags) : Bool := f.bits &&& g.bits != 0

/-- Whether all bits of `g` are set. -/
def contains (f g : Flags) : Bool := f.bits &&& g.bits == g.bits

def isNumeric (f : Flags) : Bool := f.intersects (integer ++ float)

/-- Numbers and characters can be converted. -/
def isConvertible (f : Flags) : Bool := f.intersects (convertible ++ char)

end Flags

open Flags in
/-- The classification bits of a type. -/
def Ty.flags : Ty → Flags
  | .signed _ => integer ++ Flags.signed ++ numericOrdered
  | .unsigned _ => integer ++ numericOrdered
  | .float _ => Flags.float ++ Flags.signed ++ numericOrdered
  | .bool => Flags.bool ++ equatable
  | .char => Flags.char ++ equatable ++ ordered
  | .unit => Flags.unit
  | .string => reference ++ equatable
  | .record _ | .vector _ => reference ++ nullable ++ equatable
  | .null => reference ++ Flags.null ++ equatable

theorem flags_isReference (t : Ty) : t.flags.contains .reference = t.isReference := by
  cases t <;> simp only [Ty.flags, Ty.isReference] <;> decide

theorem flags_isEquatable (t : Ty) : t.flags.contains .equatable = t.isEquatable := by
  cases t <;> simp only [Ty.flags, Ty.isEquatable] <;> decide

theorem flags_isOrdered (t : Ty) : t.flags.contains .ordered = t.isOrdered := by
  cases t <;> simp only [Ty.flags, Ty.isOrdered] <;> decide

theorem flags_isConvertible (t : Ty) : t.flags.isConvertible = t.isConvertible := by
  cases t <;> simp only [Ty.flags, Ty.isConvertible] <;> decide

theorem flags_isNumeric (t : Ty) : t.flags.isNumeric = t.isNumeric := by
  cases t <;> simp only [Ty.flags, Ty.isNumeric, Ty.isInteger, Ty.isFloat] <;> decide

end BlockForge.Types
