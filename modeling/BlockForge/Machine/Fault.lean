import BlockForge.Ir.Module
import BlockForge.Machine.Value

/-!
# Faults

Why a run ends without a result. A `Defect` is a rule of the instruction language that the module
breaks; the other faults are those of the program or of the limits it runs under.
-/

namespace BlockForge.Machine

open Ir (BlockId Ty ValueId)

/-- How a module breaks the rules of the instruction language. -/
inductive Defect where
  | expectedInt (found : Val)
  | expectedFloat (found : Val)
  | expectedPtr (found : Val)
  | noBody (func : String)
  | missingBlock (block : BlockId)
  | phiInEntry
  | phiEdge (block source : BlockId)
  | openBlock (block : BlockId) (func : String)
  | unknownValue (value : ValueId)
  | missingParam (position : Nat)
  | useBeforeDefinition (value : ValueId) (func : String)
  | latePhi (func : String)
  | loadOf (ty : Ty)
  | storeOf (value : Val) (ty : Ty)
  | intOperationOn (ty : Ty)
  /-- Not reported by any call: it marks one that never ends, because sizing the type does not. -/
  | endlessLayout (ty : Ty)
  deriving DecidableEq, Repr

def Defect.message : Defect → String
  | expectedInt v => "expected integer, found " ++ v.render
  | expectedFloat v => "expected float, found " ++ v.render
  | expectedPtr v => "expected pointer, found " ++ v.render
  | noBody f => "`" ++ f ++ "` has no body"
  | missingBlock b => "missing block " ++ b.render
  | phiInEntry => "phi in entry block"
  | phiEdge b s => "phi in " ++ b.render ++ " has no edge from " ++ s.render
  | openBlock b f => "block " ++ b.render ++ " of `" ++ f ++ "` is open"
  | unknownValue v => "unknown value " ++ v.render
  | missingParam n => "missing parameter " ++ toString n
  | useBeforeDefinition v f => v.render ++ " used before definition in `" ++ f ++ "`"
  | latePhi f => "phi after non-phi instruction in `" ++ f ++ "`"
  | loadOf t => "load of " ++ t.render
  | storeOf v t => "store of " ++ v.render ++ " as " ++ t.render
  | intOperationOn t => "integer operation on " ++ t.render
  | endlessLayout t => "endless layout of " ++ t.render

/-- Why a run ended without a result. -/
inductive Fault where
  | boundsCheck (index size : UInt64)
  | divisionByZero (func : String)
  | nullDereference
  | invalidAccess (addr : UInt64) (len : Nat)
  | allocationTooLarge (size : Nat)
  | outOfFuel
  | stackOverflow (limit : Nat)
  | unreachable (func : String)
  | unknownFunction (name : String)
  | unknownHost (name : String)
  | argCount (func : String) (expected found : Nat)
  | unsupportedTarget (pointerBits : Nat)
  | malformed (defect : Defect)
  deriving DecidableEq, Repr

/-- A word in hexadecimal, with its mark. -/
def hexWord (w : UInt64) : String := "0x" ++ String.ofList (Nat.toDigits 16 w.toNat)

def Fault.message : Fault → String
  | boundsCheck index size =>
    "index " ++ toString index ++ " out of bounds for vector of size " ++ toString size
  | divisionByZero f => "division by zero in `" ++ f ++ "`"
  | nullDereference => "null pointer dereference"
  | invalidAccess addr len => "invalid access of " ++ toString len ++ " bytes at " ++ hexWord addr
  | allocationTooLarge size => "allocation of " ++ toString size ++ " bytes is too large"
  | outOfFuel => "execution ran out of fuel"
  | stackOverflow limit => "call depth exceeded " ++ toString limit
  | unreachable f => "reached `unreachable` in `" ++ f ++ "`"
  | unknownFunction name => "function `" ++ name ++ "` is not defined"
  | unknownHost name => "extern `" ++ name ++ "` has no host implementation"
  | argCount f expected found =>
    "`" ++ f ++ "` expects " ++ toString expected ++ " arguments, got " ++ toString found
  | unsupportedTarget bits =>
    "only 64-bit modules can be interpreted, found " ++ toString bits ++ "-bit"
  | malformed d => "malformed IR: " ++ d.message

namespace Val

/-- The word of an integer. -/
def asInt : Val → Except Fault UInt64
  | int bits => .ok bits
  | v => .error (.malformed (.expectedInt v))

/-- An integer of the given width as two's complement. -/
def asSigned (v : Val) (bits : Nat) : Except Fault Int64 :=
  v.asInt.map fun w => Word.signExtend w bits

def asFloat : Val → Except Fault UInt64
  | float bits => .ok bits
  | v => .error (.malformed (.expectedFloat v))

def asPtr : Val → Except Fault UInt64
  | ptr addr => .ok addr
  | v => .error (.malformed (.expectedPtr v))

/-- The lowest bit of an integer. -/
def asBool (v : Val) : Except Fault Bool := v.asInt.map fun w => w &&& 1 == 1

end Val

end BlockForge.Machine
