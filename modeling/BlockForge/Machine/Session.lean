import BlockForge.Machine.Step

/-!
# Sessions

A session runs one call after the other on one store: memory, constant texts, call counts and fuel
carry over from call to call, also from one that ended in a fault.
-/

namespace BlockForge.Machine

open Ir (Module)

/-- The limits of a session: steps in all, and nesting of calls. -/
structure Limits where
  fuel : Nat := 10000000
  maxCallDepth : Nat := 4096

structure Session where
  module : Module
  limits : Limits
  store : Store
  fuelLeft : Nat

namespace Session

def start (m : Module) (limits : Limits) : Session := ⟨m, limits, .fresh m, limits.fuel⟩

/-- Calls a function by its name. Only modules with 64-bit pointers run. -/
def call (s : Session) (name : String) (args : List Val) : Except Fault (Option Val) × Session :=
  if s.module.pointerBits ≠ 64 then (.error (.unsupportedTarget s.module.pointerBits), s)
  else
    match s.module.functionNamed? name with
    | none => (.error (.unknownFunction name), s)
    | some id =>
      let o := invoke s.module s.limits.maxCallDepth s.fuelLeft s.store id args
      (o.result, { s with store := o.store, fuelLeft := o.fuel })

/-- The exit code of a returned value: its signed 32-bit reading, zero for none. -/
def exitCode : Option Val → Except Fault Int
  | none => .ok 0
  | some v => (v.asSigned 32).map (·.toInt)

/-- Runs the function `main` for its exit code. -/
def runMain (s : Session) : Except Fault Int × Session :=
  let (result, s) := s.call "main" []
  (result.bind exitCode, s)

/-- How often a function was entered. -/
def callCount (s : Session) (name : String) : Nat :=
  match s.module.functionNamed? name with
  | none => 0
  | some id => s.store.calls.getD id.index 0

def fuelUsed (s : Session) : Nat := s.limits.fuel - s.fuelLeft

def liveAllocations (s : Session) : Nat := s.store.memory.liveAllocations

/-- The text that an address points to. -/
def readText (s : Session) (v : Val) : Except Fault String :=
  v.asPtr.bind s.store.memory.readText

end Session

end BlockForge.Machine
