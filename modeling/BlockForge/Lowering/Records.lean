import BlockForge.Lowering.State

/-!
# Records

Field access and record literals. A literal evaluates its initialisers in source order, then
allocates the object and stores each field.
-/

namespace BlockForge.Lowering

open Ir (Emit StructId ValueId)
open Source (Span)
open BlockForge.Types (Ty)

/-- Struct type, position and type of a field of a type. -/
def Tables.field? (t : Tables) (type : Ty) (name : String) : Option (StructId × Nat × Ty) :=
  match type with
  | .record r => do
    let info ← t.record? r
    let (position, ty) ← info.field? name
    some (info.id, position, ty)
  | _ => none

/-- The address and type of `receiver.name`. -/
def fieldAddress (env : Env) (receiver : Operand) (name : String) (span : Span) :
    Attempt (ValueId × Ty) := do
  let recv ← receiver.lower none
  match env.tables.field? recv.ty name with
  | none => Attempt.reject (Problem.unknownField span name recv.ty.render)
  | some (struct, position, ty) =>
    let addr ← Lower.emit (Emit.fieldPtr struct recv.value position name)
    pure (addr, ty)

def lowerField (env : Env) (receiver : Operand) (name : String) (span : Span) : Attempt Typed := do
  let (addr, ty) ← fieldAddress env receiver name span
  let value ← Lower.emit (Emit.load (env.ir ty) addr name)
  pure ⟨value, ty⟩

/-- `receiver.name = value`; the receiver is evaluated first. -/
def lowerFieldAssign (env : Env) (receiver : Operand) (name : String) (value : Operand)
    (span : Span) : Attempt Unit := do
  match ← (fieldAddress env receiver name span).run with
  | none => value.visit
  | some (addr, ty) =>
    let v ← value.lowerAs ty ("assignment to field `" ++ name ++ "`")
    Lower.emit (Emit.store v.value addr)

/-! ### Literals -/

/-- The fields met so far in a literal: their positions, their values, and whether all is well. -/
structure Initialised where
  seen : List Nat := []
  values : List (Nat × ValueId) := []
  ok : Bool := true

/-- Lowers the initialiser of one field. A field that does not exist is reported and its value lowered
for diagnostics; one met before is reported only. -/
def lowerInit (info : RecordInfo) (record : String) (acc : Initialised) (name : String)
    (value : Operand) : Lower Initialised := do
  match info.field? name with
  | none =>
    Lower.report (Problem.unknownField value.span name record)
    value.visit
    pure { acc with ok := false }
  | some (position, ty) =>
    if acc.seen.contains position then
      Lower.report (Problem.alreadyDefined value.span "field" name)
      pure { acc with ok := false }
    else
      let context := "field `" ++ name ++ "` of `" ++ record ++ "`"
      let acc := { acc with seen := position :: acc.seen }
      match ← (value.lowerAs ty context).run with
      | some v => pure { acc with values := (position, v.value) :: acc.values }
      | none => pure { acc with ok := false }

def lowerInits (info : RecordInfo) (record : String) :
    Initialised → List (String × Operand) → Lower Initialised
  | acc, [] => pure acc
  | acc, (name, value) :: rest => do
    let acc ← lowerInit info record acc name value
    lowerInits info record acc rest

/-- Reports the fields that a literal leaves out. -/
def reportMissing (record : String) (span : Span) (seen : List Nat) :
    List (String × Nat) → Lower Unit
  | [] => pure ()
  | (name, position) :: rest => do
    if !seen.contains position then Lower.report (Problem.missingField span name record)
    reportMissing record span seen rest

/-- Stores the fields that have a value, in order of position. -/
def storeFields (info : RecordInfo) (object : ValueId) (values : List (Nat × ValueId)) :
    List (String × Nat) → Emit Unit
  | [] => pure ()
  | (name, position) :: rest => do
    match values.lookup position with
    | some value =>
      let addr ← Emit.fieldPtr info.id object position name
      Emit.store value addr
    | none => pure ()
    storeFields info object values rest

/-- `record { name: value, … }` -/
def lowerRecord (env : Env) (record : String) (inits : List (String × Operand)) (span : Span) :
    Attempt Typed := do
  match env.tables.record? record with
  | none => Attempt.reject (Problem.unknownType span record)
  | some info =>
    let acc ← lowerInits info record {} inits
    let fields := (info.fields.map (·.1)).zipIdx
    reportMissing record span acc.seen fields
    if !acc.ok || !(fields.all fun f => acc.seen.contains f.2) then Attempt.fail
    else
      let kind := if info.hasReferences then AllocKind.general else .noReferences
      let bytes := (← get).builder.module.sizeOf (.struct info.id)
      let size ← Lower.emit (Emit.constUsize (UInt64.ofNat bytes))
      let object ← Lower.emit (env.allocator.allocate size kind record)
      Lower.emit (storeFields info object acc.values fields)
      pure ⟨object, .record record⟩

end BlockForge.Lowering
