import BlockForge.Diagnostic.Queue
import BlockForge.Ir.Module
import BlockForge.Lowering.Config
import BlockForge.Lowering.Problem
import BlockForge.Lowering.Repr
import BlockForge.Source.Tree

/-!
# Program tables

What the definitions of a program declare: record types with their fields, and functions with their
signatures. Tables are collected before any body is lowered, so bodies may use definitions that come
later. A definition that cannot be declared is reported, and where calls to it would only repeat the
report its symbol is kept as poisoned.
-/

namespace BlockForge.Lowering

open Diagnostic (Diag Queue)
open Ir (FuncId Module StructId)
open Source (FunctionDef Param Program Span StructDef TypeExpr)
open BlockForge.Types (Layout Ty)

/-- A declared record type; a field's position is its position in the struct type. -/
structure RecordInfo where
  id : StructId
  fields : List (String × Ty)
  deriving Inhabited

namespace RecordInfo

/-- Position and type of a field. -/
def field? (r : RecordInfo) (name : String) : Option (Nat × Ty) :=
  (r.fields.findIdx? (·.1 == name)).bind fun i => (r.fields[i]?).map fun f => (i, f.2)

def hasReferences (r : RecordInfo) : Bool := r.fields.any (·.2.isReference)

end RecordInfo

/-- A declared function; `definition` is the position of its definition in the program. -/
structure Signature where
  func : FuncId
  definition : Nat
  receiver : Option Ty
  params : List Ty
  ret : Ty
  deriving Inhabited

/-- The declarations of a program. -/
structure Tables where
  records : List (String × RecordInfo) := []
  /-- Functions and methods by symbol. -/
  functions : List (String × Signature) := []
  /-- The symbol of each method, by receiver type and name. -/
  methods : List ((Ty × String) × String) := []
  /-- Symbols whose declaration failed. -/
  poisoned : List String := []
  /-- The struct type of a vector's descriptor. -/
  vector : StructId
  deriving Inhabited

namespace Tables

def record? (t : Tables) (name : String) : Option RecordInfo := t.records.lookup name

def function? (t : Tables) (symbol : String) : Option Signature := t.functions.lookup symbol

/-- The symbol of a method. -/
def method? (t : Tables) (receiver : Ty) (name : String) : Option String :=
  t.methods.lookup (receiver, name)

def isPoisoned (t : Tables) (symbol : String) : Bool := t.poisoned.contains symbol

/-- The type that is written; the error is the first unknown name. -/
def resolve (t : Tables) : TypeExpr → Except String Ty
  | .unit => .ok .unit
  | .named name =>
    match Ty.primitive? name with
    | some ty => .ok ty
    | none => if (t.record? name).isSome then .ok (.record name) else .error name
  | .vector elem => (t.resolve elem).map .vector

end Tables

/-! ### Collection -/

/-- The tables so far, the module that holds their declarations, and the reports. -/
structure Collection where
  module : Module
  diags : Queue
  tables : Tables

namespace Collection

def report (c : Collection) (d : Diag) : Collection := { c with diags := (c.diags.add d).2 }

/-- Resolves a type, reporting an unknown name. -/
def resolve (c : Collection) (t : TypeExpr) (span : Span) : Option Ty × Collection :=
  match c.tables.resolve t with
  | .ok ty => (some ty, c)
  | .error name => (none, c.report (Problem.unknownType span name))

/-! ### Record types -/

/-- The name of the struct type of vector descriptors. -/
def vectorStruct : String := "reso.Vector"

/-- A module with the vector descriptor: elements, size and capacity. -/
def start (config : Config) : Collection :=
  let m : Module := { name := config.moduleName, pointerBits := config.pointerBits }
  let (vector, m) := m.declareStruct vectorStruct
  { module := m.setStructBody vector [.ptr, m.ptrInt, m.ptrInt]
    diags := {}
    tables := { vector } }

/-- Declares the name of a record type. Gives whether it was accepted. -/
def declareRecord (all : List StructDef) (c : Collection) (d : StructDef) : Bool × Collection :=
  if (Ty.primitive? d.name).isSome then
    (false, c.report (Problem.alreadyDefined d.span "type" d.name))
  else if (c.tables.record? d.name).isSome then
    let first := (all.find? (·.name == d.name)).elim d.span (·.span)
    (false, c.report (Problem.redefined d.span first "type" d.name))
  else
    let (id, module) := c.module.declareStruct d.name
    let records := (d.name, ⟨id, []⟩) :: c.tables.records
    (true, { c with module, tables := { c.tables with records } })

/-- Resolves fields in order. Repeated and unresolved ones are reported and left out. -/
def resolveFields (c : Collection) (before : List Param) :
    List Param → List (String × Ty) × Collection
  | [] => ([], c)
  | f :: rest =>
    match before.find? (·.name == f.name) with
    | some first =>
      let c := c.report (Problem.redefined f.span first.span "field" f.name)
      resolveFields c (before ++ [f]) rest
    | none =>
      let (t, c) := c.resolve f.type f.span
      let (fields, c) := resolveFields c (before ++ [f]) rest
      (match t with
        | some t => (f.name, t) :: fields
        | none => fields, c)

/-- Sets the fields of a declared record type. -/
def defineRecord (layout : Layout) (c : Collection) (d : StructDef) : Collection :=
  let (fields, c) := c.resolveFields [] d.fields
  match c.tables.record? d.name with
  | none => c
  | some info =>
    let module := c.module.setStructBody info.id (fields.map fun f => layout.irType f.2)
    let records := c.tables.records.map fun (name, r) =>
      if name = d.name then (name, { r with fields }) else (name, r)
    { c with module, tables := { c.tables with records } }

/-- Declares all names first, so that fields may refer to any record type. -/
def declareRecords (layout : Layout) (c : Collection) (all : List StructDef) : Collection :=
  let (accepted, c) := all.foldl (fun (accepted, c) d =>
    let (ok, c) := c.declareRecord all d
    (if ok then accepted ++ [d] else accepted, c)) ([], c)
  accepted.foldl (defineRecord layout) c

/-! ### Functions -/

def poison (c : Collection) (symbol : String) : Collection :=
  { c with tables := { c.tables with poisoned := symbol :: c.tables.poisoned } }

/-- Resolves the types of parameters, every one even if one fails. -/
def resolveParams (c : Collection) : List Param → Option (List Ty) × Collection
  | [] => (some [], c)
  | p :: rest =>
    let (t, c) := c.resolve p.type p.span
    let (ts, c) := resolveParams c rest
    (t.bind fun t => ts.map (t :: ·), c)

/-- Resolves the type that a method belongs to; none for a function. -/
def resolveReceiver (c : Collection) (d : FunctionDef) : Option (Option Ty) × Collection :=
  match d.receiver with
  | none => (some none, c)
  | some (t, _) =>
    let (t, c) := c.resolve t d.span
    (t.map some, c)

/-- What precedes the entry point's name once the module's `main` is the wrapper around it. -/
def entryMark : String := "reso."

/-- The function's name in the module. -/
def irName (config : Config) (d : FunctionDef) : String :=
  if d.receiver.isNone && d.symbol == config.entryPoint then entryMark ++ d.symbol else d.symbol

/-- Enters a method under its receiver type; `none` if the type has one of that name. -/
def addMethod? (c : Collection) (receiver : Option Ty) (d : FunctionDef) : Option Collection :=
  match receiver, d.receiver with
  | some t, some (_, name) =>
    if (c.tables.method? t name).isSome then none
    else
      let methods := ((t, name), d.symbol) :: c.tables.methods
      some { c with tables := { c.tables with methods } }
  | _, _ => some c

/-- The span of the method that has the receiver type and name already. -/
def firstMethodSpan (c : Collection) (all : List FunctionDef) (receiver : Option Ty)
    (d : FunctionDef) : Span :=
  let symbol? := match receiver, d.receiver with
    | some t, some (_, name) => c.tables.method? t name
    | _, _ => none
  let def? := (symbol?.bind c.tables.function?).bind fun sig => all[sig.definition]?
  def?.elim d.span (·.span)

/-- Declares the function at a position of the program. -/
def declareFunction (config : Config) (all : List FunctionDef) (c : Collection)
    (position : Nat) (d : FunctionDef) : Collection :=
  if (c.tables.function? d.symbol).isSome || c.tables.isPoisoned d.symbol then
    let first := ((all.take position).find? (·.symbol == d.symbol)).elim d.span (·.span)
    c.report (Problem.redefined d.span first "function" d.symbol)
  else
    let (receiver, c) := c.resolveReceiver d
    let (params, c) := c.resolveParams d.params
    let (ret, c) := c.resolve d.returnType d.span
    match receiver, params, ret with
    | some receiver, some params, some ret =>
      match c.addMethod? receiver d with
      | none =>
        let first := c.firstMethodSpan all receiver d
        let name := (d.receiver.map (·.2)).getD ""
        (c.report (Problem.redefined d.span first "method" name)).poison d.symbol
      | some c =>
        let irParams := (receiver.toList ++ params).map config.layout.irType
        let (func, module) :=
          c.module.declareFunction (irName config d) irParams (config.layout.returnIrType ret)
        let sig : Signature := ⟨func, position, receiver, params, ret⟩
        let functions := (d.symbol, sig) :: c.tables.functions
        { c with module, tables := { c.tables with functions } }
    | _, _, _ => c.poison d.symbol

/-- The declarations of a program. -/
def ofProgram (config : Config) (p : Program) : Collection :=
  let c := (start config).declareRecords config.layout p.structs
  p.functions.zipIdx.foldl (fun c (d, i) => c.declareFunction config p.functions i d) c

end Collection

end BlockForge.Lowering
