import BlockForge.Lowering.Stmt

/-!
# Programs

Lowers the bodies of all declared functions into one module and, if the program defines the entry
point, adds a function `main` around it that gives the exit code.
-/

namespace BlockForge.Lowering

open Diagnostic (Diag Queue)
open Ir (Emit Module)
open Source (FunctionDef Program Span)
open BlockForge.Types (Ty)

/-! ### Functions -/

/-- Moves a parameter into a slot, so that the body can assign to it. -/
def bindParam (env : Env) (position : Nat) (name : String) (type : Ty) (span : Span) :
    Lower Unit := do
  let slot ← Lower.emit (Emit.entryAlloca (env.ir type) name)
  Lower.emit (Emit.store (Ir.Function.param position) slot)
  Lower.bind "parameter" name (.slot slot type) span

def bindParams (env : Env) : (position : Nat) → List (String × Ty × Span) → Lower Unit
  | _, [] => pure ()
  | position, (name, type, span) :: rest => do
    bindParam env position name type span
    bindParams env (position + 1) rest

/-- The parameters of a definition; a method has its receiver first, as `self`. -/
def parameters (d : FunctionDef) (sig : Signature) : List (String × Ty × Span) :=
  sig.receiver.toList.map (fun t => ("self", t, d.span))
    ++ (d.params.zip sig.params).map fun (p, t) => (p.name, t, p.span)

/-- Lowers the body of a declared function. -/
def lowerFunction (env : Env) (d : FunctionDef) (sig : Signature) : Lower Unit := do
  let entry ← Lower.emit (Emit.appendBlock "entry")
  Lower.emit (Emit.positionAt entry)
  Lower.onScope Scope.push
  bindParams env 0 (parameters d sig)
  lowerStmts env d.body
  Lower.finishBody env d.span
  Lower.onScope Scope.pop

/-- The state in which the lowering of a definition ends, after a module and its reports. -/
def lowerBody (config : Config) (allocator : Allocator) (tables : Tables) (acc : Module × Queue)
    (d : FunctionDef) (sig : Signature) : State :=
  let env : Env := ⟨config, tables, allocator, sig.ret, d.symbol⟩
  (lowerFunction env d sig ⟨.start acc.1 sig.func, acc.2, {}, [], false, {}⟩).2

/-- Lowers the definition at a position, if it is the one that was declared under its symbol. -/
def lowerDefinition (config : Config) (allocator : Allocator) (tables : Tables)
    (acc : Module × Queue) (position : Nat) (d : FunctionDef) : Module × Queue :=
  match tables.function? d.symbol with
  | none => acc
  | some sig =>
    if sig.definition ≠ position then acc
    else
      let s := lowerBody config allocator tables acc d sig
      (s.builder.module, s.diags)

/-- Lowers definitions, given with their positions, in order. -/
def lowerDefinitions (config : Config) (allocator : Allocator) (tables : Tables)
    (acc : Module × Queue) (ds : List (FunctionDef × Nat)) : Module × Queue :=
  ds.foldl (fun acc (d, i) => lowerDefinition config allocator tables acc i d) acc

/-! ### Entry point -/

/-- The name of the function that starts a module. -/
def wrapperName : String := "main"

/-- Calls the entry point and returns its result as an exit code. -/
def emitWrapper (sig : Signature) (name : String) : Emit Unit := do
  let entry ← Emit.appendBlock "entry"
  Emit.positionAt entry
  let result ← Emit.call sig.func [] name
  let code ← match result with
    | some value =>
      if sig.ret.isUnit then Emit.constInt .i32 0
      else Emit.intResize value .i32 sig.ret.isSignedInt "exit.code"
    | none => Emit.constInt .i32 0
  Emit.ret code

/-- Adds the wrapper around the entry point. The entry point takes no arguments and returns an
integer or nothing. -/
def addEntryWrapper (config : Config) (p : Program) (tables : Tables) (acc : Module × Queue) :
    Module × Queue :=
  let (module, diags) := acc
  let report (d : Diag) : Module × Queue := (module, (diags.add d).2)
  match p.functions.find? fun d => d.receiver.isNone && d.symbol == config.entryPoint with
  | none => acc
  | some d =>
    match tables.function? d.symbol with
    | none => acc
    | some sig =>
      if !sig.params.isEmpty then
        report (Problem.argCount d.span "entry point" d.symbol 0 sig.params.length)
      else if !(sig.ret.isInteger || sig.ret.isUnit) then
        let context := "return type of entry point `" ++ d.symbol ++ "`"
        report (Diagnostic.typeMismatch d.span "integer or ()" sig.ret.render context)
      else
        let (func, module) := module.declareFunction wrapperName [] .i32
        let b := (emitWrapper sig d.symbol (.start module func)).2
        (b.module, diags)

/-! ### Programs -/

/-- A lowered program: its module, and what was reported in order of position. -/
structure Output where
  module : Module
  diagnostics : List Diag

/-- Lowers a program. The module is made in any case; after an error it must not be run. -/
def lowerProgram (config : Config) (allocator : Allocator) (p : Program) : Output :=
  let c := Collection.ofProgram config p
  let acc := lowerDefinitions config allocator c.tables (c.module, c.diags) p.functions.zipIdx
  let (module, diags) := addEntryWrapper config p c.tables acc
  ⟨module, diags.flush.1⟩

namespace Output

def errors (o : Output) : List Diag := o.diagnostics.filter (·.isError)

def warnings (o : Output) : List Diag := o.diagnostics.filter fun d => !d.isError

def hasErrors (o : Output) : Bool := o.diagnostics.any (·.isError)

/-- The errors that keep a program from running, with the evidence that there are some. -/
structure Failure where
  diagnostics : List Diag
  evidence : Diagnostic.ErrorsEmitted

def Failure.errorCount (f : Failure) : Nat := f.diagnostics.countP (·.isError)

/-- The number of errors, then each of them. -/
def Failure.message (f : Failure) : String :=
  "lowering failed with " ++ toString f.errorCount ++ " error"
    ++ (if f.errorCount = 1 then "" else "s")
    ++ String.join ((f.diagnostics.filter (·.isError)).map fun d => "\n" ++ d.render)

/-- The module with its warnings, or the failure. -/
def result (o : Output) : Except Failure (Module × List Diag) :=
  match Diagnostic.ErrorsEmitted.ofCount? o.errors.length with
  | some evidence => .error ⟨o.diagnostics, evidence⟩
  | none => .ok (o.module, o.diagnostics)

end Output

end BlockForge.Lowering
