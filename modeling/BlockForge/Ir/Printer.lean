import BlockForge.Decimal.Layout
import BlockForge.Ir.Module
import BlockForge.Numeric.Word

/-!
# Printed modules

The text of a module: struct types, constants, host declarations and functions in table order, one
line each for labels, instructions and terminators. Named results carry their number, so the text of
a result is its own.
-/

namespace BlockForge.Ir

/-- The parts joined by a comma and a blank. -/
def commaSeparated (parts : List String) : String := String.intercalate ", " parts

namespace Module

variable (m : Module)

def printType : Ty → String
  | .i1 => "i1" | .i8 => "i8" | .i16 => "i16" | .i32 => "i32" | .i64 => "i64"
  | .f32 => "float" | .f64 => "double"
  | .ptr => "ptr"
  | .void => "void"
  | .struct id => "%" ++ (m.structs[id.index]?.getD default).name

/-- The name of what a call runs. -/
def calleeName : Callee → String
  | .func id => ((m.function? id).getD default).name
  | .host id => ((m.host? id).getD default).name

end Module

/-- An integer constant: a truth value at one bit, else its signed value. -/
def printConstInt (ty : Ty) (bits : UInt64) : String :=
  if ty = .i1 then (if bits == 0 then "false" else "true")
  else toString (Word.signExtend bits (ty.intBits?.getD 64)).toInt

namespace Function

variable (m : Module) (f : Function)

/-- A value as an operand. -/
def printValue (id : ValueId) : String :=
  match f.value? id with
  | none => "%<bad " ++ toString id.index ++ ">"
  | some v =>
    match v.kind with
    | .constInt bits => printConstInt v.ty bits
    | .constFloat bits => Decimal.Layout.plain.render bits
    | .constNull => "null"
    | .global g => "@" ++ (m.globals[g.index]?.getD default).name
    | .param _ => if v.name.isEmpty then "%" ++ toString id.index else "%" ++ v.name
    | .inst _ =>
      if v.name.isEmpty then "%" ++ toString id.index
      else "%" ++ v.name ++ "." ++ toString id.index

/-- A value with its type. -/
def printTyped (id : ValueId) : String :=
  m.printType (f.valueType id) ++ " " ++ f.printValue m id

/-- The label of a block: its name and number. -/
def printLabel (id : BlockId) : String :=
  let name := match f.block? id with
    | some b => b.name
    | none => ""
  (if name.isEmpty then "bb" else name) ++ toString id.index

/-- A two-operand instruction; the type is written once. -/
def printPair (word : String) (lhs rhs : ValueId) : String :=
  word ++ " " ++ f.printTyped m lhs ++ ", " ++ f.printValue m rhs

def printInst : InstKind → String
  | .alloca ty => "alloca " ++ m.printType ty
  | .load ty p => "load " ++ m.printType ty ++ ", " ++ f.printTyped m p
  | .store v p => "store " ++ f.printTyped m v ++ ", " ++ f.printTyped m p
  | .binary op a b => f.printPair m op.mnemonic a b
  | .fneg v => "fneg " ++ f.printTyped m v
  | .icmp p a b => f.printPair m ("icmp " ++ p.mnemonic) a b
  | .fcmp p a b => f.printPair m ("fcmp " ++ p.mnemonic) a b
  | .cast op v target => op.mnemonic ++ " " ++ f.printTyped m v ++ " to " ++ m.printType target
  | .select c a b => "select " ++ commaSeparated ([c, a, b].map (f.printTyped m))
  | .phi ty incoming =>
    "phi " ++ m.printType ty ++ " " ++ commaSeparated (incoming.map fun (v, b) =>
      "[ " ++ f.printValue m v ++ ", %" ++ f.printLabel b ++ " ]")
  | .call callee args ret =>
    "call " ++ m.printType ret ++ " @" ++ m.calleeName callee ++ "("
      ++ commaSeparated (args.map (f.printTyped m)) ++ ")"
  | .ptrAdd p o => "getelementptr i8, " ++ f.printTyped m p ++ ", " ++ f.printTyped m o
  | .fieldPtr s p field =>
    "getelementptr " ++ m.printType (.struct s) ++ ", " ++ f.printTyped m p ++ ", i32 0, i32 "
      ++ toString field
  | .memCopy d s l =>
    "call void @llvm.memcpy(" ++ commaSeparated ([d, s, l].map (f.printTyped m)) ++ ")"
  | .memMove d s l =>
    "call void @llvm.memmove(" ++ commaSeparated ([d, s, l].map (f.printTyped m)) ++ ")"

def printTerminator : Terminator → String
  | .br b => "br label %" ++ f.printLabel b
  | .condBr c a b =>
    "br " ++ f.printTyped m c ++ ", label %" ++ f.printLabel a ++ ", label %" ++ f.printLabel b
  | .ret (some v) => "ret " ++ f.printTyped m v
  | .ret none => "ret void"
  | .unreachable => "unreachable"

/-- The lines of a block: its label, its instructions, its terminator if it has one. -/
def printBlock (b : Block) (id : BlockId) : List String :=
  let inst (i : Inst) : String :=
    match i.result with
    | some r => "  " ++ f.printValue m r ++ " = " ++ f.printInst m i.kind
    | none => "  " ++ f.printInst m i.kind
  let last := match b.terminator with
    | some t => ["  " ++ f.printTerminator m t]
    | none => []
  (f.printLabel id ++ ":") :: b.insts.toList.map inst ++ last

/-- The lines of a function. -/
def printLines : List String :=
  let params := (List.range f.params.length).map fun i => f.printTyped m (param i)
  let head := m.printType f.ret ++ " @" ++ f.name ++ "(" ++ commaSeparated params ++ ")"
  if f.isDeclaration then ["declare " ++ head]
  else
    let body := f.blocks.toList.zipIdx.flatMap fun (b, i) => f.printBlock m b ⟨i⟩
    ("define " ++ head ++ " \x7b") :: body ++ ["\x7d"]

end Function

/-- Two upper-case hexadecimal digits. -/
def hexByte (b : UInt8) : String :=
  let digit (n : Nat) : Char := (Nat.digitChar n).toUpper
  String.ofList [digit (b.toNat / 16), digit (b.toNat % 16)]

/-- A byte of a constant text: itself if it is a visible character or a blank, other than quote and
backslash, else a backslash and two hexadecimal digits. -/
def printByte (b : UInt8) : String :=
  if 0x20 ≤ b && b ≤ 0x7e && b != 0x22 && b != 0x5c then String.ofList [Char.ofNat b.toNat]
  else "\\" ++ hexByte b

namespace Module

variable (m : Module)

def printStruct (s : StructType) : String :=
  "%" ++ s.name ++ " = type \x7b " ++ commaSeparated (s.fields.map m.printType) ++ " \x7d"

def printGlobal (g : Global) : String :=
  "@" ++ g.name ++ " = private constant [" ++ toString g.bytes.size ++ " x i8] c\""
    ++ String.join (g.bytes.toList.map printByte) ++ "\""

def printHost (h : HostDecl) : String :=
  "declare " ++ m.printType h.ret ++ " @" ++ h.name ++ "("
    ++ commaSeparated (h.params.map m.printType) ++ ")"

/-- The lines of a module; an empty line precedes each function. -/
def printLines : List String :=
  ("; module " ++ m.name) :: m.structs.toList.map m.printStruct
    ++ m.globals.toList.map printGlobal
    ++ m.hosts.toList.map m.printHost
    ++ m.functions.toList.flatMap fun f => "" :: f.printLines m

/-- The text of a module, each line ended. -/
def print : String := String.join (m.printLines.map (· ++ "\n"))

end Module

end BlockForge.Ir
