import BlockForge.Source.Name
import BlockForge.Source.Operator
import BlockForge.Source.Span

/-!
# Flat syntax

Nodes of a program live in the tables of an `Arena` and refer to each other by number. Children of
variable number (arguments, statement lists, field initialisers, `if` clauses) are runs of a side
table. Tables only grow, so a number keeps denoting the node it was handed out for.
-/

namespace BlockForge.Source

/-- The kinds of nodes that are referred to by number. -/
inductive NodeKind where
  | expr | stmt | type
  deriving DecidableEq, Repr

/-- The number of a node of one kind. -/
structure NodeId (kind : NodeKind) where
  index : Nat
  deriving DecidableEq, Repr, Inhabited

abbrev ExprId := NodeId .expr
abbrev StmtId := NodeId .stmt
abbrev TypeId := NodeId .type

namespace NodeKind

def title : NodeKind → String
  | expr => "ExprId" | stmt => "StmtId" | type => "ParsedTypeId"

end NodeKind

namespace NodeId

/-- The number that stands for no node. -/
def invalid {k : NodeKind} : NodeId k := ⟨4294967295⟩

def isValid {k : NodeKind} (id : NodeId k) : Bool := id.index != 4294967295

def render {k : NodeKind} (id : NodeId k) : String :=
  k.title ++ "(" ++ (if id.isValid then toString id.index else "INVALID") ++ ")"

end NodeId

/-- A run of consecutive entries of a side table. -/
structure Run where
  start : Nat
  len : Nat
  deriving DecidableEq, Repr

namespace Run

def empty : Run := ⟨0, 0⟩

instance : Inhabited Run := ⟨empty⟩

def isEmpty (r : Run) : Bool := r.len == 0

/-- The entries of a table that the run covers. -/
def slice {α : Type} (r : Run) (table : Array α) : Array α := table.extract r.start (r.start + r.len)

end Run

/-! ### Nodes -/

/-- A written type in the arena. -/
inductive TypeNode where
  | unit
  | named (name : Name)
  | vector (elem : TypeId)
  deriving DecidableEq, Repr, Inhabited

/-- An expression in the arena, without its span. Integer literals hold a magnitude, float literals
the bits of a binary64. -/
inductive ExprNode where
  | int (value : UInt64)
  | float (bits : UInt64)
  | bool (value : Bool)
  | char (value : Char)
  | str (text : Name)
  | unit
  | null
  | ident (name : Name)
  | binary (op : BinaryOp) (left right : ExprId)
  | unary (op : UnaryOp) (operand : ExprId)
  | cast (operand : ExprId) (target : TypeId)
  | call (callee : Name) (args : Run)
  | methodCall (receiver : ExprId) (method : Name) (args : Run)
  | field (receiver : ExprId) (name : Name)
  | index (receiver index : ExprId)
  | record (name : Name) (inits : Run)
  | vectorNew (elem : TypeId)
  deriving DecidableEq, Repr, Inhabited

/-- One `name: value` entry of a record literal. -/
structure FieldInit where
  name : Name
  value : ExprId
  span : Span
  deriving DecidableEq, Repr, Inhabited

/-- One `if` or `else if` with its body. -/
structure Clause where
  cond : ExprId
  body : Run
  deriving DecidableEq, Repr, Inhabited

/-- A statement in the arena, without its span. -/
inductive StmtNode where
  | var (name : Name) (declared : Option TypeId) (init : ExprId)
  | assign (target value : ExprId)
  | expr (e : ExprId)
  | cond (clauses : Run) (otherwise : Option Run)
  | loop (cond : ExprId) (body : Run)
  | ret (value : Option ExprId)
  | brk
  | cont
  | block (body : Run)
  deriving DecidableEq, Repr, Inhabited

/-- A node with its span. -/
structure Spanned (α : Type) where
  node : α
  span : Span
  deriving DecidableEq, Repr, Inhabited

/-! ### Definitions -/

/-- A parameter or a field: a name with a written type. -/
structure Member where
  name : Name
  type : TypeId
  span : Span
  deriving DecidableEq, Repr, Inhabited

/-- The type a method belongs to, and its name at call sites. -/
structure Receiver where
  type : TypeId
  method : Name
  deriving DecidableEq, Repr, Inhabited

/-- A function or method; `name` is its symbol in the module. -/
structure FunctionNode where
  name : Name
  receiver : Option Receiver
  params : Array Member
  returnType : TypeId
  body : Run
  span : Span
  deriving Repr, Inhabited

/-- A record type. -/
structure StructNode where
  name : Name
  fields : Array Member
  span : Span
  deriving Repr, Inhabited

/-! ### Tables -/

/-- The tables of all nodes of a program. -/
structure Arena where
  exprs : Array (Spanned ExprNode) := #[]
  stmts : Array (Spanned StmtNode) := #[]
  types : Array TypeNode := #[]
  exprLists : Array ExprId := #[]
  stmtLists : Array StmtId := #[]
  fieldInits : Array FieldInit := #[]
  clauses : Array Clause := #[]
  deriving Inhabited

namespace Arena

def addExpr (a : Arena) (node : ExprNode) (span : Span) : ExprId × Arena :=
  (⟨a.exprs.size⟩, { a with exprs := a.exprs.push ⟨node, span⟩ })

def addStmt (a : Arena) (node : StmtNode) (span : Span) : StmtId × Arena :=
  (⟨a.stmts.size⟩, { a with stmts := a.stmts.push ⟨node, span⟩ })

def addType (a : Arena) (node : TypeNode) : TypeId × Arena :=
  (⟨a.types.size⟩, { a with types := a.types.push node })

def addExprList (a : Arena) (items : List ExprId) : Run × Arena :=
  (⟨a.exprLists.size, items.length⟩, { a with exprLists := a.exprLists ++ items })

def addStmtList (a : Arena) (items : List StmtId) : Run × Arena :=
  (⟨a.stmtLists.size, items.length⟩, { a with stmtLists := a.stmtLists ++ items })

def addFieldInits (a : Arena) (items : List FieldInit) : Run × Arena :=
  (⟨a.fieldInits.size, items.length⟩, { a with fieldInits := a.fieldInits ++ items })

def addClauses (a : Arena) (items : List Clause) : Run × Arena :=
  (⟨a.clauses.size, items.length⟩, { a with clauses := a.clauses ++ items })

/-- The span of an expression. -/
def exprSpan (a : Arena) (id : ExprId) : Span := (a.exprs[id.index]?.getD default).span

/-- The span of a statement. -/
def stmtSpan (a : Arena) (id : StmtId) : Span := (a.stmts[id.index]?.getD default).span

end Arena

/-- An arena with its definitions, in source order. -/
structure Draft where
  arena : Arena := {}
  structs : Array StructNode := #[]
  functions : Array FunctionNode := #[]
  deriving Inhabited

end BlockForge.Source
