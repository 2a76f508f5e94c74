import BlockForge.Source.Builder

/-!
# Syntax trees

A `Program` is the tree form of a drafted unit: names and written types are resolved to texts and
trees, and each node carries its span. `Draft.program` builds it table by table, each node from the
subtrees already built, so a node shared by several parents is one shared subtree.
-/

namespace BlockForge.Source

/-- An expression with its span. -/
inductive Expr where
  | int (span : Span) (value : UInt64)
  | float (span : Span) (bits : UInt64)
  | bool (span : Span) (value : Bool)
  | char (span : Span) (value : Char)
  | str (span : Span) (text : String)
  | unit (span : Span)
  | null (span : Span)
  | ident (span : Span) (name : String)
  | binary (span : Span) (op : BinaryOp) (left right : Expr)
  | unary (span : Span) (op : UnaryOp) (operand : Expr)
  | cast (span : Span) (operand : Expr) (target : TypeExpr)
  | call (span : Span) (callee : String) (args : List Expr)
  | methodCall (span : Span) (receiver : Expr) (method : String) (args : List Expr)
  | field (span : Span) (receiver : Expr) (name : String)
  | index (span : Span) (receiver position : Expr)
  | record (span : Span) (name : String) (inits : List (String × Expr))
  | vectorNew (span : Span) (elem : TypeExpr)
  deriving Inhabited

def Expr.span : Expr → Span
  | int s _ | float s _ | bool s _ | char s _ | str s _ | unit s | null s | ident s _
  | binary s _ _ _ | unary s _ _ | cast s _ _ | call s _ _ | methodCall s _ _ _ | field s _ _
  | index s _ _ | record s _ _ | vectorNew s _ => s

mutual

/-- A statement with its span. -/
inductive Stmt where
  | var (span : Span) (name : String) (declared : Option TypeExpr) (init : Expr)
  | assign (span : Span) (target value : Expr)
  | expr (span : Span) (e : Expr)
  | cond (span : Span) (chain : Chain)
  | loop (span : Span) (cond : Expr) (body : List Stmt)
  | ret (span : Span) (value : Option Expr)
  | brk (span : Span)
  | cont (span : Span)
  | block (span : Span) (body : List Stmt)

/-- What is left of an `if` chain: nothing, an `else`, or a clause with what follows it. -/
inductive Chain where
  | done
  | otherwise (body : List Stmt)
  | clause (cond : Expr) (body : List Stmt) (rest : Chain)

end

instance : Inhabited Stmt := ⟨.brk default⟩

instance : Inhabited Chain := ⟨.done⟩

def Stmt.span : Stmt → Span
  | var s _ _ _ | assign s _ _ | expr s _ | cond s _ | loop s _ _ | ret s _ | brk s | cont s
  | block s _ => s

/-- A parameter or field. -/
structure Param where
  name : String
  type : TypeExpr
  span : Span
  deriving Inhabited

/-- A function, or a method if it has a receiver: the type it belongs to and its name there. -/
structure FunctionDef where
  symbol : String
  receiver : Option (TypeExpr × String)
  params : List Param
  returnType : TypeExpr
  body : List Stmt
  span : Span
  deriving Inhabited

/-- A record type. -/
structure StructDef where
  name : String
  fields : List Param
  span : Span
  deriving Inhabited

/-- A whole program in source order. -/
structure Program where
  structs : List StructDef
  functions : List FunctionDef
  deriving Inhabited

/-! ### From tables to trees -/

namespace Draft

/-- The trees of the written types, by number. -/
def typeTrees (names : Interner) (types : Array TypeNode) : Array TypeExpr :=
  types.foldl (fun built node =>
    built.push <|
      match node with
      | .unit => .unit
      | .named n => .named (names.lookup n)
      | .vector elem => .vector (built.getD elem.index default)) #[]

/-- What an expression tree is built from: names, written types, tables and smaller trees. -/
structure ExprContext where
  names : Interner
  arena : Arena
  types : Array TypeExpr

namespace ExprContext

variable (c : ExprContext)

def type (id : TypeId) : TypeExpr := c.types.getD id.index default

def args (built : Array Expr) (run : Run) : List Expr :=
  (run.slice c.arena.exprLists).toList.map fun id => built.getD id.index default

/-- The tree of one expression over the trees of earlier ones. -/
def expr (built : Array Expr) (s : Spanned ExprNode) : Expr :=
  let sub (id : ExprId) : Expr := built.getD id.index default
  match s.node with
  | .int v => .int s.span v
  | .float b => .float s.span b
  | .bool b => .bool s.span b
  | .char ch => .char s.span ch
  | .str t => .str s.span (c.names.lookup t)
  | .unit => .unit s.span
  | .null => .null s.span
  | .ident n => .ident s.span (c.names.lookup n)
  | .binary op l r => .binary s.span op (sub l) (sub r)
  | .unary op e => .unary s.span op (sub e)
  | .cast e t => .cast s.span (sub e) (c.type t)
  | .call f args => .call s.span (c.names.lookup f) (c.args built args)
  | .methodCall r m args => .methodCall s.span (sub r) (c.names.lookup m) (c.args built args)
  | .field r n => .field s.span (sub r) (c.names.lookup n)
  | .index r i => .index s.span (sub r) (sub i)
  | .record n inits =>
    let inits := (inits.slice c.arena.fieldInits).toList
    .record s.span (c.names.lookup n) (inits.map fun i => (c.names.lookup i.name, sub i.value))
  | .vectorNew t => .vectorNew s.span (c.type t)

/-- The trees of all expressions, by number. -/
def exprs : Array Expr :=
  c.arena.exprs.foldl (fun built node => built.push (c.expr built node)) #[]

/-- The statements of a list, over the trees of earlier statements. -/
def stmtList (built : Array Stmt) (run : Run) : List Stmt :=
  (run.slice c.arena.stmtLists).toList.map fun id => built.getD id.index default

/-- The chain of some clauses that ends in `last`. -/
def chain (exprs : Array Expr) (built : Array Stmt) (last : Chain) : List Clause → Chain
  | [] => last
  | cl :: rest =>
    .clause (exprs.getD cl.cond.index default) (c.stmtList built cl.body)
      (chain exprs built last rest)

/-- The tree of one statement over the trees of earlier ones. -/
def stmt (exprs : Array Expr) (built : Array Stmt) (s : Spanned StmtNode) : Stmt :=
  let sub (id : ExprId) : Expr := exprs.getD id.index default
  match s.node with
  | .var n t e => .var s.span (c.names.lookup n) (t.map c.type) (sub e)
  | .assign t v => .assign s.span (sub t) (sub v)
  | .expr e => .expr s.span (sub e)
  | .cond clauses otherwise =>
    let last := match otherwise with
      | none => Chain.done
      | some body => Chain.otherwise (c.stmtList built body)
    .cond s.span (c.chain exprs built last (clauses.slice c.arena.clauses).toList)
  | .loop e body => .loop s.span (sub e) (c.stmtList built body)
  | .ret v => .ret s.span (v.map sub)
  | .brk => .brk s.span
  | .cont => .cont s.span
  | .block body => .block s.span (c.stmtList built body)

/-- The trees of all statements, by number. -/
def stmts (exprs : Array Expr) : Array Stmt :=
  c.arena.stmts.foldl (fun built node => built.push (c.stmt exprs built node)) #[]

def member (m : Member) : Param := ⟨c.names.lookup m.name, c.type m.type, m.span⟩

def function (stmts : Array Stmt) (f : FunctionNode) : FunctionDef where
  symbol := c.names.lookup f.name
  receiver := f.receiver.map fun r => (c.type r.type, c.names.lookup r.method)
  params := f.params.toList.map c.member
  returnType := c.type f.returnType
  body := c.stmtList stmts f.body
  span := f.span

end ExprContext

/-- The trees of all definitions. -/
def program (d : Draft) (names : Interner) : Program :=
  let c : ExprContext := ⟨names, d.arena, typeTrees names d.arena.types⟩
  let stmts := c.stmts c.exprs
  { structs := d.structs.toList.map fun s =>
      ⟨c.names.lookup s.name, s.fields.toList.map c.member, s.span⟩
    functions := d.functions.toList.map (c.function stmts) }

end Draft

/-- The program built so far. -/
def Builder.program (b : Builder) : Program := b.draft.program b.names

end BlockForge.Source
