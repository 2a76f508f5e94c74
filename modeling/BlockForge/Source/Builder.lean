import BlockForge.Source.Node
import BlockForge.Source.TypeExpr

/-!
# Building flat syntax

A `Builder` appends nodes one by one. Names are interned and spans handed out in the order in which
an operation mentions them, so the numbering of a program is that of its construction: every node
gets the next span `2k..2k+1`, and children exist before their parent.
-/

namespace BlockForge.Source

/-- A program under construction: the names and nodes so far, and the next free offset. -/
structure Builder where
  names : Interner := .empty
  draft : Draft := {}
  next : UInt32 := 0
  deriving Inhabited

/-- An operation on the builder. -/
abbrev Build := StateM Builder

namespace Build

/-! ### Names, spans and types -/

def name (text : String) : Build Name := fun b =>
  let (n, names) := b.names.intern text
  (n, { b with names })

/-- The next span. -/
def span : Build Span := fun b => (⟨b.next, b.next + 1⟩, { b with next := b.next + 2 })

/-- Runs an operation of the arena. -/
def onArena {α : Type} (f : Arena → α × Arena) : Build α := fun b =>
  let (a, arena) := f b.draft.arena
  (a, { b with draft := { b.draft with arena } })

/-- Adds a written type, inner types first. -/
def typeExpr : TypeExpr → Build TypeId
  | .unit => onArena (·.addType .unit)
  | .named n => do
    let n ← name n
    onArena (·.addType (.named n))
  | .vector elem => do
    let elem ← typeExpr elem
    onArena (·.addType (.vector elem))

/-- Reads and adds a written type. -/
def type (text : String) : Build TypeId := typeExpr (.ofText text)

/-- Adds an expression at the next span. -/
def expr (node : ExprNode) : Build ExprId := do
  let s ← span
  onArena (·.addExpr node s)

/-- Adds a statement at the next span. -/
def stmt (node : StmtNode) : Build StmtId := do
  let s ← span
  onArena (·.addStmt node s)

/-! ### Expressions -/

def int (value : UInt64) : Build ExprId := expr (.int value)

def unary (op : UnaryOp) (operand : ExprId) : Build ExprId := expr (.unary op operand)

/-- A negative integer: a literal under unary minus. -/
def negInt (value : UInt64) : Build ExprId := do
  let operand ← int value
  unary .neg operand

def float (bits : UInt64) : Build ExprId := expr (.float bits)

def bool (value : Bool) : Build ExprId := expr (.bool value)

def char (value : Char) : Build ExprId := expr (.char value)

def str (text : String) : Build ExprId := do
  let n ← name text
  expr (.str n)

def unit : Build ExprId := expr .unit

def null : Build ExprId := expr .null

def ident (text : String) : Build ExprId := do
  let n ← name text
  expr (.ident n)

def binary (op : BinaryOp) (left right : ExprId) : Build ExprId := expr (.binary op left right)

def cast (operand : ExprId) (target : String) : Build ExprId := do
  let target ← type target
  expr (.cast operand target)

def call (callee : String) (args : List ExprId) : Build ExprId := do
  let callee ← name callee
  let args ← onArena (·.addExprList args)
  expr (.call callee args)

def methodCall (receiver : ExprId) (method : String) (args : List ExprId) : Build ExprId := do
  let method ← name method
  let args ← onArena (·.addExprList args)
  expr (.methodCall receiver method args)

def field (receiver : ExprId) (text : String) : Build ExprId := do
  let n ← name text
  expr (.field receiver n)

def index (receiver position : ExprId) : Build ExprId := expr (.index receiver position)

/-- The entries of a record literal; an entry has the span of its value. -/
def fieldInits : List (String × ExprId) → Build (List FieldInit)
  | [] => pure []
  | (text, value) :: rest => do
    let n ← name text
    let b ← get
    let inits ← fieldInits rest
    pure (⟨n, value, b.draft.arena.exprSpan value⟩ :: inits)

def record (text : String) (fields : List (String × ExprId)) : Build ExprId := do
  let n ← name text
  let inits ← fieldInits fields
  let run ← onArena (·.addFieldInits inits)
  expr (.record n run)

/-- A new empty vector of the written element type. -/
def vectorNew (elem : String) : Build ExprId := do
  let elem ← type elem
  expr (.vectorNew elem)

/-! ### Statements -/

def var (text : String) (declared : Option String) (init : ExprId) : Build StmtId := do
  let n ← name text
  let declared ← match declared with
    | none => pure none
    | some t => some <$> type t
  stmt (.var n declared init)

def assign (target value : ExprId) : Build StmtId := stmt (.assign target value)

/-- An assignment to a variable by its name. -/
def assignTo (text : String) (value : ExprId) : Build StmtId := do
  let target ← ident text
  assign target value

def exprStmt (e : ExprId) : Build StmtId := stmt (.expr e)

def stmtList (items : List StmtId) : Build Run := onArena (·.addStmtList items)

def clauseList : List (ExprId × List StmtId) → Build (List Clause)
  | [] => pure []
  | (cond, body) :: rest => do
    let run ← stmtList body
    let clauses ← clauseList rest
    pure (⟨cond, run⟩ :: clauses)

/-- An `if` with any number of clauses, none included, and an optional `else`. -/
def ifChain (clauses : List (ExprId × List StmtId)) (otherwise : Option (List StmtId)) :
    Build StmtId := do
  let clauses ← clauseList clauses
  let run ← onArena (·.addClauses clauses)
  let otherwise ← match otherwise with
    | none => pure none
    | some body => some <$> stmtList body
  stmt (.cond run otherwise)

def ifThen (cond : ExprId) (body : List StmtId) : Build StmtId := ifChain [(cond, body)] none

def ifElse (cond : ExprId) (body otherwise : List StmtId) : Build StmtId :=
  ifChain [(cond, body)] (some otherwise)

def loop (cond : ExprId) (body : List StmtId) : Build StmtId := do
  let body ← stmtList body
  stmt (.loop cond body)

def ret (value : Option ExprId) : Build StmtId := stmt (.ret value)

def brk : Build StmtId := stmt .brk

def cont : Build StmtId := stmt .cont

def block (body : List StmtId) : Build StmtId := do
  let body ← stmtList body
  stmt (.block body)

/-! ### Definitions -/

/-- Parameters or fields: for each its name, its type, its span. -/
def members : List (String × String) → Build (List Member)
  | [] => pure []
  | (text, t) :: rest => do
    let n ← name text
    let t ← type t
    let s ← span
    let rest ← members rest
    pure (⟨n, t, s⟩ :: rest)

def struct (text : String) (fields : List (String × String)) : Build Unit := do
  let n ← name text
  let fields ← members fields
  let s ← span
  modify fun b =>
    { b with draft := { b.draft with structs := b.draft.structs.push ⟨n, fields.toArray, s⟩ } }

/-- Adds a definition with the given symbol and receiver; gives its span. -/
def define (symbol : Name) (receiver : Option Receiver) (params : List (String × String))
    (returnType : String) (body : List StmtId) : Build Span := do
  let params ← members params
  let returnType ← type returnType
  let body ← stmtList body
  let s ← span
  let def' : FunctionNode := ⟨symbol, receiver, params.toArray, returnType, body, s⟩
  modify fun b =>
    { b with draft := { b.draft with functions := b.draft.functions.push def' } }
  pure s

def function (text : String) (params : List (String × String)) (returnType : String)
    (body : List StmtId) : Build Span := do
  let symbol ← name text
  define symbol none params returnType body

/-- A method; its symbol is the receiver's text, a dot and the method's name. -/
def method (receiver text : String) (params : List (String × String)) (returnType : String)
    (body : List StmtId) : Build Span := do
  let symbol ← name (receiver ++ "." ++ text)
  let receiverType ← type receiver
  let n ← name text
  define symbol (some ⟨receiverType, n⟩) params returnType body

/-- Gives the definition at a position another symbol. -/
def renameFunction (position : Nat) (symbol : String) : Build Unit := do
  let n ← name symbol
  modify fun b =>
    let functions := b.draft.functions.modify position fun f => { f with name := n }
    { b with draft := { b.draft with functions } }

end Build

end BlockForge.Source
