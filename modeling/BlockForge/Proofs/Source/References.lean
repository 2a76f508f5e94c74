import BlockForge.Proofs.Source.Growth

/-!
# What nodes refer to

The expressions, statements and types that a node refers to, through its own numbers and through runs of the
side tables. A builder is `Sound` if every node refers to earlier ones only and every run it has lies in its
table; what is added later keeps that, as long as the new nodes are `Fits` themselves.
-/

namespace BlockForge.Source

/-! ### References of one node -/

/-- The type that a vector is made of. -/
def TypeNode.elems : TypeNode → List TypeId
  | .vector elem => [elem]
  | .unit | .named _ => []

def TypeNode.names : TypeNode → List Name
  | .named n => [n]
  | .unit | .vector _ => []

def ExprNode.types : ExprNode → List TypeId
  | .cast _ t | .vectorNew t => [t]
  | _ => []

def StmtNode.names : StmtNode → List Name
  | .var n _ _ => [n]
  | _ => []

def StmtNode.types : StmtNode → List TypeId
  | .var _ declared _ => declared.toList
  | _ => []

namespace Arena

variable (a : Arena)

/-- The expressions that an expression is made of. -/
def children : ExprNode → List ExprId
  | .binary _ l r => [l, r]
  | .unary _ e | .cast e _ | .field e _ => [e]
  | .call _ args => (args.slice a.exprLists).toList
  | .methodCall r _ args => r :: (args.slice a.exprLists).toList
  | .index r i => [r, i]
  | .record _ inits => (inits.slice a.fieldInits).toList.map (·.value)
  | .int _ | .float _ | .bool _ | .char _ | .str _ | .unit | .null | .ident _ | .vectorNew _ => []

/-- The names in an expression, those of record entries included. -/
def exprNames : ExprNode → List Name
  | .str n | .ident n | .call n _ | .methodCall _ n _ | .field _ n => [n]
  | .record n inits => n :: (inits.slice a.fieldInits).toList.map (·.name)
  | _ => []

/-- The runs of an expression lie in their tables. -/
def ExprWithin : ExprNode → Prop
  | .call _ args | .methodCall _ _ args => args.Within a.exprLists
  | .record _ inits => inits.Within a.fieldInits
  | _ => True

/-- The statements of a list. -/
def listed (run : Run) : List StmtId := (run.slice a.stmtLists).toList

/-- The statements directly inside a statement. -/
def nested : StmtNode → List StmtId
  | .cond clauses otherwise =>
    (clauses.slice a.clauses).toList.flatMap (fun cl => a.listed cl.body) ++
      otherwise.toList.flatMap a.listed
  | .loop _ body | .block body => a.listed body
  | .var _ _ _ | .assign _ _ | .expr _ | .ret _ | .brk | .cont => []

/-- The expressions directly in a statement. -/
def operands : StmtNode → List ExprId
  | .var _ _ e | .expr e | .loop e _ => [e]
  | .assign t v => [t, v]
  | .cond clauses _ => (clauses.slice a.clauses).toList.map (·.cond)
  | .ret v => v.toList
  | .brk | .cont | .block _ => []

/-- The runs of a statement, those of its clauses included, lie in their tables. -/
def StmtWithin : StmtNode → Prop
  | .cond clauses otherwise => clauses.Within a.clauses ∧
      (∀ cl ∈ (clauses.slice a.clauses).toList, cl.body.Within a.stmtLists) ∧
      ∀ body ∈ otherwise.toList, body.Within a.stmtLists
  | .loop _ body | .block body => body.Within a.stmtLists
  | _ => True

theorem listed_of_reads {a : Arena} {run : Run} {items : List StmtId} (h : run.Reads a.stmtLists items) :
    a.listed run = items := h.slice

end Arena

/-! ### Nodes that fit -/

variable {b b' : Builder} {bound : Nat}

/-- A name that has been given out. -/
def Builder.Knows (b : Builder) (n : Name) : Prop := n.index < b.names.texts.size

/-- A written type made of earlier ones. -/
structure TypeNode.Fits (b : Builder) (bound : Nat) (node : TypeNode) : Prop where
  elems : ∀ t ∈ node.elems, t.index < bound
  names : ∀ n ∈ node.names, b.Knows n

/-- An expression made of earlier ones. -/
structure ExprNode.Fits (b : Builder) (bound : Nat) (node : ExprNode) : Prop where
  within : b.draft.arena.ExprWithin node
  children : ∀ e ∈ b.draft.arena.children node, e.index < bound
  names : ∀ n ∈ b.draft.arena.exprNames node, b.Knows n
  types : ∀ t ∈ node.types, t.index < b.draft.arena.types.size

/-- A statement around earlier ones. -/
structure StmtNode.Fits (b : Builder) (bound : Nat) (node : StmtNode) : Prop where
  within : b.draft.arena.StmtWithin node
  nested : ∀ s ∈ b.draft.arena.nested node, s.index < bound
  operands : ∀ e ∈ b.draft.arena.operands node, e.index < b.draft.arena.exprs.size
  names : ∀ n ∈ node.names, b.Knows n
  types : ∀ t ∈ node.types, t.index < b.draft.arena.types.size

structure Member.Fits (b : Builder) (m : Member) : Prop where
  type : m.type.index < b.draft.arena.types.size
  name : b.Knows m.name

structure StructNode.Fits (b : Builder) (node : StructNode) : Prop where
  name : b.Knows node.name
  fields : ∀ m ∈ node.fields.toList, m.Fits b

structure FunctionNode.Fits (b : Builder) (node : FunctionNode) : Prop where
  name : b.Knows node.name
  receiver : ∀ r ∈ node.receiver, r.type.index < b.draft.arena.types.size ∧ b.Knows r.method
  params : ∀ m ∈ node.params.toList, m.Fits b
  returnType : node.returnType.index < b.draft.arena.types.size
  within : node.body.Within b.draft.arena.stmtLists
  body : ∀ s ∈ b.draft.arena.listed node.body, s.index < b.draft.arena.stmts.size

theorem ExprNode.Fits.le {bound' : Nat} {node : ExprNode} (h : node.Fits b bound) (hle : bound ≤ bound') :
    node.Fits b bound' :=
  { h with children := fun e he => Nat.lt_of_lt_of_le (h.children e he) hle }

theorem StmtNode.Fits.le {bound' : Nat} {node : StmtNode} (h : node.Fits b bound) (hle : bound ≤ bound') :
    node.Fits b bound' :=
  { h with nested := fun s hs => Nat.lt_of_lt_of_le (h.nested s hs) hle }

/-! ### Fitting goes on -/

namespace Builder.Grows

theorem knows (hg : b.Grows b') {n : Name} (h : b.Knows n) : b'.Knows n :=
  Nat.lt_of_lt_of_le h (by simpa using hg.texts.length_le)

theorem types_le (hg : b.Grows b') : b.draft.arena.types.size ≤ b'.draft.arena.types.size := by
  simpa using hg.types.length_le

theorem exprs_le (hg : b.Grows b') : b.draft.arena.exprs.size ≤ b'.draft.arena.exprs.size := by
  simpa using hg.exprs.length_le

theorem stmts_le (hg : b.Grows b') : b.draft.arena.stmts.size ≤ b'.draft.arena.stmts.size := by
  simpa using hg.stmts.length_le

theorem exprs_lt (hg : b.Grows b') {items : List ExprId} (h : ∀ e ∈ items, e.index < b.draft.arena.exprs.size) :
    ∀ e ∈ items, e.index < b'.draft.arena.exprs.size := fun e he => Nat.lt_of_lt_of_le (h e he) hg.exprs_le

theorem stmts_lt (hg : b.Grows b') {items : List StmtId} (h : ∀ s ∈ items, s.index < b.draft.arena.stmts.size) :
    ∀ s ∈ items, s.index < b'.draft.arena.stmts.size := fun s hs => Nat.lt_of_lt_of_le (h s hs) hg.stmts_le

theorem exprWithin (hg : b.Grows b') {node : ExprNode} (h : b.draft.arena.ExprWithin node) :
    b'.draft.arena.ExprWithin node := by
  cases node with
  | call _ _ | methodCall _ _ _ => exact Run.Within.grow h hg.exprLists
  | record _ _ => exact Run.Within.grow h hg.fieldInits
  | _ => trivial

/-- An expression keeps its parts. -/
theorem children_eq (hg : b.Grows b') {node : ExprNode} (h : b.draft.arena.ExprWithin node) :
    b'.draft.arena.children node = b.draft.arena.children node := by
  cases node with
  | call _ _ | methodCall _ _ _ =>
    simp only [Arena.children, Run.Within.slice_eq h hg.exprLists]
  | record _ _ => simp only [Arena.children, Run.Within.slice_eq h hg.fieldInits]
  | _ => rfl

theorem exprNames_eq (hg : b.Grows b') {node : ExprNode} (h : b.draft.arena.ExprWithin node) :
    b'.draft.arena.exprNames node = b.draft.arena.exprNames node := by
  cases node with
  | record _ _ => simp only [Arena.exprNames, Run.Within.slice_eq h hg.fieldInits]
  | _ => rfl

theorem listed_eq (hg : b.Grows b') {run : Run} (h : run.Within b.draft.arena.stmtLists) :
    b'.draft.arena.listed run = b.draft.arena.listed run := by
  rw [Arena.listed, Arena.listed, h.slice_eq hg.stmtLists]

theorem stmtWithin (hg : b.Grows b') {node : StmtNode} (h : b.draft.arena.StmtWithin node) :
    b'.draft.arena.StmtWithin node := by
  cases node with
  | cond clauses otherwise =>
    refine ⟨h.1.grow hg.clauses, ?_, fun body hbody => (h.2.2 body hbody).grow hg.stmtLists⟩
    rw [h.1.slice_eq hg.clauses]
    exact fun cl hcl => (h.2.1 cl hcl).grow hg.stmtLists
  | loop _ _ | block _ => exact Run.Within.grow h hg.stmtLists
  | _ => trivial

/-- A statement keeps what is inside it. -/
theorem nested_eq (hg : b.Grows b') {node : StmtNode} (h : b.draft.arena.StmtWithin node) :
    b'.draft.arena.nested node = b.draft.arena.nested node := by
  cases node with
  | cond clauses otherwise =>
    obtain ⟨hwithin, hclauses, hother⟩ := h
    simp only [Arena.nested, hwithin.slice_eq hg.clauses]
    congr 1
    · exact List.flatMap_congr fun cl hcl => hg.listed_eq (hclauses cl hcl)
    · exact List.flatMap_congr fun body hbody => hg.listed_eq (hother body hbody)
  | loop _ _ | block _ => exact hg.listed_eq h
  | _ => rfl

theorem operands_eq (hg : b.Grows b') {node : StmtNode} (h : b.draft.arena.StmtWithin node) :
    b'.draft.arena.operands node = b.draft.arena.operands node := by
  cases node with
  | cond clauses _ => simp only [Arena.operands, h.1.slice_eq hg.clauses]
  | _ => rfl

theorem typeFits (hg : b.Grows b') {node : TypeNode} (h : node.Fits b bound) : node.Fits b' bound :=
  ⟨h.elems, fun n hn => hg.knows (h.names n hn)⟩

theorem exprFits (hg : b.Grows b') {node : ExprNode} (h : node.Fits b bound) : node.Fits b' bound where
  within := hg.exprWithin h.within
  children := hg.children_eq h.within ▸ h.children
  names := hg.exprNames_eq h.within ▸ fun n hn => hg.knows (h.names n hn)
  types t ht := Nat.lt_of_lt_of_le (h.types t ht) hg.types_le

theorem stmtFits (hg : b.Grows b') {node : StmtNode} (h : node.Fits b bound) : node.Fits b' bound where
  within := hg.stmtWithin h.within
  nested := hg.nested_eq h.within ▸ h.nested
  operands := hg.operands_eq h.within ▸ hg.exprs_lt h.operands
  names n hn := hg.knows (h.names n hn)
  types t ht := Nat.lt_of_lt_of_le (h.types t ht) hg.types_le

theorem memberFits (hg : b.Grows b') {m : Member} (h : m.Fits b) : m.Fits b' :=
  ⟨Nat.lt_of_lt_of_le h.type hg.types_le, hg.knows h.name⟩

theorem structFits (hg : b.Grows b') {node : StructNode} (h : node.Fits b) : node.Fits b' :=
  ⟨hg.knows h.name, fun m hm => hg.memberFits (h.fields m hm)⟩

theorem functionFits (hg : b.Grows b') {node : FunctionNode} (h : node.Fits b) : node.Fits b' where
  name := hg.knows h.name
  receiver r hr := ⟨Nat.lt_of_lt_of_le (h.receiver r hr).1 hg.types_le, hg.knows (h.receiver r hr).2⟩
  params m hm := hg.memberFits (h.params m hm)
  returnType := Nat.lt_of_lt_of_le h.returnType hg.types_le
  within := h.within.grow hg.stmtLists
  body := hg.listed_eq h.within ▸ hg.stmts_lt h.body

end Builder.Grows

/-! ### Sound builders -/

/-- What holds of every entry of a table from a position on. -/
def EntriesFrom {α : Type} (start : Nat) (table : Array α) (P : Nat → α → Prop) : Prop :=
  ∀ (i : Nat) (x : α), start ≤ i → table[i]? = some x → P i x

namespace EntriesFrom

variable {α : Type} {table table' : Array α} {P Q : Nat → α → Prop}

theorem behind (table : Array α) (P : Nat → α → Prop) : EntriesFrom table.size table P :=
  fun _ _ hstart hx => absurd (Array.getElem?_eq_some_iff.1 hx).1 (Nat.not_lt_of_le hstart)

theorem push {x : α} (h : P table.size x) : EntriesFrom table.size (table.push x) P := fun i y hstart hy => by
  have hi : i < table.size + 1 := by simpa using (Array.getElem?_eq_some_iff.1 hy).1
  obtain rfl : i = table.size := Nat.le_antisymm (Nat.le_of_lt_succ hi) hstart
  rw [Array.getElem?_push_size] at hy
  exact Option.some.inj hy ▸ h

/-- Of a longer table only the new entries are to be checked. -/
theorem extend (h : EntriesFrom 0 table P) (hp : table.toList <+: table'.toList)
    (hmono : ∀ {i x}, P i x → Q i x) (hnew : EntriesFrom table.size table' Q) :
    EntriesFrom 0 table' Q := fun i x _ hx => by
  by_cases hi : i < table.size
  · have hold := getElem?_of_begins hp (Array.getElem?_eq_getElem hi)
    rw [hx, Option.some.injEq] at hold
    exact hmono (h i x i.zero_le (hold ▸ Array.getElem?_eq_getElem hi))
  · exact hnew i x (Nat.le_of_not_lt hi) hx

end EntriesFrom

/-- From some positions on, every node is made of earlier ones, and every definition of existing ones. -/
structure Builder.SoundFrom (start b : Builder) : Prop where
  types : EntriesFrom start.draft.arena.types.size b.draft.arena.types fun i node => node.Fits b i
  exprs : EntriesFrom start.draft.arena.exprs.size b.draft.arena.exprs fun i s => s.node.Fits b i
  stmts : EntriesFrom start.draft.arena.stmts.size b.draft.arena.stmts fun i s => s.node.Fits b i
  structs : EntriesFrom start.draft.structs.size b.draft.structs fun _ node => node.Fits b
  functions : EntriesFrom start.draft.functions.size b.draft.functions fun _ node => node.Fits b

/-- Every node is made of earlier ones, and every definition of existing ones. -/
def Builder.Sound (b : Builder) : Prop := SoundFrom {} b

namespace Builder

/-- Nothing can be wrong where nothing is new. -/
theorem soundFrom_of_same (htypes : b'.draft.arena.types = b.draft.arena.types)
    (hexprs : b'.draft.arena.exprs = b.draft.arena.exprs) (hstmts : b'.draft.arena.stmts = b.draft.arena.stmts)
    (hstructs : b'.draft.structs = b.draft.structs) (hfunctions : b'.draft.functions = b.draft.functions) :
    b.SoundFrom b' := by
  constructor
  case types => exact htypes ▸ .behind _ _
  case exprs => exact hexprs ▸ .behind _ _
  case stmts => exact hstmts ▸ .behind _ _
  case structs => exact hstructs ▸ .behind _ _
  case functions => exact hfunctions ▸ .behind _ _

theorem sound_start (names : Interner) : Sound { names } := soundFrom_of_same rfl rfl rfl rfl rfl

theorem Sound.extend (h : b.Sound) (hg : b.Grows b') (hnew : b.SoundFrom b') : b'.Sound where
  types := h.types.extend hg.types hg.typeFits hnew.types
  exprs := h.exprs.extend hg.exprs hg.exprFits hnew.exprs
  stmts := h.stmts.extend hg.stmts hg.stmtFits hnew.stmts
  structs := h.structs.extend hg.structs hg.structFits hnew.structs
  functions := h.functions.extend hg.functions hg.functionFits hnew.functions

end Builder

end BlockForge.Source
