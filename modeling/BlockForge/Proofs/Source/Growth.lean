import BlockForge.Proofs.Source.Interning
import BlockForge.Source.Builder

/-!
# Growing tables

A builder only ever adds to its tables, so what has been read from them once can be read from them again:
`Builder.Grows` says that every table of a builder begins the same table of a later one, and each of the facts
below about a node, a list, a text or a written type goes over to the later one.
-/

namespace BlockForge.Source

theorem getElem?_of_begins {α : Type} {table table' : Array α} (h : table.toList <+: table'.toList)
    {i : Nat} {x : α} (hx : table[i]? = some x) : table'[i]? = some x := by
  rw [← Array.getElem?_toList] at hx ⊢
  obtain ⟨more, hmore⟩ := h
  rw [← hmore, List.getElem?_append_left (List.getElem?_eq_some_iff.1 hx).1, hx]

theorem mem_of_begins {α : Type} {table table' : Array α} (h : table.toList <+: table'.toList) {x : α}
    (hx : x ∈ table) : x ∈ table' := Array.mem_toList_iff.1 (h.subset (Array.mem_toList_iff.2 hx))

theorem begins_push {α : Type} (table : Array α) (x : α) : table.toList <+: (table.push x).toList := by
  rw [Array.toList_push]
  exact List.prefix_append _ _

theorem begins_append {α : Type} (table : Array α) (items : List α) :
    table.toList <+: (table ++ items).toList := by
  rw [Array.toList_appendList]
  exact List.prefix_append _ _

/-! ### Runs -/

namespace Run

variable {α : Type} {r : Run} {table table' : Array α} {items : List α}

/-- The run ends before the table does. -/
def Within (r : Run) (table : Array α) : Prop := r.start + r.len ≤ table.size

/-- The run covers exactly these entries of the table. -/
structure Reads (r : Run) (table : Array α) (items : List α) : Prop where
  within : r.Within table
  slice : (r.slice table).toList = items

theorem Within.grow (h : r.Within table) (hp : table.toList <+: table'.toList) : r.Within table' :=
  Nat.le_trans h (by simpa using hp.length_le)

/-- What is added behind a run does not change what the run covers. -/
theorem Within.slice_eq (h : r.Within table) (hp : table.toList <+: table'.toList) :
    r.slice table' = r.slice table := by
  obtain ⟨more, hmore⟩ := hp
  have htable : table' = table ++ more.toArray := by
    rw [← Array.toList_inj, Array.toList_append, List.toList_toArray, hmore]
  have hnone : r.start + r.len - table.size = 0 := Nat.sub_eq_zero_of_le h
  rw [htable, slice, slice, Array.extract_append, hnone]
  simp

theorem Reads.grow (h : r.Reads table items) (hp : table.toList <+: table'.toList) :
    r.Reads table' items :=
  ⟨h.within.grow hp, h.within.slice_eq hp ▸ h.slice⟩

/-- The run of entries that have just been put at the end. -/
theorem reads_append (table : Array α) (items : List α) :
    Reads ⟨table.size, items.length⟩ (table ++ items) items := by
  have hsize : (table ++ items).size = table.size + items.length := by
    rw [← Array.length_toList, Array.toList_appendList, List.length_append, Array.length_toList]
  refine ⟨Nat.le_of_eq hsize.symm, ?_⟩
  simp [slice, Array.toList_extract, Array.toList_appendList, List.extract_eq_take_drop]

end Run

/-! ### Later builders -/

/-- Every table of a builder begins the same table of a later one. -/
structure Builder.Grows (b b' : Builder) : Prop where
  texts : b.names.texts.toList <+: b'.names.texts.toList
  types : b.draft.arena.types.toList <+: b'.draft.arena.types.toList
  exprs : b.draft.arena.exprs.toList <+: b'.draft.arena.exprs.toList
  stmts : b.draft.arena.stmts.toList <+: b'.draft.arena.stmts.toList
  exprLists : b.draft.arena.exprLists.toList <+: b'.draft.arena.exprLists.toList
  stmtLists : b.draft.arena.stmtLists.toList <+: b'.draft.arena.stmtLists.toList
  fieldInits : b.draft.arena.fieldInits.toList <+: b'.draft.arena.fieldInits.toList
  clauses : b.draft.arena.clauses.toList <+: b'.draft.arena.clauses.toList
  structs : b.draft.structs.toList <+: b'.draft.structs.toList
  functions : b.draft.functions.toList <+: b'.draft.functions.toList

namespace Builder

variable {b b' b'' : Builder}

theorem Grows.refl (b : Builder) : b.Grows b := by
  constructor <;> exact List.prefix_refl _

theorem Grows.trans (h : b.Grows b') (h' : b'.Grows b'') : b.Grows b'' where
  texts := h.texts.trans h'.texts
  types := h.types.trans h'.types
  exprs := h.exprs.trans h'.exprs
  stmts := h.stmts.trans h'.stmts
  exprLists := h.exprLists.trans h'.exprLists
  stmtLists := h.stmtLists.trans h'.stmtLists
  fieldInits := h.fieldInits.trans h'.fieldInits
  clauses := h.clauses.trans h'.clauses
  structs := h.structs.trans h'.structs
  functions := h.functions.trans h'.functions

/-! ### What can be read from the tables -/

/-- The text of a name. -/
def Spells (b : Builder) (n : Name) (text : String) : Prop := b.names.texts[n.index]? = some text

/-- The node of an expression, whatever its span. -/
def HasExpr (b : Builder) (e : ExprId) (node : ExprNode) : Prop :=
  ∃ span, b.draft.arena.exprs[e.index]? = some ⟨node, span⟩

/-- The node of a statement, whatever its span. -/
def HasStmt (b : Builder) (s : StmtId) (node : StmtNode) : Prop :=
  ∃ span, b.draft.arena.stmts[s.index]? = some ⟨node, span⟩

/-- The written type of a number, read level by level. -/
inductive Writes (b : Builder) : TypeId → TypeExpr → Prop
  | unit {t} (h : b.draft.arena.types[t.index]? = some .unit) : Writes b t .unit
  | named {t n text} (h : b.draft.arena.types[t.index]? = some (.named n)) (hn : b.Spells n text) :
      Writes b t (.named text)
  | vector {t elem inner} (h : b.draft.arena.types[t.index]? = some (.vector elem))
      (helem : Writes b elem inner) : Writes b t (.vector inner)

theorem Spells.grow {n : Name} {text : String} (h : b.Spells n text) (hg : b.Grows b') :
    b'.Spells n text := getElem?_of_begins hg.texts h

theorem HasExpr.grow {e : ExprId} {node : ExprNode} (h : b.HasExpr e node) (hg : b.Grows b') :
    b'.HasExpr e node :=
  let ⟨span, hspan⟩ := h
  ⟨span, getElem?_of_begins hg.exprs hspan⟩

theorem HasStmt.grow {s : StmtId} {node : StmtNode} (h : b.HasStmt s node) (hg : b.Grows b') :
    b'.HasStmt s node :=
  let ⟨span, hspan⟩ := h
  ⟨span, getElem?_of_begins hg.stmts hspan⟩

theorem Writes.grow {t : TypeId} {type : TypeExpr} (h : b.Writes t type) (hg : b.Grows b') :
    b'.Writes t type := by
  induction h with
  | unit h => exact .unit (getElem?_of_begins hg.types h)
  | named h hn => exact .named (getElem?_of_begins hg.types h) (hn.grow hg)
  | vector h _ ih => exact .vector (getElem?_of_begins hg.types h) ih

theorem Spells.lookup {n : Name} {text : String} (h : b.Spells n text) : b.names.lookup n = text := by
  rw [Interner.lookup, Array.getD_eq_getD_getElem?, h]
  rfl

theorem Spells.lt {n : Name} {text : String} (h : b.Spells n text) : n.index < b.names.texts.size :=
  (Array.getElem?_eq_some_iff.1 h).1

theorem HasExpr.lt {e : ExprId} {node : ExprNode} (h : b.HasExpr e node) :
    e.index < b.draft.arena.exprs.size :=
  let ⟨_, hspan⟩ := h
  (Array.getElem?_eq_some_iff.1 hspan).1

theorem HasStmt.lt {s : StmtId} {node : StmtNode} (h : b.HasStmt s node) :
    s.index < b.draft.arena.stmts.size :=
  let ⟨_, hspan⟩ := h
  (Array.getElem?_eq_some_iff.1 hspan).1

theorem Writes.lt {t : TypeId} {type : TypeExpr} (h : b.Writes t type) :
    t.index < b.draft.arena.types.size := by
  cases h with
  | unit h | named h _ | vector h _ => exact (Array.getElem?_eq_some_iff.1 h).1

end Builder

end BlockForge.Source
