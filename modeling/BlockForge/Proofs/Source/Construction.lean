import BlockForge.Proofs.Source.References
import Mathlib.Data.List.Forall2

/-!
# One operation of the builder

`Build.Makes` is what an operation does to a sound builder: it only adds, leaves a sound builder, and what it gives
can be read from the tables. Each operation has one lemma; those of the composed ones follow by `Makes.bind`.
-/

namespace BlockForge.Source

theorem rel_imp {α β : Type} {R S : α → β → Prop} {o : Option α} {o' : Option β} (h : Option.Rel R o o')
    (k : ∀ x y, R x y → S x y) : Option.Rel S o o' := by
  cases h with
  | none => exact .none
  | some h => exact .some (k _ _ h)

/-! ### Entries of lists -/

namespace Builder

variable {b b' : Builder}

/-- An entry of a record literal has the name and the value, and the span of the value. -/
def HasInit (b : Builder) (field : String × ExprId) (init : FieldInit) : Prop :=
  b.Spells init.name field.1 ∧ init.value = field.2 ∧
    ∃ node, b.draft.arena.exprs[field.2.index]? = some ⟨node, init.span⟩

/-- A clause has the condition and the statements. -/
def HasClause (b : Builder) (clause : ExprId × List StmtId) (cl : Clause) : Prop :=
  cl.cond = clause.1 ∧ cl.body.Reads b.draft.arena.stmtLists clause.2

/-- A parameter or field has the name and the written type. -/
def HasMember (b : Builder) (field : String × String) (m : Member) : Prop :=
  b.Spells m.name field.1 ∧ b.Writes m.type (.ofText field.2)

/-- An `if` with these clauses and this `else`. -/
def HasChain (b : Builder) (s : StmtId) (clauses : List (ExprId × List StmtId))
    (otherwise : Option (List StmtId)) : Prop :=
  ∃ run cls last, b.HasStmt s (.cond run last) ∧ run.Reads b.draft.arena.clauses cls ∧
    List.Forall₂ b.HasClause clauses cls ∧
    Option.Rel (fun items body => body.Reads b.draft.arena.stmtLists items) otherwise last

/-- A definition in the program with these parameters, this return type and these statements. -/
structure HasFunction (b : Builder) (node : FunctionNode) (params : List (String × String))
    (returnType : String) (body : List StmtId) : Prop where
  mem : node ∈ b.draft.functions
  params : List.Forall₂ b.HasMember params node.params.toList
  returnType : b.Writes node.returnType (.ofText returnType)
  body : node.body.Reads b.draft.arena.stmtLists body

theorem HasInit.grow {field : String × ExprId} {init : FieldInit} (h : b.HasInit field init)
    (hg : b.Grows b') : b'.HasInit field init :=
  let ⟨hname, hvalue, node, hnode⟩ := h
  ⟨hname.grow hg, hvalue, node, getElem?_of_begins hg.exprs hnode⟩

theorem HasClause.grow {clause : ExprId × List StmtId} {cl : Clause} (h : b.HasClause clause cl)
    (hg : b.Grows b') : b'.HasClause clause cl := ⟨h.1, h.2.grow hg.stmtLists⟩

theorem HasMember.grow {field : String × String} {m : Member} (h : b.HasMember field m)
    (hg : b.Grows b') : b'.HasMember field m := ⟨h.1.grow hg, h.2.grow hg⟩

theorem HasChain.grow {s : StmtId} {clauses : List (ExprId × List StmtId)}
    {otherwise : Option (List StmtId)} (h : b.HasChain s clauses otherwise) (hg : b.Grows b') :
    b'.HasChain s clauses otherwise :=
  let ⟨run, cls, last, hs, hrun, hcls, hlast⟩ := h
  ⟨run, cls, last, hs.grow hg, hrun.grow hg.clauses, hcls.imp fun _ _ h => h.grow hg,
    rel_imp hlast fun _ _ h => h.grow hg.stmtLists⟩

theorem HasFunction.grow {node : FunctionNode} {params : List (String × String)} {returnType : String}
    {body : List StmtId} (h : b.HasFunction node params returnType body) (hg : b.Grows b') :
    b'.HasFunction node params returnType body :=
  ⟨mem_of_begins hg.functions h.mem, h.params.imp fun _ _ h => h.grow hg, h.returnType.grow hg,
    h.body.grow hg.stmtLists⟩

theorem HasMember.fits {field : String × String} {m : Member} (h : b.HasMember field m) : m.Fits b :=
  ⟨h.2.lt, h.1.lt⟩

end Builder

theorem forall_mem_of_forall₂ {α β : Type} {R : α → β → Prop} {P : β → Prop} {l : List α} {l' : List β}
    (h : List.Forall₂ R l l') (hP : ∀ {x y}, x ∈ l → R x y → P y) : ∀ y ∈ l', P y := by
  induction h with
  | nil => simp
  | cons hxy _ ih =>
    simp only [List.mem_cons, forall_eq_or_imp]
    exact ⟨hP List.mem_cons_self hxy, ih fun hx => hP (List.mem_cons_of_mem _ hx)⟩

attribute [simp] Arena.children Arena.exprNames Arena.ExprWithin Arena.nested Arena.operands Arena.StmtWithin
  Arena.listed TypeNode.elems TypeNode.names ExprNode.types StmtNode.names StmtNode.types

namespace Build

variable {α β : Type} {b : Builder}

/-- From `b`, an operation only adds, leaves a sound builder and makes `post` true of what it gives. -/
structure Makes (x : Build α) (b : Builder) (post : α → Builder → Prop) : Prop where
  grows : b.Grows (x b).2
  sound : (x b).2.Sound
  post : post (x b).1 (x b).2

namespace Makes

variable {x : Build α} {P : α → Builder → Prop}

theorem bind {f : α → Build β} {Q : β → Builder → Prop} (h : x.Makes b P)
    (k : ∀ a b', b.Grows b' → b'.Sound → P a b' → (f a).Makes b' Q) : (x >>= f).Makes b Q :=
  let h' := k _ _ h.grows h.sound h.post
  ⟨h.grows.trans h'.grows, h'.sound, h'.post⟩

theorem map {f : α → β} {Q : β → Builder → Prop} (h : x.Makes b P) (k : ∀ a b', P a b' → Q (f a) b') :
    (f <$> x).Makes b Q := ⟨h.grows, h.sound, k _ _ h.post⟩

theorem pure {a : α} (hb : b.Sound) (h : P a b) : (Pure.pure a : Build α).Makes b P := ⟨.refl b, hb, h⟩

theorem get_bind {f : Builder → Build α} (h : (f b).Makes b P) : (get >>= f).Makes b P :=
  ⟨h.grows, h.sound, h.post⟩

theorem imp {Q : α → Builder → Prop} (h : x.Makes b P) (k : ∀ a b', b.Grows b' → P a b' → Q a b') :
    x.Makes b Q := ⟨h.grows, h.sound, k _ _ h.grows h.post⟩

end Makes

/-! ### Names, spans and types -/

theorem grows_name (text : String) (b : Builder) : b.Grows (name text b).2 where
  texts := by
    show b.names.texts.toList <+: (b.names.intern text).2.texts.toList
    cases h : b.names.index[text]? with
    | some n => simp [Interner.intern_of_index_eq_some h]
    | none =>
      rw [(Interner.intern_of_index_eq_none h).2]
      exact begins_push _ _
  __ := Builder.Grows.refl b

theorem name_makes (hb : b.Sound) (text : String) : (name text).Makes b fun n b' => b'.Spells n text where
  grows := grows_name text b
  sound := hb.extend (grows_name text b) (Builder.soundFrom_of_same rfl rfl rfl rfl rfl)
  post := by
    show (b.names.intern text).2.texts[(b.names.intern text).1.index]? = some text
    cases h : b.names.index[text]? with
    | some n =>
      rw [Interner.intern_of_index_eq_some h]
      exact b.names.index_iff.1 h
    | none =>
      rw [(Interner.intern_of_index_eq_none h).1, (Interner.intern_of_index_eq_none h).2]
      exact Array.getElem?_push_size

theorem span_makes (hb : b.Sound) : span.Makes b fun _ _ => True where
  grows := { Builder.Grows.refl b with }
  sound := hb.extend { Builder.Grows.refl b with } (Builder.soundFrom_of_same rfl rfl rfl rfl rfl)
  post := trivial

/-- A new type at the end of its table. -/
theorem addType_makes (hb : b.Sound) {node : TypeNode} (hfits : node.Fits b b.draft.arena.types.size) :
    (onArena (·.addType node)).Makes b fun t b' => b'.draft.arena.types[t.index]? = some node := by
  have hg : b.Grows (onArena (·.addType node) b).2 :=
    { Builder.Grows.refl b with types := begins_push _ _ }
  refine ⟨hg, hb.extend hg ?_, Array.getElem?_push_size⟩
  constructor
  · exact .push (hg.typeFits hfits)
  all_goals exact .behind _ _

theorem typeExpr_makes (hb : b.Sound) (type : TypeExpr) :
    (typeExpr type).Makes b fun t b' => b'.Writes t type := by
  induction type generalizing b with
  | unit => exact (addType_makes hb ⟨by simp, by simp⟩).imp fun _ _ _ h => .unit h
  | named text =>
    refine (name_makes hb text).bind fun n b₁ _ hb₁ hn => ?_
    have hfits : (TypeNode.named n).Fits b₁ b₁.draft.arena.types.size :=
      ⟨by simp, by simpa [Builder.Knows] using hn.lt⟩
    exact (addType_makes hb₁ hfits).imp fun _ _ hg h => .named h (hn.grow hg)
  | vector elem ih =>
    refine (ih hb).bind fun t b₁ _ hb₁ ht => ?_
    have hfits : (TypeNode.vector t).Fits b₁ b₁.draft.arena.types.size := ⟨by simpa using ht.lt, by simp⟩
    exact (addType_makes hb₁ hfits).imp fun _ _ hg h => .vector h (ht.grow hg)

theorem type_makes (hb : b.Sound) (text : String) :
    (type text).Makes b fun t b' => b'.Writes t (.ofText text) := typeExpr_makes hb _

/-! ### Nodes and lists -/

theorem addExpr_makes (hb : b.Sound) {node : ExprNode} (s : Span)
    (hfits : node.Fits b b.draft.arena.exprs.size) :
    (onArena (·.addExpr node s)).Makes b fun e b' => b'.HasExpr e node := by
  have hg : b.Grows (onArena (·.addExpr node s) b).2 :=
    { Builder.Grows.refl b with exprs := begins_push _ _ }
  refine ⟨hg, hb.extend hg ?_, s, Array.getElem?_push_size⟩
  constructor
  case exprs => exact .push (hg.exprFits hfits)
  all_goals exact .behind _ _

theorem addStmt_makes (hb : b.Sound) {node : StmtNode} (s : Span)
    (hfits : node.Fits b b.draft.arena.stmts.size) :
    (onArena (·.addStmt node s)).Makes b fun e b' => b'.HasStmt e node := by
  have hg : b.Grows (onArena (·.addStmt node s) b).2 :=
    { Builder.Grows.refl b with stmts := begins_push _ _ }
  refine ⟨hg, hb.extend hg ?_, s, Array.getElem?_push_size⟩
  constructor
  case stmts => exact .push (hg.stmtFits hfits)
  all_goals exact .behind _ _

theorem expr_makes (hb : b.Sound) {node : ExprNode} (hfits : node.Fits b b.draft.arena.exprs.size) :
    (expr node).Makes b fun e b' => b'.HasExpr e node :=
  (span_makes hb).bind fun s _ hg hb₁ _ => addExpr_makes hb₁ s ((hg.exprFits hfits).le hg.exprs_le)

theorem stmt_makes (hb : b.Sound) {node : StmtNode} (hfits : node.Fits b b.draft.arena.stmts.size) :
    (stmt node).Makes b fun s b' => b'.HasStmt s node :=
  (span_makes hb).bind fun s _ hg hb₁ _ => addStmt_makes hb₁ s ((hg.stmtFits hfits).le hg.stmts_le)

theorem exprList_makes (hb : b.Sound) (items : List ExprId) :
    (onArena (·.addExprList items)).Makes b fun r b' => r.Reads b'.draft.arena.exprLists items := by
  have hg : b.Grows (onArena (·.addExprList items) b).2 :=
    { Builder.Grows.refl b with exprLists := begins_append _ _ }
  exact ⟨hg, hb.extend hg (Builder.soundFrom_of_same rfl rfl rfl rfl rfl), Run.reads_append _ _⟩

theorem stmtList_makes (hb : b.Sound) (items : List StmtId) :
    (stmtList items).Makes b fun r b' => r.Reads b'.draft.arena.stmtLists items := by
  have hg : b.Grows (onArena (·.addStmtList items) b).2 :=
    { Builder.Grows.refl b with stmtLists := begins_append _ _ }
  exact ⟨hg, hb.extend hg (Builder.soundFrom_of_same rfl rfl rfl rfl rfl), Run.reads_append _ _⟩

theorem addFieldInits_makes (hb : b.Sound) (items : List FieldInit) :
    (onArena (·.addFieldInits items)).Makes b fun r b' => r.Reads b'.draft.arena.fieldInits items := by
  have hg : b.Grows (onArena (·.addFieldInits items) b).2 :=
    { Builder.Grows.refl b with fieldInits := begins_append _ _ }
  exact ⟨hg, hb.extend hg (Builder.soundFrom_of_same rfl rfl rfl rfl rfl), Run.reads_append _ _⟩

theorem addClauses_makes (hb : b.Sound) (items : List Clause) :
    (onArena (·.addClauses items)).Makes b fun r b' => r.Reads b'.draft.arena.clauses items := by
  have hg : b.Grows (onArena (·.addClauses items) b).2 :=
    { Builder.Grows.refl b with clauses := begins_append _ _ }
  exact ⟨hg, hb.extend hg (Builder.soundFrom_of_same rfl rfl rfl rfl rfl), Run.reads_append _ _⟩

theorem addStruct_makes (hb : b.Sound) {node : StructNode} (hfits : node.Fits b) :
    Makes (modify fun b => { b with draft := { b.draft with structs := b.draft.structs.push node } }) b
      fun _ b' => node ∈ b'.draft.structs := by
  have hg : b.Grows { b with draft := { b.draft with structs := b.draft.structs.push node } } :=
    { Builder.Grows.refl b with structs := begins_push _ _ }
  refine ⟨hg, hb.extend hg ?_, Array.mem_push_self⟩
  constructor
  case structs => exact .push (hg.structFits hfits)
  all_goals exact .behind _ _

theorem addFunction_makes (hb : b.Sound) {node : FunctionNode} (hfits : node.Fits b) :
    Makes (modify fun b => { b with draft := { b.draft with functions := b.draft.functions.push node } }) b
      fun _ b' => node ∈ b'.draft.functions := by
  have hg : b.Grows { b with draft := { b.draft with functions := b.draft.functions.push node } } :=
    { Builder.Grows.refl b with functions := begins_push _ _ }
  refine ⟨hg, hb.extend hg ?_, Array.mem_push_self⟩
  constructor
  case functions => exact .push (hg.functionFits hfits)
  all_goals exact .behind _ _

/-! ### Composed expressions -/

/-- An expression with a new or known name in it. -/
theorem named_makes (hb : b.Sound) (text : String) {node : Name → ExprNode}
    (hfits : ∀ n b', b.Grows b' → b'.Knows n → (node n).Fits b' b'.draft.arena.exprs.size) :
    Makes (do expr (node (← name text))) b fun e b' => ∃ n, b'.HasExpr e (node n) ∧ b'.Spells n text := by
  refine (name_makes hb text).bind fun n b₁ hg₁ hb₁ hn => ?_
  exact (expr_makes hb₁ (hfits n b₁ hg₁ hn.lt)).imp fun _ _ hg h => ⟨n, h, hn.grow hg⟩

/-- An expression with a written type in it. -/
theorem typed_makes (hb : b.Sound) (text : String) {node : TypeId → ExprNode}
    (hfits : ∀ t b', b.Grows b' → t.index < b'.draft.arena.types.size →
      (node t).Fits b' b'.draft.arena.exprs.size) :
    Makes (do expr (node (← type text))) b fun e b' => ∃ t, b'.HasExpr e (node t) ∧
      b'.Writes t (.ofText text) := by
  refine (type_makes hb text).bind fun t b₁ hg₁ hb₁ ht => ?_
  exact (expr_makes hb₁ (hfits t b₁ hg₁ ht.lt)).imp fun _ _ hg h => ⟨t, h, ht.grow hg⟩

theorem ident_makes (hb : b.Sound) (text : String) :
    (ident text).Makes b fun e b' => ∃ n, b'.HasExpr e (.ident n) ∧ b'.Spells n text :=
  named_makes hb text fun n _ _ hn => ⟨trivial, by simp, by simpa using hn, by simp⟩

theorem negInt_makes (hb : b.Sound) (value : UInt64) :
    (negInt value).Makes b fun e b' => ∃ operand, b'.HasExpr e (.unary .neg operand) ∧
      b'.HasExpr operand (.int value) := by
  have hint : (ExprNode.int value).Fits b b.draft.arena.exprs.size := ⟨trivial, by simp, by simp, by simp⟩
  refine (expr_makes hb hint).bind fun operand b₁ _ hb₁ hoperand => ?_
  have hneg : (ExprNode.unary .neg operand).Fits b₁ b₁.draft.arena.exprs.size :=
    ⟨trivial, by simpa using hoperand.lt, by simp, by simp⟩
  exact (expr_makes hb₁ hneg).imp fun _ _ hg h => ⟨operand, h, hoperand.grow hg⟩

theorem call_makes (hb : b.Sound) (callee : String) {args : List ExprId}
    (hargs : ∀ e ∈ args, e.index < b.draft.arena.exprs.size) :
    (call callee args).Makes b fun e b' => ∃ n run, b'.HasExpr e (.call n run) ∧ b'.Spells n callee ∧
      run.Reads b'.draft.arena.exprLists args := by
  refine (name_makes hb callee).bind fun n b₁ hg₁ hb₁ hn => ?_
  refine (exprList_makes hb₁ args).bind fun run b₂ hg₂ hb₂ hrun => ?_
  have hn := hn.grow hg₂
  have hargs := (hg₁.trans hg₂).exprs_lt hargs
  have hfits : (ExprNode.call n run).Fits b₂ b₂.draft.arena.exprs.size :=
    ⟨hrun.within, by simpa [hrun.slice] using hargs, by simpa [Builder.Knows] using hn.lt, by simp⟩
  exact (expr_makes hb₂ hfits).imp fun _ _ hg h => ⟨n, run, h, hn.grow hg, hrun.grow hg.exprLists⟩

theorem methodCall_makes (hb : b.Sound) {receiver : ExprId} (method : String) {args : List ExprId}
    (hparts : ∀ e ∈ receiver :: args, e.index < b.draft.arena.exprs.size) :
    (methodCall receiver method args).Makes b fun e b' => ∃ n run,
      b'.HasExpr e (.methodCall receiver n run) ∧ b'.Spells n method ∧
      run.Reads b'.draft.arena.exprLists args := by
  refine (name_makes hb method).bind fun n b₁ hg₁ hb₁ hn => ?_
  refine (exprList_makes hb₁ args).bind fun run b₂ hg₂ hb₂ hrun => ?_
  have hn := hn.grow hg₂
  have hparts := (hg₁.trans hg₂).exprs_lt hparts
  have hfits : (ExprNode.methodCall receiver n run).Fits b₂ b₂.draft.arena.exprs.size :=
    ⟨hrun.within, by simpa [hrun.slice] using hparts, by simpa [Builder.Knows] using hn.lt, by simp⟩
  exact (expr_makes hb₂ hfits).imp fun _ _ hg h => ⟨n, run, h, hn.grow hg, hrun.grow hg.exprLists⟩

theorem fieldInits_makes (hb : b.Sound) {fields : List (String × ExprId)}
    (hvalues : ∀ f ∈ fields, f.2.index < b.draft.arena.exprs.size) :
    (fieldInits fields).Makes b fun inits b' => List.Forall₂ b'.HasInit fields inits := by
  induction fields generalizing b with
  | nil => exact .pure hb .nil
  | cons field rest ih =>
    obtain ⟨text, value⟩ := field
    refine (name_makes hb text).bind fun n b₁ hg₁ hb₁ hn => ?_
    have hvalues : ∀ f ∈ (text, value) :: rest, f.2.index < b₁.draft.arena.exprs.size := fun f hf =>
      Nat.lt_of_lt_of_le (hvalues f hf) hg₁.exprs_le
    have hinit : b₁.HasInit (text, value) ⟨n, value, b₁.draft.arena.exprSpan value⟩ := by
      have hlt : value.index < b₁.draft.arena.exprs.size := hvalues _ List.mem_cons_self
      have hvalue := Array.getElem?_eq_getElem hlt
      refine ⟨hn, rfl, b₁.draft.arena.exprs[value.index].node, ?_⟩
      rw [hvalue, Arena.exprSpan, hvalue]
      rfl
    refine .get_bind ((ih hb₁ fun f hf => hvalues f (List.mem_cons_of_mem _ hf)).bind
      fun inits b₂ hg₂ hb₂ hrest => .pure hb₂ ?_)
    exact .cons (hinit.grow hg₂) hrest

theorem record_makes (hb : b.Sound) (text : String) {fields : List (String × ExprId)}
    (hvalues : ∀ f ∈ fields, f.2.index < b.draft.arena.exprs.size) :
    (record text fields).Makes b fun e b' => ∃ n run inits, b'.HasExpr e (.record n run) ∧ b'.Spells n text ∧
      run.Reads b'.draft.arena.fieldInits inits ∧ List.Forall₂ b'.HasInit fields inits := by
  refine (name_makes hb text).bind fun n b₁ hg₁ hb₁ hn => ?_
  refine (fieldInits_makes hb₁ fun f hf => Nat.lt_of_lt_of_le (hvalues f hf) hg₁.exprs_le).bind
    fun inits b₂ hg₂ hb₂ hinits => ?_
  refine (addFieldInits_makes hb₂ inits).bind fun run b₃ hg₃ hb₃ hrun => ?_
  have hn := hn.grow (hg₂.trans hg₃)
  have hinits := hinits.imp fun _ _ h => h.grow hg₃
  have hfits : (ExprNode.record n run).Fits b₃ b₃.draft.arena.exprs.size := by
    refine ⟨hrun.within, ?_, ?_, by simp⟩
    · simp only [Arena.children, hrun.slice, List.forall_mem_map]
      exact forall_mem_of_forall₂ hinits fun _ ⟨_, hvalue, _, hnode⟩ =>
        hvalue ▸ (Array.getElem?_eq_some_iff.1 hnode).1
    · simp only [Arena.exprNames, hrun.slice, List.mem_cons, forall_eq_or_imp, List.forall_mem_map]
      exact ⟨hn.lt, forall_mem_of_forall₂ hinits fun _ h => h.1.lt⟩
  exact (expr_makes hb₃ hfits).imp fun _ _ hg h =>
    ⟨n, run, inits, h, hn.grow hg, hrun.grow hg.fieldInits, hinits.imp fun _ _ h => h.grow hg⟩

/-! ### Composed statements -/

/-- An operation on a part that may be missing. -/
def optional (x : α → Build β) : Option α → Build (Option β)
  | none => pure none
  | some a => some <$> x a

theorem optional_makes {x : α → Build β} {R : α → β → Builder → Prop} (hb : b.Sound) (part : Option α)
    (h : ∀ a, (x a).Makes b (R a)) :
    (optional x part).Makes b fun given b' => Option.Rel (fun a r => R a r b') part given := by
  cases part with
  | none => exact .pure hb .none
  | some a => exact (h a).map fun _ _ h => .some h

theorem var_eq (text : String) (declared : Option String) (init : ExprId) :
    var text declared init = (do
      let n ← name text
      let t ← optional type declared
      stmt (.var n t init)) := by
  cases declared <;> rfl

theorem ifChain_eq (clauses : List (ExprId × List StmtId)) (otherwise : Option (List StmtId)) :
    ifChain clauses otherwise = (do
      let cls ← clauseList clauses
      let run ← onArena (·.addClauses cls)
      let last ← optional stmtList otherwise
      stmt (.cond run last)) := by
  cases otherwise <;> rfl

theorem var_makes (hb : b.Sound) (text : String) (declared : Option String) {init : ExprId}
    (hinit : init.index < b.draft.arena.exprs.size) :
    (var text declared init).Makes b fun s b' => ∃ n t, b'.HasStmt s (.var n t init) ∧ b'.Spells n text ∧
      Option.Rel (fun written id => b'.Writes id (.ofText written)) declared t := by
  rw [var_eq]
  refine (name_makes hb text).bind fun n b₁ hg₁ hb₁ hn => ?_
  refine (optional_makes hb₁ declared (type_makes hb₁)).bind fun t b₂ hg₂ hb₂ ht => ?_
  have hn := hn.grow hg₂
  have hfits : (StmtNode.var n t init).Fits b₂ b₂.draft.arena.stmts.size := by
    refine ⟨trivial, by simp, ?_, by simpa [Builder.Knows] using hn.lt, ?_⟩
    · simpa using Nat.lt_of_lt_of_le hinit (hg₁.trans hg₂).exprs_le
    · cases ht with
      | none => simp
      | some h => simpa using h.lt
  exact (stmt_makes hb₂ hfits).imp fun _ _ hg h =>
    ⟨n, t, h, hn.grow hg, rel_imp ht fun _ _ h => h.grow hg⟩

theorem assignTo_makes (hb : b.Sound) (text : String) {value : ExprId}
    (hvalue : value.index < b.draft.arena.exprs.size) :
    (assignTo text value).Makes b fun s b' => ∃ target n, b'.HasStmt s (.assign target value) ∧
      b'.HasExpr target (.ident n) ∧ b'.Spells n text := by
  refine (ident_makes hb text).bind fun target b₁ hg₁ hb₁ ⟨n, htarget, hn⟩ => ?_
  have hfits : (StmtNode.assign target value).Fits b₁ b₁.draft.arena.stmts.size := by
    refine ⟨trivial, by simp, ?_, by simp, by simp⟩
    simpa using ⟨htarget.lt, Nat.lt_of_lt_of_le hvalue hg₁.exprs_le⟩
  exact (stmt_makes hb₁ hfits).imp fun _ _ hg h => ⟨target, n, h, htarget.grow hg, hn.grow hg⟩

theorem clauseList_makes (hb : b.Sound) (clauses : List (ExprId × List StmtId)) :
    (clauseList clauses).Makes b fun cls b' => List.Forall₂ b'.HasClause clauses cls := by
  induction clauses generalizing b with
  | nil => exact .pure hb .nil
  | cons clause rest ih =>
    refine (stmtList_makes hb clause.2).bind fun run b₁ hg₁ hb₁ hrun => ?_
    refine (ih hb₁).bind fun cls b₂ hg₂ hb₂ hrest => .pure hb₂ ?_
    exact .cons ⟨rfl, hrun.grow hg₂.stmtLists⟩ hrest

theorem ifChain_makes (hb : b.Sound) (clauses : List (ExprId × List StmtId))
    (otherwise : Option (List StmtId)) (hconds : ∀ c ∈ clauses, c.1.index < b.draft.arena.exprs.size)
    (hbodies : ∀ c ∈ clauses, ∀ s ∈ c.2, s.index < b.draft.arena.stmts.size)
    (hother : ∀ body ∈ otherwise, ∀ s ∈ body, s.index < b.draft.arena.stmts.size) :
    (ifChain clauses otherwise).Makes b fun s b' => b'.HasChain s clauses otherwise := by
  rw [ifChain_eq]
  refine (clauseList_makes hb clauses).bind fun cls b₁ hg₁ hb₁ hcls => ?_
  refine (addClauses_makes hb₁ cls).bind fun run b₂ hg₂ hb₂ hrun => ?_
  refine (optional_makes hb₂ otherwise (stmtList_makes hb₂)).bind fun last b₃ hg₃ hb₃ hlast => ?_
  have hcls := hcls.imp fun _ _ h => h.grow (hg₂.trans hg₃)
  have hrun := hrun.grow hg₃.clauses
  have hg := hg₁.trans (hg₂.trans hg₃)
  have hfits : (StmtNode.cond run last).Fits b₃ b₃.draft.arena.stmts.size := by
    refine ⟨⟨hrun.within, ?_, ?_⟩, ?_, ?_, by simp, by simp⟩
    · rw [hrun.slice]
      exact forall_mem_of_forall₂ hcls fun _ h => h.2.within
    · cases hlast with
      | none => simp
      | some h => simpa using h.within
    · have hin : ∀ cl ∈ cls, ∀ s ∈ b₃.draft.arena.listed cl.body, s.index < b₃.draft.arena.stmts.size := by
        refine forall_mem_of_forall₂ (P := fun cl => ∀ s ∈ b₃.draft.arena.listed cl.body, _) hcls ?_
        intro clause cl hclause h s hs
        rw [Arena.listed_of_reads h.2] at hs
        exact hg.stmts_lt (hbodies clause hclause) s hs
      simp only [Arena.nested, hrun.slice, List.mem_append, List.mem_flatMap]
      rintro s (⟨cl, hcl, hs⟩ | ⟨body, hbody, hs⟩)
      · exact hin cl hcl s hs
      · cases hlast with
        | none => cases hbody
        | some h =>
          cases List.mem_singleton.1 hbody
          rw [Arena.listed_of_reads h] at hs
          exact hg.stmts_lt (hother _ rfl) s hs
    · simp only [Arena.operands, hrun.slice, List.forall_mem_map]
      exact forall_mem_of_forall₂ hcls fun hin h =>
        h.1 ▸ Nat.lt_of_lt_of_le (hconds _ hin) hg.exprs_le
  exact (stmt_makes hb₃ hfits).imp fun _ _ hg h => ⟨run, cls, last, h, hrun.grow hg.clauses,
    hcls.imp fun _ _ h => h.grow hg, rel_imp hlast fun _ _ h => h.grow hg.stmtLists⟩

theorem loop_makes (hb : b.Sound) {cond : ExprId} {body : List StmtId}
    (hcond : cond.index < b.draft.arena.exprs.size)
    (hbody : ∀ s ∈ body, s.index < b.draft.arena.stmts.size) :
    (loop cond body).Makes b fun s b' => ∃ run, b'.HasStmt s (.loop cond run) ∧
      run.Reads b'.draft.arena.stmtLists body := by
  refine (stmtList_makes hb body).bind fun run b₁ hg₁ hb₁ hrun => ?_
  have hfits : (StmtNode.loop cond run).Fits b₁ b₁.draft.arena.stmts.size := by
    refine ⟨hrun.within, ?_, by simpa using Nat.lt_of_lt_of_le hcond hg₁.exprs_le, by simp, by simp⟩
    rw [Arena.nested, Arena.listed_of_reads hrun]
    exact hg₁.stmts_lt hbody
  exact (stmt_makes hb₁ hfits).imp fun _ _ hg h => ⟨run, h, hrun.grow hg.stmtLists⟩

theorem block_makes (hb : b.Sound) {body : List StmtId}
    (hbody : ∀ s ∈ body, s.index < b.draft.arena.stmts.size) :
    (block body).Makes b fun s b' => ∃ run, b'.HasStmt s (.block run) ∧
      run.Reads b'.draft.arena.stmtLists body := by
  refine (stmtList_makes hb body).bind fun run b₁ hg₁ hb₁ hrun => ?_
  have hfits : (StmtNode.block run).Fits b₁ b₁.draft.arena.stmts.size := by
    refine ⟨hrun.within, ?_, by simp, by simp, by simp⟩
    rw [Arena.nested, Arena.listed_of_reads hrun]
    exact hg₁.stmts_lt hbody
  exact (stmt_makes hb₁ hfits).imp fun _ _ hg h => ⟨run, h, hrun.grow hg.stmtLists⟩

/-! ### Definitions -/

theorem members_makes (hb : b.Sound) (fields : List (String × String)) :
    (members fields).Makes b fun ms b' => List.Forall₂ b'.HasMember fields ms := by
  induction fields generalizing b with
  | nil => exact .pure hb .nil
  | cons field rest ih =>
    refine (name_makes hb field.1).bind fun n b₁ _ hb₁ hn => ?_
    refine (type_makes hb₁ field.2).bind fun t b₂ hg₂ hb₂ ht => ?_
    refine (span_makes hb₂).bind fun s b₃ hg₃ hb₃ _ => ?_
    refine (ih hb₃).bind fun ms b₄ hg₄ hb₄ hrest => .pure hb₄ ?_
    exact .cons ⟨hn.grow (hg₂.trans (hg₃.trans hg₄)), ht.grow (hg₃.trans hg₄)⟩ hrest

theorem struct_makes (hb : b.Sound) (text : String) (fields : List (String × String)) :
    (struct text fields).Makes b fun _ b' => ∃ node ∈ b'.draft.structs, b'.Spells node.name text ∧
      List.Forall₂ b'.HasMember fields node.fields.toList := by
  refine (name_makes hb text).bind fun n b₁ _ hb₁ hn => ?_
  refine (members_makes hb₁ fields).bind fun ms b₂ hg₂ hb₂ hms => ?_
  refine (span_makes hb₂).bind fun s b₃ hg₃ hb₃ _ => ?_
  have hn := hn.grow (hg₂.trans hg₃)
  have hms := hms.imp fun _ _ h => h.grow hg₃
  have hfits : StructNode.Fits b₃ ⟨n, ms.toArray, s⟩ :=
    ⟨hn.lt, forall_mem_of_forall₂ hms fun _ h => h.fits⟩
  exact (addStruct_makes hb₃ hfits).imp fun _ _ hg h =>
    ⟨_, h, hn.grow hg, hms.imp fun _ _ h => h.grow hg⟩

theorem define_makes (hb : b.Sound) {symbol : Name} (receiver : Option Receiver)
    (params : List (String × String)) (returnType : String) {body : List StmtId}
    (hsymbol : b.Knows symbol)
    (hreceiver : ∀ r ∈ receiver, r.type.index < b.draft.arena.types.size ∧ b.Knows r.method)
    (hbody : ∀ s ∈ body, s.index < b.draft.arena.stmts.size) :
    (define symbol receiver params returnType body).Makes b fun s b' => ∃ node,
      b'.HasFunction node params returnType body ∧ node.name = symbol ∧ node.receiver = receiver ∧
      node.span = s := by
  refine (members_makes hb params).bind fun ms b₁ hg₁ hb₁ hms => ?_
  refine (type_makes hb₁ returnType).bind fun t b₂ hg₂ hb₂ ht => ?_
  refine (stmtList_makes hb₂ body).bind fun run b₃ hg₃ hb₃ hrun => ?_
  refine (span_makes hb₃).bind fun s b₄ hg₄ hb₄ _ => ?_
  have hg := hg₁.trans (hg₂.trans (hg₃.trans hg₄))
  have hms := hms.imp fun _ _ h => h.grow (hg₂.trans (hg₃.trans hg₄))
  have ht := ht.grow (hg₃.trans hg₄)
  have hrun := hrun.grow hg₄.stmtLists
  have hfits : FunctionNode.Fits b₄ ⟨symbol, receiver, ms.toArray, t, run, s⟩ := by
    refine ⟨hg.knows hsymbol, fun r hr => ?_, forall_mem_of_forall₂ hms fun _ h => h.fits, ht.lt,
      hrun.within, ?_⟩
    · exact ⟨Nat.lt_of_lt_of_le (hreceiver r hr).1 hg.types_le, hg.knows (hreceiver r hr).2⟩
    · rw [Arena.listed_of_reads hrun]
      exact hg.stmts_lt hbody
  refine (addFunction_makes hb₄ hfits).bind fun _ b₅ hg₅ hb₅ hmem => .pure hb₅ ?_
  exact ⟨_, ⟨hmem, hms.imp fun _ _ h => h.grow hg₅, ht.grow hg₅, hrun.grow hg₅.stmtLists⟩, rfl, rfl, rfl⟩

theorem function_makes (hb : b.Sound) (text : String) (params : List (String × String))
    (returnType : String) {body : List StmtId} (hbody : ∀ s ∈ body, s.index < b.draft.arena.stmts.size) :
    (function text params returnType body).Makes b fun s b' => ∃ node,
      b'.HasFunction node params returnType body ∧ b'.Spells node.name text ∧ node.receiver = none ∧
      node.span = s := by
  refine (name_makes hb text).bind fun n b₁ hg₁ hb₁ hn => ?_
  refine (define_makes hb₁ none params returnType hn.lt (by simp)
    (hg₁.stmts_lt hbody)).imp fun s b₂ hg₂ ⟨node, hnode, hname, hrest⟩ => ?_
  exact ⟨node, hnode, hname ▸ hn.grow hg₂, hrest⟩

theorem method_makes (hb : b.Sound) (receiver text : String) (params : List (String × String))
    (returnType : String) {body : List StmtId} (hbody : ∀ s ∈ body, s.index < b.draft.arena.stmts.size) :
    (method receiver text params returnType body).Makes b fun s b' => ∃ node t n,
      b'.HasFunction node params returnType body ∧ b'.Spells node.name (receiver ++ "." ++ text) ∧
      node.receiver = some ⟨t, n⟩ ∧ b'.Writes t (.ofText receiver) ∧ b'.Spells n text ∧ node.span = s := by
  refine (name_makes hb (receiver ++ "." ++ text)).bind fun symbol b₁ hg₁ hb₁ hsymbol => ?_
  refine (type_makes hb₁ receiver).bind fun t b₂ hg₂ hb₂ ht => ?_
  refine (name_makes hb₂ text).bind fun n b₃ hg₃ hb₃ hn => ?_
  have hg := hg₁.trans (hg₂.trans hg₃)
  have hsymbol := hsymbol.grow (hg₂.trans hg₃)
  have ht := ht.grow hg₃
  have hreceiver : ∀ r ∈ some (Receiver.mk t n), r.type.index < b₃.draft.arena.types.size ∧
      b₃.Knows r.method := by
    rintro _ ⟨⟩
    exact ⟨ht.lt, hn.lt⟩
  refine (define_makes hb₃ _ params returnType hsymbol.lt hreceiver
    (hg.stmts_lt hbody)).imp fun s b₄ hg₄ ⟨node, hnode, hname, hrec, hspan⟩ => ?_
  exact ⟨node, t, n, hnode, hname ▸ hsymbol.grow hg₄, hrec, ht.grow hg₄, hn.grow hg₄, hspan⟩

end Build

end BlockForge.Source
