import BlockForge.Proofs.Source.Calls
import BlockForge.Proofs.Source.TypeText

/-!
# Numbers as trees

In a sound builder every number stands for a finite tree, the node over the trees of the numbers in it, and goes on
to stand for the same tree in every later builder. So a recursion that only asks for the parts of what it is at comes
to an end, at most as many levels deep as its number says.
-/

namespace BlockForge.Source

/-! ### Tables of results -/

/-- The results of all entries, each over those of the entries before it. -/
def results {α β : Type} (f : Array β → α → β) (table : Array α) : Array β :=
  table.foldl (fun built x => built.push (f built x)) #[]

section Results

variable {α β : Type} (f : Array β → α → β)

theorem results_push (table : Array α) (x : α) :
    results f (table.push x) = (results f table).push (f (results f table) x) := by
  simp [results]

theorem size_results (table : Array α) : (results f table).size = table.size := by
  refine Array.foldl_induction (fun n (built : Array β) => built.size = n) rfl fun n built h => ?_
  simp [h]

/-- The result of an entry is over the results of those before it. -/
theorem getElem?_results {table : Array α} {i : Nat} {x : α} (h : table[i]? = some x) :
    ∃ built, (∀ j < i, built[j]? = (results f table)[j]?) ∧ (results f table)[i]? = some (f built x) := by
  obtain ⟨l, rfl⟩ : ∃ l : List α, l.toArray = table := ⟨table.toList, Array.toArray_toList⟩
  induction l using List.reverseRecOn with
  | nil => simp at h
  | append_singleton l last ih =>
    have hsize : (results f l.toArray).size = l.length := by simp [size_results]
    rw [← List.push_toArray] at h ⊢
    rw [results_push]
    rcases Nat.lt_trichotomy i l.length with hi | rfl | hi
    · rw [Array.getElem?_push, if_neg (by simpa using hi.ne)] at h
      obtain ⟨built, hbuilt, hi'⟩ := ih h
      have hold : ∀ j < l.length, ((results f l.toArray).push (f (results f l.toArray) last))[j]? =
          (results f l.toArray)[j]? := fun j hj => by
        rw [Array.getElem?_push, if_neg (by omega)]
      exact ⟨built, fun j hj => (hbuilt j hj).trans (hold j (hj.trans hi)).symm, (hold i hi).trans hi'⟩
    · obtain rfl : last = x := by simpa using h
      refine ⟨results f l.toArray, fun j hj => ?_, ?_⟩
      · rw [Array.getElem?_push, if_neg (by omega)]
      · rw [← hsize, Array.getElem?_push_size]
    · have := (Array.getElem?_eq_some_iff.1 h).1
      simp at this
      omega

variable {f}

/-- Where only earlier results count, an entry has its result over the whole table. -/
theorem results_unfold {table : Array α} {i : Nat} {x : α} (hx : table[i]? = some x)
    (hlocal : ∀ built built', (∀ j < i, built'[j]? = built[j]?) → f built' x = f built x) :
    (results f table)[i]? = some (f (results f table) x) := by
  obtain ⟨built, hbuilt, hi⟩ := getElem?_results f hx
  rw [hi, hlocal _ _ hbuilt]

/-- Where only earlier results count, a longer table has the same ones. -/
theorem results_eq {f' : Array β → α → β} {table table' : Array α} (hp : table.toList <+: table'.toList)
    (hlocal : ∀ (i : Nat) (x : α) (built built' : Array β), table[i]? = some x →
      (∀ j < i, built'[j]? = built[j]?) → f' built' x = f built x) (i : Nat) (hi : i < table.size) :
    (results f' table')[i]? = (results f table)[i]? := by
  induction i using Nat.strong_induction_on with
  | _ i ih =>
    have hx := Array.getElem?_eq_getElem hi
    obtain ⟨built, hbuilt, hold⟩ := getElem?_results f hx
    obtain ⟨built', hbuilt', hnew⟩ := getElem?_results f' (getElem?_of_begins hp hx)
    rw [hold, hnew]
    refine congrArg some (hlocal i _ built built' hx fun j hj => ?_)
    rw [hbuilt' j hj, hbuilt j hj, ih j hj (hj.trans hi)]

end Results

/-! ### The tree of one node -/

namespace Builder

variable {b b' : Builder} {bound : Nat}

def typeTrees (b : Builder) : Array TypeExpr := Draft.typeTrees b.names b.draft.arena.types

/-- What the trees of expressions and statements are built from. -/
def context (b : Builder) : Draft.ExprContext := ⟨b.names, b.draft.arena, b.typeTrees⟩

def exprTrees (b : Builder) : Array Expr := b.context.exprs

def stmtTrees (b : Builder) : Array Stmt := b.context.stmts b.exprTrees

theorem typeTrees_eq (b : Builder) :
    b.typeTrees = results (Draft.typeTree b.names) b.draft.arena.types := by
  unfold typeTrees Draft.typeTrees results
  congr

/-- The bodies of the program are made of these trees. -/
theorem program_functions (b : Builder) :
    b.program.functions = b.draft.functions.toList.map (b.context.function b.stmtTrees) := rfl

theorem Grows.lookup_eq (hg : b.Grows b') {n : Name} (h : b.Knows n) :
    b'.names.lookup n = b.names.lookup n := by
  have hn : b.Spells n b.names.texts[n.index] := Array.getElem?_eq_getElem h
  rw [hn.lookup, (hn.grow hg).lookup]

theorem Grows.typeTree_eq (hg : b.Grows b') {node : TypeNode} {built built' : Array TypeExpr}
    (hfits : node.Fits b bound) (hparts : ∀ i < bound, built'[i]? = built[i]?) :
    Draft.typeTree b'.names built' node = Draft.typeTree b.names built node := by
  cases node with
  | unit => rfl
  | named n => exact congrArg TypeExpr.named (hg.lookup_eq (hfits.names n (by simp)))
  | vector elem =>
    have helem := hparts elem.index (hfits.elems elem (by simp))
    simp only [Draft.typeTree, Array.getD_eq_getD_getElem?, helem]

theorem Grows.args_eq (hg : b.Grows b') {run : Run} {built built' : Array Expr}
    (hwithin : run.Within b.draft.arena.exprLists)
    (hsub : ∀ e ∈ (run.slice b.draft.arena.exprLists).toList,
      built'.getD e.index default = built.getD e.index default) :
    b'.context.args built' run = b.context.args built run := by
  simp only [Draft.ExprContext.args, context, hwithin.slice_eq hg.exprLists]
  exact List.map_congr_left hsub

/-- A node that fits has the same tree in a later builder, over the same trees of its parts. -/
theorem Grows.expr_eq (hg : b.Grows b') {s : Spanned ExprNode} {built built' : Array Expr}
    (hfits : s.node.Fits b bound)
    (htypes : ∀ i < b.draft.arena.types.size, b'.typeTrees[i]? = b.typeTrees[i]?)
    (hparts : ∀ i < bound, built'[i]? = built[i]?) :
    b'.context.expr built' s = b.context.expr built s := by
  have hwithin := hfits.within
  have hsub : ∀ e ∈ b.draft.arena.children s.node, built'.getD e.index default = built.getD e.index default :=
    fun e he => by
      rw [Array.getD_eq_getD_getElem?, Array.getD_eq_getD_getElem?, hparts _ (hfits.children e he)]
  have htype : ∀ t ∈ s.node.types, b'.context.type t = b.context.type t := fun t ht => by
    simp only [Draft.ExprContext.type, context, Array.getD_eq_getD_getElem?, htypes _ (hfits.types t ht)]
  have hname : ∀ n ∈ b.draft.arena.exprNames s.node,
      b'.context.names.lookup n = b.context.names.lookup n := fun n hn => hg.lookup_eq (hfits.names n hn)
  obtain ⟨node, span⟩ := s
  cases node with
  | int _ | float _ | bool _ | char _ | unit | null => rfl
  | str n | ident n => simp only [Draft.ExprContext.expr, hname n (by simp)]
  | binary op l r => simp only [Draft.ExprContext.expr, hsub l (by simp), hsub r (by simp)]
  | unary op e => simp only [Draft.ExprContext.expr, hsub e (by simp)]
  | cast e t => simp only [Draft.ExprContext.expr, hsub e (by simp), htype t (by simp)]
  | call f args =>
    have hargs := hg.args_eq hwithin fun e he => hsub e (by simpa using he)
    simp only [Draft.ExprContext.expr, hargs, hname f (by simp)]
  | methodCall r m args =>
    have hargs := hg.args_eq hwithin fun e he => hsub e (List.mem_cons_of_mem r he)
    simp only [Draft.ExprContext.expr, hsub r (by simp), hargs, hname m (by simp)]
  | field r n => simp only [Draft.ExprContext.expr, hsub r (by simp), hname n (by simp)]
  | index r i => simp only [Draft.ExprContext.expr, hsub r (by simp), hsub i (by simp)]
  | record n inits =>
    have hentries : ∀ i ∈ (inits.slice b.context.arena.fieldInits).toList,
        (b'.context.names.lookup i.name, built'.getD i.value.index default) =
          (b.context.names.lookup i.name, built.getD i.value.index default) := fun i hi => by
      rw [hname _ (List.mem_cons_of_mem n (List.mem_map_of_mem hi)), hsub _ (List.mem_map_of_mem hi)]
    have hslice : inits.slice b'.context.arena.fieldInits = inits.slice b.context.arena.fieldInits :=
      Run.Within.slice_eq hwithin hg.fieldInits
    simp only [Draft.ExprContext.expr, hslice, List.map_congr_left hentries, hname n List.mem_cons_self]
  | vectorNew t => simp only [Draft.ExprContext.expr, htype t (by simp)]

theorem Grows.stmtList_eq (hg : b.Grows b') {run : Run} {built built' : Array Stmt}
    (hwithin : run.Within b.draft.arena.stmtLists)
    (hsub : ∀ s ∈ b.draft.arena.listed run, built'.getD s.index default = built.getD s.index default) :
    b'.context.stmtList built' run = b.context.stmtList built run := by
  simp only [Draft.ExprContext.stmtList, context, hwithin.slice_eq hg.stmtLists]
  exact List.map_congr_left hsub

/-- What a chain of clauses ends in. -/
def lastChain (b : Builder) (built : Array Stmt) : Option Run → Chain
  | none => .done
  | some body => .otherwise (b.context.stmtList built body)

theorem stmt_cond (b : Builder) (exprs : Array Expr) (built : Array Stmt) (span : Span) (clauses : Run)
    (otherwise : Option Run) :
    b.context.stmt exprs built ⟨.cond clauses otherwise, span⟩ = .cond span
      (b.context.chain exprs built (b.lastChain built otherwise)
        (clauses.slice b.context.arena.clauses).toList) := by
  cases otherwise <;> rfl

theorem Grows.lastChain_eq (hg : b.Grows b') {otherwise : Option Run} {built built' : Array Stmt}
    (hwithin : ∀ body ∈ otherwise.toList, body.Within b.draft.arena.stmtLists)
    (hsub : ∀ s ∈ otherwise.toList.flatMap b.draft.arena.listed,
      built'.getD s.index default = built.getD s.index default) :
    b'.lastChain built' otherwise = b.lastChain built otherwise := by
  cases otherwise with
  | none => rfl
  | some body =>
    refine congrArg Chain.otherwise (hg.stmtList_eq (hwithin body (by simp)) fun t ht => hsub t ?_)
    exact List.mem_flatMap.2 ⟨body, by simp, ht⟩

theorem Grows.chain_eq (exprs exprs' : Array Expr) {built built' : Array Stmt} {last last' : Chain}
    {clauses : List Clause} (hlast : last' = last)
    (hconds : ∀ cl ∈ clauses, exprs'.getD cl.cond.index default = exprs.getD cl.cond.index default)
    (hbodies : ∀ cl ∈ clauses, b'.context.stmtList built' cl.body = b.context.stmtList built cl.body) :
    b'.context.chain exprs' built' last' clauses = b.context.chain exprs built last clauses := by
  induction clauses with
  | nil => exact hlast
  | cons cl rest ih =>
    simp only [List.mem_cons, forall_eq_or_imp] at hconds hbodies
    simp only [Draft.ExprContext.chain, hconds.1, hbodies.1, ih hconds.2 hbodies.2]

theorem Grows.stmt_eq (hg : b.Grows b') {s : Spanned StmtNode} {exprs exprs' : Array Expr}
    {built built' : Array Stmt} (hfits : s.node.Fits b bound)
    (htypes : ∀ i < b.draft.arena.types.size, b'.typeTrees[i]? = b.typeTrees[i]?)
    (hexprs : ∀ i < b.draft.arena.exprs.size, exprs'[i]? = exprs[i]?)
    (hparts : ∀ i < bound, built'[i]? = built[i]?) :
    b'.context.stmt exprs' built' s = b.context.stmt exprs built s := by
  have hwithin := hfits.within
  have hinner : ∀ t ∈ b.draft.arena.nested s.node, built'.getD t.index default = built.getD t.index default :=
    fun t ht => by
      rw [Array.getD_eq_getD_getElem?, Array.getD_eq_getD_getElem?, hparts _ (hfits.nested t ht)]
  have hsub : ∀ e ∈ b.draft.arena.operands s.node, exprs'.getD e.index default = exprs.getD e.index default :=
    fun e he => by
      rw [Array.getD_eq_getD_getElem?, Array.getD_eq_getD_getElem?, hexprs _ (hfits.operands e he)]
  obtain ⟨node, span⟩ := s
  cases node with
  | var n t e =>
    have hname : b'.context.names.lookup n = b.context.names.lookup n := hg.lookup_eq (hfits.names n (by simp))
    have htype : t.map b'.context.type = t.map b.context.type := Option.map_congr fun id hid => by
      have hlt := hfits.types id (by simpa using hid)
      simp only [Draft.ExprContext.type, context, Array.getD_eq_getD_getElem?, htypes _ hlt]
    simp only [Draft.ExprContext.stmt, hname, htype, hsub e (by simp)]
  | assign t v => simp only [Draft.ExprContext.stmt, hsub t (by simp), hsub v (by simp)]
  | expr e => simp only [Draft.ExprContext.stmt, hsub e (by simp)]
  | cond clauses otherwise =>
    obtain ⟨hclauses, hbodies, hother⟩ := hwithin
    have hslice : clauses.slice b'.context.arena.clauses = clauses.slice b.context.arena.clauses :=
      hclauses.slice_eq hg.clauses
    have hlast := hg.lastChain_eq hother fun t ht => hinner t (List.mem_append_right _ ht)
    have hchain := Grows.chain_eq exprs exprs' hlast
      (fun cl hcl => hsub cl.cond (List.mem_map_of_mem hcl)) fun cl hcl =>
        hg.stmtList_eq (hbodies cl hcl) fun t ht => hinner t
          (List.mem_append_left _ (List.mem_flatMap.2 ⟨cl, hcl, ht⟩))
    rw [stmt_cond, stmt_cond, hslice]
    exact congrArg (Stmt.cond span) hchain
  | loop e body =>
    have hbody := hg.stmtList_eq hwithin hinner
    simp only [Draft.ExprContext.stmt, hsub e (by simp), hbody]
  | ret v =>
    have hvalue : v.map (fun e => exprs'.getD e.index default) = v.map fun e => exprs.getD e.index default :=
      Option.map_congr fun e he => hsub e (by simpa using he)
    simp only [Draft.ExprContext.stmt, hvalue]
  | brk | cont => rfl
  | block body =>
    have hbody := hg.stmtList_eq hwithin hinner
    simp only [Draft.ExprContext.stmt, hbody]

/-! ### All trees -/

theorem Sound.type (h : b.Sound) {i : Nat} {node : TypeNode} (hi : b.draft.arena.types[i]? = some node) :
    node.Fits b i := h.types i node i.zero_le hi

theorem Sound.expr (h : b.Sound) {i : Nat} {s : Spanned ExprNode}
    (hi : b.draft.arena.exprs[i]? = some s) : s.node.Fits b i := h.exprs i s i.zero_le hi

theorem Sound.stmt (h : b.Sound) {i : Nat} {s : Spanned StmtNode}
    (hi : b.draft.arena.stmts[i]? = some s) : s.node.Fits b i := h.stmts i s i.zero_le hi

theorem Sound.typeTree_unfold (h : b.Sound) {i : Nat} {node : TypeNode}
    (hi : b.draft.arena.types[i]? = some node) :
    b.typeTrees[i]? = some (Draft.typeTree b.names b.typeTrees node) := by
  rw [typeTrees_eq]
  exact results_unfold hi fun _ _ => (Grows.refl b).typeTree_eq (h.type hi)

theorem Sound.exprTree_unfold (h : b.Sound) {i : Nat} {s : Spanned ExprNode}
    (hi : b.draft.arena.exprs[i]? = some s) :
    b.exprTrees[i]? = some (b.context.expr b.exprTrees s) :=
  results_unfold hi fun _ _ => (Grows.refl b).expr_eq (h.expr hi) fun _ _ => rfl

theorem Sound.stmtTree_unfold (h : b.Sound) {i : Nat} {s : Spanned StmtNode}
    (hi : b.draft.arena.stmts[i]? = some s) :
    b.stmtTrees[i]? = some (b.context.stmt b.exprTrees b.stmtTrees s) :=
  results_unfold hi fun _ _ => (Grows.refl b).stmt_eq (h.stmt hi) (fun _ _ => rfl) fun _ _ => rfl

theorem Sound.typeTree_eq (h : b.Sound) (hg : b.Grows b') (i : Nat) (hi : i < b.draft.arena.types.size) :
    b'.typeTrees[i]? = b.typeTrees[i]? := by
  rw [typeTrees_eq, typeTrees_eq]
  refine results_eq hg.types ?_ i hi
  intro _ _ _ _ hx
  exact hg.typeTree_eq (h.type hx)

theorem Sound.exprTree_eq (h : b.Sound) (hg : b.Grows b') (i : Nat) (hi : i < b.draft.arena.exprs.size) :
    b'.exprTrees[i]? = b.exprTrees[i]? := by
  refine results_eq hg.exprs ?_ i hi
  intro _ _ _ _ hx
  exact hg.expr_eq (h.expr hx) (h.typeTree_eq hg)

theorem Sound.stmtTree_eq (h : b.Sound) (hg : b.Grows b') (i : Nat) (hi : i < b.draft.arena.stmts.size) :
    b'.stmtTrees[i]? = b.stmtTrees[i]? := by
  refine results_eq hg.stmts ?_ i hi
  intro _ _ _ _ hx
  exact hg.stmt_eq (h.stmt hx) (h.typeTree_eq hg) (h.exprTree_eq hg)

/-! ### Recursion along the numbers -/

/-- The expressions that the expression of a number is made of. -/
def exprParts (b : Builder) (e : ExprId) : List ExprId :=
  b.draft.arena.exprs[e.index]?.toList.flatMap fun s => b.draft.arena.children s.node

/-- The statements directly inside the statement of a number. -/
def stmtParts (b : Builder) (s : StmtId) : List StmtId :=
  b.draft.arena.stmts[s.index]?.toList.flatMap fun s => b.draft.arena.nested s.node

/-- What the vector of a number is made of. -/
def typeParts (b : Builder) (t : TypeId) : List TypeId :=
  b.draft.arena.types[t.index]?.toList.flatMap TypeNode.elems

end Builder

/-- A recursion, cut off at a depth. -/
def cutOff {ι R : Type} (step : (ι → Option R) → ι → Option R) : Nat → ι → Option R
  | 0, _ => none
  | depth + 1, id => step (cutOff step depth) id

/-- Parts have smaller numbers than what they are parts of; so every recursion that only asks for parts ends, and
goes no deeper than the number it starts from. -/
structure Descends {k : NodeKind} (parts : NodeId k → List (NodeId k)) : Prop where
  smaller : ∀ id, ∀ part ∈ parts id, part.index < id.index
  wellFounded : WellFounded fun part id => part ∈ parts id
  ends {R : Type} (step : (NodeId k → Option R) → NodeId k → Option R)
    (hstep : ∀ calls id, (∀ part ∈ parts id, (calls part).isSome) → (step calls id).isSome)
    (id : NodeId k) : (cutOff step (id.index + 1) id).isSome

theorem isSome_cutOff {ι R : Type} {rank : ι → Nat} {parts : ι → List ι}
    {step : (ι → Option R) → ι → Option R} (hparts : ∀ id, ∀ part ∈ parts id, rank part < rank id)
    (hstep : ∀ calls id, (∀ part ∈ parts id, (calls part).isSome) → (step calls id).isSome) (depth : Nat)
    (id : ι) (h : rank id < depth) : (cutOff step depth id).isSome := by
  induction depth generalizing id with
  | zero => exact absurd h (Nat.not_lt_zero _)
  | succ depth ih =>
    refine hstep _ id fun part hpart => ih part ?_
    exact Nat.lt_of_lt_of_le (hparts id part hpart) (Nat.le_of_lt_succ h)

theorem descends_of_smaller {k : NodeKind} {parts : NodeId k → List (NodeId k)}
    (h : ∀ id, ∀ part ∈ parts id, part.index < id.index) : Descends parts where
  smaller := h
  wellFounded := Subrelation.wf (fun {part id} hpart => h id part hpart) (measure NodeId.index).wf
  ends _ hstep id := isSome_cutOff h hstep (id.index + 1) id (Nat.lt_succ_self _)

namespace Builder.Sound

variable {b : Builder}

theorem descends_exprParts (h : b.Sound) : Descends b.exprParts := descends_of_smaller fun e part hpart => by
  obtain ⟨s, hs, hpart⟩ := List.mem_flatMap.1 hpart
  exact (h.expr (Option.mem_toList.1 hs)).children part hpart

theorem descends_stmtParts (h : b.Sound) : Descends b.stmtParts := descends_of_smaller fun t part hpart => by
  obtain ⟨s, hs, hpart⟩ := List.mem_flatMap.1 hpart
  exact (h.stmt (Option.mem_toList.1 hs)).nested part hpart

theorem descends_typeParts (h : b.Sound) : Descends b.typeParts := descends_of_smaller fun t part hpart => by
  obtain ⟨node, hnode, hpart⟩ := List.mem_flatMap.1 hpart
  exact (h.type (Option.mem_toList.1 hnode)).elems part hpart

end Builder.Sound

/-- Every number stands for the tree of its node, over the trees of the numbers in it. -/
structure Builder.Unfolds (b : Builder) : Prop where
  types : ∀ (i : Nat) (node : TypeNode), b.draft.arena.types[i]? = some node →
    b.typeTrees[i]? = some (Draft.typeTree b.names b.typeTrees node)
  exprs : ∀ (i : Nat) (s : Spanned ExprNode), b.draft.arena.exprs[i]? = some s →
    b.exprTrees[i]? = some (b.context.expr b.exprTrees s)
  stmts : ∀ (i : Nat) (s : Spanned StmtNode), b.draft.arena.stmts[i]? = some s →
    b.stmtTrees[i]? = some (b.context.stmt b.exprTrees b.stmtTrees s)

/-- The numbers of a builder stand for the same trees in a later one. -/
structure Builder.SameTrees (b b' : Builder) : Prop where
  types : ∀ i < b.draft.arena.types.size, b'.typeTrees[i]? = b.typeTrees[i]?
  exprs : ∀ i < b.draft.arena.exprs.size, b'.exprTrees[i]? = b.exprTrees[i]?
  stmts : ∀ i < b.draft.arena.stmts.size, b'.stmtTrees[i]? = b.stmtTrees[i]?

theorem Builder.Sound.unfolds {b : Builder} (h : b.Sound) : b.Unfolds :=
  ⟨fun _ _ => h.typeTree_unfold, fun _ _ => h.exprTree_unfold, fun _ _ => h.stmtTree_unfold⟩

theorem Builder.Sound.sameTrees {b b' : Builder} (h : b.Sound) (hg : b.Grows b') : b.SameTrees b' :=
  ⟨h.typeTree_eq hg, h.exprTree_eq hg, h.stmtTree_eq hg⟩

namespace Built

/-- What calls on earlier results build is made of parts with smaller numbers, and so unfolds to finite trees; and
what a call has given is, right after it and ever after, the node and the lists that the call was made with. -/
theorem descends_and_stays {names : Interner} {done : List Done} {b : Builder} (h : Built names done b) :
    (Descends b.exprParts ∧ Descends b.stmtParts ∧ Descends b.typeParts) ∧ b.Sound ∧ b.Unfolds ∧
      ∀ d ∈ done, d.call.Denotes d.after d.given ∧ d.call.Denotes b d.given ∧
        d.after.Grows b ∧ d.after.SameTrees b := by
  have hk := h.kept
  refine ⟨⟨hk.sound.descends_exprParts, hk.sound.descends_stmtParts, hk.sound.descends_typeParts⟩, hk.sound,
    hk.sound.unfolds, fun d hd => ?_⟩
  exact ⟨hk.denotes d hd, (hk.denotes d hd).grow (hk.grows d hd), hk.grows d hd,
    (hk.soundAfter d hd).sameTrees (hk.grows d hd)⟩

/-- A number that is both operands of a sum, which is in the body of a loop. -/
theorem descends_shared_operand : ∃ done b, Built .empty done b ∧ Descends b.exprParts ∧
    b.exprParts ⟨2⟩ = [⟨1⟩, ⟨1⟩] ∧ b.stmtParts ⟨1⟩ = [⟨0⟩] ∧ done.length = 5 := by
  have noExprs : ∀ done : List Done, ∀ e ∈ ([] : List ExprId), ∃ d ∈ done, d.given = .expr e := by simp
  have noStmts : ∀ done : List Done, ∀ s ∈ ([] : List StmtId), ∃ d ∈ done, d.given = .stmt s := by simp
  have hstart : Built .empty _ _ := .start
  have h := hstart.call (.bool true) (noExprs _) (noStmts _)
  have h := h.call (.int 1) (noExprs _) (noStmts _)
  have h := h.call (.binary .add ⟨1⟩ ⟨1⟩)
    (List.forall_mem_cons.2 ⟨⟨_, .head _, rfl⟩, List.forall_mem_singleton.2 ⟨_, .head _, rfl⟩⟩) (noStmts _)
  have h := h.call (.exprStmt ⟨2⟩) (List.forall_mem_singleton.2 ⟨_, .head _, rfl⟩) (noStmts _)
  have h := h.call (.loop ⟨0⟩ [⟨0⟩])
    (List.forall_mem_singleton.2 ⟨_, .tail _ (.tail _ (.tail _ (.head _))), rfl⟩)
    (List.forall_mem_singleton.2 ⟨_, .head _, rfl⟩)
  obtain ⟨⟨hexprs, _⟩, _⟩ := descends_and_stays h
  exact ⟨_, _, h, hexprs, rfl, rfl, rfl⟩

end Built

end BlockForge.Source
