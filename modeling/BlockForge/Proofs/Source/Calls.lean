import BlockForge.Proofs.Source.Construction

/-!
# Sequences of calls

The calls of a builder as data, what each gives, and the runs in which a call refers only to nodes that earlier ones
have given. `Call.Denotes` reads off the tables what a call was made with: it holds right after the call, and goes on
to hold whatever is called next.
-/

namespace BlockForge.Source

/-! ### Calls -/

/-- A call of a builder. -/
inductive Call where
  | name (text : String)
  | type (text : String)
  | int (value : UInt64)
  | negInt (value : UInt64)
  | float (bits : UInt64)
  | bool (value : Bool)
  | char (value : Char)
  | str (text : String)
  | unit
  | null
  | ident (text : String)
  | binary (op : BinaryOp) (left right : ExprId)
  | unary (op : UnaryOp) (operand : ExprId)
  | cast (operand : ExprId) (target : String)
  | call (callee : String) (args : List ExprId)
  | methodCall (receiver : ExprId) (method : String) (args : List ExprId)
  | field (receiver : ExprId) (text : String)
  | index (receiver position : ExprId)
  | record (text : String) (fields : List (String × ExprId))
  | vectorNew (elem : String)
  | var (text : String) (declared : Option String) (init : ExprId)
  | assign (target value : ExprId)
  | assignTo (text : String) (value : ExprId)
  | exprStmt (e : ExprId)
  | ifChain (clauses : List (ExprId × List StmtId)) (otherwise : Option (List StmtId))
  | ifThen (cond : ExprId) (body : List StmtId)
  | ifElse (cond : ExprId) (body otherwise : List StmtId)
  | loop (cond : ExprId) (body : List StmtId)
  | ret (value : Option ExprId)
  | brk
  | cont
  | block (body : List StmtId)
  | struct (text : String) (fields : List (String × String))
  | function (text : String) (params : List (String × String)) (returnType : String) (body : List StmtId)
  | method (receiver text : String) (params : List (String × String)) (returnType : String)
      (body : List StmtId)

/-- What a call gives back. -/
inductive Given where
  | name (n : Name)
  | type (t : TypeId)
  | expr (e : ExprId)
  | stmt (s : StmtId)
  | span (s : Span)
  | nothing

namespace Call

/-- The expressions that a call refers to. -/
def exprArgs : Call → List ExprId
  | .binary _ l r => [l, r]
  | .unary _ e | .cast e _ | .field e _ | .exprStmt e => [e]
  | .call _ args => args
  | .methodCall r _ args => r :: args
  | .index r i => [r, i]
  | .record _ fields => fields.map (·.2)
  | .var _ _ e | .assignTo _ e => [e]
  | .assign t v => [t, v]
  | .ifChain clauses _ => clauses.map (·.1)
  | .ifThen e _ | .ifElse e _ _ | .loop e _ => [e]
  | .ret v => v.toList
  | .name _ | .type _ | .int _ | .negInt _ | .float _ | .bool _ | .char _ | .str _ | .unit | .null
  | .ident _ | .vectorNew _ | .brk | .cont | .block _ | .struct _ _ | .function _ _ _ _
  | .method _ _ _ _ _ => []

/-- The statements that a call refers to. -/
def stmtArgs : Call → List StmtId
  | .ifChain clauses otherwise => clauses.flatMap (·.2) ++ otherwise.getD []
  | .ifElse _ body otherwise => body ++ otherwise
  | .ifThen _ body | .loop _ body | .block body | .function _ _ _ body | .method _ _ _ _ body => body
  | _ => []

/-- Carries a call out. -/
def run : Call → Build Given
  | .name text => .name <$> Build.name text
  | .type text => .type <$> Build.type text
  | .int v => .expr <$> Build.int v
  | .negInt v => .expr <$> Build.negInt v
  | .float bits => .expr <$> Build.float bits
  | .bool v => .expr <$> Build.bool v
  | .char v => .expr <$> Build.char v
  | .str text => .expr <$> Build.str text
  | .unit => .expr <$> Build.unit
  | .null => .expr <$> Build.null
  | .ident text => .expr <$> Build.ident text
  | .binary op l r => .expr <$> Build.binary op l r
  | .unary op e => .expr <$> Build.unary op e
  | .cast e target => .expr <$> Build.cast e target
  | .call callee args => .expr <$> Build.call callee args
  | .methodCall r text args => .expr <$> Build.methodCall r text args
  | .field r text => .expr <$> Build.field r text
  | .index r i => .expr <$> Build.index r i
  | .record text fields => .expr <$> Build.record text fields
  | .vectorNew elem => .expr <$> Build.vectorNew elem
  | .var text declared init => .stmt <$> Build.var text declared init
  | .assign t v => .stmt <$> Build.assign t v
  | .assignTo text v => .stmt <$> Build.assignTo text v
  | .exprStmt e => .stmt <$> Build.exprStmt e
  | .ifChain clauses otherwise => .stmt <$> Build.ifChain clauses otherwise
  | .ifThen c body => .stmt <$> Build.ifThen c body
  | .ifElse c body otherwise => .stmt <$> Build.ifElse c body otherwise
  | .loop c body => .stmt <$> Build.loop c body
  | .ret v => .stmt <$> Build.ret v
  | .brk => .stmt <$> Build.brk
  | .cont => .stmt <$> Build.cont
  | .block body => .stmt <$> Build.block body
  | .struct text fields => (fun _ => .nothing) <$> Build.struct text fields
  | .function text params t body => .span <$> Build.function text params t body
  | .method r text params t body => .span <$> Build.method r text params t body

/-! ### What a call was made with -/

/-- What the tables say about what a call has given: the node of the call, with its texts, types and lists. -/
inductive Denotes (b : Builder) : Call → Given → Prop
  | name {text n} (h : b.Spells n text) : Denotes b (.name text) (.name n)
  | type {text t} (h : b.Writes t (.ofText text)) : Denotes b (.type text) (.type t)
  | int {v e} (h : b.HasExpr e (.int v)) : Denotes b (.int v) (.expr e)
  | negInt {v e operand} (h : b.HasExpr e (.unary .neg operand)) (hoperand : b.HasExpr operand (.int v)) :
      Denotes b (.negInt v) (.expr e)
  | float {v e} (h : b.HasExpr e (.float v)) : Denotes b (.float v) (.expr e)
  | bool {v e} (h : b.HasExpr e (.bool v)) : Denotes b (.bool v) (.expr e)
  | char {v e} (h : b.HasExpr e (.char v)) : Denotes b (.char v) (.expr e)
  | str {text e n} (h : b.HasExpr e (.str n)) (hn : b.Spells n text) : Denotes b (.str text) (.expr e)
  | unit {e} (h : b.HasExpr e .unit) : Denotes b .unit (.expr e)
  | null {e} (h : b.HasExpr e .null) : Denotes b .null (.expr e)
  | ident {text e n} (h : b.HasExpr e (.ident n)) (hn : b.Spells n text) :
      Denotes b (.ident text) (.expr e)
  | binary {op l r e} (h : b.HasExpr e (.binary op l r)) : Denotes b (.binary op l r) (.expr e)
  | unary {op operand e} (h : b.HasExpr e (.unary op operand)) : Denotes b (.unary op operand) (.expr e)
  | cast {operand target e t} (h : b.HasExpr e (.cast operand t)) (ht : b.Writes t (.ofText target)) :
      Denotes b (.cast operand target) (.expr e)
  | call {callee args e n run} (h : b.HasExpr e (.call n run)) (hn : b.Spells n callee)
      (hrun : run.Reads b.draft.arena.exprLists args) : Denotes b (.call callee args) (.expr e)
  | methodCall {r text args e n run} (h : b.HasExpr e (.methodCall r n run)) (hn : b.Spells n text)
      (hrun : run.Reads b.draft.arena.exprLists args) : Denotes b (.methodCall r text args) (.expr e)
  | field {r text e n} (h : b.HasExpr e (.field r n)) (hn : b.Spells n text) :
      Denotes b (.field r text) (.expr e)
  | index {r i e} (h : b.HasExpr e (.index r i)) : Denotes b (.index r i) (.expr e)
  | record {text fields e n run inits} (h : b.HasExpr e (.record n run)) (hn : b.Spells n text)
      (hrun : run.Reads b.draft.arena.fieldInits inits) (hinits : List.Forall₂ b.HasInit fields inits) :
      Denotes b (.record text fields) (.expr e)
  | vectorNew {elem e t} (h : b.HasExpr e (.vectorNew t)) (ht : b.Writes t (.ofText elem)) :
      Denotes b (.vectorNew elem) (.expr e)
  | var {text declared init s n t} (h : b.HasStmt s (.var n t init)) (hn : b.Spells n text)
      (ht : Option.Rel (fun written id => b.Writes id (.ofText written)) declared t) :
      Denotes b (.var text declared init) (.stmt s)
  | assign {t v s} (h : b.HasStmt s (.assign t v)) : Denotes b (.assign t v) (.stmt s)
  | assignTo {text v s t n} (h : b.HasStmt s (.assign t v)) (ht : b.HasExpr t (.ident n))
      (hn : b.Spells n text) : Denotes b (.assignTo text v) (.stmt s)
  | exprStmt {e s} (h : b.HasStmt s (.expr e)) : Denotes b (.exprStmt e) (.stmt s)
  | ifChain {clauses otherwise s} (h : b.HasChain s clauses otherwise) :
      Denotes b (.ifChain clauses otherwise) (.stmt s)
  | ifThen {c body s} (h : b.HasChain s [(c, body)] none) : Denotes b (.ifThen c body) (.stmt s)
  | ifElse {c body otherwise s} (h : b.HasChain s [(c, body)] (some otherwise)) :
      Denotes b (.ifElse c body otherwise) (.stmt s)
  | loop {c body s run} (h : b.HasStmt s (.loop c run)) (hrun : run.Reads b.draft.arena.stmtLists body) :
      Denotes b (.loop c body) (.stmt s)
  | ret {v s} (h : b.HasStmt s (.ret v)) : Denotes b (.ret v) (.stmt s)
  | brk {s} (h : b.HasStmt s .brk) : Denotes b .brk (.stmt s)
  | cont {s} (h : b.HasStmt s .cont) : Denotes b .cont (.stmt s)
  | block {body s run} (h : b.HasStmt s (.block run)) (hrun : run.Reads b.draft.arena.stmtLists body) :
      Denotes b (.block body) (.stmt s)
  | struct {text fields node} (h : node ∈ b.draft.structs) (hn : b.Spells node.name text)
      (hfields : List.Forall₂ b.HasMember fields node.fields.toList) :
      Denotes b (.struct text fields) .nothing
  | function {text params t body node} (h : b.HasFunction node params t body)
      (hn : b.Spells node.name text) (hr : node.receiver = none) :
      Denotes b (.function text params t body) (.span node.span)
  | method {r text params t body node rt n} (h : b.HasFunction node params t body)
      (hsymbol : b.Spells node.name (r ++ "." ++ text)) (hr : node.receiver = some ⟨rt, n⟩)
      (htype : b.Writes rt (.ofText r)) (hn : b.Spells n text) :
      Denotes b (.method r text params t body) (.span node.span)

variable {b b' : Builder} {c : Call} {g : Given}

/-- What a call was made with goes on to be read from the tables. -/
theorem Denotes.grow (h : c.Denotes b g) (hg : b.Grows b') : c.Denotes b' g := by
  cases h with
  | name h => exact .name (h.grow hg)
  | type h => exact .type (h.grow hg)
  | int h => exact .int (h.grow hg)
  | negInt h hoperand => exact .negInt (h.grow hg) (hoperand.grow hg)
  | float h => exact .float (h.grow hg)
  | bool h => exact .bool (h.grow hg)
  | char h => exact .char (h.grow hg)
  | str h hn => exact .str (h.grow hg) (hn.grow hg)
  | unit h => exact .unit (h.grow hg)
  | null h => exact .null (h.grow hg)
  | ident h hn => exact .ident (h.grow hg) (hn.grow hg)
  | binary h => exact .binary (h.grow hg)
  | unary h => exact .unary (h.grow hg)
  | cast h ht => exact .cast (h.grow hg) (ht.grow hg)
  | call h hn hrun => exact .call (h.grow hg) (hn.grow hg) (hrun.grow hg.exprLists)
  | methodCall h hn hrun => exact .methodCall (h.grow hg) (hn.grow hg) (hrun.grow hg.exprLists)
  | field h hn => exact .field (h.grow hg) (hn.grow hg)
  | index h => exact .index (h.grow hg)
  | record h hn hrun hinits =>
    exact .record (h.grow hg) (hn.grow hg) (hrun.grow hg.fieldInits) (hinits.imp fun _ _ h => h.grow hg)
  | vectorNew h ht => exact .vectorNew (h.grow hg) (ht.grow hg)
  | var h hn ht => exact .var (h.grow hg) (hn.grow hg) (rel_imp ht fun _ _ h => h.grow hg)
  | assign h => exact .assign (h.grow hg)
  | assignTo h ht hn => exact .assignTo (h.grow hg) (ht.grow hg) (hn.grow hg)
  | exprStmt h => exact .exprStmt (h.grow hg)
  | ifChain h => exact .ifChain (h.grow hg)
  | ifThen h => exact .ifThen (h.grow hg)
  | ifElse h => exact .ifElse (h.grow hg)
  | loop h hrun => exact .loop (h.grow hg) (hrun.grow hg.stmtLists)
  | ret h => exact .ret (h.grow hg)
  | brk h => exact .brk (h.grow hg)
  | cont h => exact .cont (h.grow hg)
  | block h hrun => exact .block (h.grow hg) (hrun.grow hg.stmtLists)
  | struct h hn hfields =>
    exact .struct (mem_of_begins hg.structs h) (hn.grow hg) (hfields.imp fun _ _ h => h.grow hg)
  | function h hn hr => exact .function (h.grow hg) (hn.grow hg) hr
  | method h hsymbol hr htype hn =>
    exact .method (h.grow hg) (hsymbol.grow hg) hr (htype.grow hg) (hn.grow hg)

/-- Everything that a call refers to is in the tables. -/
structure Known (b : Builder) (c : Call) : Prop where
  exprs : ∀ e ∈ c.exprArgs, e.index < b.draft.arena.exprs.size
  stmts : ∀ s ∈ c.stmtArgs, s.index < b.draft.arena.stmts.size

/-- A call on known nodes keeps the builder sound, and gives what it was made with. -/
theorem run_makes (hb : b.Sound) (hknown : c.Known b) : c.run.Makes b fun g b' => c.Denotes b' g := by
  obtain ⟨hexprs, hstmts⟩ := hknown
  cases c with
  | name text => exact (Build.name_makes hb text).map fun _ _ h => .name h
  | type text => exact (Build.type_makes hb text).map fun _ _ h => .type h
  | int v => exact (Build.expr_makes hb (by constructor <;> simp)).map fun _ _ h => .int h
  | negInt v => exact (Build.negInt_makes hb v).map fun _ _ ⟨_, h, hoperand⟩ => .negInt h hoperand
  | float v => exact (Build.expr_makes hb (by constructor <;> simp)).map fun _ _ h => .float h
  | bool v => exact (Build.expr_makes hb (by constructor <;> simp)).map fun _ _ h => .bool h
  | char v => exact (Build.expr_makes hb (by constructor <;> simp)).map fun _ _ h => .char h
  | str text =>
    refine (Build.named_makes hb text fun n _ _ hn => ?_).map fun _ _ ⟨_, h, hn⟩ => .str h hn
    exact ⟨trivial, by simp, by simpa using hn, by simp⟩
  | unit => exact (Build.expr_makes hb (by constructor <;> simp)).map fun _ _ h => .unit h
  | null => exact (Build.expr_makes hb (by constructor <;> simp)).map fun _ _ h => .null h
  | ident text => exact (Build.ident_makes hb text).map fun _ _ ⟨_, h, hn⟩ => .ident h hn
  | binary op l r =>
    have hfits : (ExprNode.binary op l r).Fits b b.draft.arena.exprs.size := ⟨trivial, hexprs, by simp, by simp⟩
    exact (Build.expr_makes hb hfits).map fun _ _ h => .binary h
  | unary op e =>
    have hfits : (ExprNode.unary op e).Fits b b.draft.arena.exprs.size := ⟨trivial, hexprs, by simp, by simp⟩
    exact (Build.expr_makes hb hfits).map fun _ _ h => .unary h
  | cast e target =>
    refine (Build.typed_makes hb target fun t _ hg ht => ?_).map fun _ _ ⟨_, h, ht⟩ => .cast h ht
    exact ⟨trivial, hg.exprs_lt hexprs, by simp, by simpa using ht⟩
  | call callee args =>
    exact (Build.call_makes hb callee hexprs).map fun _ _ ⟨_, _, h, hn, hrun⟩ => .call h hn hrun
  | methodCall r text args =>
    exact (Build.methodCall_makes hb text hexprs).map fun _ _ ⟨_, _, h, hn, hrun⟩ => .methodCall h hn hrun
  | field r text =>
    refine (Build.named_makes hb text fun n _ hg hn => ?_).map fun _ _ ⟨_, h, hn⟩ => .field h hn
    exact ⟨trivial, hg.exprs_lt hexprs, by simpa using hn, by simp⟩
  | index r i =>
    have hfits : (ExprNode.index r i).Fits b b.draft.arena.exprs.size := ⟨trivial, hexprs, by simp, by simp⟩
    exact (Build.expr_makes hb hfits).map fun _ _ h => .index h
  | record text fields =>
    exact (Build.record_makes hb text fun f hf => hexprs _ (List.mem_map_of_mem hf)).map
      fun _ _ ⟨_, _, _, h, hn, hrun, hinits⟩ => .record h hn hrun hinits
  | vectorNew elem =>
    refine (Build.typed_makes hb elem fun t _ _ ht => ?_).map fun _ _ ⟨_, h, ht⟩ => .vectorNew h ht
    exact ⟨trivial, by simp, by simp, by simpa using ht⟩
  | var text declared init =>
    exact (Build.var_makes hb text declared (hexprs init List.mem_cons_self)).map
      fun _ _ ⟨_, _, h, hn, ht⟩ => .var h hn ht
  | assign t v =>
    have hfits : (StmtNode.assign t v).Fits b b.draft.arena.stmts.size :=
      ⟨trivial, by simp, hexprs, by simp, by simp⟩
    exact (Build.stmt_makes hb hfits).map fun _ _ h => .assign h
  | assignTo text v =>
    exact (Build.assignTo_makes hb text (hexprs v List.mem_cons_self)).map
      fun _ _ ⟨_, _, h, ht, hn⟩ => .assignTo h ht hn
  | exprStmt e =>
    have hfits : (StmtNode.expr e).Fits b b.draft.arena.stmts.size :=
      ⟨trivial, by simp, hexprs, by simp, by simp⟩
    exact (Build.stmt_makes hb hfits).map fun _ _ h => .exprStmt h
  | ifChain clauses otherwise =>
    refine (Build.ifChain_makes hb _ _ (fun c hc => hexprs _ (List.mem_map_of_mem hc))
      (fun c hc s hs => hstmts s ?_) fun body hbody s hs => hstmts s ?_).map fun _ _ h => .ifChain h
    · exact List.mem_append_left _ (List.mem_flatMap.2 ⟨c, hc, hs⟩)
    · cases hbody
      exact List.mem_append_right _ hs
  | ifThen c body =>
    refine (Build.ifChain_makes hb [(c, body)] none ?_ ?_ (by simp)).map
      fun _ _ h => .ifThen h
    · simpa using hexprs c List.mem_cons_self
    · have hbody : ∀ s ∈ body, s.index < b.draft.arena.stmts.size := hstmts
      simpa using hbody
  | ifElse c body otherwise =>
    refine (Build.ifChain_makes hb [(c, body)] (some otherwise) ?_ ?_ ?_).map
      fun _ _ h => .ifElse h
    · simpa using hexprs c List.mem_cons_self
    · simpa using fun s hs => hstmts s (List.mem_append_left _ hs)
    · simpa using fun s hs => hstmts s (List.mem_append_right _ hs)
  | loop c body =>
    exact (Build.loop_makes hb (hexprs c List.mem_cons_self) hstmts).map fun _ _ ⟨_, h, hrun⟩ => .loop h hrun
  | ret v =>
    have hfits : (StmtNode.ret v).Fits b b.draft.arena.stmts.size :=
      ⟨trivial, by simp, hexprs, by simp, by simp⟩
    exact (Build.stmt_makes hb hfits).map fun _ _ h => .ret h
  | brk => exact (Build.stmt_makes hb (by constructor <;> simp)).map fun _ _ h => .brk h
  | cont => exact (Build.stmt_makes hb (by constructor <;> simp)).map fun _ _ h => .cont h
  | block body => exact (Build.block_makes hb hstmts).map fun _ _ ⟨_, h, hrun⟩ => .block h hrun
  | struct text fields =>
    exact (Build.struct_makes hb text fields).map fun _ _ ⟨_, h, hn, hfields⟩ => .struct h hn hfields
  | function text params t body =>
    exact (Build.function_makes hb text params t hstmts).map fun _ _ ⟨_, h, hn, hr, hs⟩ =>
      hs ▸ .function h hn hr
  | method r text params t body =>
    exact (Build.method_makes hb r text params t hstmts).map fun _ _ ⟨_, _, _, h, hsymbol, hr, ht, hn, hs⟩ =>
      hs ▸ .method h hsymbol hr ht hn

/-- A call that gives an expression or a statement gives one that is in the table. -/
theorem Denotes.expr_lt {e : ExprId} (h : c.Denotes b (.expr e)) : e.index < b.draft.arena.exprs.size := by
  cases h <;> exact Builder.HasExpr.lt ‹b.HasExpr e _›

theorem Denotes.stmt_lt {s : StmtId} (h : c.Denotes b (.stmt s)) : s.index < b.draft.arena.stmts.size := by
  cases h
  case ifChain h | ifThen h | ifElse h =>
    obtain ⟨_, _, _, h, _⟩ := h
    exact h.lt
  all_goals exact Builder.HasStmt.lt ‹b.HasStmt s _›

end Call

/-! ### Runs of calls -/

/-- A call that has been carried out: what it gave, and the builder that it left. -/
structure Done where
  call : Call
  given : Given
  after : Builder

/-- The calls that have led to a builder, the last one first. Each refers only to nodes that earlier ones gave. -/
inductive Built (names : Interner) : List Done → Builder → Prop
  | start : Built names [] { names }
  | call {done : List Done} {b : Builder} (h : Built names done b) (c : Call)
      (hexprs : ∀ e ∈ c.exprArgs, ∃ d ∈ done, d.given = .expr e)
      (hstmts : ∀ s ∈ c.stmtArgs, ∃ d ∈ done, d.given = .stmt s) :
      Built names (⟨c, (c.run b).1, (c.run b).2⟩ :: done) (c.run b).2

namespace Built

variable {names : Interner} {done : List Done} {b : Builder}

/-- What a run keeps: the builder is sound, and all that has been given still is what it was. -/
structure Kept (done : List Done) (b : Builder) : Prop where
  sound : b.Sound
  soundAfter : ∀ d ∈ done, d.after.Sound
  grows : ∀ d ∈ done, d.after.Grows b
  denotes : ∀ d ∈ done, d.call.Denotes d.after d.given

theorem Kept.known (h : Kept done b) {c : Call} (hexprs : ∀ e ∈ c.exprArgs, ∃ d ∈ done, d.given = .expr e)
    (hstmts : ∀ s ∈ c.stmtArgs, ∃ d ∈ done, d.given = .stmt s) : c.Known b where
  exprs e he := by
    obtain ⟨d, hd, hgiven⟩ := hexprs e he
    exact ((hgiven ▸ h.denotes d hd : d.call.Denotes d.after (.expr e)).grow (h.grows d hd)).expr_lt
  stmts s hs := by
    obtain ⟨d, hd, hgiven⟩ := hstmts s hs
    exact ((hgiven ▸ h.denotes d hd : d.call.Denotes d.after (.stmt s)).grow (h.grows d hd)).stmt_lt

theorem kept (h : Built names done b) : Kept done b := by
  induction h with
  | start => exact ⟨Builder.sound_start names, by simp, by simp, by simp⟩
  | @call done b _ c hexprs hstmts ih =>
    have hc := c.run_makes ih.sound (ih.known hexprs hstmts)
    constructor
    case sound => exact hc.sound
    all_goals simp only [List.mem_cons, forall_eq_or_imp]
    case soundAfter => exact ⟨hc.sound, ih.soundAfter⟩
    case grows => exact ⟨.refl _, fun d hd => (ih.grows d hd).trans hc.grows⟩
    case denotes => exact ⟨hc.post, ih.denotes⟩

end Built

end BlockForge.Source
