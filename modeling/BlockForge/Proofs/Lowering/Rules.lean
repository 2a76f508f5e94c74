import BlockForge.Lowering.Stmt
import BlockForge.Proofs.Ir.Spread

/-!
# The rules of lowering

`Lowers` says what an accepted expression is lowered to, and `LowersStmt` an accepted statement: one rule
for each way to succeed, and none for an operand without a value. An expression changes nothing but the
builder, a statement the builder and the innermost scope. `Blamed` are the expressions that mention a name
or a function whose own declaration failed.
-/

namespace BlockForge.Source

/-- A reference by name. -/
inductive Mention where
  | name (name : String)
  | callee (symbol : String)
  deriving DecidableEq, Repr

mutual

/-- What an expression refers to by name. -/
def Expr.mentions : Expr → List Mention
  | .int .. | .float .. | .bool .. | .char .. | .str .. | .unit _ | .null _ | .vectorNew .. => []
  | .ident _ name => [.name name]
  | .binary _ _ l r => l.mentions ++ r.mentions
  | .unary _ _ e => e.mentions
  | .cast _ e _ => e.mentions
  | .call _ callee args => .callee callee :: mentionsAll args
  | .methodCall _ r _ args => r.mentions ++ mentionsAll args
  | .field _ r _ => r.mentions
  | .index _ r i => r.mentions ++ i.mentions
  | .record _ _ inits => initMentions inits
termination_by structural e => e

def mentionsAll : List Expr → List Mention
  | [] => []
  | e :: rest => e.mentions ++ mentionsAll rest
termination_by structural es => es

def initMentions : List (String × Expr) → List Mention
  | [] => []
  | (_, e) :: rest => e.mentions ++ initMentions rest
termination_by structural es => es

end

theorem mem_mentionsAll {m : Mention} {es : List Expr} :
    m ∈ mentionsAll es ↔ ∃ e ∈ es, m ∈ e.mentions := by
  induction es with
  | nil => simp [mentionsAll]
  | cons e rest ih => simp [mentionsAll, ih]

theorem mem_initMentions {m : Mention} {es : List (String × Expr)} :
    m ∈ initMentions es ↔ ∃ e ∈ es, m ∈ e.2.mentions := by
  induction es with
  | nil => simp [initMentions]
  | cons e rest ih =>
    obtain ⟨name, e⟩ := e
    simp [initMentions, ih]

end BlockForge.Source

namespace BlockForge.Lowering

open Ir (BlockId Builder Emit ValueId)
open Source (BinaryOp Chain Expr Mention Span Stmt TypeExpr UnaryOp)
open BlockForge.Types (CastKind Ty)

/-! ### Failed declarations -/

/-- Refers to something whose declaration failed. -/
def Mention.Poisoned (tables : Tables) (scope : Scope) : Mention → Prop
  | .name name => scope.lookup? name = some .poisoned
  | .callee symbol => tables.isPoisoned symbol = true

/-- An expression that mentions something whose declaration failed. -/
def Blamed (env : Env) (scope : Scope) (e : Expr) : Prop :=
  ∃ m ∈ e.mentions, Mention.Poisoned env.tables scope m

/-! ### Expressions -/

/-- What the operations on vectors of an element type depend on, in the builder's module. -/
def Env.shapeAt (env : Env) (elem : Ty) (b : Builder) : VectorShape :=
  ⟨env.tables.vector, env.ir elem, b.module.sizeOf (env.ir elem), bufferKind elem, env.allocator⟩

/-- A call of a function, and what stands for its result. -/
inductive Calls (sig : Signature) (name : String) (args : List ValueId) :
    Builder → Typed → Builder → Prop
  | value {b a b'} (hc : Emit.call sig.func args name b = (some a, b')) :
      Calls sig name args b ⟨a, sig.ret⟩ b'
  | nothing {b b₁ a b'} (hc : Emit.call sig.func args name b = (none, b₁))
      (hu : Emit.constInt .i8 0 b₁ = (a, b')) : Calls sig name args b ⟨a, .unit⟩ b'

mutual

/-- In a scope, an expression where a type is expected is lowered to a value. -/
inductive Lowers (env : Env) (scope : Scope) :
    Expr → Option Ty → Builder → Typed → Builder → Prop
  | literal {e kind expected c b a b'} (hk : literalKind e = some kind)
      (hc : evalConst env.layout (literalType env kind expected) e = .ok c)
      (ha : emitConst env (literalType env kind expected) c b = (a, b')) :
      Lowers env scope e expected b ⟨a, literalType env kind expected⟩ b'
  | bool {s v expected b a b'} (ha : Emit.constBool v b = (a, b')) :
      Lowers env scope (.bool s v) expected b ⟨a, .bool⟩ b'
  | char {s c expected b a b'}
      (ha : Emit.constInt (env.ir .char) (UInt64.ofNat c.toNat) b = (a, b')) :
      Lowers env scope (.char s c) expected b ⟨a, .char⟩ b'
  | str {s text expected b a b'} (ha : Emit.globalString text b = (a, b')) :
      Lowers env scope (.str s text) expected b ⟨a, .string⟩ b'
  | unit {s expected b a b'} (ha : Emit.constInt .i8 0 b = (a, b')) :
      Lowers env scope (.unit s) expected b ⟨a, .unit⟩ b'
  | null {s expected b a b'} (ha : Emit.constNull b = (a, b')) :
      Lowers env scope (.null s) expected b ⟨a, .null⟩ b'
  | ident {s name expected slot t b a b'} (hs : scope.lookup? name = some (.slot slot t))
      (ha : Emit.load (env.ir t) slot name b = (a, b')) :
      Lowers env scope (.ident s name) expected b ⟨a, t⟩ b'
  | plus {s e expected b v b'} (hn : literalKind (.unary s .plus e) = none)
      (he : Lowers env scope e expected b v b') (ht : v.ty.isNumeric = true) :
      Lowers env scope (.unary s .plus e) expected b v b'
  | fneg {s e expected b v b₁ a b'} (hn : literalKind (.unary s .neg e) = none)
      (he : Lowers env scope e expected b v b₁) (ht : v.ty.isFloat = true)
      (ha : Emit.fneg v.value "neg" b₁ = (a, b')) :
      Lowers env scope (.unary s .neg e) expected b ⟨a, v.ty⟩ b'
  | neg {s e expected b v b₁ a b'} (hn : literalKind (.unary s .neg e) = none)
      (he : Lowers env scope e expected b v b₁) (ht : v.ty.isInteger = true)
      (ha : Emit.neg v.value "neg" b₁ = (a, b')) :
      Lowers env scope (.unary s .neg e) expected b ⟨a, v.ty⟩ b'
  | not {s e expected b v b₁ a b'} (he : Lowers env scope e (some .bool) b v b₁)
      (ht : v.ty = .bool) (ha : Emit.not v.value "not" b₁ = (a, b')) :
      Lowers env scope (.unary s .not e) expected b ⟨a, v.ty⟩ b'
  | bitNot {s e expected b v b₁ a b'} (he : Lowers env scope e expected b v b₁)
      (ht : v.ty.isInteger = true) (ha : Emit.not v.value "bitnot" b₁ = (a, b')) :
      Lowers env scope (.unary s .bitNot e) expected b ⟨a, v.ty⟩ b'
  | folded {s op l r expected k₁ k₂ kind x y b a b'} (hop : op.isComparison = true)
      (hl : literalKind l = some k₁) (hr : literalKind r = some k₂)
      (hk : k₁.unify? k₂ = some kind) (hx : evalConst env.layout kind.defaultType l = .ok x)
      (hy : evalConst env.layout kind.defaultType r = .ok y)
      (ha : Emit.constBool (foldCompare op x y) b = (a, b')) :
      Lowers env scope (.binary s op l r) expected b ⟨a, .bool⟩ b'
  | arithmetic {s op l r expected b x y b₁ a b'} (hn : literalKind (.binary s op l r) = none)
      (hop : op.isArithmetic = true) (ho : LowersBoth env scope l r b x y b₁)
      (hx : x.ty.isNumeric = true) (hy : x.ty = y.ty)
      (hz : (op.isDivision && !x.ty.isFloat && b₁.constIntValue? y.value == some 0) = false)
      (ha : emitArithmetic op x.ty (env.ir x.ty) x.value y.value b₁ = (some a, b')) :
      Lowers env scope (.binary s op l r) expected b ⟨a, x.ty⟩ b'
  | ordering {s op l r expected b x y b₁ a b'} (hop : op.isOrdering = true)
      (ho : LowersBoth env scope l r b x y b₁) (hy : x.ty = y.ty) (hx : x.ty.isOrdered = true)
      (ha : emitOrdering op x.ty x.value y.value b₁ = (a, b')) :
      Lowers env scope (.binary s op l r) expected b ⟨a, .bool⟩ b'
  | equality {s op l r expected b x y b₁ a b'} (hop : op.isComparison = true)
      (hno : op.isOrdering = false) (ho : LowersBoth env scope l r b x y b₁)
      (hx : ((x.ty == y.ty && x.ty.isEquatable) || nullAgainst x.ty y.ty || nullAgainst y.ty x.ty) =
        true)
      (ha : emitEquality (op == .eq) x.ty x.value y.value b₁ = (a, b')) :
      Lowers env scope (.binary s op l r) expected b ⟨a, .bool⟩ b'
  | shift {s op l r expected b x y b₁ a b'} (hn : literalKind (.binary s op l r) = none)
      (hop : op.isShift = true) (ho : LowersBoth env scope l r b x y b₁)
      (hx : x.ty.isInteger = true) (hy : y.ty.isInteger = true)
      (ha : emitShift op x.ty (env.ir x.ty) x.value y.value y.ty.isSignedInt b₁ = (a, b')) :
      Lowers env scope (.binary s op l r) expected b ⟨a, x.ty⟩ b'
  | bitwise {s op l r expected b x y b₁ a b'} (hn : literalKind (.binary s op l r) = none)
      (hop : op.isBitwise = true) (hno : op.isShift = false)
      (ho : LowersBoth env scope l r b x y b₁) (hy : x.ty = y.ty)
      (hx : x.ty.isInteger = true ∨ x.ty = .bool)
      (ha : emitBitwise op x.value y.value b₁ = (a, b')) :
      Lowers env scope (.binary s op l r) expected b ⟨a, x.ty⟩ b'
  | shortCircuit {s op l r expected b x b₁ origin rhs b₂ merge b₃ b₄ b₅ y b₆ exit b₇ b₈ short b₉ a b'}
      (hop : op.isLogical = true) (hl : Lowers env scope l (some .bool) b x b₁) (hx : x.ty = .bool)
      (hc : b₁.current = some origin)
      (h₂ : Emit.appendBlock ((if op == .and then "and" else "or") ++ ".rhs") b₁ = (rhs, b₂))
      (h₃ : Emit.appendBlock ((if op == .and then "and" else "or") ++ ".merge") b₂ = (merge, b₃))
      (h₄ : (if op == .and then Emit.condBr x.value rhs merge else Emit.condBr x.value merge rhs) b₃ =
        ((), b₄))
      (h₅ : Emit.positionAt rhs b₄ = ((), b₅)) (hr : Lowers env scope r (some .bool) b₅ y b₆)
      (hy : y.ty = .bool) (he : b₆.current = some exit) (h₇ : Emit.br merge b₆ = ((), b₇))
      (h₈ : Emit.positionAt merge b₇ = ((), b₈)) (h₉ : Emit.constBool (!(op == .and)) b₈ = (short, b₉))
      (ha : Emit.phi .i1 [(short, origin), (y.value, exit)] (if op == .and then "and" else "or") b₉ =
        (a, b')) :
      Lowers env scope (.binary s op l r) expected b ⟨a, .bool⟩ b'
  | cast {s e t target kind expected b v b₁ a b'} (ht : env.tables.resolve t = .ok target)
      (he : Lowers env scope e (castHint env e target) b v b₁)
      (hk : env.layout.classifyCast? v.ty target = some kind)
      (ha : emitCast kind v.value (env.ir target) b₁ = (a, b')) :
      Lowers env scope (.cast s e t) expected b ⟨a, target⟩ b'
  | call {s callee args sig expected b vs b₁ v b'} (hs : env.tables.function? callee = some sig)
      (hf : sig.receiver = none) (hn : args.length = sig.params.length)
      (ha : LowersArgs env scope (args.zip sig.params) b vs b₁) (hc : Calls sig callee vs b₁ v b') :
      Lowers env scope (.call s callee args) expected b v b'
  | method {s r method args recv symbol sig expected b b₁ vs b₂ v b'}
      (hr : Lowers env scope r none b recv b₁) (ht : recv.ty.element? = none)
      (hm : env.tables.method? recv.ty method = some symbol)
      (hs : env.tables.function? symbol = some sig) (hn : args.length = sig.params.length)
      (ha : LowersArgs env scope (args.zip sig.params) b₁ vs b₂)
      (hc : Calls sig symbol (recv.value :: vs) b₂ v b') :
      Lowers env scope (.methodCall s r method args) expected b v b'
  | vectorMethod {s r method args recv elem op expected b b₁ v b'}
      (hr : Lowers env scope r none b recv b₁) (ht : recv.ty = .vector elem)
      (hm : VectorOp.ofName? method = some op)
      (ho : LowersVector env scope (env.shapeAt elem b₁) elem recv.value op args b₁ v b') :
      Lowers env scope (.methodCall s r method args) expected b v b'
  | field {s r name recv struct position t expected b b₁ addr b₂ a b'}
      (hr : Lowers env scope r none b recv b₁)
      (hf : env.tables.field? recv.ty name = some (struct, position, t))
      (hp : Emit.fieldPtr struct recv.value position name b₁ = (addr, b₂))
      (ha : Emit.load (env.ir t) addr name b₂ = (a, b')) :
      Lowers env scope (.field s r name) expected b ⟨a, t⟩ b'
  | index {s r i recv elem expected b b₁ x b₂ a b'} (hr : Lowers env scope r none b recv b₁)
      (ht : recv.ty.element? = some elem) (hi : LowersIndex env scope i b₁ x b₂)
      (ha : (env.shapeAt elem b₂).getAt recv.value x b₂ = (a, b')) :
      Lowers env scope (.index s r i) expected b ⟨a, elem⟩ b'
  | record {s name inits info values expected b b₁ size b₂ object b₃ b'}
      (hn : env.tables.record? name = some info)
      (hi : LowersInits env scope info [] inits b values b₁)
      (hall : ∀ f ∈ (info.fields.map (·.1)).zipIdx, (values.lookup f.2).isSome = true)
      (hs : Emit.constUsize (UInt64.ofNat (b₁.module.sizeOf (.struct info.id))) b₁ = (size, b₂))
      (ho : env.allocator.allocate size (if info.hasReferences then .general else .noReferences) name
        b₂ = (object, b₃))
      (hf : storeFields info object values ((info.fields.map (·.1)).zipIdx) b₃ = ((), b')) :
      Lowers env scope (.record s name inits) expected b ⟨object, .record name⟩ b'
  | vectorNew {s t elem expected b a b'} (ht : env.tables.resolve t = .ok elem)
      (ha : (env.shapeAt elem b).new (b.module.sizeOf (.struct env.tables.vector))
        env.config.initialCapacity b = (a, b')) :
      Lowers env scope (.vectorNew s t) expected b ⟨a, .vector elem⟩ b'

/-- Both operands of an operator; a lone literal takes the type of the other one. -/
inductive LowersBoth (env : Env) (scope : Scope) :
    Expr → Expr → Builder → Typed → Typed → Builder → Prop
  | literals {l r k₁ k₂ kind b x b₁ y b'} (hl : literalKind l = some k₁) (hr : literalKind r = some k₂)
      (hk : k₁.unify? k₂ = some kind) (hx : Lowers env scope l (some kind.defaultType) b x b₁)
      (hy : Lowers env scope r (some kind.defaultType) b₁ y b') : LowersBoth env scope l r b x y b'
  | left {l r k b x b₁ y b'} (hl : literalKind l = some k) (hr : literalKind r = none)
      (hy : Lowers env scope r none b y b₁) (hx : Lowers env scope l (some y.ty) b₁ x b') :
      LowersBoth env scope l r b x y b'
  | right {l r k b x b₁ y b'} (hl : literalKind l = none) (hr : literalKind r = some k)
      (hx : Lowers env scope l none b x b₁) (hy : Lowers env scope r (some x.ty) b₁ y b') :
      LowersBoth env scope l r b x y b'
  | neither {l r b x b₁ y b'} (hl : literalKind l = none) (hr : literalKind r = none)
      (hx : Lowers env scope l none b x b₁) (hy : Lowers env scope r none b₁ y b') :
      LowersBoth env scope l r b x y b'

/-- Each argument at the type of its parameter. -/
inductive LowersArgs (env : Env) (scope : Scope) :
    List (Expr × Ty) → Builder → List ValueId → Builder → Prop
  | nil {b} : LowersArgs env scope [] b [] b
  | cons {e t rest b v b₁ vs b'} (he : Lowers env scope e (some t) b v b₁)
      (ht : Types.assignable v.ty t = true) (hrest : LowersArgs env scope rest b₁ vs b') :
      LowersArgs env scope ((e, t) :: rest) b (v.value :: vs) b'

/-- The initialisers of different fields, after those that have a value already. -/
inductive LowersInits (env : Env) (scope : Scope) : RecordInfo → List (Nat × ValueId) →
    List (String × Expr) → Builder → List (Nat × ValueId) → Builder → Prop
  | nil {info values b} : LowersInits env scope info values [] b values b
  | cons {info values name e rest position t b v b₁ values' b'}
      (hf : info.field? name = some (position, t))
      (hnew : position ∉ values.map (·.1)) (he : Lowers env scope e (some t) b v b₁)
      (ht : Types.assignable v.ty t = true)
      (hrest : LowersInits env scope info ((position, v.value) :: values) rest b₁ values' b') :
      LowersInits env scope info values ((name, e) :: rest) b values' b'

/-- An index at pointer width. -/
inductive LowersIndex (env : Env) (scope : Scope) : Expr → Builder → ValueId → Builder → Prop
  | intro {e b v b₁ a b'} (he : Lowers env scope e (some .usize) b v b₁)
      (ht : v.ty.isInteger = true)
      (ha : Emit.intResize v.value b₁.module.ptrInt v.ty.isSignedInt "idx" b₁ = (a, b')) :
      LowersIndex env scope e b a b'

/-- A method of a vector. -/
inductive LowersVector (env : Env) (scope : Scope) : VectorShape → Ty → ValueId → VectorOp →
    List Expr → Builder → Typed → Builder → Prop
  | size {shape elem desc b a b'} (ha : shape.loadSize desc b = (a, b')) :
      LowersVector env scope shape elem desc .size [] b ⟨a, .usize⟩ b'
  | capacity {shape elem desc b a b'} (ha : shape.loadCapacity desc b = (a, b')) :
      LowersVector env scope shape elem desc .capacity [] b ⟨a, .usize⟩ b'
  | get {shape elem desc i b x b₁ a b'} (hi : LowersIndex env scope i b x b₁)
      (ha : shape.getAt desc x b₁ = (a, b')) :
      LowersVector env scope shape elem desc .get [i] b ⟨a, elem⟩ b'
  | set {shape elem desc i e b x b₁ v b₂ b₃ a b'} (hi : LowersIndex env scope i b x b₁)
      (he : Lowers env scope e (some elem) b₁ v b₂) (ht : Types.assignable v.ty elem = true)
      (hs : shape.setAt desc x v.value b₂ = ((), b₃)) (ha : Emit.constInt .i8 0 b₃ = (a, b')) :
      LowersVector env scope shape elem desc .set [i, e] b ⟨a, .unit⟩ b'
  | add {shape elem desc e b v b₁ b₂ a b'} (he : Lowers env scope e (some elem) b v b₁)
      (ht : Types.assignable v.ty elem = true) (hs : shape.append desc v.value b₁ = ((), b₂))
      (ha : Emit.constInt .i8 0 b₂ = (a, b')) :
      LowersVector env scope shape elem desc .add [e] b ⟨a, .unit⟩ b'
  | insert {shape elem desc i e b x b₁ v b₂ b₃ a b'} (hi : LowersIndex env scope i b x b₁)
      (he : Lowers env scope e (some elem) b₁ v b₂) (ht : Types.assignable v.ty elem = true)
      (hs : shape.insertAt desc x v.value b₂ = ((), b₃)) (ha : Emit.constInt .i8 0 b₃ = (a, b')) :
      LowersVector env scope shape elem desc .insert [i, e] b ⟨a, .unit⟩ b'
  | remove {shape elem desc i b x b₁ a b'} (hi : LowersIndex env scope i b x b₁)
      (ha : shape.removeAt desc x b₁ = (a, b')) :
      LowersVector env scope shape elem desc .remove [i] b ⟨a, elem⟩ b'

end

/-! ### Statements -/

/-- A branch to where control joins, unless the position is dead. -/
inductive Joins (target : BlockId) : Builder → Builder → Prop
  | live {b b'} (hr : b.Reached) (hb : Emit.br target b = ((), b')) : Joins target b b'
  | dead {b} (hr : ¬b.Reached) : Joins target b b

mutual

/-- Within some loops, a statement at a live position is lowered. -/
inductive LowersStmt (env : Env) :
    List LoopTargets → Stmt → Scope → Builder → Scope → Builder → Prop
  | varInferred {loops s name e scope b v b₁ slot b₂ b' scope'} (he : Lowers env scope e none b v b₁)
      (ht : v.ty ≠ .null) (ha : Emit.entryAlloca (env.ir v.ty) name b₁ = (slot, b₂))
      (hs : Emit.store v.value slot b₂ = ((), b'))
      (hd : scope.declare? name (.slot slot v.ty) = some scope') :
      LowersStmt env loops (.var s name none e) scope b scope' b'
  | var {loops s name t target e scope b v b₁ slot b₂ b' scope'}
      (hr : env.tables.resolve t = .ok target) (he : Lowers env scope e (some target) b v b₁)
      (ht : Types.assignable v.ty target = true)
      (ha : Emit.entryAlloca (env.ir target) name b₁ = (slot, b₂))
      (hs : Emit.store v.value slot b₂ = ((), b'))
      (hd : scope.declare? name (.slot slot target) = some scope') :
      LowersStmt env loops (.var s name (some t) e) scope b scope' b'
  | assignLocal {loops s s' name e slot t scope b v b₁ b'}
      (hn : scope.lookup? name = some (.slot slot t)) (he : Lowers env scope e (some t) b v b₁)
      (ht : Types.assignable v.ty t = true) (hs : Emit.store v.value slot b₁ = ((), b')) :
      LowersStmt env loops (.assign s (.ident s' name) e) scope b scope b'
  | assignField {loops s s' r name e recv struct position t scope b b₁ addr b₂ v b₃ b'}
      (hr : Lowers env scope r none b recv b₁)
      (hf : env.tables.field? recv.ty name = some (struct, position, t))
      (hp : Emit.fieldPtr struct recv.value position name b₁ = (addr, b₂))
      (he : Lowers env scope e (some t) b₂ v b₃) (ht : Types.assignable v.ty t = true)
      (hs : Emit.store v.value addr b₃ = ((), b')) :
      LowersStmt env loops (.assign s (.field s' r name) e) scope b scope b'
  | assignIndex {loops s s' r i e recv elem scope b b₁ x b₂ v b₃ b'}
      (hr : Lowers env scope r none b recv b₁) (ht : recv.ty.element? = some elem)
      (hi : LowersIndex env scope i b₁ x b₂) (he : Lowers env scope e (some elem) b₂ v b₃)
      (hv : Types.assignable v.ty elem = true)
      (hs : (env.shapeAt elem b₃).setAt recv.value x v.value b₃ = ((), b')) :
      LowersStmt env loops (.assign s (.index s' r i) e) scope b scope b'
  | expr {loops s e scope b v b'} (he : Lowers env scope e none b v b') :
      LowersStmt env loops (.expr s e) scope b scope b'
  | cond {loops s chain scope b stop b₁ b₂ b'} (hs : Emit.appendBlock "if.end" b = (stop, b₁))
      (hc : LowersChain env loops stop chain scope b₁ b₂)
      (hp : Emit.positionAt stop b₂ = ((), b')) : LowersStmt env loops (.cond s chain) scope b scope b'
  | loop {loops s cond body scope b test b₁ start b₂ stop b₃ b₄ b₅ v b₆ b₇ b₈ scope' b₉ b₁₀ b'}
      (h₁ : Emit.appendBlock "while.cond" b = (test, b₁))
      (h₂ : Emit.appendBlock "while.body" b₁ = (start, b₂))
      (h₃ : Emit.appendBlock "while.end" b₂ = (stop, b₃)) (h₄ : Emit.br test b₃ = ((), b₄))
      (h₅ : Emit.positionAt test b₄ = ((), b₅)) (hc : Lowers env scope cond (some .bool) b₅ v b₆)
      (ht : v.ty = .bool) (h₇ : Emit.condBr v.value start stop b₆ = ((), b₇))
      (h₈ : Emit.positionAt start b₇ = ((), b₈))
      (hb : LowersStmts env (⟨test, stop⟩ :: loops) body scope.push b₈ scope' b₉)
      (hj : Joins test b₉ b₁₀) (hp : Emit.positionAt stop b₁₀ = ((), b')) :
      LowersStmt env loops (.loop s cond body) scope b scope b'
  | retValue {loops s e scope b v b₁ b'} (he : Lowers env scope e (some env.returnType) b v b₁)
      (ht : Types.assignable v.ty env.returnType = true)
      (hr : (if env.returnType.isUnit then Emit.retVoid else Emit.ret v.value) b₁ = ((), b')) :
      LowersStmt env loops (.ret s (some e)) scope b scope b'
  | ret {loops s scope b b'} (hu : env.returnType.isUnit = true) (hr : Emit.retVoid b = ((), b')) :
      LowersStmt env loops (.ret s none) scope b scope b'
  | brk {t loops s scope b b'} (hb : Emit.br t.stop b = ((), b')) :
      LowersStmt env (t :: loops) (.brk s) scope b scope b'
  | cont {t loops s scope b b'} (hb : Emit.br t.test b = ((), b')) :
      LowersStmt env (t :: loops) (.cont s) scope b scope b'
  | block {loops s body scope b scope' b'} (hb : LowersStmts env loops body scope.push b scope' b') :
      LowersStmt env loops (.block s body) scope b scope b'

/-- Statements are lowered one after the other; dead ones are left out. -/
inductive LowersStmts (env : Env) :
    List LoopTargets → List Stmt → Scope → Builder → Scope → Builder → Prop
  | nil {loops scope b} : LowersStmts env loops [] scope b scope b
  | dead {loops s rest scope b scope' b'} (hd : ¬b.Reached)
      (hrest : LowersStmts env loops rest scope b scope' b') :
      LowersStmts env loops (s :: rest) scope b scope' b'
  | live {loops s rest scope b scope₁ b₁ scope' b'} (hl : b.Reached)
      (hs : LowersStmt env loops s scope b scope₁ b₁)
      (hrest : LowersStmts env loops rest scope₁ b₁ scope' b') :
      LowersStmts env loops (s :: rest) scope b scope' b'

/-- What is left of an `if` whose branches join at `stop`. -/
inductive LowersChain (env : Env) :
    List LoopTargets → BlockId → Chain → Scope → Builder → Builder → Prop
  | done {loops stop scope b} : LowersChain env loops stop .done scope b b
  | otherwise {loops stop body scope b scope' b₁ b'}
      (hb : LowersStmts env loops body scope.push b scope' b₁) (hj : Joins stop b₁ b') :
      LowersChain env loops stop (.otherwise body) scope b b'
  | clause {loops stop cond body rest scope b v b₁ start b₂ next b₃ b₄ b₅ scope' b₆ b₇ b₈ b'}
      (hc : Lowers env scope cond (some .bool) b v b₁) (ht : v.ty = .bool)
      (h₂ : Emit.appendBlock "if.then" b₁ = (start, b₂)) (h₃ : nextBlock stop rest b₂ = (next, b₃))
      (h₄ : Emit.condBr v.value start next b₃ = ((), b₄)) (h₅ : Emit.positionAt start b₄ = ((), b₅))
      (hb : LowersStmts env loops body scope.push b₅ scope' b₆) (hj : Joins stop b₆ b₇)
      (hp : (if next ≠ stop then Emit.positionAt next else pure ()) b₇ = ((), b₈))
      (hrest : LowersChain env loops stop rest scope b₈ b') :
      LowersChain env loops stop (.clause cond body rest) scope b b'

end

/-! ### Functions -/

/-- Parameters go into slots of their own, under different names. -/
inductive BindsParams (env : Env) : Nat → List (String × Ty × Span) → Scope → Builder → Scope →
    Builder → Prop
  | nil {position scope b} : BindsParams env position [] scope b scope b
  | cons {position name t span rest scope b slot b₁ b₂ scope₁ scope' b'}
      (ha : Emit.entryAlloca (env.ir t) name b = (slot, b₁))
      (hs : Emit.store (Ir.Function.param position) slot b₁ = ((), b₂))
      (hd : scope.declare? name (.slot slot t) = some scope₁)
      (hrest : BindsParams env (position + 1) rest scope₁ b₂ scope' b') :
      BindsParams env position ((name, t, span) :: rest) scope b scope' b'

/-- A live end returns `()`. -/
inductive EndsBody (env : Env) : Builder → Builder → Prop
  | live {b b'} (hr : b.Reached) (hu : env.returnType.isUnit = true) (hb : Emit.retVoid b = ((), b')) :
      EndsBody env b b'
  | dead {b} (hr : ¬b.Reached) : EndsBody env b b

/-- A function is lowered: its parameters, its body, its end, and the blocks that are left. -/
inductive LowersFunction (env : Env) (params : List (String × Ty × Span)) (body : List Stmt) :
    Builder → Builder → Prop
  | intro {b entry b₁ b₂ scope b₃ scope' b₄ b₅ b'} (he : Emit.appendBlock "entry" b = (entry, b₁))
      (hp : Emit.positionAt entry b₁ = ((), b₂))
      (hparams : BindsParams env 0 params (Scope.push {}) b₂ scope b₃)
      (hbody : LowersStmts env [] body scope b₃ scope' b₄) (hend : EndsBody env b₄ b₅)
      (hseal : Lower.sealBlocks ((List.range b₅.function.blocks.size).map Ir.Id.mk) b₅ = ((), b')) :
      LowersFunction env params body b b'

end BlockForge.Lowering
