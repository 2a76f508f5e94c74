import BlockForge.Ir.Ty

/-!
# Instructions

Three-address instructions over numbered values, and the terminators that end a block.
-/

namespace BlockForge.Ir

/-- Arithmetic and bitwise operations. -/
inductive BinOp where
  | add | sub | mul | sdiv | udiv | srem | urem
  | fadd | fsub | fmul | fdiv | frem
  | and | or | xor | shl | ashr | lshr
  deriving DecidableEq, Repr

namespace BinOp

def all : List BinOp :=
  [add, sub, mul, sdiv, udiv, srem, urem, fadd, fsub, fmul, fdiv, frem, and, or, xor, shl, ashr,
    lshr]

def mnemonic : BinOp → String
  | add => "add" | sub => "sub" | mul => "mul" | sdiv => "sdiv" | udiv => "udiv" | srem => "srem"
  | urem => "urem" | fadd => "fadd" | fsub => "fsub" | fmul => "fmul" | fdiv => "fdiv"
  | frem => "frem" | and => "and" | or => "or" | xor => "xor" | shl => "shl" | ashr => "ashr"
  | lshr => "lshr"

def ofMnemonic? (text : String) : Option BinOp := all.find? (·.mnemonic == text)

def isFloat : BinOp → Bool
  | fadd | fsub | fmul | fdiv | frem => true
  | _ => false

end BinOp

/-- Integer comparisons; the `s` and `u` forms order signed and unsigned. -/
inductive IntPred where
  | eq | ne | slt | sle | sgt | sge | ult | ule | ugt | uge
  deriving DecidableEq, Repr

namespace IntPred

def all : List IntPred := [eq, ne, slt, sle, sgt, sge, ult, ule, ugt, uge]

def mnemonic : IntPred → String
  | eq => "eq" | ne => "ne" | slt => "slt" | sle => "sle" | sgt => "sgt" | sge => "sge"
  | ult => "ult" | ule => "ule" | ugt => "ugt" | uge => "uge"

def ofMnemonic? (text : String) : Option IntPred := all.find? (·.mnemonic == text)

end IntPred

/-- Float comparisons: false on a not-a-number, except `une`. -/
inductive FloatPred where
  | oeq | une | olt | ole | ogt | oge
  deriving DecidableEq, Repr

namespace FloatPred

def all : List FloatPred := [oeq, une, olt, ole, ogt, oge]

def mnemonic : FloatPred → String
  | oeq => "oeq" | une => "une" | olt => "olt" | ole => "ole" | ogt => "ogt" | oge => "oge"

def ofMnemonic? (text : String) : Option FloatPred := all.find? (·.mnemonic == text)

end FloatPred

/-- Conversions between value types. -/
inductive CastOp where
  | trunc | sext | zext | sitofp | uitofp | fptosi | fptoui | fpext | fptrunc
  deriving DecidableEq, Repr

namespace CastOp

def all : List CastOp := [trunc, sext, zext, sitofp, uitofp, fptosi, fptoui, fpext, fptrunc]

def mnemonic : CastOp → String
  | trunc => "trunc" | sext => "sext" | zext => "zext" | sitofp => "sitofp" | uitofp => "uitofp"
  | fptosi => "fptosi" | fptoui => "fptoui" | fpext => "fpext" | fptrunc => "fptrunc"

def ofMnemonic? (text : String) : Option CastOp := all.find? (·.mnemonic == text)

end CastOp

/-- What a call runs: a function of the module or one of the host. -/
inductive Callee where
  | func (id : FuncId)
  | host (id : HostId)
  deriving DecidableEq, Repr

/-- The operation of an instruction. -/
inductive InstKind where
  /-- A stack slot; the result is its address. -/
  | alloca (ty : Ty)
  | load (ty : Ty) (ptr : ValueId)
  | store (value ptr : ValueId)
  | binary (op : BinOp) (lhs rhs : ValueId)
  | fneg (operand : ValueId)
  | icmp (pred : IntPred) (lhs rhs : ValueId)
  | fcmp (pred : FloatPred) (lhs rhs : ValueId)
  | cast (op : CastOp) (value : ValueId) (target : Ty)
  | select (cond ifTrue ifFalse : ValueId)
  /-- The value for the block that control came from. -/
  | phi (ty : Ty) (incoming : List (ValueId × BlockId))
  | call (callee : Callee) (args : List ValueId) (ret : Ty)
  /-- An address moved by a number of bytes. -/
  | ptrAdd (ptr offset : ValueId)
  /-- The address of a field of the struct at `ptr`. -/
  | fieldPtr (struct : StructId) (ptr : ValueId) (field : Nat)
  /-- Copies bytes between ranges that do not overlap. -/
  | memCopy (dst src len : ValueId)
  /-- Copies bytes between ranges that may overlap. -/
  | memMove (dst src len : ValueId)
  deriving DecidableEq, Repr

namespace InstKind

/-- The values that the instruction reads, in order. -/
def operands : InstKind → List ValueId
  | alloca _ => []
  | load _ p => [p]
  | store v p => [v, p]
  | binary _ a b | icmp _ a b | fcmp _ a b => [a, b]
  | fneg v => [v]
  | cast _ v _ => [v]
  | select c a b => [c, a, b]
  | phi _ incoming => incoming.map (·.1)
  | call _ args _ => args
  | ptrAdd p o => [p, o]
  | fieldPtr _ p _ => [p]
  | memCopy d s l | memMove d s l => [d, s, l]

def isPhi : InstKind → Bool
  | phi .. => true
  | _ => false

def isAlloca : InstKind → Bool
  | alloca _ => true
  | _ => false

end InstKind

/-- An instruction with the value it defines, if any. -/
structure Inst where
  result : Option ValueId
  kind : InstKind
  deriving DecidableEq, Repr

/-- How control leaves a block. -/
inductive Terminator where
  | br (target : BlockId)
  | condBr (cond : ValueId) (ifTrue ifFalse : BlockId)
  | ret (value : Option ValueId)
  | unreachable
  deriving DecidableEq, Repr

/-- The blocks that control may go to, in branch order. -/
def Terminator.successors : Terminator → List BlockId
  | br b => [b]
  | condBr _ a b => [a, b]
  | ret _ | unreachable => []

end BlockForge.Ir
