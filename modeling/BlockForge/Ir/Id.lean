/-!
# Table numbers

Values, blocks, functions, host functions, struct types and globals are entries of tables and are
referred to by their position. Values and blocks are numbered within one function.
-/

namespace BlockForge.Ir

/-- The tables of a module. -/
inductive Table where
  | value | block | func | host | struct | global
  deriving DecidableEq, Repr

/-- The position of an entry in one table. -/
structure Id (table : Table) where
  index : Nat
  deriving DecidableEq, Repr, Inhabited

abbrev ValueId := Id .value
abbrev BlockId := Id .block
abbrev FuncId := Id .func
abbrev HostId := Id .host
abbrev StructId := Id .struct
abbrev GlobalId := Id .global

/-- The letters before a number in messages. -/
def Table.tag : Table → String
  | value => "v" | block => "bb" | func => "fn" | host => "ext" | struct => "struct"
  | global => "global"

namespace Id

def render {t : Table} (id : Id t) : String := t.tag ++ toString id.index

/-- A list of ids in brackets. -/
def renderList {t : Table} (ids : List (Id t)) : String :=
  "[" ++ String.intercalate ", " (ids.map render) ++ "]"

/-- The block where every function starts. -/
def entry : BlockId := ⟨0⟩

end Id

end BlockForge.Ir
