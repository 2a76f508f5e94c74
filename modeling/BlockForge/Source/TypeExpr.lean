import BlockForge.Text.Blank

/-!
# Written types

A type annotation is `()`, `Vector<T>` or a name, with blanks allowed around each level.
`TypeExpr.ofText` reads one; every text is some written type, since a name may be any text. Whether
a name denotes a type is decided later, against the declared types.
-/

namespace BlockForge.Source

/-- A type as written. -/
inductive TypeExpr where
  | unit
  | named (name : String)
  | vector (elem : TypeExpr)
  deriving DecidableEq, Repr, Inhabited

namespace TypeExpr

/-- The text without its first characters, if it starts with `front`. -/
def dropFront? (front : List Char) (cs : List Char) : Option (List Char) :=
  if front.isPrefixOf cs then some (cs.drop front.length) else none

/-- The text without its last character, if that is `c`. -/
def dropLast? (c : Char) (cs : List Char) : Option (List Char) :=
  if cs.getLast? = some c then some cs.dropLast else none

/-- What stands between `Vector<` and a final `>`. -/
def vectorElem? (cs : List Char) : Option (List Char) :=
  (dropFront? "Vector<".toList cs).bind (dropLast? '>')

theorem length_vectorElem?_lt {cs inner : List Char} (h : vectorElem? cs = some inner) :
    inner.length < cs.length := by
  simp only [vectorElem?, dropFront?] at h
  split at h
  · rename_i front
    have hlen : "Vector<".toList.length = 7 := by decide
    have := (List.isPrefixOf_iff_prefix.1 front).length_le
    simp only [Option.bind_some, dropLast?] at h
    split at h
    · cases h
      simp only [List.length_dropLast, List.length_drop]
      omega
    · cases h
  · cases h

/-- Reads a written type. -/
def ofChars (cs : List Char) : TypeExpr :=
  if Text.trim cs = ['(', ')'] then unit
  else
    match _h : vectorElem? (Text.trim cs) with
    | some inner => vector (ofChars inner)
    | none => named (String.ofList (Text.trim cs))
termination_by cs.length
decreasing_by
  have h₁ := length_vectorElem?_lt _h
  have h₂ := Text.length_trim_le cs
  omega

/-- Reads a written type from text. -/
def ofText (text : String) : TypeExpr := ofChars text.toList

/-- The written form without blanks. -/
def render : TypeExpr → String
  | unit => "()"
  | named name => name
  | vector elem => "Vector<" ++ elem.render ++ ">"

end TypeExpr

end BlockForge.Source
