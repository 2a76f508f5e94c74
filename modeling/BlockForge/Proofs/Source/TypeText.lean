import BlockForge.Source.Tree
import Mathlib.Data.List.TakeWhile

/-!
# The text of written types

`Unspaced` says what is left of a text when the blanks around each nesting level are removed, without
reading it: every text has exactly one such form, and it is the one that the reader's result is written in.
Adding a type to a program under construction changes nothing about it: its names go through the interner
and its levels through the type table, and the tree that comes out is the one that was read.
-/

namespace BlockForge.Text

/-! ### Blanks -/

/-- Only blanks. -/
def Blanks (cs : List Char) : Prop := ∀ c ∈ cs, isBlank c = true

/-- No blank at either end. -/
structure Trimmed (cs : List Char) : Prop where
  head : ∀ c ∈ cs.head?, isBlank c = false
  last : ∀ c ∈ cs.getLast?, isBlank c = false

theorem Blanks.nil : Blanks [] := by simp [Blanks]

theorem Blanks.reverse {cs : List Char} (h : Blanks cs) : Blanks cs.reverse :=
  fun c hc => h c (List.mem_reverse.1 hc)

theorem Trimmed.reverse {cs : List Char} (h : Trimmed cs) : Trimmed cs.reverse :=
  ⟨by simpa using h.last, by simpa using h.head⟩

theorem trimStart_append {front : List Char} (h : Blanks front) (cs : List Char) :
    trimStart (front ++ cs) = trimStart cs := List.dropWhile_append_of_pos h

theorem trimStart_trimmed {cs : List Char} (h : Trimmed cs) (back : List Char) :
    trimStart (cs ++ back) = cs ++ back ∨ cs = [] := by
  cases cs with
  | nil => exact .inr rfl
  | cons c rest => exact .inl (List.dropWhile_cons_of_neg (by simpa using h.head))

theorem trimStart_eq_nil {cs : List Char} (h : Blanks cs) : trimStart cs = [] := by
  have := trimStart_append h []
  rwa [List.append_nil] at this

/-- Trimming removes exactly the blanks around a trimmed text. -/
theorem trim_append {front core back : List Char} (hf : Blanks front) (hb : Blanks back)
    (hc : Trimmed core) : trim (front ++ core ++ back) = core := by
  rw [trim, List.append_assoc, trimStart_append hf]
  rcases trimStart_trimmed hc back with h | rfl
  · rw [h, List.reverse_append, trimStart_append hb.reverse]
    rcases trimStart_trimmed hc.reverse [] with h | h
    · rw [List.append_nil] at h
      rw [h, List.reverse_reverse]
    · rw [h]
      exact (List.reverse_eq_nil_iff.1 h).symm
  · rw [List.nil_append, trimStart_eq_nil hb]
    rfl

theorem trim_of_trimmed {cs : List Char} (h : Trimmed cs) : trim cs = cs := by
  have := trim_append Blanks.nil Blanks.nil h
  rwa [List.nil_append, List.append_nil] at this

theorem exists_trimStart (cs : List Char) :
    ∃ front, Blanks front ∧ cs = front ++ trimStart cs ∧ ∀ c ∈ (trimStart cs).head?, isBlank c = false := by
  refine ⟨cs.takeWhile isBlank, fun c hc => List.mem_takeWhile_imp hc,
    List.takeWhile_append_dropWhile.symm, fun c hc => ?_⟩
  have h := List.head?_dropWhile_not isBlank cs
  rw [← trimStart, Option.mem_def.1 hc] at h
  simpa using h

/-- Every text is a trimmed one with blanks around it. -/
theorem exists_trim (cs : List Char) :
    ∃ front back, Blanks front ∧ Blanks back ∧ Trimmed (trim cs) ∧ cs = front ++ trim cs ++ back := by
  obtain ⟨front, hf, hcs, hhead⟩ := exists_trimStart cs
  obtain ⟨back, hb, hrev, hlast⟩ := exists_trimStart (trimStart cs).reverse
  have hmid : trimStart cs = trim cs ++ back.reverse := by
    rw [← List.reverse_reverse (trimStart cs), hrev, List.reverse_append]
    rfl
  refine ⟨front, back.reverse, hf, hb.reverse, ⟨fun c hc => ?_, fun c hc => ?_⟩, ?_⟩
  · refine hhead c ?_
    rw [hmid, List.head?_append, Option.mem_def.1 hc]
    rfl
  · rw [trim, List.getLast?_reverse] at hc
    exact hlast c hc
  · rw [List.append_assoc, ← hmid, ← hcs]

end BlockForge.Text

namespace BlockForge.Source

open Text (Blanks Trimmed exists_trim trim_append)

/-! ### Nesting levels -/

/-- A vector of what is written inside. -/
def vectorText (inner : List Char) : List Char :=
  ['V', 'e', 'c', 't', 'o', 'r', '<'] ++ inner ++ ['>']

/-- A text, and what is left of it without the blanks around each nesting level. -/
inductive Unspaced : List Char → List Char → Prop
  | plain {front core back} (hf : Blanks front) (hb : Blanks back) (hc : Trimmed core)
      (hv : ∀ inner, core ≠ vectorText inner) : Unspaced (front ++ core ++ back) core
  | vector {front inner core back} (hf : Blanks front) (hb : Blanks back) (h : Unspaced inner core) :
      Unspaced (front ++ vectorText inner ++ back) (vectorText core)

theorem vectorFront : "Vector<".toList = ['V', 'e', 'c', 't', 'o', 'r', '<'] := by simp

theorem trimmed_vectorText (inner : List Char) : Trimmed (vectorText inner) := by
  constructor
  · intro c hc
    obtain rfl : 'V' = c := by simpa [vectorText] using hc
    decide
  · intro c hc
    rw [vectorText, List.getLast?_concat] at hc
    cases hc
    decide

theorem vectorText_ne_unit (inner : List Char) : vectorText inner ≠ ['(', ')'] := by
  simp [vectorText]

theorem vectorText_inj {a b : List Char} (h : vectorText a = vectorText b) : a = b :=
  List.append_cancel_left (List.append_cancel_right h)

namespace TypeExpr

theorem vectorElem?_eq_some {cs inner : List Char} :
    vectorElem? cs = some inner ↔ cs = vectorText inner := by
  unfold vectorElem? dropFront? dropLast? vectorText
  rw [vectorFront]
  constructor
  · intro h
    split at h
    · rename_i hfront
      obtain ⟨rest, rfl⟩ := List.isPrefixOf_iff_prefix.1 hfront
      rw [Option.bind_some, List.drop_left] at h
      split at h
      · rename_i hlast
        obtain ⟨body, rfl⟩ := List.getLast?_eq_some_iff.1 hlast
        cases h
        rw [List.dropLast_concat, List.append_assoc]
      · cases h
    · cases h
  · rintro rfl
    simp

/-! ### Reading by levels -/

theorem ofChars_unit {cs : List Char} (h : Text.trim cs = ['(', ')']) : ofChars cs = unit := by
  rw [ofChars, if_pos h]

theorem ofChars_vector {cs inner : List Char} (h : Text.trim cs = vectorText inner) :
    ofChars cs = vector (ofChars inner) := by
  rw [ofChars, if_neg (by rw [h]; exact vectorText_ne_unit inner)]
  split
  · rename_i inner' h'
    rw [h, vectorElem?_eq_some] at h'
    rw [vectorText_inj h']
  · rename_i h'
    rw [h, vectorElem?_eq_some.2 rfl] at h'
    cases h'

theorem ofChars_named {cs : List Char} (hu : Text.trim cs ≠ ['(', ')'])
    (hv : ∀ inner, Text.trim cs ≠ vectorText inner) :
    ofChars cs = named (String.ofList (Text.trim cs)) := by
  rw [ofChars, if_neg hu]
  split
  · rename_i inner h
    exact absurd (vectorElem?_eq_some.1 h) (hv inner)
  · rfl

theorem toList_render_vector (elem : TypeExpr) :
    (vector elem).render.toList = vectorText elem.render.toList := by
  have hback : ">".toList = ['>'] := by simp
  simp only [render, String.toList_append, vectorText, vectorFront, hback]

/-- A text is read as the type that its unspaced form writes. -/
theorem render_of_unspaced {cs core : List Char} (h : Unspaced cs core) :
    (ofChars cs).render.toList = core := by
  induction h with
  | @plain front core back hf hb hc hv =>
    have htrim := trim_append hf hb hc
    by_cases hu : core = ['(', ')']
    · rw [ofChars_unit (htrim.trans hu), hu]
      rfl
    · rw [ofChars_named (by rwa [htrim]) (by rwa [htrim]), htrim]
      simp [render]
  | @vector front inner core back hf hb _ ih =>
    rw [ofChars_vector (trim_append hf hb (trimmed_vectorText inner)), toList_render_vector, ih]

/-- A text is read like its unspaced form. -/
theorem ofChars_of_unspaced {cs core : List Char} (h : Unspaced cs core) : ofChars cs = ofChars core := by
  induction h with
  | @plain front core back hf hb hc hv =>
    have htrim := (trim_append hf hb hc).trans (Text.trim_of_trimmed hc).symm
    by_cases hu : Text.trim core = ['(', ')']
    · rw [ofChars_unit (htrim.trans hu), ofChars_unit hu]
    · have hv' : ∀ inner, Text.trim core ≠ vectorText inner := by rwa [Text.trim_of_trimmed hc]
      rw [ofChars_named (by rwa [htrim]) (by rwa [htrim]), ofChars_named hu hv', htrim]
  | @vector front inner core back hf hb _ ih =>
    rw [ofChars_vector (trim_append hf hb (trimmed_vectorText inner)),
      ofChars_vector (Text.trim_of_trimmed (trimmed_vectorText core)), ih]

/-- Every text has an unspaced form. -/
theorem unspaced_render (cs : List Char) : Unspaced cs (ofChars cs).render.toList := by
  obtain ⟨front, back, hf, hb, hc, hcs⟩ := exists_trim cs
  by_cases hv : ∃ inner, Text.trim cs = vectorText inner
  · obtain ⟨inner, hinner⟩ := hv
    have hlt : inner.length < cs.length :=
      Nat.lt_of_lt_of_le (length_vectorElem?_lt (vectorElem?_eq_some.2 hinner)) (Text.length_trim_le cs)
    rw [ofChars_vector hinner, toList_render_vector]
    rw [hinner] at hcs
    exact hcs ▸ .vector hf hb (unspaced_render inner)
  · have hplain : Unspaced (front ++ Text.trim cs ++ back) (Text.trim cs) :=
      .plain hf hb hc fun inner h => hv ⟨inner, h⟩
    rw [← hcs] at hplain
    rw [render_of_unspaced hplain]
    exact hplain
termination_by cs.length

end TypeExpr

/-! ### Types in the table -/

namespace Draft

/-- The tree of a node over the trees of earlier ones. -/
def typeTree (names : Interner) (built : Array TypeExpr) : TypeNode → TypeExpr
  | .unit => .unit
  | .named n => .named (names.lookup n)
  | .vector elem => .vector (built.getD elem.index default)

theorem typeTrees_push (names : Interner) (types : Array TypeNode) (node : TypeNode) :
    typeTrees names (types.push node) =
      (typeTrees names types).push (typeTree names (typeTrees names types) node) := by
  simp only [typeTrees, Array.foldl_push]
  cases node <;> rfl

theorem size_typeTrees (names : Interner) (types : Array TypeNode) :
    (typeTrees names types).size = types.size := by
  refine Array.foldl_induction (fun n (built : Array TypeExpr) => built.size = n) rfl fun n built h => ?_
  simp [h]

end Draft

namespace Builder

/-- The tree of a type that has been added. -/
def typeAt (b : Builder) (id : TypeId) : TypeExpr :=
  (Draft.typeTrees b.names b.draft.arena.types).getD id.index default

/-- The tree of a type that is added from its text. -/
def readType (b : Builder) (text : String) : TypeExpr :=
  (Build.type text b).2.typeAt (Build.type text b).1

/-- The last node of the table, over the trees of the others. -/
theorem typeAt_addType (b : Builder) (node : TypeNode) :
    (Build.onArena (·.addType node) b).2.typeAt (Build.onArena (·.addType node) b).1 =
      Draft.typeTree b.names (Draft.typeTrees b.names b.draft.arena.types) node := by
  have hsize := Draft.size_typeTrees b.names b.draft.arena.types
  simp only [typeAt, Build.onArena, Arena.addType, Draft.typeTrees_push]
  simp [Array.getD_eq_getD_getElem?, ← hsize]

/-- A type is added as it is, level by level, each name under the number that stands for it. -/
theorem typeAt_typeExpr (b : Builder) (t : TypeExpr) :
    (Build.typeExpr t b).2.typeAt (Build.typeExpr t b).1 = t := by
  induction t generalizing b with
  | unit => exact typeAt_addType b .unit
  | named name =>
    refine (typeAt_addType (Build.name name b).2 (.named (Build.name name b).1)).trans ?_
    exact congrArg TypeExpr.named (Interner.lookup_intern b.names name)
  | vector elem ih =>
    refine (typeAt_addType (Build.typeExpr elem b).2 (.vector (Build.typeExpr elem b).1)).trans ?_
    exact congrArg TypeExpr.vector (ih b)

theorem readType_eq (b : Builder) (text : String) : b.readType text = .ofText text :=
  typeAt_typeExpr b (.ofText text)

end Builder

end BlockForge.Source
