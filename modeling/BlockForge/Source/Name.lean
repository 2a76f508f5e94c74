import Std.Data.HashMap

/-!
# Interned names

An interner numbers texts in order of first occurrence, the empty text first. `Interner.intern`
gives equal names exactly to equal texts, and `Interner.lookup` gives a name's text back.
-/

namespace BlockForge.Source

/-- The number of an interned text. -/
structure Name where
  index : Nat
  deriving DecidableEq, Repr

namespace Name

/-- The name of the empty text. -/
def empty : Name := ⟨0⟩

instance : Inhabited Name := ⟨empty⟩

def render (n : Name) : String := "Name(" ++ toString n.index ++ ")"

end Name

/-- Texts by number, and the number of each text. -/
structure Interner where
  texts : Array String
  index : Std.HashMap String Nat
  /-- The two are inverse to each other. -/
  index_iff : ∀ {text : String} {n : Nat}, index[text]? = some n ↔ texts[n]? = some text

namespace Interner

/-- Holds only the empty text. -/
def empty : Interner where
  texts := #[""]
  index := ({} : Std.HashMap String Nat).insert "" 0
  index_iff := fun {text n} => by
    simp only [Std.HashMap.getElem?_insert, Std.HashMap.getElem?_empty]
    by_cases h : "" = text
    · subst h
      cases n <;> simp
    · cases n <;> simp [h]

instance : Inhabited Interner := ⟨empty⟩

/-- The next number for a new text keeps texts and numbers inverse. -/
theorem index_iff_push (i : Interner) {new : String} (hnew : i.index[new]? = none) {text : String}
    {n : Nat} : (i.index.insert new i.texts.size)[text]? = some n ↔ (i.texts.push new)[n]? = some text := by
  simp only [Std.HashMap.getElem?_insert, beq_iff_eq, Array.getElem?_push]
  have hlt : ∀ {m s}, i.texts[m]? = some s → m < i.texts.size := fun hm =>
    (Array.getElem?_eq_some_iff.1 hm).1
  by_cases ht : new = text
  · subst ht
    have hout : i.texts[n]? ≠ some new := fun hn => by
      rw [i.index_iff.2 hn] at hnew
      cases hnew
    by_cases hn : n = i.texts.size
    · simp [hn]
    · simp [hn, hout, Ne.symm hn]
  · by_cases hn : n = i.texts.size
    · subst hn
      have hout : i.index[text]? ≠ some i.texts.size := fun hn =>
        absurd (hlt (i.index_iff.1 hn)) (Nat.lt_irrefl _)
      simp [ht, hout]
    · simp [ht, hn, i.index_iff]

/-- The name of a text, new if the text was not seen before. -/
def intern (i : Interner) (text : String) : Name × Interner :=
  match h : i.index[text]? with
  | some n => (⟨n⟩, i)
  | none =>
    let n := i.texts.size
    (⟨n⟩, ⟨i.texts.push text, i.index.insert text n, i.index_iff_push h⟩)

/-- The text of a name; the empty text for a name never handed out. -/
def lookup (i : Interner) (n : Name) : String := i.texts.getD n.index ""

theorem lookup_intern (i : Interner) (text : String) : (i.intern text).2.lookup (i.intern text).1 = text := by
  unfold intern
  split
  · rename_i n hn
    simp [lookup, Array.getD_eq_getD_getElem?, i.index_iff.1 hn]
  · simp [lookup]

/-- How many texts have a name, the empty one included. -/
def size (i : Interner) : Nat := i.texts.size

/-- An interner always holds the empty text. -/
def isEmpty (_ : Interner) : Bool := false

end Interner

/-- Interning stops once every 32-bit number is taken. -/
structure InternOverflow where
  count : Nat
  deriving DecidableEq, Repr

def InternOverflow.message (e : InternOverflow) : String :=
  "interner exceeded capacity: " ++ toString e.count ++ " strings, max is 4294967295"

/-- The name of a text, unless the text is new and no number is left for it. -/
def Interner.tryIntern (i : Interner) (text : String) : Except InternOverflow (Name × Interner) :=
  match i.index[text]? with
  | some n => .ok (⟨n⟩, i)
  | none => if i.texts.size < UInt32.size then .ok (i.intern text) else .error ⟨i.texts.size⟩

end BlockForge.Source
