import BlockForge.Proofs.Source.TypeText
import BlockForge.Proofs.Lowering.State

/-!
# Types through their text

A type that can be written is the one its text stands for, however many blanks the text has around its
nesting levels, and no other text without those blanks stands for it.
-/

namespace BlockForge.Lowering

open BlockForge.Types (Ty)
open Source (Builder TypeExpr Unspaced vectorText)
open Text (Blanks Trimmed)

/-! ### Names -/

/-- A text that can only be read as a name. -/
structure PlainName (name : String) : Prop where
  trimmed : Trimmed name.toList
  unit : name ≠ "()"
  vector : ∀ inner, name.toList ≠ vectorText inner

theorem ofText_plain {name : String} (h : PlainName name) : TypeExpr.ofText name = .named name := by
  have htrim := Text.trim_of_trimmed h.trimmed
  have hunit : name.toList ≠ ['(', ')'] := fun hu =>
    h.unit (String.toList_injective (hu.trans (by simp)))
  rw [TypeExpr.ofText, TypeExpr.ofChars_named (by rwa [htrim]) (by rw [htrim]; exact h.vector), htrim,
    String.ofList_toList]

theorem render_primitives : ∀ p ∈ Ty.primitives, p.2.render = p.1 := by decide

/-- The built-in names are short and without blanks. -/
theorem primitives_plain : ∀ p ∈ Ty.primitives, p.1.toList.length < 8 ∧ p.1 ≠ "()" := by decide

theorem primitives_unblank : ∀ p ∈ Ty.primitives, ∀ c ∈ p.1.toList, Text.isBlank c = false := by
  simp [Ty.primitives, Text.isBlank, Text.blankRanges]

theorem render_of_primitive {name : String} {t : Ty} (h : Ty.primitive? name = some t) : t.render = name :=
  render_primitives _ (mem_of_lookup h)

theorem plain_of_primitive {name : String} {t : Ty} (h : Ty.primitive? name = some t) : PlainName name := by
  obtain ⟨hlen, hunit⟩ := primitives_plain _ (mem_of_lookup h)
  have hblank := primitives_unblank _ (mem_of_lookup h)
  refine ⟨⟨fun c hc => hblank c (List.mem_of_mem_head? hc), fun c hc => hblank c (List.mem_of_getLast? hc)⟩,
    hunit, fun inner hv => ?_⟩
  have := congrArg List.length hv
  simp only [vectorText, List.length_append, List.length_cons, List.length_nil] at this
  dsimp only at hlen
  omega

/-! ### Types -/

/-- The types that can be written: the unit type, the built-in ones, the declared record types whose name
is read as a name, and vectors of these. -/
inductive Writable (tables : Tables) : Ty → Prop
  | unit : Writable tables .unit
  | primitive {name t} (h : Ty.primitive? name = some t) : Writable tables t
  | record {name} (hp : Ty.primitive? name = none) (hn : PlainName name)
      (hr : (tables.record? name).isSome = true) : Writable tables (.record name)
  | vector {elem} (h : Writable tables elem) : Writable tables (.vector elem)

variable {tables : Tables}

/-- A type is shown as it was written, without the blanks. -/
theorem render_of_resolve {e : TypeExpr} {t : Ty} (h : tables.resolve e = .ok t) : t.render = e.render := by
  induction e generalizing t with
  | unit =>
    cases h
    rfl
  | named name =>
    rw [Tables.resolve] at h
    split at h
    · rename_i hp
      cases h
      exact render_of_primitive hp
    · split at h
      · cases h
        rfl
      · cases h
  | vector elem ih =>
    rw [Tables.resolve] at h
    cases helem : tables.resolve elem with
    | error name =>
      rw [helem] at h
      cases h
    | ok u =>
      rw [helem] at h
      cases h
      rw [Ty.render, TypeExpr.render, ih helem]

theorem ofText_vector (inner : String) :
    TypeExpr.ofText ("Vector<" ++ inner ++ ">") = .vector (.ofText inner) := by
  have htext : ("Vector<" ++ inner ++ ">").toList = vectorText inner.toList := by
    simp only [String.toList_append, vectorText, Source.vectorFront]
    congr
  rw [TypeExpr.ofText, htext]
  exact TypeExpr.ofChars_vector (Text.trim_of_trimmed (Source.trimmed_vectorText _))

/-- The text of a type that can be written stands for it. -/
theorem Writable.resolve_render {t : Ty} (h : Writable tables t) :
    tables.resolve (.ofText t.render) = .ok t := by
  induction h with
  | unit =>
    have htrim : Text.trim "()".toList = ['(', ')'] := by decide
    rw [Ty.render, TypeExpr.ofText, TypeExpr.ofChars_unit htrim]
    rfl
  | primitive hp =>
    rw [render_of_primitive hp, ofText_plain (plain_of_primitive hp), Tables.resolve, hp]
  | record hp hn hr =>
    rw [Ty.render, ofText_plain hn, Tables.resolve, hp]
    exact if_pos hr
  | vector _ ih =>
    rw [Ty.render, ofText_vector, Tables.resolve, ih]
    rfl

/-- Adding the text of a type to a program gives the type back; and what a text stands for is decided by
the one text that is left of it without the blanks around its nesting levels. -/
theorem type_text_round_trip (b : Builder) {t : Ty} (ht : Writable tables t) :
    tables.resolve (b.readType t.render) = .ok t ∧
      (∀ text : String, ∃ core : String, Unspaced text.toList core.toList) ∧
      ∀ text core : String, Unspaced text.toList core.toList →
        (tables.resolve (b.readType text) = .ok t ↔ core = t.render) := by
  simp only [Builder.readType_eq]
  refine ⟨ht.resolve_render, fun text => ⟨_, TypeExpr.unspaced_render _⟩, fun text core hu => ?_⟩
  have hcore : (TypeExpr.ofText text).render = core := String.toList_injective (TypeExpr.render_of_unspaced hu)
  constructor
  · intro h
    rw [← hcore, ← render_of_resolve h]
  · rintro rfl
    have := ht.resolve_render
    rwa [TypeExpr.ofText, ← TypeExpr.ofChars_of_unspaced hu] at this

theorem type_text_round_trip_nested :
    let tables : Tables := { records := [("Pair", ⟨⟨0⟩, []⟩)], vector := ⟨1⟩ }
    tables.resolve (({} : Builder).readType "\u2003Vector< Vector<\tPair>\u00a0>") =
      .ok (.vector (.vector (.record "Pair"))) := by
  intro tables
  have hplain : PlainName "Pair" := by
    refine ⟨⟨by simp [Text.isBlank, Text.blankRanges], by simp [Text.isBlank, Text.blankRanges]⟩,
      by decide, fun inner h => ?_⟩
    simp [vectorText] at h
  have ht : Writable tables (.vector (.vector (.record "Pair"))) := .vector (.vector (.record rfl hplain rfl))
  have blanks : ∀ c : Char, Text.isBlank c = true → Blanks [c] := by simp [Blanks]
  have hpair : Unspaced ['\t', 'P', 'a', 'i', 'r'] ['P', 'a', 'i', 'r'] := by
    have := Unspaced.plain (blanks '\t' (by decide)) Blanks.nil hplain.trimmed hplain.vector
    simpa using this
  have hinner := Unspaced.vector (blanks ' ' (by decide)) (blanks '\u00a0' (by decide)) hpair
  have houter := Unspaced.vector (blanks '\u2003' (by decide)) Blanks.nil hinner
  refine ((type_text_round_trip {} ht).2.2 _ _ ?_).2 rfl
  simpa [vectorText, Ty.render] using houter

end BlockForge.Lowering
