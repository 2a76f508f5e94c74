import BlockForge.Source.Name
import Mathlib.Data.List.Basic
import Mathlib.Data.List.Induction

/-!
# Numbers and texts

An interner that has seen a list of texts holds exactly these and the empty one, each once, in order of first
occurrence. `Interner.Lists` says so; one more text keeps it, and every name handed out is a place in that list.
-/

namespace BlockForge.Source.Interner

variable {i : Interner} {seen : List String}

/-! ### One more text -/

/-- The table holds the given texts, each once, in order of first occurrence. -/
def Lists (i : Interner) (seen : List String) : Prop := i.texts.toList = seen.eraseDups

theorem lists_empty : Interner.empty.Lists [""] := by
  simp [Lists, Interner.empty, List.eraseDups_cons]

theorem Lists.size_eq (h : i.Lists seen) : i.texts.size = seen.eraseDups.length := by
  rw [← h, Array.length_toList]

theorem eraseDups_concat_of_mem {text : String} (h : text ∈ seen) :
    (seen ++ [text]).eraseDups = seen.eraseDups := by
  simp [List.eraseDups_append, List.removeAll, h]

theorem eraseDups_concat_of_not_mem {text : String} (h : text ∉ seen) :
    (seen ++ [text]).eraseDups = seen.eraseDups ++ [text] := by
  simp [List.eraseDups_append, List.removeAll, List.eraseDups_cons, h]

/-- The number of a text is its place in the list. -/
theorem Lists.index_of_mem (h : i.Lists seen) {text : String} (ht : text ∈ seen) :
    i.index[text]? = some (seen.eraseDups.idxOf text) := by
  rw [i.index_iff, ← Array.getElem?_toList, h]
  exact List.getElem?_idxOf (List.mem_eraseDups.2 ht)

theorem Lists.index_of_not_mem (h : i.Lists seen) {text : String} (ht : text ∉ seen) :
    i.index[text]? = none := by
  rw [Option.eq_none_iff_forall_ne_some]
  intro n hn
  rw [i.index_iff, ← Array.getElem?_toList, h] at hn
  exact ht (List.mem_eraseDups.1 (List.mem_of_getElem? hn))

theorem intern_of_index_eq_some {text : String} {n : Nat} (h : i.index[text]? = some n) :
    i.intern text = (⟨n⟩, i) := by
  unfold intern
  split
  · rename_i m hm
    rw [h] at hm
    cases hm
    rfl
  · rename_i hm
    rw [h] at hm
    cases hm

theorem intern_of_index_eq_none {text : String} (h : i.index[text]? = none) :
    (i.intern text).1 = ⟨i.texts.size⟩ ∧ (i.intern text).2.texts = i.texts.push text := by
  unfold intern
  split
  · rename_i m hm
    rw [h] at hm
    cases hm
  · exact ⟨rfl, rfl⟩

/-- A known text leaves the list as it is, a new one goes to its end; the name is the text's place there. -/
theorem Lists.intern (h : i.Lists seen) (text : String) :
    (i.intern text).1 = ⟨(seen ++ [text]).eraseDups.idxOf text⟩ ∧
      (i.intern text).2.Lists (seen ++ [text]) := by
  by_cases ht : text ∈ seen
  · rw [intern_of_index_eq_some (h.index_of_mem ht), Lists, eraseDups_concat_of_mem ht]
    exact ⟨rfl, h⟩
  · obtain ⟨hname, htexts⟩ := intern_of_index_eq_none (h.index_of_not_mem ht)
    have hout : text ∉ seen.eraseDups := fun hin => ht (List.mem_eraseDups.1 hin)
    rw [hname, Lists, htexts, eraseDups_concat_of_not_mem ht, List.idxOf_append_of_notMem hout, h.size_eq]
    exact ⟨by simp, by rw [Array.toList_push, h]⟩

/-- A text is refused only if it is new and every number is taken. -/
theorem Lists.tryIntern (h : i.Lists seen) {text : String}
    (hroom : (seen ++ [text]).eraseDups.length ≤ UInt32.size) : i.tryIntern text = .ok (i.intern text) := by
  by_cases ht : text ∈ seen
  · have hsome := h.index_of_mem ht
    rw [Interner.tryIntern, hsome, intern_of_index_eq_some hsome]
  · rw [eraseDups_concat_of_not_mem ht, List.length_append, ← h.size_eq] at hroom
    rw [Interner.tryIntern, h.index_of_not_mem ht]
    exact if_pos hroom

/-! ### A run of texts -/

/-- Interns one text after the other, until one is refused. -/
def tryInternAll (i : Interner) : List String → Except InternOverflow (List Name × Interner)
  | [] => .ok ([], i)
  | text :: rest => do
    let (name, i) ← i.tryIntern text
    let (names, i) ← i.tryInternAll rest
    pure (name :: names, i)

/-- The name of a text after a run: its place among the texts seen. -/
def placeName (seen : List String) (text : String) : Name := ⟨seen.eraseDups.idxOf text⟩

/-- Later texts do not move the earlier ones. -/
theorem placeName_append {text : String} (h : text ∈ seen) (more : List String) :
    placeName (seen ++ more) text = placeName seen text := by
  rw [placeName, List.eraseDups_append, List.idxOf_append_of_mem (List.mem_eraseDups.2 h), placeName]

theorem length_eraseDups_append_le (seen more : List String) :
    seen.eraseDups.length ≤ (seen ++ more).eraseDups.length := by
  rw [List.eraseDups_append, List.length_append]
  exact Nat.le_add_right _ _

/-- One text in front of others is at most one more. -/
theorem length_eraseDups_cons_le (text : String) (texts : List String) :
    (text :: texts).eraseDups.length ≤ texts.eraseDups.length + 1 := by
  induction texts using List.reverseRecOn with
  | nil => simp [List.eraseDups_cons]
  | append_singleton texts last ih =>
    rw [← List.cons_append]
    by_cases hlast : last ∈ text :: texts
    · rw [eraseDups_concat_of_mem hlast]
      exact Nat.le_trans ih (Nat.succ_le_succ (length_eraseDups_append_le texts [last]))
    · rw [eraseDups_concat_of_not_mem hlast,
        eraseDups_concat_of_not_mem fun hin => hlast (List.mem_cons_of_mem text hin),
        List.length_append, List.length_append]
      exact Nat.succ_le_succ ih

/-- While numbers last, a run names each text by its place and leaves the list of all texts seen. -/
theorem Lists.tryInternAll (h : i.Lists seen) (texts : List String)
    (hroom : (seen ++ texts).eraseDups.length ≤ UInt32.size) :
    ∃ i', i.tryInternAll texts = .ok (texts.map (placeName (seen ++ texts)), i') ∧
      i'.Lists (seen ++ texts) := by
  induction texts generalizing i seen with
  | nil => exact ⟨i, rfl, by rwa [List.append_nil]⟩
  | cons text rest ih =>
    rw [List.append_cons] at hroom ⊢
    obtain ⟨hname, hlists⟩ := h.intern text
    obtain ⟨i', hrun, hi'⟩ := ih hlists hroom
    have hstep := h.tryIntern (Nat.le_trans (length_eraseDups_append_le _ rest) hroom)
    refine ⟨i', ?_, hi'⟩
    have hplace : (i.intern text).1 = placeName (seen ++ [text] ++ rest) text :=
      hname.trans (placeName_append (by simp) rest).symm
    simp only [Interner.tryInternAll, hstep, bind, Except.bind, hrun, hplace, List.map_cons]
    rfl

/-! ### Reading names back -/

/-- The text of a place in the list. -/
theorem Lists.lookup (h : i.Lists seen) (n : Name) :
    i.lookup n = (seen.eraseDups[n.index]?).getD "" := by
  rw [Interner.lookup, Array.getD_eq_getD_getElem?, ← Array.getElem?_toList, h]

theorem Lists.lookup_placeName (h : i.Lists seen) {text : String} (ht : text ∈ seen) :
    i.lookup (placeName seen text) = text := by
  rw [h.lookup, placeName, List.getElem?_idxOf (List.mem_eraseDups.2 ht)]
  rfl

/-- Every number below the size of the list is the place of one of its texts. -/
theorem Lists.exists_placeName (h : i.Lists seen) {n : Name} (hn : n.index < i.texts.size) :
    ∃ text ∈ seen, placeName seen text = n := by
  rw [h.size_eq] at hn
  have hget := List.getElem?_eq_getElem hn
  have hmem : seen.eraseDups[n.index] ∈ seen := List.mem_eraseDups.1 (List.getElem_mem hn)
  refine ⟨_, hmem, ?_⟩
  have hindex := h.index_of_mem hmem
  rw [i.index_iff.2 (by rw [← Array.getElem?_toList, h, hget])] at hindex
  rw [placeName, ← Option.some.inj hindex]

theorem placeName_inj {text text' : String} (h : text ∈ seen) :
    placeName seen text = placeName seen text' ↔ text = text' := by
  rw [placeName, placeName, Name.mk.injEq, List.idxOf_inj (List.mem_eraseDups.2 h)]

/-- What a run that started with the empty table has made of some texts. -/
structure Numbered (i : Interner) (texts : List String) (names : List Name) : Prop where
  /-- The table has the texts in order of first occurrence, after the empty one. -/
  order : i.texts.toList = ("" :: texts).eraseDups
  /-- Each text has the number of its place there. -/
  names_eq : names = texts.map (placeName ("" :: texts))
  small : ∀ name ∈ names, name.index < UInt32.size
  zero : i.index[""]? = some 0 ∧ i.lookup Name.empty = ""
  /-- The two tables are inverse to each other. -/
  inverse : ∀ (text : String) (n : Nat), i.index[text]? = some n ↔ i.texts[n]? = some text
  given : ∀ p ∈ texts.zip names, i.index[p.1]? = some p.2.index ∧ i.lookup p.2 = p.1
  injective : ∀ p ∈ texts.zip names, ∀ q ∈ texts.zip names, p.2 = q.2 ↔ p.1 = q.1
  /-- A name that was not given stands for the empty text. -/
  unknown : ∀ name, name ∉ names → i.lookup name = ""

theorem mem_zip_map {α β : Type} {f : α → β} {l : List α} {p : α × β} (h : p ∈ l.zip (l.map f)) :
    p.1 ∈ l ∧ p.2 = f p.1 := by
  have hzip : l.zip (l.map f) = l.map fun a => (a, f a) := by
    simpa using List.zip_map' (f := id) (g := f) (l := l)
  rw [hzip, List.mem_map] at h
  obtain ⟨a, ha, rfl⟩ := h
  exact ⟨ha, rfl⟩

theorem Lists.numbered {texts : List String} (h : i.Lists ("" :: texts))
    (hroom : ("" :: texts).eraseDups.length ≤ UInt32.size) :
    i.Numbered texts (texts.map (placeName ("" :: texts))) where
  order := h
  names_eq := rfl
  small name hname := by
    obtain ⟨text, htext, rfl⟩ := List.mem_map.1 hname
    have hin := List.mem_eraseDups.2 (List.mem_cons_of_mem "" htext)
    exact Nat.lt_of_lt_of_le (List.idxOf_lt_length_iff.2 hin) hroom
  zero := by
    have hin : "" ∈ "" :: texts := List.mem_cons_self
    have hplace : ("" :: texts).eraseDups.idxOf "" = 0 := by rw [List.eraseDups_cons, List.idxOf_cons_self]
    have hlookup := h.lookup_placeName hin
    rw [placeName, hplace] at hlookup
    exact ⟨hplace ▸ h.index_of_mem hin, hlookup⟩
  inverse _ _ := i.index_iff
  given p hp := by
    obtain ⟨hin, hname⟩ := mem_zip_map hp
    rw [hname]
    have hin := List.mem_cons_of_mem "" hin
    exact ⟨h.index_of_mem hin, h.lookup_placeName hin⟩
  injective p hp q hq := by
    obtain ⟨hin, hname⟩ := mem_zip_map hp
    rw [hname, (mem_zip_map hq).2]
    exact placeName_inj (List.mem_cons_of_mem "" hin)
  unknown name hname := by
    by_cases hlt : name.index < i.texts.size
    · obtain ⟨text, htext, rfl⟩ := h.exists_placeName hlt
      rcases List.mem_cons.1 htext with rfl | htext
      · exact h.lookup_placeName List.mem_cons_self
      · exact absurd (List.mem_map_of_mem htext) hname
    · rw [Interner.lookup, Array.getD_eq_getD_getElem?, Array.getElem?_eq_none (Nat.le_of_not_lt hlt)]
      rfl

/-- As long as fewer than `2^32` different texts come, none is refused. The names of those so far number them once
and for all, and go on to stand for them whatever comes next. -/
theorem numbered_of_few (texts more : List String)
    (hfew : (texts ++ more).eraseDups.length < UInt32.size) :
    ∃ names i later i', Interner.empty.tryInternAll texts = .ok (names, i) ∧ i.Numbered texts names ∧
      i.tryInternAll more = .ok (later, i') ∧ ∀ p ∈ texts.zip names, i'.lookup p.2 = p.1 := by
  have hall : ("" :: texts ++ more).eraseDups.length ≤ UInt32.size :=
    Nat.le_trans (length_eraseDups_cons_le "" (texts ++ more)) hfew
  have hroom := Nat.le_trans (length_eraseDups_append_le ("" :: texts) more) hall
  obtain ⟨i, hrun, hi⟩ : ∃ i, Interner.empty.tryInternAll texts =
      .ok (texts.map (placeName ("" :: texts)), i) ∧ i.Lists ("" :: texts) :=
    lists_empty.tryInternAll texts hroom
  obtain ⟨i', hmore, hi'⟩ := hi.tryInternAll more hall
  refine ⟨_, i, _, i', hrun, Lists.numbered hi hroom, hmore, fun p hp => ?_⟩
  obtain ⟨hin, hname⟩ := mem_zip_map hp
  have hin : p.1 ∈ "" :: texts := List.mem_cons_of_mem "" hin
  rw [hname, ← placeName_append hin more]
  exact hi'.lookup_placeName (List.mem_append_left more hin)

/-- A repeated text, the empty one and a later one. -/
theorem numbered_of_repeated :
    (["b", "a", "b", ""] ++ ["c"]).eraseDups.length < UInt32.size ∧
    ∃ i later i', Interner.empty.tryInternAll ["b", "a", "b", ""] = .ok ([⟨1⟩, ⟨2⟩, ⟨1⟩, ⟨0⟩], i) ∧
      i.texts.toList = ["", "b", "a"] ∧ i.tryInternAll ["c"] = .ok (later, i') ∧ i'.lookup ⟨2⟩ = "a" := by
  have hfew : (["b", "a", "b", ""] ++ ["c"]).eraseDups.length < UInt32.size := by decide
  obtain ⟨names, i, later, i', hrun, hi, hmore, hlater⟩ := numbered_of_few ["b", "a", "b", ""] ["c"] hfew
  have hnames : names = [⟨1⟩, ⟨2⟩, ⟨1⟩, ⟨0⟩] := hi.names_eq.trans (by decide)
  subst hnames
  exact ⟨hfew, i, later, i', hrun, hi.order.trans (by decide), hmore, hlater ("a", ⟨2⟩) (by decide)⟩

end BlockForge.Source.Interner
