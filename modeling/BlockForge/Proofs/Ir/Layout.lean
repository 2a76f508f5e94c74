import BlockForge.Ir.Layout
import Mathlib

/-!
# Fields of a struct do not overlap

Sizes and alignments are computed along the nesting of structs, offsets along the fields of one struct. The two
agree because a nesting without cycles is no deeper than there are struct types, so that no field is cut off.
-/

namespace BlockForge.Ir

/-! ### Rounding up -/

theorem roundUp_bounds (n : Nat) {align : Nat} (h : 0 < align) : n ≤ roundUp n align ∧ roundUp n align < n + align := by
  have hdiv := Nat.div_add_mod' (n + align - 1) align
  have hmod := Nat.mod_lt (n + align - 1) h
  unfold roundUp
  omega

theorem dvd_roundUp (n align : Nat) : align ∣ roundUp n align := Nat.dvd_mul_left align _

namespace Module

variable (m : Module)

/-! ### Nesting -/

/-- A struct has a field of another struct type. -/
def Contains (s t : StructId) : Prop := Ty.struct t ∈ m.structFields s

/-- No struct contains itself, neither directly nor through others. -/
def Acyclic : Prop := ∀ s, ¬Relation.TransGen m.Contains s s

theorem acyclic_of_rank (rank : StructId → Nat) (h : ∀ s t, m.Contains s t → rank t < rank s) :
    m.Acyclic := by
  have hlt : ∀ s t, Relation.TransGen m.Contains s t → rank t < rank s := by
    intro s t hst
    induction hst with
    | single hst => exact h _ _ hst
    | tail _ htu ih => exact Nat.lt_trans (h _ _ htu) ih
  exact fun s hs => Nat.lt_irrefl _ (hlt s s hs)

theorem structFields_eq_nil {s : StructId} (h : m.structs.size ≤ s.index) : m.structFields s = [] := by
  simp [structFields, Array.getElem?_eq_none h]

open Classical in
/-- The struct types nested in a struct, at any depth. -/
noncomputable def nested (s : StructId) : Finset Nat :=
  (Finset.range m.structs.size).filter fun j => Relation.TransGen m.Contains s ⟨j⟩

variable {m}

theorem mem_nested {s : StructId} {j : Nat} :
    j ∈ m.nested s ↔ j < m.structs.size ∧ Relation.TransGen m.Contains s ⟨j⟩ := by
  simp [nested]

theorem card_nested_le (s : StructId) : (m.nested s).card ≤ m.structs.size := by
  have hsub : m.nested s ⊆ Finset.range m.structs.size := fun j hj => Finset.mem_range.2 (mem_nested.1 hj).1
  simpa using Finset.card_le_card hsub

/-- What a struct contains has fewer structs nested in it than the struct, unless it contains itself. -/
theorem card_nested_lt {s t : StructId} (hst : m.Contains s t) (ht : t.index < m.structs.size)
    (hself : ¬Relation.TransGen m.Contains t t) : (m.nested t).card < (m.nested s).card := by
  apply Finset.card_lt_card
  refine Finset.ssubset_iff_subset_ne.2 ⟨?_, ?_⟩
  · intro j hj
    obtain ⟨hlt, htj⟩ := mem_nested.1 hj
    exact mem_nested.2 ⟨hlt, .head hst htj⟩
  · -- what is contained is nested in its container, and not in itself
    intro heq
    have hmem : t.index ∈ m.nested s := mem_nested.2 ⟨ht, .single hst⟩
    rw [← heq] at hmem
    exact hself (mem_nested.1 hmem).2

/-! ### Following the fields -/

theorem not_cycle_of_acc (h : Acc (fun u s => m.Contains s u) s) : ¬Relation.TransGen m.Contains s s := by
  induction h with
  | intro s _ ih =>
    -- a struct on the cycle lies on it as well
    intro hss
    obtain ⟨u, hsu, hus⟩ := Relation.TransGen.head'_iff.1 hss
    exact ih u hsu (Relation.TransGen.trans_right hus (.single hsu))

/-- Without cycles, following the fields of a struct comes to an end. -/
theorem Acyclic.acc (hm : m.Acyclic) (s : StructId) : Acc (fun u s => m.Contains s u) s := by
  -- what is contained has fewer structs nested in it
  induction hn : (m.nested s).card using Nat.strong_induction_on generalizing s with
  | _ n ih =>
    refine .intro s fun u hu => ?_
    by_cases hlt : u.index < m.structs.size
    · exact ih _ (hn ▸ card_nested_lt hu hlt (hm u)) u rfl
    · refine .intro u fun v hv => ?_
      rw [Contains, m.structFields_eq_nil (Nat.le_of_not_lt hlt)] at hv
      cases hv

/-! ### Levels -/

section

variable {f g : Ty → Option (Nat × Nat)} {fields : List Ty} {placed r : Nat × Nat}

/-- Where fields were placed, each of them had a size. -/
theorem exists_of_foldlM_place
    (h : fields.foldlM (fun placed field => return place placed (← f field)) placed = some r) {t : Ty}
    (ht : t ∈ fields) : ∃ q, f t = some q := by
  induction fields generalizing placed with
  | nil => cases ht
  | cons u rest ih =>
    rw [List.foldlM_cons] at h
    obtain ⟨p, hp, hrest⟩ := Option.bind_eq_some_iff.1 h
    obtain ⟨q, hq, -⟩ := Option.bind_eq_some_iff.1 hp
    rcases List.mem_cons.1 ht with rfl | ht
    · exact ⟨q, hq⟩
    · exact ih hrest ht

theorem foldlM_place_mono (h : ∀ t ∈ fields, ∀ q, f t = some q → g t = some q)
    (hf : fields.foldlM (fun placed field => return place placed (← f field)) placed = some r) :
    fields.foldlM (fun placed field => return place placed (← g field)) placed = some r := by
  induction fields generalizing placed with
  | nil => exact hf
  | cons t rest ih =>
    rw [List.foldlM_cons] at hf ⊢
    obtain ⟨p, hp, hrest⟩ := Option.bind_eq_some_iff.1 hf
    obtain ⟨q, hq, hput⟩ := Option.bind_eq_some_iff.1 hp
    rw [h t (List.mem_cons_self ..) q hq]
    refine (Option.bind_some ..).trans (ih (fun u hu => h u (List.mem_cons_of_mem _ hu)) ?_)
    exact Option.some.inj hput ▸ hrest

end

variable (m)

theorem layoutWithin_of_plain {t : Ty} (h : ∀ s, t ≠ .struct s) (depth : Nat) :
    m.layoutWithin depth t = some (m.plainLayout t) := by
  cases t with
  | struct s => exact absurd rfl (h s)
  | _ => cases depth <;> rfl

theorem layoutWithin_struct (depth : Nat) (s : StructId) : m.layoutWithin (depth + 1) (.struct s) =
    ((m.structFields s).foldlM (fun placed field => return place placed (← m.layoutWithin depth field)) (0, 1)).map
      fun placed : Nat × Nat => (roundUp placed.1 placed.2, placed.2) :=
  (Option.map_eq_bind ..).symm

variable {m} {depth : Nat} {s : StructId} {t : Ty} {r : Nat × Nat}

/-- More levels change no result. -/
theorem layoutWithin_mono (h : m.layoutWithin depth t = some r) {more : Nat} (hle : depth ≤ more) :
    m.layoutWithin more t = some r := by
  induction depth generalizing t r more with
  | zero =>
    cases t with
    | struct s => cases h
    | _ => rwa [layoutWithin_of_plain m (by simp)] at h ⊢
  | succ depth ih =>
    obtain ⟨more, rfl⟩ : ∃ k, more = k + 1 := ⟨more - 1, by omega⟩
    cases t with
    | struct s =>
      rw [layoutWithin_struct] at h ⊢
      obtain ⟨p, hp, rfl⟩ := Option.map_eq_some_iff.1 h
      rw [foldlM_place_mono (fun u _ q hq => ih hq (by omega)) hp, Option.map_some]
    | _ => rwa [layoutWithin_of_plain m (by simp)] at h ⊢

/-- Where there is a result, following the fields of a struct comes to an end. -/
theorem acc_of_layoutWithin (h : m.layoutWithin depth (.struct s) = some r) :
    Acc (fun u s => m.Contains s u) s := by
  induction depth generalizing s r with
  | zero => cases h
  | succ depth ih =>
    rw [layoutWithin_struct] at h
    obtain ⟨p, hp, -⟩ := Option.map_eq_some_iff.1 h
    refine .intro s fun u hu => ?_
    obtain ⟨q, hq⟩ := exists_of_foldlM_place hp hu
    exact ih hq

/-- A result takes no more levels than structs are nested, one for the struct itself and one for a field that
is no struct of the module. -/
theorem layoutWithin_nested (h : m.layoutWithin depth (.struct s) = some r) :
    m.layoutWithin ((m.nested s).card + 2) (.struct s) = some r := by
  induction depth generalizing s r with
  | zero => cases h
  | succ depth ih =>
    rw [layoutWithin_struct] at h ⊢
    obtain ⟨p, hp, rfl⟩ := Option.map_eq_some_iff.1 h
    have hfields : ∀ t ∈ m.structFields s, ∀ q, m.layoutWithin depth t = some q →
        m.layoutWithin ((m.nested s).card + 1) t = some q := by
      intro t ht q hq
      cases t with
      | struct u =>
        by_cases hu : u.index < m.structs.size
        · have hlt := card_nested_lt ht hu (not_cycle_of_acc (acc_of_layoutWithin hq))
          exact layoutWithin_mono (ih hq) (by omega)
        · cases depth with
          | zero => cases hq
          | succ depth =>
            rw [layoutWithin_struct, m.structFields_eq_nil (Nat.le_of_not_lt hu)] at hq ⊢
            exact hq
      | _ => rwa [layoutWithin_of_plain m (by simp)] at hq ⊢
    rw [foldlM_place_mono hfields hp, Option.map_some]

/-- Sizing follows enough levels for every type that has a size. -/
theorem sizeAlign?_of_layoutWithin (h : m.layoutWithin depth t = some r) : m.sizeAlign? t = some r := by
  cases t with
  | struct s =>
    have hle := m.card_nested_le s
    exact layoutWithin_mono (layoutWithin_nested h) (by omega)
  | _ => rwa [layoutWithin_of_plain m (by simp)] at h

/-- Sizes depend on the struct types and on the width of pointers alone. -/
theorem layoutWithin_congr {m n : Module} (hs : n.structs = m.structs) (hp : n.pointerBits = m.pointerBits)
    (depth : Nat) (t : Ty) : n.layoutWithin depth t = m.layoutWithin depth t := by
  have hplain : n.plainLayout = m.plainLayout := by
    funext t
    cases t <;> simp only [plainLayout, hp]
  have hfields : n.structFields = m.structFields := by
    funext id
    simp only [structFields, hs]
  induction depth generalizing t with
  | zero => cases t <;> simp only [layoutWithin, hplain]
  | succ depth ih => cases t <;> simp only [layoutWithin, hplain, hfields, ih]

theorem sizeOf_congr {m n : Module} (hs : n.structs = m.structs) (hp : n.pointerBits = m.pointerBits)
    (t : Ty) : n.sizeOf t = m.sizeOf t := by
  rw [sizeOf, sizeOf, sizeAlign?, sizeAlign?, hs, layoutWithin_congr hs hp]

/-! ### Sizes -/

variable (m)

/-- Sizing the type ends. -/
def Sized (t : Ty) : Prop := (m.sizeAlign? t).isSome = true

theorem sizeAlign?_of_plain {t : Ty} (h : ∀ s, t ≠ .struct s) : m.sizeAlign? t = some (m.plainLayout t) :=
  m.layoutWithin_of_plain h _

theorem sized_of_plain {t : Ty} (h : ∀ s, t ≠ .struct s) : m.Sized t := by
  rw [Sized, m.sizeAlign?_of_plain h, Option.isSome_some]

theorem sizeOf_of_plain {t : Ty} (h : ∀ s, t ≠ .struct s) : m.sizeOf t = (m.plainLayout t).1 := by
  rw [sizeOf, m.sizeAlign?_of_plain h, Option.getD_some]

theorem alignOf_of_plain {t : Ty} (h : ∀ s, t ≠ .struct s) : m.alignOf t = (m.plainLayout t).2 := by
  rw [alignOf, m.sizeAlign?_of_plain h, Option.getD_some]

/-- Places a field of some type behind what has been placed. -/
def put (placed : Nat × Nat) (field : Ty) : Nat × Nat := place placed (m.sizeOf field, m.alignOf field)

variable {m}

theorem Sized.eq (h : m.Sized t) : m.sizeAlign? t = some (m.sizeOf t, m.alignOf t) := by
  obtain ⟨r, hr⟩ := Option.isSome_iff_exists.1 h
  rw [sizeOf, alignOf, hr, Option.getD_some]

theorem foldlM_place {fields : List Ty} (h : ∀ t ∈ fields, m.Sized t) (placed : Nat × Nat) :
    fields.foldlM (fun placed field => return place placed (← m.sizeAlign? field)) placed =
      some (fields.foldl m.put placed) := by
  induction fields generalizing placed with
  | nil => rfl
  | cons t rest ih =>
    rw [List.foldlM_cons, (h t (List.mem_cons_self ..)).eq]
    exact ih (fun u hu => h u (List.mem_cons_of_mem _ hu)) _

/-- A struct has a size if its fields have. -/
theorem sizeAlign?_struct (h : ∀ t ∈ m.structFields s, m.Sized t) :
    m.sizeAlign? (.struct s) = some (roundUp ((m.structFields s).foldl m.put (0, 1)).1
        ((m.structFields s).foldl m.put (0, 1)).2, ((m.structFields s).foldl m.put (0, 1)).2) := by
  apply sizeAlign?_of_layoutWithin
  rw [layoutWithin_struct]
  exact congrArg _ (foldlM_place h (0, 1))

theorem sized_struct (h : ∀ t ∈ m.structFields s, m.Sized t) : m.Sized (.struct s) := by
  rw [Sized, sizeAlign?_struct h, Option.isSome_some]

theorem layout_struct (h : ∀ t ∈ m.structFields s, m.Sized t) : m.sizeOf (.struct s) =
      roundUp ((m.structFields s).foldl m.put (0, 1)).1 ((m.structFields s).foldl m.put (0, 1)).2 ∧
    m.alignOf (.struct s) = ((m.structFields s).foldl m.put (0, 1)).2 :=
  Prod.mk.inj (Option.some.inj ((sized_struct h).eq.symm.trans (sizeAlign?_struct h)))

theorem sized_of_contained (h : m.Sized (.struct s)) (ht : t ∈ m.structFields s) : m.Sized t := by
  have heq := h.eq
  rw [sizeAlign?, layoutWithin_struct] at heq
  obtain ⟨p, hp, -⟩ := Option.map_eq_some_iff.1 heq
  obtain ⟨q, hq⟩ := exists_of_foldlM_place hp ht
  rw [Sized, sizeAlign?_of_layoutWithin hq, Option.isSome_some]

theorem sized_fieldsUpTo (h : ∀ t ∈ m.structFields s, m.Sized t) (field : Nat) :
    ∀ t ∈ m.fieldsUpTo s field, m.Sized t := fun t ht => h t (List.mem_of_mem_take ht)

/-- A struct has a size exactly if following its fields, and the fields of these, comes to an end. -/
theorem sized_iff_acc : m.Sized (.struct s) ↔ Acc (fun u s => m.Contains s u) s := by
  refine ⟨fun h => acc_of_layoutWithin h.eq, fun h => ?_⟩
  induction h with
  | intro s _ ih =>
    refine sized_struct fun t ht => ?_
    cases t with
    | struct u => exact ih u ht
    | _ => exact m.sized_of_plain (by simp)

/-- In a module without cycles sizing every type ends. -/
theorem Acyclic.sized (hm : m.Acyclic) (t : Ty) : m.Sized t := by
  cases t with
  | struct s => exact sized_iff_acc.2 (hm.acc s)
  | _ => exact m.sized_of_plain (by simp)

theorem not_sized_of_cycle (hs : Relation.TransGen m.Contains s s) : ¬m.Sized (.struct s) :=
  fun h => not_cycle_of_acc (sized_iff_acc.1 h) hs

/-- Sizing ends for every type exactly if no struct contains itself. -/
theorem acyclic_iff_sized : m.Acyclic ↔ ∀ t, m.Sized t :=
  ⟨Acyclic.sized, fun h s hs => not_sized_of_cycle hs (h (.struct s))⟩

variable (m)

/-! ### Offsets -/

theorem put_pos {r : Nat × Nat} (hr : 0 < r.2) (fields : List Ty) : 0 < (fields.foldl m.put r).2 := by
  induction fields generalizing r with
  | nil => exact hr
  | cons t rest ih => exact ih (Nat.lt_of_lt_of_le hr (Nat.le_max_left ..))

theorem plainLayout_pos (t : Ty) : 0 < (m.plainLayout t).2 := by
  cases t <;> simp only [plainLayout] <;> omega

theorem alignOf_pos (t : Ty) : 0 < m.alignOf t := by
  by_cases h : m.Sized t
  · by_cases ht : ∃ s, t = .struct s
    · obtain ⟨s, rfl⟩ := ht
      rw [(layout_struct fun _ ht => sized_of_contained h ht).2]
      exact m.put_pos Nat.one_pos _
    · rw [m.alignOf_of_plain (not_exists.1 ht)]
      exact m.plainLayout_pos t
  · rw [alignOf, Option.not_isSome_iff_eq_none.1 h]
    exact Nat.one_pos

variable {m} {fields : List Ty}

theorem dvd_offsetIn {i : Nat} {t : Ty} (ht : fields[i]? = some t) (offset : Nat) :
    m.alignOf t ∣ m.offsetIn fields i offset := by
  induction fields generalizing i offset with
  | nil => simp at ht
  | cons u rest ih =>
    cases i with
    | zero =>
      obtain rfl : u = t := by simpa using ht
      exact dvd_roundUp _ _
    | succ i => exact ih (by simpa using ht) _

/-- A field starts at the next multiple of its alignment behind the field before it. -/
theorem offsetIn_next {i : Nat} {t u : Ty} (ht : fields[i]? = some t) (hu : fields[i + 1]? = some u)
    (offset : Nat) : m.offsetIn fields (i + 1) offset =
      roundUp (m.offsetIn fields i offset + m.sizeOf t) (m.alignOf u) := by
  induction fields generalizing i offset with
  | nil => simp at ht
  | cons v rest ih =>
    cases i with
    | zero =>
      obtain rfl : v = t := by simpa using ht
      cases rest with
      | nil => simp at hu
      | cons w rest =>
        obtain rfl : w = u := by simpa using hu
        rfl
    | succ i => exact ih (by simpa using ht) (by simpa using hu) _

theorem offsetIn_last {i : Nat} {t : Ty} (ht : fields[i]? = some t) (hi : i + 1 = fields.length)
    (offset : Nat) : m.offsetIn fields (i + 1) offset = m.offsetIn fields i offset + m.sizeOf t := by
  induction fields generalizing i offset with
  | nil => simp at ht
  | cons v rest ih =>
    cases i with
    | zero =>
      obtain rfl : v = t := by simpa using ht
      obtain rfl : rest = [] := List.eq_nil_of_length_eq_zero (by simpa using hi.symm)
      rfl
    | succ i => exact ih (by simpa using ht) (by simpa using hi) _

theorem offsetIn_le_succ {i : Nat} {t : Ty} (ht : fields[i]? = some t) (offset : Nat) :
    m.offsetIn fields i offset + m.sizeOf t ≤ m.offsetIn fields (i + 1) offset := by
  obtain ⟨hi, -⟩ := List.getElem?_eq_some_iff.1 ht
  by_cases hlast : i + 1 = fields.length
  · rw [offsetIn_last ht hlast]
  · have hu : fields[i + 1]? = some fields[i + 1] := List.getElem?_eq_getElem (by omega)
    rw [offsetIn_next ht hu]
    exact (roundUp_bounds _ (m.alignOf_pos _)).1

/-- A field ends before every later field starts, and before the fields end. -/
theorem offsetIn_apart {i j : Nat} {t : Ty} (hij : i < j) (hj : j ≤ fields.length)
    (ht : fields[i]? = some t) (offset : Nat) :
    m.offsetIn fields i offset + m.sizeOf t ≤ m.offsetIn fields j offset := by
  induction j, hij using Nat.le_induction with
  | base => exact offsetIn_le_succ ht offset
  | succ j hle ih =>
    have hu : fields[j]? = some fields[j] := List.getElem?_eq_getElem (by omega)
    have hnext := offsetIn_le_succ (m := m) hu offset
    have hhere := ih (by omega)
    omega

/-! ### Structs -/

/-- Placing the fields of a struct stops where they end, at the greatest alignment. -/
theorem foldl_put (offset align : Nat) : fields.foldl m.put (offset, align) =
    (m.offsetIn fields fields.length offset, fields.foldl (fun a t => max a (m.alignOf t)) align) := by
  induction fields generalizing offset align with
  | nil => rfl
  | cons t rest ih =>
    rw [List.foldl_cons]
    exact ih _ _

/-- A struct whose fields have sizes ends where they end, rounded up, and is aligned like the strictest. -/
theorem layout_of_fields {s : StructId} (h : ∀ t ∈ m.structFields s, m.Sized t) :
    m.sizeOf (.struct s) = roundUp (m.fieldOffset s (m.structFields s).length) (m.alignOf (.struct s)) ∧
      m.alignOf (.struct s) = (m.structFields s).foldl (fun a t => max a (m.alignOf t)) 1 := by
  obtain ⟨hsize, halign⟩ := layout_struct h
  rw [hsize, halign, foldl_put]
  exact ⟨rfl, rfl⟩

theorem le_foldl_max (align : Nat) :
    align ≤ fields.foldl (fun a t => max a (m.alignOf t)) align ∧
      ∀ t ∈ fields, m.alignOf t ≤ fields.foldl (fun a t => max a (m.alignOf t)) align := by
  induction fields generalizing align with
  | nil => simp
  | cons u rest ih =>
    obtain ⟨hstart, hrest⟩ := ih (max align (m.alignOf u))
    rw [List.foldl_cons]
    refine ⟨by omega, fun t ht => ?_⟩
    rcases List.mem_cons.1 ht with rfl | ht
    · omega
    · exact hrest t ht

/-- Where the room before a field begins: at the end of the field before it, at zero for the first. -/
def gapStart (m : Module) (s : StructId) : Nat → Nat
  | 0 => 0
  | i + 1 => m.fieldOffset s i + m.sizeOf ((m.structFields s).getD i .void)

/-- How the fields of a struct lie in it. -/
structure LaidOut (m : Module) (s : StructId) : Prop where
  aligned : ∀ {i t}, (m.structFields s)[i]? = some t → m.alignOf t ∣ m.fieldOffset s i
  apart : ∀ {i j t}, i < j → j < (m.structFields s).length → (m.structFields s)[i]? = some t →
    m.fieldOffset s i + m.sizeOf t ≤ m.fieldOffset s j
  inside : ∀ {i t}, (m.structFields s)[i]? = some t →
    m.fieldOffset s i + m.sizeOf t ≤ m.sizeOf (.struct s)
  /-- The struct can be repeated without losing its alignment. -/
  whole : m.alignOf (.struct s) ∣ m.sizeOf (.struct s)
  strictest : ∀ {t}, t ∈ m.structFields s → m.alignOf t ≤ m.alignOf (.struct s)
  /-- The room left free before a field is smaller than its alignment. -/
  padding : ∀ {i t}, (m.structFields s)[i]? = some t →
    m.gapStart s i ≤ m.fieldOffset s i ∧ m.fieldOffset s i < m.gapStart s i + m.alignOf t

theorem fieldOffset_eq {s : StructId} {i : Nat} {t : Ty} (ht : (m.structFields s)[i]? = some t) :
    m.fieldOffset s i = roundUp (m.gapStart s i) (m.alignOf t) := by
  cases i with
  | zero =>
    unfold fieldOffset
    cases hfields : m.structFields s with
    | nil => simp [hfields] at ht
    | cons u rest =>
      obtain rfl : u = t := by simpa [hfields] using ht
      rfl
  | succ i =>
    obtain ⟨hi, -⟩ := List.getElem?_eq_some_iff.1 ht
    have hu : (m.structFields s)[i]? = some (m.structFields s)[i] := List.getElem?_eq_getElem (by omega)
    have hgap : m.gapStart s (i + 1) = m.fieldOffset s i + m.sizeOf (m.structFields s)[i] := by
      rw [gapStart, List.getD_eq_getElem?_getD, hu, Option.getD_some]
    rw [hgap]
    exact offsetIn_next hu ht 0

/-- In a module whose structs do not contain themselves, every struct keeps its fields apart. -/
theorem fields_do_not_overlap (m : Module) (hm : m.Acyclic) (s : StructId) : m.LaidOut s := by
  obtain ⟨hsize, halign⟩ := layout_of_fields fun t (_ : t ∈ m.structFields s) => hm.sized t
  constructor
  · exact fun ht => dvd_offsetIn ht 0
  · exact fun hij hj ht => offsetIn_apart hij (Nat.le_of_lt hj) ht 0
  · intro i t ht
    obtain ⟨hi, -⟩ := List.getElem?_eq_some_iff.1 ht
    calc m.fieldOffset s i + m.sizeOf t
        ≤ m.fieldOffset s (m.structFields s).length := offsetIn_apart hi (Nat.le_refl _) ht 0
      _ ≤ m.sizeOf (.struct s) := by
        rw [hsize]
        exact (roundUp_bounds _ (m.alignOf_pos _)).1
  · rw [hsize]
    exact dvd_roundUp _ _
  · intro t ht
    rw [halign]
    exact (le_foldl_max 1).2 t ht
  · intro i t ht
    rw [fieldOffset_eq ht]
    exact roundUp_bounds _ (m.alignOf_pos t)

/-- A packet with a header of 16 bytes, a field without size and a pointer. -/
def packetModule : Module where
  name := "packets"
  pointerBits := 64
  structs := #[⟨"Packet", [.i16, .struct ⟨2⟩, .struct ⟨1⟩, .i8, .ptr]⟩, ⟨"Mark", []⟩, ⟨"Header", [.i8, .i64]⟩]

theorem packetModule_acyclic : packetModule.Acyclic := by
  apply packetModule.acyclic_of_rank fun s => if s.index = 0 then 1 else 0
  intro s t hst
  rcases s with ⟨_ | _ | _ | n⟩
  · have ht : t = ⟨2⟩ ∨ t = ⟨1⟩ := by simpa [Contains, structFields, packetModule] using hst
    rcases ht with rfl | rfl <;> decide
  · simp [Contains, structFields, packetModule] at hst
  · simp [Contains, structFields, packetModule] at hst
  · simp [Contains, structFields, packetModule] at hst

theorem fields_do_not_overlap_packet : packetModule.Acyclic ∧ packetModule.LaidOut ⟨0⟩ ∧
    (List.range 5).map (packetModule.fieldOffset ⟨0⟩) = [0, 8, 24, 24, 32] ∧
    packetModule.sizeOf (.struct ⟨0⟩) = 40 ∧ packetModule.alignOf (.struct ⟨0⟩) = 8 :=
  ⟨packetModule_acyclic, fields_do_not_overlap packetModule packetModule_acyclic ⟨0⟩, by decide +kernel,
    by decide +kernel, by decide +kernel⟩

end Module

end BlockForge.Ir
