import BlockForge.Proofs.Lowering.State
import BlockForge.Proofs.Machine.Cells
import BlockForge.Proofs.Reference.Heap

/-!
# Values and objects in memory

How the values of a program are represented by the machine. A `Ground` says what each allocation is used
for; it only grows, so a reference keeps its meaning. Objects are found by the role of their allocation:
a record in one, a vector in a descriptor and a buffer of its own.
-/

namespace BlockForge.Simulation

open Ir (Module)
open Lowering (RecordInfo Tables)
open Machine (Allocation Live Memory Store Val blockAddress cellBytes maxBlocks maxOffset)
open Reference (Heap Object Value keptAs)
open BlockForge.Types (Layout Ty)

/-! ### Roles -/

/-- What an allocation is used for. -/
inductive Role where
  /-- A stack slot, or nothing any more. -/
  | stack
  /-- A record or the descriptor of a vector. -/
  | object (id : Nat) (type : Ty)
  /-- The elements of a vector, now or before it grew. -/
  | buffer (id : Nat) (elem : Ty)
  /-- A constant text. -/
  | text (global : Nat)
  deriving DecidableEq, Repr

/-- The roles of the allocations by number. -/
abbrev Ground := List Role

namespace Role

/-- The object that an allocation belongs to. -/
def owner : Role → Option Nat
  | object id _ | buffer id _ => some id
  | stack | text _ => none

def isText : Role → Bool
  | text _ => true
  | _ => false

/-- Whether the allocation is made without references. -/
def isAtomic (tables : Tables) : Role → Bool
  | object _ (.record name) => (tables.record? name).any fun info => !info.hasReferences
  | buffer _ elem => !elem.isReference
  | _ => false

end Role

theorem getElem?_of_grown {g g' : Ground} (h : g <+: g') {j : Nat} {r : Role} (hj : g[j]? = some r) :
    g'[j]? = some r := by
  obtain ⟨rest, rfl⟩ := h
  rw [List.getElem?_append_left (List.getElem?_eq_some_iff.1 hj).1, hj]

/-! ### Values -/

/-- The bytes of a text, ended by a zero byte. -/
def textBytes (s : String) : Array UInt8 := s.toUTF8.data.push 0

/-- The constant of a number is a text. -/
def IsText (m : Module) (k : Nat) (s : String) : Prop := (m.globals[k]?).map (·.bytes) = some (textBytes s)

/-- A value of a type is represented by a value of the machine. -/
def Encodes (l : Layout) (m : Module) (g : Ground) (t : Ty) : Value → Val → Prop
  | .int n, x => ∃ bits signed, l.intShape? t = some (bits, signed) ∧
      wrapInt signed bits n = n ∧ x = .int (Word.encode bits n)
  | .float bits, x => t.isFloat = true ∧ x = .float bits
  | .bool b, x => t = .bool ∧ x = .bool b
  | .unit, x => t = .unit ∧ ∃ w, x = .int w
  | .null, x => t.isReference = true ∧ x = .ptr 0
  | .text s, x => t = .string ∧ ∃ j k, g[j]? = some (.text k) ∧ x = .ptr (blockAddress j) ∧ IsText m k s
  | .object id, x => t.isNullable = true ∧ ∃ j, g[j]? = some (.object id t) ∧ x = .ptr (blockAddress j)

theorem isReference_of_isNullable {t : Ty} (h : t.isNullable = true) : t.isReference = true := by
  cases t <;> simp_all [Ty.isNullable, Ty.isReference]

theorem irType_of_isReference (l : Layout) {t : Ty} (h : t.isReference = true) : l.irType t = .ptr := by
  cases t <;> simp_all [Layout.irType, Ty.isReference]

section

variable {l : Layout} {m : Module} {g g' : Ground} {t u : Ty} {v : Value} {x : Val}

theorem Encodes.mono (h : Encodes l m g t v x) (hg : g <+: g') : Encodes l m g' t v x := by
  cases v with
  | text s =>
    obtain ⟨ht, j, k, hj, hx⟩ := h
    exact ⟨ht, j, k, getElem?_of_grown hg hj, hx⟩
  | object id =>
    obtain ⟨ht, j, hj, hx⟩ := h
    exact ⟨ht, j, getElem?_of_grown hg hj, hx⟩
  | _ => exact h

/-- A value keeps its representation where it may be stored. -/
theorem Encodes.coerce (h : Encodes l m g t v x) (ha : Types.assignable t u = true) :
    Encodes l m g u v x := by
  simp only [Types.assignable, Bool.or_eq_true, Bool.and_eq_true, beq_iff_eq] at ha
  rcases ha with rfl | ⟨rfl, hu⟩
  · exact h
  · cases v with
    | null => exact ⟨isReference_of_isNullable hu, h.2⟩
    | int n =>
      obtain ⟨bits, signed, hs, -⟩ := h
      cases hs
    | _ => cases h.1

/-! ### Values by type -/

/-- Integers and characters. -/
theorem Encodes.int (h : Encodes l m g t v x) {bits : Nat} {signed : Bool}
    (ht : l.intShape? t = some (bits, signed)) :
    ∃ n, v = .int n ∧ wrapInt signed bits n = n ∧ x = .int (Word.encode bits n) := by
  cases v with
  | int n =>
    obtain ⟨bits', signed', hs, hn, hx⟩ := h
    rw [ht] at hs
    cases hs
    exact ⟨n, rfl, hn, hx⟩
  | _ => cases t <;> simp_all [Encodes, Layout.intShape?, Ty.isFloat, Ty.isReference, Ty.isNullable]

theorem Encodes.float (h : Encodes l m g t v x) (ht : t.isFloat = true) :
    ∃ bits, v = .float bits ∧ x = .float bits := by
  cases v with
  | float bits => exact ⟨bits, rfl, h.2⟩
  | int n =>
    obtain ⟨bits', signed', hs, -⟩ := h
    cases t <;> simp_all [Layout.intShape?, Ty.isFloat]
  | _ => cases t <;> simp_all [Encodes, Ty.isFloat, Ty.isReference, Ty.isNullable]

theorem Encodes.bool (h : Encodes l m g .bool v x) : ∃ b, v = .bool b ∧ x = .bool b := by
  cases v with
  | bool b => exact ⟨b, rfl, h.2⟩
  | int n =>
    obtain ⟨bits', signed', hs, -⟩ := h
    cases hs
  | _ => simp_all [Encodes, Ty.isFloat, Ty.isReference, Ty.isNullable]

/-- The values that are references. -/
inductive Refers (m : Module) (g : Ground) (t : Ty) : Value → UInt64 → Prop
  | null : Refers m g t .null 0
  | text {s j k} (hj : g[j]? = some (.text k)) (hs : IsText m k s) : Refers m g t (.text s) (blockAddress j)
  | object {id j} (hj : g[j]? = some (.object id t)) : Refers m g t (.object id) (blockAddress j)

theorem Encodes.reference (h : Encodes l m g t v x) (ht : t.isReference = true) :
    ∃ addr, x = .ptr addr ∧ Refers m g t v addr := by
  cases v with
  | null => exact ⟨0, h.2, .null⟩
  | text s =>
    obtain ⟨-, j, k, hj, hx, hs⟩ := h
    exact ⟨_, hx, .text hj hs⟩
  | object id =>
    obtain ⟨-, j, hj, hx⟩ := h
    exact ⟨_, hx, .object hj⟩
  | int n =>
    obtain ⟨bits', signed', hs, -⟩ := h
    cases t <;> simp_all [Layout.intShape?, Ty.isReference]
  | _ => cases t <;> simp_all [Encodes, Ty.isFloat, Ty.isReference]

theorem intShape?_of_isInteger (l : Layout) (ht : t.isInteger = true) :
    ∃ bits, l.intShape? t = some (bits, t.isSignedInt) := by
  cases t <;> simp_all [Ty.isInteger, Layout.intShape?, Ty.isSignedInt]

theorem intBits?_irType (hl : l.pointerBits = 64) {bits : Nat} {signed : Bool}
    (ht : l.intShape? t = some (bits, signed)) :
    (l.irType t).intBits? = some bits ∧ 0 < bits ∧ bits ≤ 64 := by
  obtain rfl : l = ⟨64⟩ := by
    cases l
    exact congrArg Layout.mk hl
  cases t with
  | signed w | unsigned w =>
    cases w <;>
    · cases ht
      exact ⟨rfl, by decide, by decide⟩
  | char =>
    cases ht
    exact ⟨rfl, by decide, by decide⟩
  | _ => cases ht

theorem intBits?_ir {env : Lowering.Env} (hl : env.layout.pointerBits = 64) {bits : Nat} {signed : Bool}
    (ht : env.layout.intShape? t = some (bits, signed)) :
    (env.ir t).intBits? = some bits ∧ 0 < bits ∧ bits ≤ 64 := intBits?_irType hl ht

theorem irType_eq_f32_iff (hf : t.isFloat = true) : l.irType t = .f32 ↔ t = .f32 := by
  obtain ⟨w, rfl⟩ : ∃ w, t = .float w := by cases t <;> simp_all [Ty.isFloat]
  cases w <;> simp [Layout.irType, Ty.f32]

/-- The representation has the kind of the instruction-level type. -/
theorem Encodes.of (hl : l.pointerBits = 64) (h : Encodes l m g t v x) : x.Of (l.irType t) := by
  cases v with
  | int n =>
    obtain ⟨bits, signed, hs, -, rfl⟩ := h
    have := (intBits?_irType hl hs).1
    simp [Val.Of, Ir.Ty.isInt, this]
  | float bits =>
    obtain ⟨ht, rfl⟩ := h
    obtain ⟨w, rfl⟩ : ∃ w, t = .float w := by cases t <;> simp_all [Ty.isFloat]
    cases w <;> rfl
  | bool b =>
    obtain ⟨rfl, rfl⟩ := h
    exact rfl
  | unit =>
    obtain ⟨rfl, w, rfl⟩ := h
    exact rfl
  | null =>
    obtain ⟨ht, rfl⟩ := h
    exact irType_of_isReference l ht
  | text s =>
    obtain ⟨rfl, j, k, -, rfl, -⟩ := h
    exact rfl
  | object id =>
    obtain ⟨ht, j, -, rfl⟩ := h
    exact irType_of_isReference l (isReference_of_isNullable ht)

/-- What is read back of a value that was stored represents the value as it is kept. -/
theorem Encodes.kept (hl : l.pointerBits = 64) (h : Encodes l m g t v x) :
    Encodes l m g t (keptAs t v) (x.kept (l.irType t)) := by
  cases v with
  | int n =>
    obtain ⟨bits, signed, hs, hn, rfl⟩ := h
    obtain ⟨hb, -, hle⟩ := intBits?_irType hl hs
    refine ⟨bits, signed, hs, hn, ?_⟩
    simp only [Val.kept, hb, Option.getD_some]
    rw [Word.mask_encode hle (Nat.le_refl _) hle]
  | float bits =>
    obtain ⟨ht, rfl⟩ := h
    exact ⟨ht, by simp only [Val.kept, irType_eq_f32_iff ht]⟩
  | bool b =>
    obtain ⟨rfl, rfl⟩ := h
    have hkept : ∀ b, (Val.bool b).kept .i1 = .bool b := by decide
    exact ⟨rfl, hkept b⟩
  | unit =>
    obtain ⟨ht, w, rfl⟩ := h
    exact ⟨ht, _, rfl⟩
  | null => exact ⟨h.1, by rw [h.2]; rfl⟩
  | text s =>
    obtain ⟨ht, j, k, hj, rfl, hs⟩ := h
    exact ⟨ht, j, k, hj, rfl, hs⟩
  | object id =>
    obtain ⟨ht, j, hj, rfl⟩ := h
    exact ⟨ht, j, hj, rfl⟩

end

/-! ### Fresh memory -/

/-- The value that a zeroed cell of a type holds. -/
def zeroValue : Ty → Value
  | .signed _ | .unsigned _ | .char => .int 0
  | .float .f32 => .float (Binary64.ofSingleBits 0)
  | .float .f64 => .float 0
  | .bool => .bool false
  | .unit => .unit
  | .string | .record _ | .vector _ | .null => .null

theorem word_fresh (size offset n : Nat) : ({ size } : Allocation).word offset n = 0 := by
  induction n generalizing offset with
  | zero => rfl
  | succ n ih =>
    rw [Allocation.word, ih]
    simp [Allocation.byte]

theorem encodes_zeroValue {l : Layout} (hl : l.pointerBits = 64) (m : Module) (g : Ground) (t : Ty)
    (size offset : Nat) :
    Encodes l m g t (zeroValue t) (({ size } : Allocation).read (l.irType t) offset) := by
  obtain rfl : l = ⟨64⟩ := by
    cases l
    exact congrArg Layout.mk hl
  have hint : ∀ bits (signed : Bool), wrapInt signed bits 0 = 0 := by
    intro bits signed
    cases signed <;> simp [wrapInt]
  have hzero : ∀ bits, Word.encode bits 0 = 0 := fun bits => by simp [Word.encode, intBits]
  cases t with
  | signed w =>
    refine ⟨_, _, rfl, hint _ _, ?_⟩
    cases w <;> simp [Layout.irType, Layout.intBits, Types.IntWidth.bits, Ir.Ty.int?, Allocation.read,
      word_fresh, hzero]
  | unsigned w =>
    refine ⟨_, _, rfl, hint _ _, ?_⟩
    cases w <;> simp [Layout.irType, Layout.intBits, Types.IntWidth.bits, Ir.Ty.int?, Allocation.read,
      word_fresh, hzero]
  | char =>
    refine ⟨_, _, rfl, hint _ _, ?_⟩
    simp [Layout.irType, Allocation.read, word_fresh, hzero]
  | float w => cases w <;> exact ⟨rfl, by simp [Layout.irType, Allocation.read, word_fresh]⟩
  | bool => exact ⟨rfl, by simp [Layout.irType, Allocation.read, word_fresh, Val.bool]⟩
  | unit => exact ⟨rfl, _, rfl⟩
  | _ => exact ⟨rfl, by simp [Layout.irType, Allocation.read, word_fresh]⟩

/-! ### Objects -/

/-- A record at an allocation: every field is found by its name and holds a representation. -/
structure RecordAt (l : Layout) (tables : Tables) (m : Module) (g : Ground) (mem : Memory) (j : Nat)
    (name : String) (fields : List (String × Value)) (info : RecordInfo) (a : Allocation) : Prop where
  known : tables.record? name = some info
  live : Live mem j a
  size : a.size = m.sizeOf (.struct info.id)
  holds : ∀ {f position t}, info.field? f = some (position, t) → ∃ v, fields.lookup f = some v ∧
    Encodes l m g t v (a.read (l.irType t) (m.fieldOffset info.id position))

/-- The elements of a vector in their buffer. -/
structure BufferAt (l : Layout) (m : Module) (g : Ground) (mem : Memory) (id : Nat) (elem : Ty)
    (items : List Value) (capacity : Nat) (k : Nat) (buf : Allocation) : Prop where
  role : g[k]? = some (.buffer id elem)
  live : Live mem k buf
  room : capacity * cellBytes (l.irType elem) ≤ buf.size
  holds : ∀ {i v}, items[i]? = some v →
    Encodes l m g elem v (buf.read (l.irType elem) (i * cellBytes (l.irType elem)))

/-- A vector at the allocation of its descriptor. Without capacity there is no buffer. -/
structure VectorAt (l : Layout) (m : Module) (g : Ground) (mem : Memory) (j id : Nat) (elem : Ty)
    (items : List Value) (capacity : Nat) (d : Allocation) (elems : UInt64) : Prop where
  live : Live mem j d
  size : d.size = 24
  elemsWord : d.read .ptr 0 = .ptr elems
  sizeWord : d.read .i64 8 = .int (UInt64.ofNat items.length)
  capacityWord : d.read .i64 16 = .int (UInt64.ofNat capacity)
  fits : items.length ≤ capacity
  buffer : 0 < capacity → ∃ k buf, elems = blockAddress k ∧ BufferAt l m g mem id elem items capacity k buf

/-- An object at an allocation. -/
def Stored (l : Layout) (tables : Tables) (m : Module) (g : Ground) (mem : Memory) (j id : Nat) (t : Ty) :
    Object → Prop
  | .record name fields => t = .record name ∧ ∃ info a, RecordAt l tables m g mem j name fields info a
  | .vector elem items capacity => t = .vector elem ∧
      ∃ d elems, VectorAt l m g mem j id elem items capacity d elems

section

variable {l : Layout} {tables : Tables} {m : Module} {g g' : Ground} {mem mem' : Memory} {j id : Nat} {t : Ty}
  {o : Object}

theorem BufferAt.mono {elem : Ty} {items : List Value} {capacity k : Nat} {buf : Allocation}
    (h : BufferAt l m g mem id elem items capacity k buf) (hg : g <+: g')
    (he : mem'.blocks[k]? = mem.blocks[k]?) : BufferAt l m g' mem' id elem items capacity k buf where
  role := getElem?_of_grown hg h.role
  live := h.live.of_eq he
  room := h.room
  holds hi := (h.holds hi).mono hg

theorem VectorAt.mono {elem : Ty} {items : List Value} {capacity : Nat} {d : Allocation} {elems : UInt64}
    (h : VectorAt l m g mem j id elem items capacity d elems) (hg : g <+: g') (hj : mem'.blocks[j]? = mem.blocks[j]?)
    (hk : ∀ {k : Nat} {elem : Ty}, g[k]? = some (.buffer id elem) → mem'.blocks[k]? = mem.blocks[k]?) :
    VectorAt l m g' mem' j id elem items capacity d elems where
  live := h.live.of_eq hj
  size := h.size
  elemsWord := h.elemsWord
  sizeWord := h.sizeWord
  capacityWord := h.capacityWord
  fits := h.fits
  buffer hc := by
    obtain ⟨k, buf, ha, hb⟩ := h.buffer hc
    exact ⟨k, buf, ha, hb.mono hg (hk hb.role)⟩

/-- An object depends on the allocations that belong to it. -/
theorem Stored.mono (h : Stored l tables m g mem j id t o) (hg : g <+: g')
    (hj : mem'.blocks[j]? = mem.blocks[j]?)
    (hk : ∀ {k : Nat} {elem : Ty}, g[k]? = some (.buffer id elem) → mem'.blocks[k]? = mem.blocks[k]?) :
    Stored l tables m g' mem' j id t o := by
  cases o with
  | record name fields =>
    obtain ⟨ht, info, a, hr⟩ := h
    refine ⟨ht, info, a, hr.known, hr.live.of_eq hj, hr.size, fun hf => ?_⟩
    obtain ⟨v, hv, hx⟩ := hr.holds hf
    exact ⟨v, hv, hx.mono hg⟩
  | vector elem items capacity =>
    obtain ⟨ht, d, elems, hv⟩ := h
    exact ⟨ht, d, elems, hv.mono hg hj hk⟩

end

/-! ### Stores -/

/-- How many constant texts are not in memory yet. -/
def pending (globals : Array (Option UInt64)) : Nat := globals.toList.countP (·.isNone)

/-- A text that comes into memory is not pending any more. -/
theorem pending_set {globals : Array (Option UInt64)} {k : Nat} (h : globals[k]? = some none) (addr : UInt64) :
    pending (globals.setIfInBounds k (some addr)) + 1 = pending globals := by
  obtain ⟨hlt, hk⟩ := Array.getElem?_eq_some_iff.1 h
  have hmem : globals[k] ∈ globals.toList := by simp
  have hpos : 0 < globals.toList.countP (·.isNone) := List.countP_pos_iff.2 ⟨_, hmem, by rw [hk]; rfl⟩
  have hlt' : k < globals.toList.length := by simpa using hlt
  have hset := List.countP_set (p := fun x : Option UInt64 => x.isNone) (a := some addr) hlt'
  simp only [Array.getElem_toList, hk, Option.isNone_none, Option.isNone_some, Bool.false_eq_true, if_true,
    if_false] at hset
  simp only [pending, Array.toList_setIfInBounds, hset]
  omega

/-- The store of the machine holds the objects of a heap. -/
structure Models (l : Layout) (tables : Tables) (m : Module) (g : Ground) (H : Heap) (st : Store) : Prop where
  size : g.length = st.memory.blocks.size
  null : g[0]? = some .stack
  room : st.memory.blocks.size + pending st.globals < maxBlocks
  globals : st.globals.size = m.globals.size
  texts : ∀ {k : Nat} {addr : UInt64}, st.globals[k]? = some (some addr) →
    ∃ j, addr = blockAddress j ∧ g[j]? = some (.text k)
  objects : ∀ {j id : Nat} {t : Ty}, g[j]? = some (.object id t) →
    ∃ o, H[id]? = some o ∧ Stored l tables m g st.memory j id t o
  unique : ∀ {i j id : Nat} {s t : Ty}, g[i]? = some (.object id s) → g[j]? = some (.object id t) → i = j
  owned : ∀ {j id : Nat} {elem : Ty}, g[j]? = some (.buffer id elem) → id < H.length
  placed : ∀ {id}, id < H.length → ∃ (j : Nat) (t : Ty), g[j]? = some (.object id t)

namespace Models

variable {l : Layout} {tables : Tables} {m : Module} {g : Ground} {H : Heap} {st : Store}

theorem lt_maxBlocks (h : Models l tables m g H st) {j : Nat} (hj : j < g.length) : j < maxBlocks := by
  have := h.room
  have := h.size
  omega

theorem pos (h : Models l tables m g H st) : 0 < g.length := (List.getElem?_eq_some_iff.1 h.null).1

theorem typed (h : Models l tables m g H st) {j id : Nat} {t : Ty} (hj : g[j]? = some (.object id t)) :
    id < H.length := by
  obtain ⟨o, ho, -⟩ := h.objects hj
  exact (List.getElem?_eq_some_iff.1 ho).1

/-- It does not matter how often functions were entered. -/
theorem recount (h : Models l tables m g H st) (calls : Array Nat) : Models l tables m g H { st with calls } :=
  { h with }

/-- New allocations with their roles. Of the old ones, stack slots change and those of one object. -/
theorem next (h : Models l tables m g H st) (touched : Option Nat) {new : List Role} {H' : Heap} {st' : Store}
    (hsize : (g ++ new).length = st'.memory.blocks.size)
    (hroom : st'.memory.blocks.size + pending st'.globals < maxBlocks)
    (hglobals : st'.globals.size = st.globals.size)
    (htexts : ∀ {k : Nat} {addr : UInt64}, st'.globals[k]? = some (some addr) →
      st.globals[k]? = some (some addr) ∨ ∃ j, addr = blockAddress j ∧ (g ++ new)[j]? = some (.text k))
    (hkeep : ∀ {i : Nat} {r : Role}, g[i]? = some r → r ≠ .stack → (r.owner = none ∨ r.owner ≠ touched) →
      st'.memory.blocks[i]? = st.memory.blocks[i]?)
    (hheap : ∀ {id}, id < H.length → touched ≠ some id → H'[id]? = H[id]?) (hlength : H.length ≤ H'.length)
    (hnew : ∀ {j id : Nat} {t : Ty}, new[j]? = some (.object id t) →
      j = 0 ∧ id = H.length ∧ touched = some id)
    (hobject : ∀ {j id : Nat} {t : Ty}, (g ++ new)[j]? = some (.object id t) → touched = some id →
      ∃ o, H'[id]? = some o ∧ Stored l tables m (g ++ new) st'.memory j id t o)
    (howned : ∀ {j id : Nat} {elem : Ty}, new[j]? = some (.buffer id elem) → id < H'.length)
    (hplaced : ∀ {id}, H.length ≤ id → id < H'.length → ∃ (j : Nat) (t : Ty), new[j]? = some (.object id t)) :
    Models l tables m (g ++ new) H' st' := by
  have hpre : g <+: g ++ new := List.prefix_append g new
  have hcases : ∀ {j : Nat} {r : Role}, (g ++ new)[j]? = some r →
      g[j]? = some r ∨ g.length ≤ j ∧ new[j - g.length]? = some r := by
    intro j r hj
    rw [List.getElem?_append] at hj
    split at hj
    · exact .inl hj
    · exact .inr ⟨by omega, hj⟩
  refine
    { size := hsize
      null := getElem?_of_grown hpre h.null
      room := hroom
      globals := hglobals.trans h.globals
      texts := fun hk => ?_
      objects := fun {j id t} hj => ?_
      unique := fun {i j id s t} hi hj => ?_
      owned := fun hj => ?_
      placed := fun {id} hid => ?_ }
  · rcases htexts hk with hk | hk
    · obtain ⟨j, hj, hr⟩ := h.texts hk
      exact ⟨j, hj, getElem?_of_grown hpre hr⟩
    · exact hk
  · by_cases ht : touched = some id
    · exact hobject hj ht
    · rcases hcases hj with hj | ⟨-, hj⟩
      · obtain ⟨o, ho, hs⟩ := h.objects hj
        have hne : (some id : Option Nat) ≠ touched := fun he => ht he.symm
        refine ⟨o, (hheap (h.typed hj) ht).trans ho, hs.mono hpre (hkeep hj (by simp) (.inr hne)) fun hk => ?_⟩
        exact hkeep hk (by simp) (.inr hne)
      · exact absurd (hnew hj).2.2 ht
  · rcases hcases hi with hi | ⟨hi', hi⟩ <;> rcases hcases hj with hj | ⟨hj', hj⟩
    · exact h.unique hi hj
    · exact absurd (hnew hj).2.1 (Nat.ne_of_lt (h.typed hi))
    · exact absurd (hnew hi).2.1 (Nat.ne_of_lt (h.typed hj))
    · have := (hnew hi).1
      have := (hnew hj).1
      omega
  · rcases hcases hj with hj | ⟨-, hj⟩
    · exact Nat.lt_of_lt_of_le (h.owned hj) hlength
    · exact howned hj
  · by_cases hlt : id < H.length
    · obtain ⟨j, t, hj⟩ := h.placed hlt
      exact ⟨j, t, getElem?_of_grown hpre hj⟩
    · obtain ⟨j, t, hj⟩ := hplaced (Nat.le_of_not_lt hlt) hid
      exact ⟨g.length + j, t, by rw [List.getElem?_append_right (Nat.le_add_right ..)]; simpa using hj⟩

/-- Stack slots come, change and go. -/
theorem stack (h : Models l tables m g H st) (n : Nat) (mem : Memory) (calls : Array Nat)
    (hsize : mem.blocks.size = st.memory.blocks.size + n) (hroom : mem.blocks.size + pending st.globals < maxBlocks)
    (hkeep : ∀ {i : Nat} {r : Role}, g[i]? = some r → r ≠ .stack → mem.blocks[i]? = st.memory.blocks[i]?) :
    Models l tables m (g ++ List.replicate n .stack) H ⟨mem, st.globals, calls⟩ := by
  have hstack : ∀ {j : Nat} {r : Role}, (List.replicate n Role.stack)[j]? = some r → r = .stack := by
    intro j r hj
    rw [List.getElem?_replicate] at hj
    split at hj
    · exact (Option.some.inj hj).symm
    · cases hj
  refine h.next none (by simp [h.size, hsize]) hroom rfl .inl (fun hi hr _ => hkeep hi hr) (fun _ _ => rfl)
    (Nat.le_refl _) (fun hj => ?_) (fun _ ht => by cases ht) (fun hj => ?_) fun hle hlt => by omega
  all_goals cases hstack hj

/-- A constant text comes into memory. -/
theorem text (h : Models l tables m g H st) {k : Nat} (mem : Memory)
    (hk : st.globals[k]? = some none) (hsize : mem.blocks.size = st.memory.blocks.size + 1)
    (hkeep : ∀ {i : Nat}, i < st.memory.blocks.size → mem.blocks[i]? = st.memory.blocks[i]?) :
    Models l tables m (g ++ [.text k]) H
      ⟨mem, st.globals.setIfInBounds k (some (blockAddress st.memory.blocks.size)), st.calls⟩ := by
  have hlt : k < st.globals.size := (Array.getElem?_eq_some_iff.1 hk).1
  have hnew : ∀ {j : Nat} {r : Role}, [Role.text k][j]? = some r → r = .text k := by
    intro j r hj
    rw [List.getElem?_singleton] at hj
    split at hj
    · exact (Option.some.inj hj).symm
    · cases hj
  refine h.next none (by simp [h.size, hsize]) ?_ (by simp) (fun {k' addr} hk' => ?_)
    (fun hi _ _ => hkeep (by rw [← h.size]; exact (List.getElem?_eq_some_iff.1 hi).1)) (fun _ _ => rfl)
    (Nat.le_refl _) (fun hj => ?_) (fun _ ht => by cases ht) (fun hj => ?_) fun hle hlt => by omega
  · have hpending := pending_set hk (blockAddress st.memory.blocks.size)
    have hroom := h.room
    show mem.blocks.size + pending (st.globals.setIfInBounds k _) < maxBlocks
    omega
  · by_cases hkk : k' = k
    · subst hkk
      refine .inr ⟨g.length, ?_, by simp⟩
      rw [Array.getElem?_setIfInBounds_self_of_lt hlt] at hk'
      rw [h.size]
      exact (Option.some.inj (Option.some.inj hk')).symm
    · rw [Array.getElem?_setIfInBounds_ne (Ne.symm hkk)] at hk'
      exact .inl hk'
  all_goals cases hnew hj

/-- An object changes, and may get another buffer. -/
theorem update (h : Models l tables m g H st) {id j : Nat} {t : Ty} (hj : g[j]? = some (.object id t))
    {bufs : List Role} {mem : Memory} {o : Object}
    (hbufs : ∀ {i : Nat} {r : Role}, bufs[i]? = some r → ∃ elem, r = .buffer id elem)
    (hsize : mem.blocks.size = st.memory.blocks.size + bufs.length)
    (hroom : mem.blocks.size + pending st.globals < maxBlocks)
    (hkeep : ∀ {i : Nat} {r : Role}, g[i]? = some r → r ≠ .stack → r.owner ≠ some id →
      mem.blocks[i]? = st.memory.blocks[i]?)
    (ho : Stored l tables m (g ++ bufs) mem j id t o) :
    Models l tables m (g ++ bufs) (H.set id o) ⟨mem, st.globals, st.calls⟩ := by
  have hid := h.typed hj
  refine h.next (some id) (by simp [h.size, hsize]) hroom rfl .inl (fun hi hr hown => ?_) (fun hlt ht => ?_)
    (by simp) (fun hi => ?_) (fun {i id' t'} hi ht => ?_) (fun hi => ?_) fun hle hlt => ?_
  · refine hkeep hi hr ?_
    rcases hown with hown | hown
    · rw [hown]
      simp
    · exact hown
  · exact List.getElem?_set_ne (fun he => ht (congrArg some he))
  · obtain ⟨elem, he⟩ := hbufs hi
    cases he
  · obtain rfl : id = id' := Option.some.inj ht
    have hi' : g[i]? = some (.object id t') := by
      rw [List.getElem?_append] at hi
      split at hi
      · exact hi
      · obtain ⟨elem, he⟩ := hbufs hi
        cases he
    obtain rfl := h.unique hi' hj
    rw [hi'] at hj
    cases hj
    exact ⟨o, List.getElem?_set_self hid, ho⟩
  · obtain ⟨elem, he⟩ := hbufs hi
    cases he
    rw [List.length_set]
    exact hid
  · rw [List.length_set] at hlt
    omega

/-- A new object in an allocation of its own, perhaps with a buffer. -/
theorem create (h : Models l tables m g H st) {t : Ty} (bufs : List Role) (mem : Memory) {o : Object}
    (hbufs : ∀ {i : Nat} {r : Role}, bufs[i]? = some r → ∃ elem, r = .buffer H.length elem)
    (hsize : mem.blocks.size = st.memory.blocks.size + 1 + bufs.length)
    (hroom : mem.blocks.size + pending st.globals < maxBlocks)
    (hkeep : ∀ {i : Nat}, i < st.memory.blocks.size → mem.blocks[i]? = st.memory.blocks[i]?)
    (ho : Stored l tables m (g ++ .object H.length t :: bufs) mem g.length H.length t o) :
    Models l tables m (g ++ .object H.length t :: bufs) (H ++ [o]) ⟨mem, st.globals, st.calls⟩ := by
  have hcases : ∀ {i : Nat} {r : Role}, (Role.object H.length t :: bufs)[i]? = some r →
      i = 0 ∧ r = .object H.length t ∨ ∃ elem, r = .buffer H.length elem := by
    intro i r hi
    cases i with
    | zero => exact .inl ⟨rfl, (Option.some.inj hi).symm⟩
    | succ i => exact .inr (hbufs hi)
  refine h.next (some H.length) (by simp [h.size, hsize]; omega) hroom rfl .inl (fun hi _ _ => ?_)
    (fun hlt _ => List.getElem?_append_left hlt) (by simp) (fun hi => ?_) (fun {i id t'} hi ht => ?_)
    (fun hi => ?_) fun hle hlt => ?_
  · exact hkeep (by rw [← h.size]; exact (List.getElem?_eq_some_iff.1 hi).1)
  · rcases hcases hi with ⟨rfl, he⟩ | ⟨elem, he⟩
    · cases he
      exact ⟨rfl, rfl, rfl⟩
    · cases he
  · obtain rfl : H.length = id := Option.some.inj ht
    rw [List.getElem?_append] at hi
    split at hi
    · exact absurd (h.typed hi) (Nat.lt_irrefl _)
    · rcases hcases hi with ⟨hz, he⟩ | ⟨elem, he⟩
      · cases he
        obtain rfl : i = g.length := by omega
        exact ⟨o, by simp, ho⟩
      · cases he
  · rcases hcases hi with ⟨rfl, he⟩ | ⟨elem, he⟩
    · cases he
    · cases he
      simp
  · rw [List.length_append, List.length_singleton] at hlt
    obtain rfl : ‹Nat› = H.length := by omega
    exact ⟨0, t, rfl⟩

end Models

end BlockForge.Simulation
