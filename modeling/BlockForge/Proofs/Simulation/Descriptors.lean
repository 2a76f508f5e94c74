import BlockForge.Proofs.Simulation.Bounds
import BlockForge.Proofs.Simulation.Stores

/-!
# Descriptors and elements

Running the code that reads and writes the fields of a vector's descriptor and that computes the addresses of its
elements.
-/

namespace BlockForge.Simulation

open Ir (Builder Emit StructId ValueId)
open Ir.Emit (Onward)
open Lowering (Env Scope VectorField VectorShape)
open Machine (Acts Allocation At Careful Exec Holds Live Memory Moved Part State Store Val World addressOf blockAddress
  cellBytes maxOffset)
open Reference (Heap Locals Sem Trap)
open StateM
open BlockForge.Types (Ty)

/-! ### Faults -/

/-- About to fail without a change. -/
def Faults (w : World) (M : State) (t : Trap) : Prop :=
  Exec.step w.module w.limit M = .error t.fault M ∧ ∀ A K, Careful w.module A K M

theorem Faults.goal {S : Scene} {scope : Scope} {ρ : Locals} {M : State} {g : Ground} {H : Heap} {t : Trap} (hS : S.Open)
    (hst : Stands S scope ρ g H M) (h : Faults S.world M t)
    (k : Fails S.world.toAim S.world.index S.layout S.env.tables (.trap t) H) : S.world.goal M :=
  k h.1 (fun _ => h.2 _ _) hst.models hst.watch (hst.stacked hS)

theorem Leads.of_faults {S : Scene} {scope : Scope} {ρ : Locals} {b b' : Builder} {M : State} {g : Ground} {H : Heap}
    {α : Type} {R : α → Ground → State → Prop} {t : Trap} (hS : S.Open) (hst : Stands S scope ρ g H M)
    (h : Faults S.world M t) : Leads S scope ρ b M g b' (.stop (.trap t) H) R := fun k => h.goal hS hst k

/-! ### Addresses of fields -/

section

variable {b : Builder} (h : b.Live)

include h

/-- The address of a field; there is none in `null`. -/
theorem fieldPtr_reaches {s : StructId} {p : ValueId} (hp : b.function.Has p .ptr) {k : Nat}
    (hk : k < (b.module.structFields s).length) (name : String) :
    (Emit.fieldPtr s p k name).Sat b fun a b' => (Onward b b' ∧ b'.function.Has a .ptr) ∧
      ∀ {w : World} {M : State}, Part b' w → At w.func b M →
        (Holds b M p (.ptr 0) → Faults w M .nullReference) ∧
        ((∀ t ∈ w.module.structFields s, w.module.Sized t) →
          ∀ {j : Nat} {x : Allocation}, Holds b M p (.ptr (blockAddress j)) → Live M.store.memory j x →
            w.Reaches b M b' (Holds b' · a (.ptr (addressOf j (w.module.fieldOffset s k))))) := by
  refine ((Ir.Emit.fieldPtr_onward h hp hk).and (Machine.fieldPtr_emits h hk name)).imp ?_
  rintro a b' ⟨o, e⟩
  refine ⟨o, fun {w M} hpart hM => ⟨fun hnull => ?_, fun hsized j x haddr hlive => ?_⟩⟩
  · have hi := e.inst hpart hM
    exact ⟨Machine.step_error hi (Machine.perform_fieldPtr_null hnull.value), fun A K =>
      Machine.careful_of_quiet hi rfl⟩
  · have hne := Machine.blockAddress_ne_zero hlive.lt hlive.pos
    exact e.run hpart hM rfl (Machine.perform_fieldPtr (Ir.Module.sized_fieldsUpTo hsized k) haddr.value hne)

theorem ptrAdd_reaches {p o : ValueId} (hp : b.function.Has p .ptr) {word : Ir.Ty} (hw : b.module.ptrInt = word)
    (ho : b.function.Has o word) (name : String) :
    (Emit.ptrAdd p o name).Sat b fun a b' => (Onward b b' ∧ b'.function.Has a .ptr) ∧
      ∀ {w : World} {M : State} {addr n : UInt64}, Part b' w → At w.func b M → Holds b M p (.ptr addr) →
        Holds b M o (.int n) → w.Reaches b M b' (Holds b' · a (.ptr (addr + n))) := by
  refine ((Ir.Emit.ptrAdd_onward h hp hw ho).and (Machine.ptrAdd_emits h name)).imp ?_
  rintro a b' ⟨o', e⟩
  exact ⟨o', fun {w M addr n} hpart hM haddr hn => e.run hpart hM rfl (Machine.perform_ptrAdd haddr.value hn.value)⟩

/-- A constant of the width of an address. -/
theorem constUsize_reaches (hw : b.module.ptrInt = .i64) (n : UInt64) :
    (Emit.constUsize n).Sat b fun v b' => (Onward b b' ∧ b'.function.Has v .i64) ∧
      ∀ {w : World} {M : State}, Part b' w → At w.func b M → w.Reaches b M b' (Holds b' · v (.int n)) := by
  refine Sat.get_bind ?_
  rw [hw]
  refine (constInt_reaches h (show Ir.Ty.intBits? .i64 = some 64 from rfl) n).imp ?_
  rintro v b' ⟨o, hr⟩
  refine ⟨o, fun hp hM => (hr hp hM).imp fun M' hv => ?_⟩
  rwa [Word.mask_of_le (Nat.le_refl 64)] at hv

omit h in
theorem intBinary_words (m n : UInt64) : Machine.intBinary .add 64 m n = some (m + n) ∧
    Machine.intBinary .sub 64 m n = some (m - n) ∧ Machine.intBinary .mul 64 m n = some (m * n) := by
  simp [Machine.intBinary, Machine.intRaw, Word.mask_of_le]

/-- An operation on words that has a result. -/
theorem word_reaches {op : Ir.BinOp} (hop : op.isFloat = false) {x y : ValueId} (hx : b.function.Has x .i64)
    (hy : b.function.Has y .i64) (name : String) :
    (Emit.binary op x y name).Sat b fun v b' => (Onward b b' ∧ b'.function.Has v .i64) ∧
      ∀ {w : World} {M : State} {m n z : UInt64}, Part b' w → At w.func b M → Holds b M x (.int m) →
        Holds b M y (.int n) → Machine.intBinary op 64 m n = some z → w.Reaches b M b' (Holds b' · v (.int z)) := by
  refine (binary_ends h (show Ir.Ty.intBits? .i64 = some 64 from rfl) hop hx hy name).imp ?_
  rintro v b' ⟨o, hr⟩
  refine ⟨o, fun {w M m n z} hp hM hm hn hz => ?_⟩
  have := hr hp hM hm hn
  rwa [hz] at this

end

/-! ### Shapes -/

/-- The cell of a descriptor's field. -/
def fieldCell (f : VectorField) : Ir.Ty := if f = .elems then .ptr else .i64

/-- The shape of vectors of an element type. -/
structure Shaped (env : Env) (elem : Ty) (v : VectorShape) : Prop where
  struct : v.struct = env.tables.vector
  cell : v.elem = env.ir elem
  size : v.elemSize = cellBytes (env.ir elem)
  kind : v.kind = Lowering.bufferKind elem
  allocator : v.allocator = .collector

section

variable {env : Env} {elem : Ty} {v : VectorShape} {b : Builder}

theorem shaped_shapeAt (hl : env.config.pointerBits = 64) (ha : env.allocator = .collector)
    (hf : env.Fits b.module) : Shaped env elem (env.shapeAt elem b) where
  struct := rfl
  cell := rfl
  size := Machine.sizeOf_eq_cellBytes (hf.pointerBits.trans hl) (Lowering.Env.isScalar_ir elem)
  kind := rfl
  allocator := ha

theorem ptrInt_eq {m : Ir.Module} (hl : m.pointerBits = 64) : m.ptrInt = .i64 := by
  simp [Ir.Module.ptrInt, hl, Ir.Ty.int?]

theorem Shaped.fits (hv : Shaped env elem v) (hl : env.config.pointerBits = 64) (hf : env.Fits b.module) :
    v.Fits b .i64 where
  word := ptrInt_eq (hf.pointerBits.trans hl)
  fields := by rw [hv.struct, hf.vector, ptrInt_eq (hf.pointerBits.trans hl)]
  elem := by rw [hv.cell]; exact Lowering.Env.isScalar_ir elem
  allocator := by rw [hv.allocator]; exact Lowering.collector_sound

theorem sized_vector {m : Ir.Module} {s : StructId} (hs : m.structFields s = [.ptr, .i64, .i64]) :
    ∀ t ∈ m.structFields s, m.Sized t := by
  intro t ht
  refine m.sized_of_plain fun u hu => ?_
  simp [hs, hu] at ht

/-- The fields of a descriptor lie one after the other. -/
theorem fieldOffset_vector {m : Ir.Module} (hl : m.pointerBits = 64) {s : StructId}
    (hs : m.structFields s = [.ptr, .i64, .i64]) (f : VectorField) : m.fieldOffset s f.position = 8 * f.position := by
  have hptr : m.alignOf .ptr = 8 ∧ m.sizeOf .ptr = 8 := by
    simp [Ir.Module.alignOf_of_plain, Ir.Module.sizeOf_of_plain, Ir.Module.plainLayout, hl]
  have hword : m.alignOf .i64 = 8 ∧ m.sizeOf .i64 = 8 := ⟨rfl, rfl⟩
  cases f <;>
    simp [Ir.Module.fieldOffset, hs, Ir.Module.offsetIn, VectorField.position, hptr, hword, Ir.roundUp]

theorem Shaped.fields {A : Machine.Aim} (hv : Shaped env elem v) (hA : Runnable env A) :
    A.module.structFields v.struct = [.ptr, .i64, .i64] := by
  rw [hv.struct, hA.fits.vector, ptrInt_eq hA.modulePointerBits]

theorem Shaped.offset {A : Machine.Aim} (hv : Shaped env elem v) (hA : Runnable env A) (f : VectorField) :
    A.module.fieldOffset v.struct f.position = 8 * f.position :=
  fieldOffset_vector hA.modulePointerBits (hv.fields hA) f

variable (h : b.Live) (hv : Shaped env elem v) (hf : v.Fits b .i64)

include h hv hf

/-- The address of a descriptor's field. -/
theorem fieldPtr_finds {desc : ValueId} (hd : b.function.Has desc .ptr) (f : VectorField) :
    (v.fieldPtr desc f).Sat b fun p b' => (Onward b b' ∧ b'.function.Has p .ptr) ∧
      ∀ {S : Scene} {M : State}, S.Ready → S.env = env → Part b' S.world → At S.world.func b M →
        (Holds b M desc (.ptr 0) → Faults S.world M .nullReference) ∧
        ∀ {j : Nat} {a : Allocation}, Holds b M desc (.ptr (blockAddress j)) → Live M.store.memory j a →
          S.world.Reaches b M b' (Holds b' · p (.ptr (addressOf j (8 * f.position)))) := by
  have hk : f.position < (b.module.structFields v.struct).length := by
    rw [hf.fields]
    cases f <;> decide
  refine (fieldPtr_reaches h hd hk f.label).imp ?_
  rintro p b' ⟨o, r⟩
  refine ⟨o, fun {S M} hS he hpart hM => ?_⟩
  obtain ⟨hnull, hfind⟩ := r hpart hM
  have hrunnable : Runnable env S.world.toAim := he ▸ hS.runnable
  rw [← hv.offset hrunnable f]
  exact ⟨hnull, hfind (sized_vector (hv.fields hrunnable))⟩

omit h hv hf in
theorem fieldCell_fits (f : VectorField) : (fieldCell f).isScalar = true ∧ 8 * f.position + cellBytes (fieldCell f) ≤ 24 := by
  cases f <;> decide

/-- A field of a descriptor is loaded. -/
theorem loadField_reads {desc : ValueId} (hd : b.function.Has desc .ptr) (f : VectorField) (name : String) :
    (v.loadField desc f name).Sat b fun p b' => (Onward b b' ∧ b'.function.Has p (fieldCell f)) ∧
      ∀ {S : Scene} {M : State}, S.Ready → S.env = env → Part b' S.world → At S.world.func b M →
        (Holds b M desc (.ptr 0) → Faults S.world M .nullReference) ∧
        ∀ {j : Nat} {a : Allocation}, Holds b M desc (.ptr (blockAddress j)) → Live M.store.memory j a → a.size = 24 →
          S.world.Reaches b M b' (Holds b' · p (a.read (fieldCell f) (8 * f.position))) := by
  refine Sat.bind (fieldPtr_finds h hv hf hd f) ?_
  rintro ptr b₁ ⟨⟨o₁, hptr⟩, r₁⟩
  refine Sat.get_bind ?_
  rw [(hf.onward o₁).word]
  obtain ⟨hscalar, hfit⟩ := fieldCell_fits f
  refine (load_reaches o₁.live hptr hscalar name).imp ?_
  rintro p b₂ ⟨⟨o₂, hp⟩, r₂⟩
  refine ⟨⟨o₁.trans o₂, hp⟩, fun {S M} hS he hpart hM => ?_⟩
  obtain ⟨hnull, hfind⟩ := r₁ hS he (hpart.back o₂) hM
  refine ⟨hnull, fun {j a} haddr hlive hsize k => ?_⟩
  refine hfind haddr hlive fun M₁ m₁ hst₁ hv₁ => ?_
  have hload : M₁.store.memory.load S.world.module (fieldCell f) (addressOf j (8 * f.position)) =
      .ok (a.read (fieldCell f) (8 * f.position)) := by
    rw [hst₁]
    exact hlive.load_eq hS.runnable.modulePointerBits hscalar (hsize ▸ hfit)
  exact r₂ hpart m₁.toAt hv₁.value hload fun M₂ m₂ hst₂ hv₂ => k M₂ (m₁.trans m₂) (hst₂.trans hst₁) hv₂

/-- The address of an element. -/
theorem elementPtr_reaches {elems index : ValueId} (he : b.function.Has elems .ptr) (hi : b.function.Has index .i64) :
    (v.elementPtr elems index).Sat b fun p b' => (Onward b b' ∧ b'.function.Has p .ptr) ∧
      ∀ {w : World} {M : State} {k i : Nat}, Part b' w → At w.func b M → Holds b M elems (.ptr (blockAddress k)) →
        Holds b M index (.int (UInt64.ofNat i)) →
        w.Reaches b M b' (Holds b' · p (.ptr (addressOf k (i * cellBytes (env.ir elem))))) := by
  refine Sat.bind (constUsize_reaches h hf.word _) fun size b₁ ⟨⟨o₁, hs⟩, r₁⟩ => ?_
  refine Sat.bind (word_reaches o₁.live (show Ir.BinOp.isFloat .mul = false from rfl) (o₁.has hi) hs _)
    fun off b₂ ⟨⟨o₂, ho⟩, r₂⟩ => ?_
  refine (ptrAdd_reaches o₂.live (o₂.has (o₁.has he)) ((hf.onward o₁).onward o₂).word ho _).imp ?_
  rintro p b₃ ⟨⟨o₃, hp⟩, r₃⟩
  refine ⟨⟨(o₁.trans o₂).trans o₃, hp⟩, fun {w M k i} hpart hM helems hindex => ?_⟩
  refine (r₁ ((hpart.back o₃).back o₂) hM).bind fun M₁ m₁ hv₁ => ?_
  refine (r₂ (hpart.back o₃) m₁.toAt (m₁.holds hindex) hv₁ (intBinary_words _ _).2.2).bind fun M₂ m₂ hv₂ => ?_
  refine (r₃ hpart m₂.toAt (m₂.holds (m₁.holds helems)) hv₂).imp fun M₃ hv₃ => ?_
  rwa [← UInt64.ofNat_mul, ← Machine.addressOf_zero, Machine.addressOf_add,
    Nat.zero_add, hv.size] at hv₃

/-- The bytes of some elements. -/
theorem byteLen_reaches {count : ValueId} (hc : b.function.Has count .i64) :
    (v.byteLen count).Sat b fun p b' => (Onward b b' ∧ b'.function.Has p .i64) ∧
      ∀ {w : World} {M : State} {n : Nat}, Part b' w → At w.func b M → Holds b M count (.int (UInt64.ofNat n)) →
        w.Reaches b M b' (Holds b' · p (.int (UInt64.ofNat (n * cellBytes (env.ir elem))))) := by
  refine Sat.bind (constUsize_reaches h hf.word _) fun size b₁ ⟨⟨o₁, hs⟩, r₁⟩ => ?_
  refine (word_reaches o₁.live (show Ir.BinOp.isFloat .mul = false from rfl) (o₁.has hc) hs _).imp ?_
  rintro p b₂ ⟨⟨o₂, hp⟩, r₂⟩
  refine ⟨⟨o₁.trans o₂, hp⟩, fun {w M n} hpart hM hcount => ?_⟩
  refine (r₁ (hpart.back o₂) hM).bind fun M₁ m₁ hv₁ => ?_
  refine (r₂ hpart m₁.toAt (m₁.holds hcount) hv₁ (intBinary_words _ _).2.2).imp fun M₂ hv₂ => ?_
  rwa [← UInt64.ofNat_mul, hv.size] at hv₂

/-- A field of a descriptor is overwritten. -/
theorem storeField_runs {desc x : ValueId} (hd : b.function.Has desc .ptr) (f : VectorField)
    (hx : b.function.Has x (fieldCell f)) :
    (v.storeField desc f x).Sat b fun _ b' => Onward b b' ∧
      ∀ {S : Scene} {scope : Scope} {ρ : Locals} {g : Ground} {H : Heap} {M : State} {j id : Nat} {a : Allocation}
        {z : Val}, S.Ready → S.env = env → Part b' S.world → At S.world.func b M → Stands S scope ρ g H M →
        Holds b M desc (.ptr (blockAddress j)) → g[j]? = some (.object id (.vector elem)) →
        Live M.store.memory j a → a.size = 24 → Holds b M x z → z.Of (fieldCell f) →
        (∀ M', Moved S.world.func b M b' M' → M'.store = { M.store with
          memory := M.store.memory.set j (a.write (fieldCell f) (8 * f.position) z) } → S.world.goal M') →
        S.world.goal M := by
  refine Sat.bind (fieldPtr_finds h hv hf hd f) ?_
  rintro ptr b₁ ⟨⟨o₁, hptr⟩, r₁⟩
  refine ((Ir.Emit.store_onward o₁.live (.inl ⟨_, o₁.has hx⟩) hptr).and (Machine.store_acts o₁.live hptr)).imp ?_
  rintro - b₂ ⟨⟨o₂, -⟩, e⟩
  refine ⟨o₁.trans o₂, fun {S scope ρ g H M j id a z} hS he hpart hM hst hdesc hrole hlive hsize hz hof k => ?_⟩
  have hp₁ := hpart.back o₂
  refine (r₁ hS he hp₁ hM).2 hdesc hlive fun M₁ m₁ hst₁ hv₁ => ?_
  refine store_known (hst.stays hS m₁.stays hst₁) m₁.toAt hpart e hv₁.value hrole rfl (hst₁ ▸ hlive) hS
    (valueType_of_has hp₁ (o₁.has hx)) (fun _ => rfl) (hsize ▸ (fieldCell_fits f).2) (m₁.holds hz) hof
    fun M₂ m₂ hst₂ => ?_
  exact k M₂ (m₁.trans m₂) (by rw [hst₂, hst₁])

end

end BlockForge.Simulation
