import BlockForge.Proofs.Ir.Layout
import BlockForge.Proofs.Simulation.Creation

/-!
# Records

Reading and writing the fields of records. A record is created with all fields zero, and the initialisers are then
stored one after the other, in the order in which the fields are declared.
-/

namespace BlockForge.Simulation

open Ir (Builder Emit ValueId)
open Ir.Emit (Onward)
open Lowering (Env RecordInfo Scope Typed storeFields)
open Machine (Acts Allocation At Holds Live Moved Part State Toward Val addressOf blockAddress cellBytes maxOffset)
open Reference (Caller Datum Eval Heap Locals Object Result Sem Value keptAs setField)
open StateM
open BlockForge.Types (Ty)

/-! ### Fields in structs -/

section

variable {info : RecordInfo}

theorem field?_of_getElem? (hnodup : (info.fields.map (·.1)).Nodup) {position : Nat} {f : String × Ty}
    (hf : info.fields[position]? = some f) : info.field? f.1 = some (position, f.2) := by
  obtain ⟨hlt, rfl⟩ := List.getElem?_eq_some_iff.1 hf
  have hfind : info.fields.findIdx? (·.1 == info.fields[position].1) = some position := by
    refine List.findIdx?_eq_some_iff_getElem.2 ⟨hlt, by simp, fun j hj hc => ?_⟩
    have hj' : j < (info.fields.map (·.1)).length := by simpa using Nat.lt_trans hj hlt
    have hp' : position < (info.fields.map (·.1)).length := by simpa using hlt
    have heq : (info.fields.map (·.1))[j] = (info.fields.map (·.1))[position] := by simpa using hc
    exact absurd ((List.Nodup.getElem_inj_iff hnodup).1 heq) (Nat.ne_of_lt hj)
  simp [RecordInfo.field?, hfind, hlt]

theorem getElem?_of_field? {name : String} {position : Nat} {t : Ty} (h : info.field? name = some (position, t)) :
    info.fields[position]? = some (name, t) := by
  obtain ⟨i, hi, h⟩ := Option.bind_eq_some_iff.1 h
  obtain ⟨f, hf, he⟩ := Option.map_eq_some_iff.1 h
  cases he
  obtain ⟨hlt, hname, -⟩ := List.findIdx?_eq_some_iff_getElem.1 hi
  obtain ⟨hlt, rfl⟩ := List.getElem?_eq_some_iff.1 hf
  rw [List.getElem?_eq_getElem hlt]
  simpa [Prod.ext_iff] using hname

theorem record_of_field? {tables : Lowering.Tables} {u t : Ty} {name : String} {struct : Ir.StructId} {position : Nat}
    (h : tables.field? u name = some (struct, position, t)) :
    ∃ record info, u = .record record ∧ tables.record? record = some info ∧ info.field? name = some (position, t) ∧
      info.id = struct := by
  cases u <;> simp only [Lowering.Tables.field?, reduceCtorEq] at h
  rename_i record
  obtain ⟨info, hinfo, hrest⟩ := Option.bind_eq_some_iff.1 h
  obtain ⟨p, hp, hsome⟩ := Option.bind_eq_some_iff.1 hrest
  cases hsome
  exact ⟨record, info, rfl, hinfo, hp, rfl⟩

theorem mem_zipIdx_fields {f : String × Nat} (h : f ∈ (info.fields.map (·.1)).zipIdx) :
    ∃ t, info.fields[f.2]? = some (f.1, t) := by
  have hf := List.mem_zipIdx_iff_getElem?.1 h
  obtain ⟨x, hx, he⟩ := Option.map_eq_some_iff.1 ((List.getElem?_map ..).symm.trans hf)
  exact ⟨x.2, by rw [hx, ← he]⟩

variable {env : Env} {m : Ir.Module} (hm : m.pointerBits = 64)
  (hs : m.structFields info.id = info.fields.map fun f => env.ir f.2)

include hs in
theorem structFields_getElem? {i : Nat} {f : String × Ty} (hf : info.fields[i]? = some f) :
    (m.structFields info.id)[i]? = some (env.ir f.2) := by
  rw [hs, List.getElem?_map, hf]
  rfl

include hs in
theorem sized_record : ∀ t ∈ m.structFields info.id, m.Sized t := by
  intro t ht
  rw [hs] at ht
  obtain ⟨f, -, rfl⟩ := List.mem_map.1 ht
  exact Machine.sized_of_isScalar (Env.isScalar_ir f.2)

include hm in
theorem alignOf_ir (t : Ty) : m.alignOf (env.ir t) = cellBytes (env.ir t) := by
  have hscalar : (env.ir t).isScalar = true := Env.isScalar_ir t
  generalize env.ir t = ir at hscalar ⊢
  cases ir <;> first
    | exact absurd hscalar Bool.false_ne_true
    | simp [Ir.Module.alignOf_of_plain, Ir.Module.plainLayout, cellBytes, hm]

include hm in
/-- Scalar fields are placed as the language says. -/
theorem foldl_put_cells (hl : env.layout.pointerBits = 64) (fields : List (String × Ty)) (r : Nat × Nat) :
    (fields.map fun f => env.ir f.2).foldl m.put r =
      (fields.map fun f => Reference.cellSize env.layout f.2).foldl
        (fun (stop, align) size => (Ir.roundUp stop size + size, max align size)) r := by
  induction fields generalizing r with
  | nil => rfl
  | cons f rest ih => rw [List.map_cons, List.foldl_cons, List.map_cons, List.foldl_cons, Ir.Module.put, Ir.place,
      alignOf_ir hm, Machine.sizeOf_eq_cellBytes hm (Env.isScalar_ir f.2), cellSize_eq hl, ih]

include hm hs

/-- The size of a record. -/
theorem sizeOf_record (hl : env.layout.pointerBits = 64) :
    m.sizeOf (.struct info.id) = Reference.recordSize env.layout info := by
  rw [(Ir.Module.layout_struct (sized_record hs)).1, hs, foldl_put_cells hm hl]
  rfl

/-- A field lies in the record. -/
theorem field_inside {i : Nat} {f : String × Ty} (hf : info.fields[i]? = some f) :
    m.fieldOffset info.id i + cellBytes (env.ir f.2) ≤ m.sizeOf (.struct info.id) := by
  have hi := structFields_getElem? hs hf
  have hlt := (List.getElem?_eq_some_iff.1 hi).1
  have hapart := Ir.Module.offsetIn_apart (m := m) hlt (Nat.le_refl _) hi 0
  rw [Machine.sizeOf_eq_cellBytes hm (Env.isScalar_ir f.2)] at hapart
  rw [(Ir.Module.layout_of_fields (sized_record hs)).1]
  exact Nat.le_trans hapart (Ir.roundUp_bounds _ (m.alignOf_pos _)).1

/-- Two fields lie apart. -/
theorem fields_apart {i j : Nat} {f f' : String × Ty} (hi : info.fields[i]? = some f) (hj : info.fields[j]? = some f')
    (hne : i ≠ j) : m.fieldOffset info.id i + cellBytes (env.ir f.2) ≤ m.fieldOffset info.id j ∨
      m.fieldOffset info.id j + cellBytes (env.ir f'.2) ≤ m.fieldOffset info.id i := by
  have hi := structFields_getElem? hs hi
  have hj := structFields_getElem? hs hj
  have hapart : ∀ {a b : Nat} {x : String × Ty}, a < b → b < (m.structFields info.id).length →
      (m.structFields info.id)[a]? = some (env.ir x.2) →
      m.fieldOffset info.id a + cellBytes (env.ir x.2) ≤ m.fieldOffset info.id b := by
    intro a b x hab hb ha
    rw [← Machine.sizeOf_eq_cellBytes hm (Env.isScalar_ir x.2)]
    exact Ir.Module.offsetIn_apart hab (Nat.le_of_lt hb) ha 0
  rcases Nat.lt_or_gt_of_ne hne with hlt | hgt
  · exact .inl (hapart hlt (List.getElem?_eq_some_iff.1 hj).1 hi)
  · exact .inr (hapart hgt (List.getElem?_eq_some_iff.1 hi).1 hj)

end

theorem lookup_setField (name key : String) (x : Value) (fields : List (String × Value)) :
    (setField name x fields).lookup key = if key = name then (fields.lookup key).map fun _ => x else fields.lookup key := by
  induction fields with
  | nil => simp [setField]
  | cons f rest ih =>
    obtain ⟨n, v⟩ := f
    rw [setField] at ih ⊢
    rw [List.map_cons]
    by_cases hk : key = n
    · subst hk
      by_cases hn : key = name <;> simp [hn]
    · have hk' : (key == n) = false := by simpa using hk
      by_cases hn : n = name
      · subst hn
        simp [List.lookup_cons, hk', ih, hk]
      · simp [List.lookup_cons, hn, hk', ih]

/-! ### Records by reference -/

/-- A record of the store. -/
structure RecordIn (S : Scene) (g : Ground) (H : Heap) (M : State) (name : String) (id j : Nat)
    (fields : List (String × Value)) (info : RecordInfo) (a : Allocation) : Prop where
  role : g[j]? = some (.object id (.record name))
  object : H[id]? = some (.record name fields)
  stored : RecordAt S.layout S.env.tables S.world.module g M.store.memory j name fields info a

/-- What an operand that is a record refers to. -/
inductive RefersTo (S : Scene) (b : Builder) (M : State) (g : Ground) (H : Heap) (name : String) (info : RecordInfo)
    (p : ValueId) : Value → Prop
  | null (hv : Holds b M p (.ptr 0)) : RefersTo S b M g H name info p .null
  | record {id j fields a} (hv : Holds b M p (.ptr (blockAddress j))) (h : RecordIn S g H M name id j fields info a) :
      RefersTo S b M g H name info p (.object id)

section

variable {S : Scene} {scope : Scope} {ρ : Locals} {b b' : Builder} {M M' : State} {g g' : Ground} {H H' : Heap}
  {name f : String} {p v : ValueId} {id j position : Nat} {fields : List (String × Value)} {info : RecordInfo}
  {a : Allocation} {t : Ty} {x : Value}

theorem Stands.recordIn (h : Stands S scope ρ g H M) (hj : g[j]? = some (.object id (.record name))) :
    ∃ fields info a, RecordIn S g H M name id j fields info a := by
  obtain ⟨o, ho, hs⟩ := h.models.objects hj
  cases o with
  | record name' fields =>
    obtain ⟨ht, info, a, hr⟩ := hs
    cases ht
    exact ⟨fields, info, a, hj, ho, hr⟩
  | vector elem items capacity => cases hs.1

theorem Denotes.refersTo (h : Denotes S b M g p ⟨x, .record name⟩) (hst : Stands S scope ρ g H M)
    (hn : S.env.tables.record? name = some info) : RefersTo S b M g H name info p x := by
  obtain ⟨y, hv, hy⟩ := h.holds (by simp)
  cases x with
  | null => exact .null (hy.2 ▸ hv)
  | object id =>
    obtain ⟨-, j, hj, rfl⟩ := hy
    obtain ⟨fields, info', a, hin⟩ := hst.recordIn hj
    obtain rfl : info' = info := Option.some.inj (hin.stored.known.symm.trans hn)
    exact .record hv hin
  | int n =>
    obtain ⟨bits, signed, hs, -⟩ := hy
    cases hs
  | _ => cases hy.1

namespace RecordIn

variable (h : RecordIn S g H M name id j fields info a)

include h

theorem same (hst : M'.store = M.store) : RecordIn S g H M' name id j fields info a := ⟨h.role, h.object, hst ▸ h.stored⟩

theorem recordOf_bind {α : Type} (k : Nat × String × List (String × Value) → Sem α) :
    (Reference.recordOf (.object id) >>= k) H = k (id, name, fields) H := by
  have hof : Reference.recordOf (.object id) H = .value (id, name, fields) H := by
    show (Sem.fetch id >>= _ : Sem _) H = _
    show Result.bind _ (Sem.fetch id H) = _
    rw [Sem.fetch, h.object]
    rfl
  show Result.bind _ (Reference.recordOf (.object id) H) = _
  rw [hof]
  rfl

theorem structFields (hS : S.Ready) :
    S.world.module.structFields info.id = info.fields.map fun f => S.env.ir f.2 := hS.runnable.fits.records h.stored.known

theorem inside (hS : S.Ready) (hf : info.field? f = some (position, t)) :
    S.world.module.fieldOffset info.id position + cellBytes (S.env.ir t) ≤ a.size := by
  rw [h.stored.size]
  exact field_inside hS.runnable.modulePointerBits (h.structFields hS) (getElem?_of_field? hf)

end RecordIn

/-- An operand is stored in a field. -/
theorem field_stored (hS : S.Ready) (hst : Stands S scope ρ g H M) (h : RecordIn S g H M name id j fields info a)
    (hM : At S.world.func b M) (hp : Part b' S.world) (e : Acts b b' (.store v p))
    (hf : info.field? f = some (position, t))
    (haddr : Holds b M p (.ptr (addressOf j (S.world.module.fieldOffset info.id position))))
    (hv : S.world.func.valueType v = S.env.ir t) (hx : Denotes S b M g v ⟨x, t⟩) :
    Leads S scope ρ b M g b' (.value () (H.set id (.record name (setField f (keptAs t x) fields)))) fun _ _ _ => True := by
  intro k
  refine store_runs hst hM hp e haddr.value h.role rfl h.stored.live hS hv hx (fun hr => ?_) (h.inside hS hf)
    fun {g₁ st y M'} hg hst₁ hold henc m hst' => ?_
  · have hrefs : info.hasReferences = true :=
      List.any_eq_true.2 ⟨(f, t), List.mem_of_getElem? (getElem?_of_field? hf), hr⟩
    simp [Role.isAtomic, h.stored.known, hrefs]
  have hlive₁ := h.stored.live.of_eq (hold j h.stored.live.lt_size)
  have hstored : RecordAt S.layout S.env.tables S.world.module g₁
      (st.memory.set j (a.write (S.env.ir t) (S.world.module.fieldOffset info.id position) y)) j name
      (setField f (keptAs t x) fields) info (a.write (S.env.ir t) (S.world.module.fieldOffset info.id position) y) := by
    refine ⟨h.stored.known, hlive₁.set_self (Allocation.size_write ..), (Allocation.size_write ..).trans h.stored.size,
      fun {f' q u} hf' => ?_⟩
    obtain ⟨z, hz, henc'⟩ := h.stored.holds hf'
    rw [lookup_setField]
    by_cases hff : f' = f
    · subst hff
      obtain ⟨rfl, rfl⟩ : q = position ∧ u = t := by simpa [hf] using hf'.symm
      refine ⟨keptAs u x, by simp [hz], ?_⟩
      have hof : y.Of (S.env.ir u) := henc.of hS.runnable.pointerBits
      rw [show S.layout.irType u = S.env.ir u from rfl, Allocation.read_write_self a _ hof]
      exact henc.kept hS.runnable.pointerBits
    · refine ⟨z, by simpa [hff] using hz, ?_⟩
      have hne : q ≠ position := by
        rintro rfl
        have := (getElem?_of_field? hf').symm.trans (getElem?_of_field? hf)
        exact hff (congrArg Prod.fst (Option.some.inj this))
      have hapart := fields_apart hS.runnable.modulePointerBits (h.structFields hS) (getElem?_of_field? hf')
        (getElem?_of_field? hf) hne
      rw [show S.layout.irType u = S.env.ir u from rfl, Allocation.read_write_apart (Env.isScalar_ir u) hapart]
      exact henc'.mono hg
  have hrole := getElem?_of_grown hg h.role
  refine k ⟨m, hst₁.change hS hrole (st.memory.set j _) (Machine.Memory.size_set ..) (fun {i r} hi hr => ?_)
    ⟨rfl, info, _, hstored⟩ (hst.seated.stays m.stays) hst', hg⟩ trivial
  refine Machine.Memory.set_ne _ ?_
  rintro rfl
  rw [hrole] at hi
  cases hi
  exact hr rfl

end

/-! ### Reading a field -/

section

variable {env : Env} {scope : Scope} {b b₁ b₂ b' : Builder}

/-- The address of a field is found. -/
theorem recordField_finds (h : b.Live) (hfits : env.Fits b.module) {record name : String} {info : RecordInfo}
    (hn : env.tables.record? record = some info) {position : Nat} {f : String × Ty} (hf : info.fields[position]? = some f)
    {p : ValueId} (hp : b.function.Has p .ptr) :
    (Emit.fieldPtr info.id p position name).Sat b fun addr b' => (Onward b b' ∧ b'.function.Has addr .ptr) ∧
      ∀ {S : Scene} {M : State}, S.Ready → S.env = env → Part b' S.world → At S.world.func b M →
        (Holds b M p (.ptr 0) → Faults S.world M .nullReference) ∧
        ∀ {j : Nat} {a : Allocation}, Holds b M p (.ptr (blockAddress j)) → Live M.store.memory j a →
          S.world.Reaches b M b' (Holds b' · addr (.ptr (addressOf j (S.world.module.fieldOffset info.id position)))) := by
  have hk : position < (b.module.structFields info.id).length :=
    (List.getElem?_eq_some_iff.1 (structFields_getElem? (hfits.records hn) hf)).1
  refine (fieldPtr_reaches h hp hk name).imp ?_
  rintro addr b' ⟨o, r⟩
  refine ⟨o, fun {S M} hS he hpart hM => ?_⟩
  obtain ⟨hnull, hfind⟩ := r hpart hM
  exact ⟨hnull, hfind (sized_record (hS.runnable.fits.records (he ▸ hn)))⟩

/-- A field of the value of an expression. -/
theorem follows_field (hb : Placed env scope b) {recv : Typed} {mean : Caller → String → Locals → Sem Datum}
    (hr : Follows env scope b recv b₁ mean) {name : String} {struct : Ir.StructId} {position : Nat} {t : Ty}
    (hf : env.tables.field? recv.ty name = some (struct, position, t)) {addr a : ValueId}
    (hp : Emit.fieldPtr struct recv.value position name b₁ = (addr, b₂))
    (ha : Emit.load (env.ir t) addr name b₂ = (a, b')) :
    Follows env scope b ⟨a, t⟩ b' fun call func ρ => mean call func ρ >>= fun d => Reference.evalField env d name := by
  obtain ⟨record, info, ht, hn, hfield, rfl⟩ := record_of_field? hf
  have hfits := hb.fits.grows hr.onward.ext.module
  have hhas := hr.has
  rw [ht] at hhas
  obtain ⟨⟨o₂, haddr⟩, r₂⟩ := (recordField_finds hr.onward.live hfits hn (getElem?_of_field? hfield) hhas).of_eq hp
  obtain ⟨⟨o', ha'⟩, r'⟩ := (load_reaches o₂.live haddr (Env.isScalar_ir t) name).of_eq ha
  have o := (hr.onward.trans o₂).trans o'
  refine ⟨o, ha', fun {S ρ g H M} hS he htoward hM hst => ?_⟩
  subst he
  refine (hr.runs hS rfl (htoward.before (o₂.trans o').ext) hM hst).bind fun {d H₁ g₁ M₁} a₁ hd => ?_
  obtain ⟨u, tu⟩ := d
  obtain ⟨rfl, hu⟩ := hd
  have heval : Reference.evalField S.env ⟨u, recv.ty⟩ name = do return ⟨← Reference.readField u name, t⟩ := by
    simp only [Reference.evalField, hf]
  rw [heval]
  rw [ht] at hu
  have p₂ := htoward.toPart.back o'
  obtain ⟨hnull, hfind⟩ := r₂ hS.toReady rfl p₂ a₁.moved.toAt
  cases hu.refersTo a₁.stands hn with
  | null hv => exact Leads.of_faults hS a₁.stands (hnull hv)
  | @record id j fields alloc hv hin =>
    obtain ⟨x, hx, henc⟩ := hin.stored.holds hfield
    have hread : (do return ⟨← Reference.readField (.object id) name, t⟩ : Sem Datum) H₁ = .value ⟨x, t⟩ H₁ := by
      show Result.bind _ (Reference.readField _ _ H₁) = _
      rw [Reference.readField, hin.recordOf_bind]
      dsimp only
      rw [hx]
      rfl
    rw [hread]
    have hload : ∀ {M₂ : State}, M₂.store = M₁.store → M₂.store.memory.load S.world.module (S.env.ir t)
        (addressOf j (S.world.module.fieldOffset info.id position)) =
          .ok (alloc.read (S.env.ir t) (S.world.module.fieldOffset info.id position)) := fun hst₂ => by
      rw [hst₂]
      exact hin.stored.live.load_eq hS.runnable.modulePointerBits (Env.isScalar_ir t) (hin.inside hS.toReady hfield)
    have hreach : S.world.Reaches b₁ M₁ b' (Holds b' · a _) := fun k =>
      hfind hv hin.stored.live fun M₂ m₂ hst₂ hv₂ =>
        r' htoward.toPart m₂.toAt hv₂.value (hload hst₂) fun M₃ m₃ hst₃ hv₃ => k M₃ (m₂.trans m₃) (hst₃.trans hst₂) hv₃
    exact (Leads.of_reaches hS.toReady a₁.stands hreach).value fun a hv' =>
      ⟨rfl, .of_holds hv' (henc.mono a.grows)⟩

end

/-! ### Initialisers -/

/-- The initialisers of the fields at some positions have the values of the fields by name. -/
structure Given (S : Scene) (b : Builder) (M : State) (g : Ground) (info : RecordInfo) (values : List (Nat × ValueId))
    (fields : List (String × Value)) : Prop where
  names : ∀ {name}, (fields.lookup name).isSome → ∃ position t, info.field? name = some (position, t) ∧
    position ∈ values.map (·.1)
  found : ∀ {position name t v}, info.fields[position]? = some (name, t) → values.lookup position = some v →
    ∃ x, fields.lookup name = some (keptAs t x) ∧ Denotes S b M g v ⟨x, t⟩

theorem Given.mono {S : Scene} {b b' : Builder} {M M' : State} {g g' : Ground} {info : RecordInfo}
    {values : List (Nat × ValueId)} {fields : List (String × Value)} (h : Given S b M g info values fields)
    (hm : Moved S.world.func b M b' M') (hg : g <+: g') : Given S b' M' g' info values fields where
  names := h.names
  found hf hv := by
    obtain ⟨x, hx, hd⟩ := h.found hf hv
    exact ⟨x, hx, hd.mono hm hg⟩

/-- The operands of initialisers have the types of their fields. -/
def Fielded (env : Env) (b : Builder) (info : RecordInfo) (values : List (Nat × ValueId)) : Prop :=
  ∀ {position v}, values.lookup position = some v →
    ∃ f, info.fields[position]? = some f ∧ b.function.Has v (env.ir f.2)

/-- What was lowered from `b` to `b'` gives the values of initialisers, after those that have a value already. -/
structure FollowsInits (env : Env) (scope : Scope) (info : RecordInfo) (values : List (Nat × ValueId)) (b : Builder)
    (values' : List (Nat × ValueId)) (b' : Builder)
    (mean : Caller → String → Locals → Sem (List (String × Value))) : Prop where
  onward : Onward b b'
  fielded : Fielded env b info values → Fielded env b' info values'
  runs : ∀ {S : Scene} {ρ : Locals} {g : Ground} {H : Heap} {M : State} {before : List (String × Value)}, S.Open →
    S.env = env → Toward b b' S.world → At S.world.func b M → Stands S scope ρ g H M → Given S b M g info values before →
    Leads S scope ρ b M g b' (mean S.call S.world.func.name ρ H) fun fields g' M' =>
      Given S b' M' g' info values' (before ++ fields)

section

variable {env : Env} {scope : Scope} {info : RecordInfo} {values values' : List (Nat × ValueId)} {b b₁ b' : Builder}

theorem FollowsInits.nil (h : b.Live) : FollowsInits env scope info values b values b fun _ _ _ => pure [] where
  onward := .refl h
  fielded h := h
  runs _ _ _ hM hst hgiven := Leads.pure (.refl hM hst) (by rwa [List.append_nil])

/-- One more initialiser has its value. -/
theorem Given.cons {S : Scene} {M : State} {g : Ground} {fields : List (String × Value)}
    (h : Given S b M g info values fields) {name : String} {position : Nat} {t : Ty}
    (hf : info.field? name = some (position, t)) (hnew : position ∉ values.map (·.1)) {v : ValueId} {x : Value}
    (hx : Denotes S b M g v ⟨x, t⟩) :
    Given S b M g info ((position, v) :: values) (fields ++ [(name, keptAs t x)]) where
  names {name'} hsome := by
    rw [List.lookup_append] at hsome
    by_cases hold : (fields.lookup name').isSome
    · obtain ⟨q, u, hq, hmem⟩ := h.names hold
      exact ⟨q, u, hq, List.mem_cons_of_mem _ hmem⟩
    · obtain rfl : name' = name := by
        by_contra hne
        have : (name' == name) = false := by simpa using hne
        simp [Option.not_isSome_iff_eq_none.1 hold, List.lookup_cons, this] at hsome
      exact ⟨position, t, hf, List.mem_cons_self ..⟩
  found {q name' u w} hq hw := by
    rw [List.lookup_append]
    by_cases hpos : q = position
    · subst hpos
      obtain ⟨rfl, rfl⟩ : name' = name ∧ u = t := by
        simpa using hq.symm.trans (getElem?_of_field? hf)
      obtain rfl : v = w := by simpa using hw
      have hnone : fields.lookup name' = none := by
        by_contra hsome
        obtain ⟨q', u', hq', hmem⟩ := h.names (Option.isSome_iff_ne_none.2 hsome)
        rw [hf] at hq'
        cases hq'
        exact hnew hmem
      exact ⟨x, by simp [hnone], hx⟩
    · have hbeq : (q == position) = false := by simpa using hpos
      rw [List.lookup_cons, hbeq] at hw
      obtain ⟨y, hy, hd⟩ := h.found hq hw
      exact ⟨y, by simp [hy], hd⟩

theorem FollowsInits.cons {name : String} {position : Nat} {t : Ty} (hf : info.field? name = some (position, t))
    (hnew : position ∉ values.map (·.1)) {v : Typed} {init : Caller → String → Locals → Eval}
    {rest : Caller → String → Locals → List (String × Eval)}
    (h : Follows env scope b v b₁ fun call func ρ => init call func ρ (some t))
    (ha : Types.assignable v.ty t = true)
    (k : FollowsInits env scope info ((position, v.value) :: values) b₁ values' b' fun call func ρ =>
      Reference.evalInits info (rest call func ρ)) :
    FollowsInits env scope info values b values' b' fun call func ρ =>
      Reference.evalInits info ((name, init call func ρ) :: rest call func ρ) where
  onward := h.onward.trans k.onward
  fielded hfielded := by
    refine k.fielded fun {q w} hw => ?_
    by_cases hpos : q = position
    · subst hpos
      obtain rfl : v.value = w := by simpa using hw
      exact ⟨_, getElem?_of_field? hf, (show env.ir v.ty = env.ir t from Lowering.ir_of_assignable ha) ▸ h.has⟩
    · have hbeq : (q == position) = false := by simpa using hpos
      rw [List.lookup_cons, hbeq] at hw
      obtain ⟨f, hf', hhas⟩ := hfielded hw
      exact ⟨f, hf', h.onward.has hhas⟩
  runs {S ρ g H M before} hS he htoward hM hst hgiven := by
    simp only [Reference.evalInits, hf]
    have hinit : Leads S scope ρ b M g b₁ (Reference.evalKept (init S.call S.world.func.name ρ) t H) fun x g₁ M₁ =>
        Given S b₁ M₁ g₁ info ((position, v.value) :: values) (before ++ [(name, x)]) := by
      refine (h.runs hS he (htoward.before k.onward.ext) hM hst).bind fun {d H₁ g₁ M₁} a₁ hd => ?_
      obtain ⟨u, tu⟩ := d
      obtain ⟨rfl, hu⟩ := hd
      exact Leads.pure (.refl a₁.moved.toAt a₁.stands) ((hgiven.mono a₁.moved a₁.grows).cons hf hnew (hu.coerce ha))
    refine hinit.bind fun {x H₁ g₁ M₁} a₁ hgiven₁ => ?_
    refine (k.runs hS he (htoward.since h.onward.ext.toLater) a₁.moved.toAt a₁.stands hgiven₁).bind fun a₂ hgiven₂ => ?_
    refine Leads.pure (.refl a₂.moved.toAt a₂.stands) ?_
    rwa [List.append_assoc] at hgiven₂

end

/-! ### Literals -/

/-- The fields of a record once those at some positions are overwritten. -/
def overwritten (given : List (String × Value)) : List (String × Nat) → List (String × Value) → List (String × Value)
  | [], fields => fields
  | (name, _) :: rest, fields =>
    overwritten given rest (match given.lookup name with
      | some x => setField name x fields
      | none => fields)

theorem lookup_overwritten (given : List (String × Value)) (key : String) {x : Value} (hx : given.lookup key = some x)
    (todo : List (String × Nat)) (fields : List (String × Value)) (hkey : (fields.lookup key).isSome) :
    (key ∈ todo.map (·.1) → (overwritten given todo fields).lookup key = some x) ∧
      (fields.lookup key = some x → (overwritten given todo fields).lookup key = some x) := by
  induction todo generalizing fields with
  | nil => exact ⟨fun h => (by cases h), fun h => h⟩
  | cons f rest ih =>
    obtain ⟨name, position⟩ := f
    rw [overwritten]
    cases hgiven : given.lookup name with
    | none =>
      have hne : key ≠ name := by
        rintro rfl
        rw [hx] at hgiven
        cases hgiven
      obtain ⟨hmem, hold⟩ := ih fields hkey
      exact ⟨fun h => hmem ((List.mem_cons.1 h).resolve_left hne), hold⟩
    | some y =>
      have hlookup := lookup_setField name key y fields
      obtain ⟨v, hv⟩ := Option.isSome_iff_exists.1 hkey
      obtain ⟨hmem, hold⟩ := ih (setField name y fields) (by rw [hlookup, hv]; split <;> rfl)
      by_cases hne : key = name
      · subst hne
        obtain rfl : x = y := Option.some.inj (hx.symm.trans hgiven)
        have hself : (setField key x fields).lookup key = some x := by rw [hlookup, if_pos rfl, hv]; rfl
        exact ⟨fun _ => hold hself, fun _ => hold hself⟩
      · rw [if_neg hne] at hlookup
        exact ⟨fun h => hmem ((List.mem_cons.1 h).resolve_left hne), fun h => hold (hlookup.trans h)⟩

section

variable {env : Env} {info : RecordInfo} {values : List (Nat × ValueId)}

/-- The initialisers are stored in their fields. -/
theorem storeFields_leads {record : String} (hn : env.tables.record? record = some info) {object : ValueId}
    (todo : List (String × Nat)) (htodo : ∀ f ∈ todo, ∃ t, info.fields[f.2]? = some (f.1, t))
    (hall : ∀ f ∈ todo, (values.lookup f.2).isSome) {b : Builder} (h : b.Live) (hfits : env.Fits b.module)
    (hobject : b.function.Has object .ptr) (hvalues : Fielded env b info values) :
    (storeFields info object values todo).Sat b fun _ b' => Onward b b' ∧
      ∀ {S : Scene} {scope : Scope} {ρ : Locals} {M : State} {g : Ground} {H : Heap} {id j : Nat} {a : Allocation}
        {fields given : List (String × Value)}, S.Open → S.env = env → Part b' S.world → At S.world.func b M →
        Stands S scope ρ g H M → RecordIn S g H M record id j fields info a → Holds b M object (.ptr (blockAddress j)) →
        Given S b M g info values given →
        Leads S scope ρ b M g b' (.value () (H.set id (.record record (overwritten given todo fields)))) fun _ _ _ => True := by
  induction todo generalizing b with
  | nil =>
    refine Sat.pure ⟨.refl h, fun {S scope ρ M g H id j a fields given} hS he hp hM hst hin hheld hgiven => ?_⟩
    have hsame : H.set id (.record record (overwritten given [] fields)) = H := by
      obtain ⟨hlt, hget⟩ := List.getElem?_eq_some_iff.1 hin.object
      rw [overwritten, ← hget, List.set_getElem_self]
    rw [hsame]
    exact fun k => k (.refl hM hst) trivial
  | cons f rest ih =>
    obtain ⟨name, position⟩ := f
    obtain ⟨t, hf⟩ := htodo _ (List.mem_cons_self ..)
    obtain ⟨v, hv⟩ := Option.isSome_iff_exists.1 (hall _ (List.mem_cons_self ..))
    dsimp only at hf hv
    obtain ⟨f', hf', hhas⟩ := hvalues hv
    obtain rfl : f' = (name, t) := Option.some.inj (hf'.symm.trans hf)
    rw [storeFields, hv]
    refine Sat.bind (recordField_finds h hfits hn hf hobject) fun addr b₁ ⟨⟨o₁, haddr⟩, r₁⟩ => ?_
    refine Sat.bind ((Ir.Emit.store_onward o₁.live (.inl ⟨_, o₁.has hhas⟩) haddr).and (Machine.store_acts o₁.live haddr)) ?_
    rintro - b₂ ⟨⟨o₂, -⟩, e⟩
    have o₁₂ := o₁.trans o₂
    have hvalues₂ : Fielded env b₂ info values := fun hw => by
      obtain ⟨f, hf, hhas⟩ := hvalues hw
      exact ⟨f, hf, o₁₂.has hhas⟩
    refine (ih (fun f hf => htodo f (List.mem_cons_of_mem _ hf)) (fun f hf => hall f (List.mem_cons_of_mem _ hf)) o₂.live
      (hfits.grows o₁₂.ext.module) (o₁₂.has hobject) hvalues₂).imp ?_
    rintro - b₃ ⟨o₃, r₃⟩
    refine ⟨o₁₂.trans o₃, fun {S scope ρ M g H id j a fields given} hS he hp hM hst hin hheld hgiven => ?_⟩
    subst he
    have p₂ := hp.back o₃
    obtain ⟨x, hx, hd⟩ := hgiven.found hf hv
    have hfield := field?_of_getElem? (hS.runnable.fieldNames hn) hf
    refine Leads.past hS.toReady hst ((r₁ hS.toReady rfl (p₂.back o₂) hM).2 hheld hin.stored.live)
      fun {M₁} a₁ hst₁ hv₁ => ?_
    refine (field_stored hS.toReady a₁.stands (hin.same hst₁) a₁.moved.toAt p₂ e hfield hv₁
      (valueType_of_has (p₂.back o₂) (o₁.has hhas)) (hd.mono a₁.moved a₁.grows)).next fun {g₂ M₂} a₂ _ => ?_
    have a₁₂ := a₁.trans a₂
    obtain ⟨fields₂, info₂, alloc₂, hin₂⟩ := a₂.stands.recordIn (getElem?_of_grown a₁₂.grows hin.role)
    obtain rfl : info₂ = info := Option.some.inj (hin₂.stored.known.symm.trans hn)
    obtain rfl : fields₂ = setField name (keptAs t x) fields := by
      have hobj := hin₂.object
      rw [List.getElem?_set_self (List.getElem?_eq_some_iff.1 hin.object).1] at hobj
      cases hobj
      rfl
    have := r₃ hS rfl hp a₂.moved.toAt a₂.stands hin₂ (a₁₂.moved.holds hheld) (hgiven.mono a₁₂.moved a₁₂.grows)
    rw [List.set_set] at this
    rw [overwritten, hx]
    exact this

/-- A record is worth what its fields are worth by name. -/
theorem Stands.reordered {S : Scene} {scope : Scope} {ρ : Locals} {g : Ground} {H : Heap} {M : State} (hS : S.Ready)
    (hst : Stands S scope ρ g H M) {record : String} {id j : Nat} {fields : List (String × Value)} {a : Allocation}
    (h : RecordIn S g H M record id j fields info a) (fields' : List (String × Value))
    (hsame : ∀ {name position t}, info.field? name = some (position, t) → fields'.lookup name = fields.lookup name) :
    Stands S scope ρ g (H.set id (.record record fields')) M := by
  refine hst.change hS h.role _ rfl (fun _ _ => rfl) ⟨rfl, info, a, h.stored.known, h.stored.live, h.stored.size, fun hf => ?_⟩
    hst.seated rfl
  rw [hsame hf]
  exact h.stored.holds hf

end

section

variable {env : Env} {scope : Scope} {b b₁ b₂ b₃ b' : Builder}

/-- A record whose fields are all zero. -/
theorem recordAt_fresh {l : Types.Layout} (hl : l.pointerBits = 64) {tables : Lowering.Tables} {m : Ir.Module} {g : Ground}
    {mem : Machine.Memory} {j : Nat} {name : String} {info : RecordInfo} (hn : tables.record? name = some info)
    (hnodup : (info.fields.map (·.1)).Nodup) (hlive : Live mem j { size := m.sizeOf (.struct info.id) }) :
    RecordAt l tables m g mem j name (info.fields.map fun f => (f.1, zeroValue f.2)) info
      { size := m.sizeOf (.struct info.id) } where
  known := hn
  live := hlive
  size := rfl
  holds {f position t} hf := by
    refine ⟨zeroValue t, ?_, encodes_zeroValue hl ..⟩
    have hmem := List.mem_of_getElem? (getElem?_of_field? hf)
    generalize info.fields = fields at hmem hnodup
    induction fields with
    | nil => cases hmem
    | cons x rest ih =>
      rw [List.map_cons, List.nodup_cons] at hnodup
      rw [List.map_cons, List.lookup_cons]
      rcases List.mem_cons.1 hmem with rfl | hmem
      · simp
      · have hne : (f == x.1) = false := by
          have : f ≠ x.1 := fun he => hnodup.1 (he ▸ List.mem_map_of_mem (f := (·.1)) hmem)
          simpa using this
        rw [hne]
        exact ih hmem hnodup.2

/-- A record literal. -/
theorem follows_record (hl : env.config.pointerBits = 64) (hcollector : env.allocator = .collector)
    (hb : Placed env scope b) {name : String} {info : RecordInfo} {values : List (Nat × ValueId)}
    {inits : Caller → String → Locals → List (String × Eval)} (hn : env.tables.record? name = some info)
    (hi : FollowsInits env scope info [] b values b₁ fun call func ρ => Reference.evalInits info (inits call func ρ))
    (hall : ∀ f ∈ (info.fields.map (·.1)).zipIdx, (values.lookup f.2).isSome = true) {size object : ValueId}
    (hs : Emit.constUsize (UInt64.ofNat (b₁.module.sizeOf (.struct info.id))) b₁ = (size, b₂))
    (ho : env.allocator.allocate size (if info.hasReferences then .general else .noReferences) name b₂ = (object, b₃))
    (hf : storeFields info object values ((info.fields.map (·.1)).zipIdx) b₃ = ((), b')) :
    Follows env scope b ⟨object, .record name⟩ b' fun call func ρ => Reference.evalRecord env name (inits call func ρ) := by
  have hfits₁ := hb.fits.grows hi.onward.ext.module
  have hbits₁ := hfits₁.pointerBits.trans hl
  have hword₁ := ptrInt_eq hbits₁
  rw [sizeOf_record hbits₁ (hfits₁.records hn) hl] at hs
  obtain ⟨⟨o₂, hsize⟩, r₂⟩ := (constUsize_reaches hi.onward.live hword₁ _).of_eq hs
  rw [hcollector] at ho
  obtain ⟨⟨o₃, hobject⟩, r₃⟩ :=
    (collector_allocates o₂.live (by rw [o₂.ptrInt, hword₁]; exact hsize) _ _).of_eq ho
  have o₂₃ := o₂.trans o₃
  have hvalues : Fielded env b₃ info values := fun hw => by
    obtain ⟨f, hf, hhas⟩ := hi.fielded (fun hw => by cases hw) hw
    exact ⟨f, hf, o₂₃.has hhas⟩
  obtain ⟨o₄, r₄⟩ := (storeFields_leads hn _ (fun f hf => mem_zipIdx_fields hf) hall o₃.live
    (hfits₁.grows o₂₃.ext.module) hobject hvalues).of_eq hf
  have o := o₂₃.trans o₄
  refine ⟨hi.onward.trans o, o₄.has hobject, fun {S ρ g H M} hS he htoward hM hst => ?_⟩
  subst he
  simp only [Reference.evalRecord, hn]
  have hgiven : Given S b M g info [] [] := ⟨fun h => (by cases h), fun _ hv => (by cases hv)⟩
  refine (hi.runs hS rfl (htoward.before o.ext) hM hst hgiven).bind fun {fields H₁ g₁ M₁} a₁ hgiven₁ => ?_
  rw [List.nil_append] at hgiven₁
  have p₃ := htoward.toPart.back o₄
  refine Leads.past hS.toReady a₁.stands (r₂ (p₃.back o₃) a₁.moved.toAt) fun {M₂} a₂ hst₂ hv₂ => ?_
  have hmsize := sizeOf_record hS.runnable.modulePointerBits (hS.runnable.fits.records hn) hS.runnable.pointerBits
  have hbytes : (UInt64.ofNat (Reference.recordSize S.env.layout info)).toNat = S.world.module.sizeOf (.struct info.id) := by
    rw [hmsize]
    exact UInt64.toNat_ofNat_of_lt' (hmsize ▸ hS.runnable.recordSize hn)
  have halloc := r₃ p₃ a₂.moved.toAt hv₂
  rw [hbytes] at halloc
  rw [Sem.demandBytes_bind, ← hmsize]
  split
  · rename_i hlarge
    exact Leads.of_faults hS a₂.stands (halloc.tooLarge hlarge)
  rename_i hsmall
  have hkind : (Role.object H₁.length (.record name)).isAtomic S.env.tables = true ↔
      (if info.hasReferences then Lowering.AllocKind.general else .noReferences) = .noReferences := by
    cases hrefs : info.hasReferences <;> simp [Role.isAtomic, hn, hrefs]
  refine (halloc.create hS a₂.stands (Nat.not_lt.1 hsmall) hkind (o := .record name _) fun hlive =>
    ⟨rfl, info, _, recordAt_fresh hS.runnable.pointerBits hn (hS.runnable.fieldNames hn) hlive⟩).next
    fun {g₃ M₃} a₃ hcreated => ?_
  obtain ⟨rfl, hheld₃, hlive₃⟩ := hcreated
  have hrole : (g₁ ++ [Role.object H₁.length (.record name)])[g₁.length]? = some (.object H₁.length (.record name)) := by simp
  obtain ⟨fields₃, info₃, alloc₃, hin₃⟩ := a₃.stands.recordIn hrole
  obtain rfl : info₃ = info := Option.some.inj (hin₃.stored.known.symm.trans hn)
  have a₂₃ := a₂.trans a₃
  have hgiven₃ := hgiven₁.mono a₂₃.moved a₂₃.grows
  refine (r₄ hS rfl htoward.toPart a₃.moved.toAt a₃.stands hin₃ hheld₃ hgiven₃).next fun {g₄ M₄} a₄ _ => ?_
  obtain ⟨fields₄, info₄, alloc₄, hin₄⟩ := a₄.stands.recordIn (getElem?_of_grown a₄.grows hrole)
  obtain rfl : info₄ = info₃ := Option.some.inj (hin₄.stored.known.symm.trans hn)
  have hfields₄ : fields₄ = overwritten fields ((info₄.fields.map (·.1)).zipIdx) fields₃ := by
    have hobj := hin₄.object
    rw [List.getElem?_set_self (List.getElem?_eq_some_iff.1 hin₃.object).1] at hobj
    cases hobj
    rfl
  have hst₄ := a₄.stands.reordered hS.toReady hin₄ fields fun {f position t} hf' => by
    have hposition := getElem?_of_field? hf'
    have hmem : (f, position) ∈ (info₄.fields.map (·.1)).zipIdx := by
      rw [List.mem_zipIdx_iff_getElem?, List.getElem?_map, hposition]
      rfl
    obtain ⟨v, hv⟩ := Option.isSome_iff_exists.1 (hall _ hmem)
    obtain ⟨x, hx, -⟩ := hgiven₁.found hposition hv
    obtain ⟨z, hz, -⟩ := hin₃.stored.holds hf'
    rw [hfields₄, hx, (lookup_overwritten fields f hx _ fields₃ (by rw [hz]; rfl)).1 (List.mem_map_of_mem (f := (·.1)) hmem)]
  have hheap : ((H₁ ++ [Object.record name (info₄.fields.map fun f => (f.1, zeroValue f.2))]).set H₁.length
      (.record name (overwritten fields ((info₄.fields.map (·.1)).zipIdx) fields₃))).set H₁.length (.record name fields) =
        H₁ ++ [.record name fields] := by simp
  rw [hheap] at hst₄
  exact fun k => k ⟨.refl a₄.moved.toAt, hst₄, List.prefix_refl _⟩
    ⟨rfl, .of_holds (a₄.moved.holds hheld₃) ⟨rfl, _, hin₄.role, rfl⟩⟩

end

end BlockForge.Simulation
