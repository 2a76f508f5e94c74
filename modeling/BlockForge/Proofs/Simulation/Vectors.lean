import BlockForge.Proofs.Simulation.Descriptors

/-!
# Reading vectors

Running the operations on vectors that find an element by its index or read the descriptor: the element is the one of
the list that the vector stands for, and an index that is out of bounds changes nothing.
-/

namespace BlockForge.Simulation

open Ir (Builder Emit ValueId)
open Ir.Emit (Onward)
open Lowering (Env Scope Typed VectorField VectorShape)
open Machine (Acts Allocation At Exec Holds Live Moved Part State Stays Toward Val World addressOf blockAddress cellBytes
  maxOffset)
open Reference (Caller Datum Eval Heap Locals Result Sem Value)
open StateM
open BlockForge.Types (Ty)

/-! ### Vectors by reference -/

/-- A vector of the store. -/
structure VectorIn (S : Scene) (g : Ground) (H : Heap) (M : State) (elem : Ty) (id j : Nat) (items : List Value)
    (capacity : Nat) (d : Allocation) (elems : UInt64) : Prop where
  role : g[j]? = some (.object id (.vector elem))
  object : H[id]? = some (.vector elem items capacity)
  stored : VectorAt S.layout S.world.module g M.store.memory j id elem items capacity d elems

/-- What an operand that is a vector refers to. -/
inductive Receives (S : Scene) (b : Builder) (M : State) (g : Ground) (H : Heap) (elem : Ty) (desc : ValueId) :
    Value → Prop
  | null (hv : Holds b M desc (.ptr 0)) : Receives S b M g H elem desc .null
  | vector {id j items capacity d elems} (hv : Holds b M desc (.ptr (blockAddress j)))
      (h : VectorIn S g H M elem id j items capacity d elems) : Receives S b M g H elem desc (.object id)

section

variable {S : Scene} {scope : Scope} {ρ : Locals} {b b' : Builder} {M M' : State} {g g' : Ground} {H H' : Heap} {elem : Ty}
  {desc : ValueId} {id j : Nat} {items : List Value} {capacity : Nat} {d : Allocation} {elems : UInt64} {u : Value}

theorem Stands.vectorIn (h : Stands S scope ρ g H M) (hj : g[j]? = some (.object id (.vector elem))) :
    ∃ items capacity d elems, VectorIn S g H M elem id j items capacity d elems := by
  obtain ⟨o, ho, hs⟩ := h.models.objects hj
  cases o with
  | record name fields => cases hs.1
  | vector elem' items capacity =>
    obtain ⟨ht, d, elems, hv⟩ := hs
    cases ht
    exact ⟨items, capacity, d, elems, hj, ho, hv⟩

theorem Denotes.receives (h : Denotes S b M g desc ⟨u, .vector elem⟩) (hst : Stands S scope ρ g H M) :
    Receives S b M g H elem desc u := by
  obtain ⟨x, hv, hx⟩ := h.holds (by simp)
  cases u with
  | null => exact .null (hx.2 ▸ hv)
  | object id =>
    obtain ⟨-, j, hj, rfl⟩ := hx
    obtain ⟨items, capacity, d, elems, hin⟩ := hst.vectorIn hj
    exact .vector hv hin
  | int n =>
    obtain ⟨bits, signed, hs, -⟩ := hx
    cases hs
  | _ => cases hx.1

namespace VectorIn

variable (h : VectorIn S g H M elem id j items capacity d elems)

include h

theorem same (hst : M'.store = M.store) : VectorIn S g H M' elem id j items capacity d elems :=
  ⟨h.role, h.object, hst ▸ h.stored⟩

theorem set_eq : H.set id (.vector elem items capacity) = H := by
  obtain ⟨hlt, hget⟩ := List.getElem?_eq_some_iff.1 h.object
  rw [← hget, List.set_getElem_self]

theorem capacity_le : capacity ≤ maxOffset := by
  rcases Nat.eq_zero_or_pos capacity with hz | hpos
  · omega
  · obtain ⟨k, buf, -, hb⟩ := h.stored.buffer hpos
    have hcell : 0 < cellBytes (S.env.ir elem) := Machine.cellBytes_pos (Lowering.Env.isScalar_ir elem)
    exact Nat.le_trans (Nat.le_mul_of_pos_right _ hcell) (Nat.le_trans hb.room hb.live.small)

theorem length_lt : items.length < 2 ^ 64 := by
  have := h.stored.fits
  have := h.capacity_le
  unfold maxOffset at this
  omega

theorem vectorOf_eq : Reference.vectorOf (.object id) H = .value (id, elem, items, capacity) H := by
  show (Sem.fetch id >>= _ : Sem _) H = _
  show Result.bind _ (Sem.fetch id H) = _
  rw [Sem.fetch, h.object]
  rfl

theorem vectorOf_bind {α : Type} (f : Nat × Ty × List Value × Nat → Sem α) :
    (Reference.vectorOf (.object id) >>= f) H = f (id, elem, items, capacity) H := by
  show Result.bind _ (Reference.vectorOf (.object id) H) = _
  rw [h.vectorOf_eq]
  rfl

end VectorIn

/-- What is done to the vector of an operand, unless there is none. -/
theorem Denotes.leads_vector (h : Denotes S b M g desc ⟨u, .vector elem⟩) (hS : S.Open) (hst : Stands S scope ρ g H M)
    (hnull : Holds b M desc (.ptr 0) → Faults S.world M .nullReference) {α : Type}
    {f : Nat × Ty × List Value × Nat → Sem α} {R : α → Ground → State → Prop}
    (hvector : ∀ {id j : Nat} {items : List Value} {capacity : Nat} {d : Allocation} {elems : UInt64},
      Holds b M desc (.ptr (blockAddress j)) → VectorIn S g H M elem id j items capacity d elems →
      Leads S scope ρ b M g b' (f (id, elem, items, capacity) H) R) :
    Leads S scope ρ b M g b' ((Reference.vectorOf u >>= f) H) R := by
  cases h.receives hst with
  | null hv => exact Leads.of_faults hS hst (hnull hv)
  | vector hv hin =>
    rw [hin.vectorOf_bind]
    exact hvector hv hin

/-- A check that refuses ends the run. -/
theorem Leads.of_refusal (hS : S.Open) (hst : Stands S scope ρ g H M) {α : Type} {R : α → Ground → State → Prop}
    {t : Reference.Trap} (h : (∀ M', Stays S.world.func b.function.values.size M M' → M'.store = M.store →
      Faults S.world M' t → S.world.goal M') → S.world.goal M) :
    Leads S scope ρ b M g b' (.stop (.trap t) H) R :=
  fun k => h fun _ stays hst' hfaults => hfaults.goal hS (hst.stays hS.toReady stays hst') k

end

/-! ### Operations on the value of an expression -/

/-- What was lowered from `b` to `b'` gives a value, and running it does what the operation on a vector means. -/
structure FollowsVector (env : Env) (scope : Scope) (elem : Ty) (desc : ValueId) (b : Builder) (v : Typed) (b' : Builder)
    (mean : Caller → String → Locals → Value → Sem Datum) : Prop where
  onward : Onward b b'
  has : b'.function.Has v.value (env.ir v.ty)
  runs : ∀ {S : Scene} {ρ : Locals} {g : Ground} {H : Heap} {M : State} {u : Value}, S.Open → S.env = env →
    Toward b b' S.world → At S.world.func b M → Stands S scope ρ g H M → Denotes S b M g desc ⟨u, .vector elem⟩ →
    Leads S scope ρ b M g b' (mean S.call S.world.func.name ρ u H) fun d g' M' =>
      d.type = v.ty ∧ Denotes S b' M' g' v.value d

/-- What was lowered from `b` to `b'` gives an index, and running it does what the expression means. -/
structure FollowsIndex (env : Env) (scope : Scope) (b : Builder) (a : ValueId) (b' : Builder)
    (mean : Caller → String → Locals → Sem Nat) : Prop where
  onward : Onward b b'
  has : b'.function.Has a .i64
  runs : ∀ {S : Scene} {ρ : Locals} {g : Ground} {H : Heap} {M : State}, S.Open → S.env = env →
    Toward b b' S.world → At S.world.func b M → Stands S scope ρ g H M →
    Leads S scope ρ b M g b' (mean S.call S.world.func.name ρ H) fun n _ M' =>
      n < 2 ^ 64 ∧ Holds b' M' a (.int (UInt64.ofNat n))

section

variable {env : Env} {scope : Scope} {elem : Ty} {v : VectorShape} {b b₁ b' : Builder} {desc a : ValueId} {x : Typed}
  {mean : Caller → String → Locals → Sem Datum}

/-- An index is brought to the width of an address by its own signedness. -/
theorem follows_index (hl : env.layout.pointerBits = 64) (hw : b.module.ptrInt = .i64) {index : Caller → String → Locals → Eval}
    (h : Follows env scope b x b₁ fun call func ρ => index call func ρ (some .usize)) (ht : x.ty.isInteger = true)
    (ha : Emit.intResize x.value b₁.module.ptrInt x.ty.isSignedInt "idx" b₁ = (a, b')) :
    FollowsIndex env scope b a b' fun call func ρ => Reference.evalIndex (index call func ρ) := by
  obtain ⟨bits, hshape⟩ := intShape?_of_isInteger env.layout ht
  obtain ⟨hbits, hpos, -⟩ := intBits?_ir hl hshape
  rw [h.onward.ptrInt, hw] at ha
  obtain ⟨⟨o, hv⟩, hr⟩ := (intResize_reaches h.onward.live hbits h.has (show Ir.Ty.intBits? .i64 = some 64 from rfl) hpos _ _).of_eq ha
  refine ⟨h.onward.trans o, hv, fun {S ρ g H M} hS he htoward hM hst => ?_⟩
  subst he
  refine (h.runs hS rfl (htoward.before o.ext) hM hst).bind fun {d H₁ g₁ M₁} a₁ hd => ?_
  obtain ⟨y, hy, hey⟩ := hd.2.holds (by rw [hd.1]; exact ne_string_of_isInteger ht)
  rw [hd.1] at hey
  obtain ⟨n, hn, hrange, rfl⟩ := hey.int hshape
  rw [hn]
  refine (Leads.of_reaches hS.toReady a₁.stands (hr htoward.toPart a₁.moved.toAt hrange hy)).value fun _ hv' => ?_
  refine ⟨?_, hv'⟩
  rw [← Word.toNat_encode_eq_intBits (Nat.le_refl 64)]
  exact UInt64.toNat_lt _

end

/-! ### Finding an element -/

/-- An index that is a word is in bounds, or the check fails. -/
theorem boundsCheck_words {b : Builder} (h : b.Live) (hw : b.module.ptrInt = .i64) {index size : ValueId}
    (hi : b.function.Has index .i64) (hs : b.function.Has size .i64) (inclusive : Bool) :
    (Lowering.emitBoundsCheck index size inclusive).Sat b fun _ b' => Onward b b' ∧
      ∀ {w : World} {M : State} {m n : Nat}, Toward b b' w → At w.func b M → m < 2 ^ 64 → n < 2 ^ 64 →
        Holds b M index (.int (UInt64.ofNat m)) → Holds b M size (.int (UInt64.ofNat n)) →
        ((if inclusive then m ≤ n else m < n) → w.Reaches b M b' fun _ => True) ∧
        (¬(if inclusive then m ≤ n else m < n) → (∀ M', Stays w.func b.function.values.size M M' →
          M'.store = M.store → Faults w M' (.outOfBounds (UInt64.ofNat m) (UInt64.ofNat n)) → w.goal M') →
          w.goal M) := by
  refine (emitBoundsCheck_checks h hw hi hs (show Ir.Ty.intBits? .i64 = some 64 from rfl) inclusive).imp ?_
  rintro - b' ⟨o, checks⟩
  refine ⟨o, fun {w M m n} ht hM hm hn hm' hn' => ?_⟩
  have hcheck := checks ht hM hm' hn'
  have hword : ∀ k : Nat, k < 2 ^ 64 → (UInt64.ofNat k).toNat = k := fun k hk => UInt64.toNat_ofNat_of_lt' hk
  have hcompare : Machine.intCompare (if inclusive then .ule else .ult) 64 (UInt64.ofNat m) (UInt64.ofNat n) = true ↔
      if inclusive then m ≤ n else m < n := by
    cases inclusive <;>
      simp [Machine.intCompare, UInt64.lt_iff_toNat_lt, UInt64.le_iff_toNat_le, hword m hm, hword n hn]
  constructor
  · intro hin
    rwa [if_pos (hcompare.2 hin)] at hcheck
  · intro hout k
    rw [if_neg (fun hc => hout (hcompare.1 hc))] at hcheck
    exact hcheck fun M' stays hst hstep hcareful => k M' stays hst ⟨hstep, hcareful⟩

section

variable {env : Env} {elem : Ty} {v : VectorShape} {b : Builder} (h : b.Live) (hv : Shaped env elem v)
  (hf : v.Fits b .i64) {desc index : ValueId} (hd : b.function.Has desc .ptr) (hi : b.function.Has index .i64)

include h hv hf hd

/-- The size of a vector. -/
theorem loadSize_reads :
    (v.loadSize desc).Sat b fun p b' => (Onward b b' ∧ b'.function.Has p .i64) ∧
      ∀ {S : Scene} {M : State}, S.Ready → S.env = env → Part b' S.world → At S.world.func b M →
        (Holds b M desc (.ptr 0) → Faults S.world M .nullReference) ∧
        ∀ {g : Ground} {H : Heap} {id j : Nat} {items : List Value} {capacity : Nat} {d : Allocation} {elems : UInt64},
          Holds b M desc (.ptr (blockAddress j)) → VectorIn S g H M elem id j items capacity d elems →
          S.world.Reaches b M b' (Holds b' · p (.int (UInt64.ofNat items.length))) := by
  refine (loadField_reads h hv hf hd .size _).imp ?_
  rintro p b' ⟨o, r⟩
  refine ⟨o, fun {S M} hS he hp hM => ⟨(r hS he hp hM).1, fun {g H id j items capacity d elems} haddr hin => ?_⟩⟩
  have := (r hS he hp hM).2 haddr hin.stored.live hin.stored.size
  rwa [show d.read (fieldCell .size) (8 * VectorField.position .size) = _ from hin.stored.sizeWord] at this

/-- The capacity of a vector. -/
theorem loadCapacity_reads :
    (v.loadCapacity desc).Sat b fun p b' => (Onward b b' ∧ b'.function.Has p .i64) ∧
      ∀ {S : Scene} {M : State}, S.Ready → S.env = env → Part b' S.world → At S.world.func b M →
        (Holds b M desc (.ptr 0) → Faults S.world M .nullReference) ∧
        ∀ {g : Ground} {H : Heap} {id j : Nat} {items : List Value} {capacity : Nat} {d : Allocation} {elems : UInt64},
          Holds b M desc (.ptr (blockAddress j)) → VectorIn S g H M elem id j items capacity d elems →
          S.world.Reaches b M b' (Holds b' · p (.int (UInt64.ofNat capacity))) := by
  refine (loadField_reads h hv hf hd .capacity _).imp ?_
  rintro p b' ⟨o, r⟩
  refine ⟨o, fun {S M} hS he hp hM => ⟨(r hS he hp hM).1, fun {g H id j items capacity d elems} haddr hin => ?_⟩⟩
  have := (r hS he hp hM).2 haddr hin.stored.live hin.stored.size
  rwa [show d.read (fieldCell .capacity) (8 * VectorField.position .capacity) = _ from hin.stored.capacityWord] at this

/-- The elements of a vector. -/
theorem loadElems_reads :
    (v.loadElems desc).Sat b fun p b' => (Onward b b' ∧ b'.function.Has p .ptr) ∧
      ∀ {S : Scene} {M : State}, S.Ready → S.env = env → Part b' S.world → At S.world.func b M →
        ∀ {g : Ground} {H : Heap} {id j : Nat} {items : List Value} {capacity : Nat} {d : Allocation} {elems : UInt64},
          Holds b M desc (.ptr (blockAddress j)) → VectorIn S g H M elem id j items capacity d elems →
          S.world.Reaches b M b' (Holds b' · p (.ptr elems)) := by
  refine (loadField_reads h hv hf hd .elems _).imp ?_
  rintro p b' ⟨o, r⟩
  refine ⟨o, fun {S M} hS he hp hM {g H id j items capacity d elems} haddr hin => ?_⟩
  have := (r hS he hp hM).2 haddr hin.stored.live hin.stored.size
  rwa [show d.read (fieldCell .elems) (8 * VectorField.position .elems) = _ from hin.stored.elemsWord] at this

include hi

/-- An element is found by its index. -/
theorem access_finds :
    (v.access desc index).Sat b fun a b' => (Onward b b' ∧ b'.function.Has a.size .i64 ∧ b'.function.Has a.elems .ptr ∧
        b'.function.Has a.slot .ptr) ∧
      ∀ {S : Scene} {M : State}, S.Ready → S.env = env → Toward b b' S.world → At S.world.func b M →
        (Holds b M desc (.ptr 0) → Faults S.world M .nullReference) ∧
        ∀ {g : Ground} {H : Heap} {id j n : Nat} {items : List Value} {capacity : Nat} {d : Allocation} {elems : UInt64},
          Holds b M desc (.ptr (blockAddress j)) → VectorIn S g H M elem id j items capacity d elems →
          Holds b M index (.int (UInt64.ofNat n)) → n < 2 ^ 64 →
          (∀ {k : Nat}, n < items.length → elems = blockAddress k →
            S.world.Reaches b M b' fun M' => Holds b' M' a.size (.int (UInt64.ofNat items.length)) ∧
              Holds b' M' a.elems (.ptr (blockAddress k)) ∧
              Holds b' M' a.slot (.ptr (addressOf k (n * cellBytes (env.ir elem))))) ∧
          (items.length ≤ n → (∀ M', Stays S.world.func b.function.values.size M M' → M'.store = M.store →
            Faults S.world M' (.outOfBounds (UInt64.ofNat n) (UInt64.ofNat items.length)) → S.world.goal M') →
            S.world.goal M) := by
  refine Sat.bind (loadSize_reads h hv hf hd) ?_
  rintro size b₁ ⟨⟨o₁, hs⟩, r₁⟩
  have hf₁ := hf.onward o₁
  refine Sat.bind (boundsCheck_words o₁.live hf₁.word (o₁.has hi) hs false) ?_
  rintro - b₂ ⟨o₂, checks⟩
  have hf₂ := hf₁.onward o₂
  have o₁₂ := o₁.trans o₂
  refine Sat.bind (loadElems_reads o₂.live hv hf₂ (o₁₂.has hd)) ?_
  rintro elems b₃ ⟨⟨o₃, helems⟩, r₃⟩
  refine Sat.bind (elementPtr_reaches o₃.live hv (hf₂.onward o₃) helems (o₃.has (o₁₂.has hi))) ?_
  rintro slot b₄ ⟨⟨o₄, hslot⟩, r₄⟩
  refine Sat.pure ⟨⟨(o₁₂.trans o₃).trans o₄, o₄.has (o₃.has (o₂.has hs)), o₄.has helems, hslot⟩, ?_⟩
  intro S M hS he ht hM
  have p₃ := ht.toPart.back o₄
  have p₂ := p₃.back o₃
  obtain ⟨hnull, hsize⟩ := r₁ hS he (p₂.back o₂) hM
  refine ⟨hnull, fun {g H id j n items capacity d elems} hdesc hin hindex hn => ?_⟩
  have hcheck : ∀ {M₁ : State}, Moved S.world.func b M b₁ M₁ → Holds b₁ M₁ size (.int (UInt64.ofNat items.length)) → _ :=
    fun m₁ hs₁ => checks ((ht.before (o₃.trans o₄).ext).since o₁.ext.toLater) m₁.toAt hn hin.length_lt
      (m₁.holds hindex) hs₁
  refine ⟨fun {k} hlt hk => ?_, fun hge k => ?_⟩
  · refine (hsize hdesc hin).keeps.bind fun M₁ m₁ ⟨hst₁, hs₁⟩ => ?_
    refine ((hcheck m₁ hs₁).1 hlt).keeps.bind fun M₂ m₂ ⟨hst₂, _⟩ => ?_
    have hdesc₂ := m₂.holds (m₁.holds hdesc)
    refine (r₃ hS he p₃ m₂.toAt hdesc₂ (hin.same (hst₂.trans hst₁))).bind fun M₃ m₃ he₃ => ?_
    rw [hk] at he₃
    refine (r₄ ht.toPart m₃.toAt he₃ (m₃.holds (m₂.holds (m₁.holds hindex)))).imp_moved fun M₄ m₄ hslot₄ => ?_
    exact ⟨m₄.holds (m₃.holds (m₂.holds hs₁)), m₄.holds he₃, hslot₄⟩
  · refine hsize hdesc hin fun M₁ m₁ hst₁ hs₁ => ?_
    refine (hcheck m₁ hs₁).2 (Nat.not_lt.2 hge) fun M' stays hst' hfaults => ?_
    exact k M' (m₁.stays.trans stays m₁.grown) (hst'.trans hst₁) hfaults

end

/-! ### Reading and overwriting -/

/-- Running what was emitted from `b` to `b'` does to the vector of an operand what the operation means. -/
def Operates (env : Env) (elem : Ty) (desc : ValueId) (b b' : Builder) {α : Type}
    (given : Scene → State → Ground → Prop) (mean : Value → Sem α)
    (gives : Scene → α → Ground → State → Prop) : Prop :=
  ∀ {S : Scene} {scope : Scope} {ρ : Locals} {g : Ground} {H : Heap} {M : State} {u : Value}, S.Open → S.env = env →
    Toward b b' S.world → At S.world.func b M → Stands S scope ρ g H M → Denotes S b M g desc ⟨u, .vector elem⟩ →
    given S M g → Leads S scope ρ b M g b' (mean u H) (gives S)

/-- An operand is an index. -/
def IndexAt (b : Builder) (index : ValueId) (n : Nat) (_ : Scene) (M : State) (_ : Ground) : Prop :=
  n < 2 ^ 64 ∧ Holds b M index (.int (UInt64.ofNat n))

theorem cells_apart {i n c : Nat} (h : i ≠ n) : i * c + c ≤ n * c ∨ n * c + c ≤ i * c := by
  rw [← Nat.succ_mul, ← Nat.succ_mul]
  rcases Nat.lt_or_gt_of_ne h with hlt | hgt
  · exact .inl (Nat.mul_le_mul_right c hlt)
  · exact .inr (Nat.mul_le_mul_right c hgt)

theorem ir_usize {env : Env} (hl : env.config.pointerBits = 64) : env.ir .usize = .i64 := by
  rw [Env.ir, Types.Layout.irType, Types.Layout.intBits, show env.layout.pointerBits = 64 from hl]
  rfl

theorem encodes_usize {env : Env} (hl : env.layout.pointerBits = 64) {m : Ir.Module} {g : Ground} {n : Nat} (hn : n < 2 ^ 64) :
    Encodes env.layout m g .usize (.int n) (.int (UInt64.ofNat n)) := by
  have hmod : (n : Int) % (2 ^ 64 : Nat) = n := Int.emod_eq_of_lt (by omega) (by omega)
  refine ⟨64, false, by rw [← hl]; rfl, hmod, ?_⟩
  rw [Word.encode, intBits, hmod, Int.toNat_natCast]

section

variable {S : Scene} {scope : Scope} {ρ : Locals} {b b' : Builder} {M M' : State} {g : Ground} {H : Heap} {elem : Ty}
  {id j k : Nat} {items : List Value} {capacity : Nat} {d buf : Allocation} {elems : UInt64}

/-- A vector changes in its descriptor or its buffer. -/
theorem Stands.revise (hS : S.Ready) (hst : Stands S scope ρ g H M) (h : VectorIn S g H M elem id j items capacity d elems)
    {mem : Machine.Memory} {items' : List Value} {capacity' : Nat} {d' : Allocation} {elems' : UInt64}
    (hsize : mem.blocks.size = M.store.memory.blocks.size)
    (hkeep : ∀ {i : Nat} {r : Role}, g[i]? = some r → r.owner ≠ some id →
      mem.blocks[i]? = M.store.memory.blocks[i]?)
    (hv : VectorAt S.layout S.world.module g mem j id elem items' capacity' d' elems') (hseat : Seated S M')
    (hst' : M'.store = { M.store with memory := mem }) :
    Stands S scope ρ g (H.set id (.vector elem items' capacity')) M' ∧
      VectorIn S g (H.set id (.vector elem items' capacity')) M' elem id j items' capacity' d' elems' := by
  have hid := hst.models.typed h.role
  refine ⟨hst.change hS h.role _ hsize hkeep ⟨rfl, d', elems', hv⟩ hseat hst', h.role, ?_, ?_⟩
  · rw [List.getElem?_set_self hid]
  · rw [hst']
    exact hv

/-- The elements of a vector change in their buffer. -/
theorem Stands.refill (hS : S.Ready) (hst : Stands S scope ρ g H M)
    (h : VectorIn S g H M elem id j items capacity d (blockAddress k)) {buf' : Allocation}
    (hb : BufferAt S.layout S.world.module g M.store.memory id elem items capacity k buf) (hsize : buf'.size = buf.size)
    {items' : List Value} (hl : items'.length = items.length)
    (hitems : ∀ {i : Nat} {v : Value}, items'[i]? = some v →
      Encodes S.layout S.world.module g elem v (buf'.read (S.env.ir elem) (i * cellBytes (S.env.ir elem))))
    (hseat : Seated S M') (hst' : M'.store = { M.store with memory := M.store.memory.set k buf' }) :
    Stands S scope ρ g (H.set id (.vector elem items' capacity)) M' ∧
      VectorIn S g (H.set id (.vector elem items' capacity)) M' elem id j items' capacity d (blockAddress k) := by
  have hne : k ≠ j := by
    rintro rfl
    have := hb.role.symm.trans h.role
    cases this
  refine hst.revise hS h (by simp) (fun {i r} hi hr => Machine.Memory.set_ne _ ?_) ?_ hseat hst'
  · rintro rfl
    rw [hb.role] at hi
    cases hi
    exact hr rfl
  · exact
      { live := h.stored.live.set_ne hne
        size := h.stored.size
        elemsWord := h.stored.elemsWord
        sizeWord := by rw [hl]; exact h.stored.sizeWord
        capacityWord := h.stored.capacityWord
        fits := by rw [hl]; exact h.stored.fits
        buffer := fun _ => ⟨k, buf', rfl, hb.role, hb.live.set_self hsize, by rw [hsize]; exact hb.room, hitems⟩ }

/-- The cells of a buffer. -/
theorem BufferAt.inside (hb : BufferAt S.layout S.world.module g M.store.memory id elem items capacity k buf) {n : Nat}
    (hn : n < capacity) : n * cellBytes (S.env.ir elem) + cellBytes (S.env.ir elem) ≤ buf.size := by
  rw [← Nat.succ_mul]
  exact Nat.le_trans (Nat.mul_le_mul_right _ hn) hb.room

/-- An operand is stored in a cell of the buffer. -/
theorem cell_stored (hS : S.Ready) (hst : Stands S scope ρ g H M)
    (h : VectorIn S g H M elem id j items capacity d (blockAddress k))
    (hb : BufferAt S.layout S.world.module g M.store.memory id elem items capacity k buf) (hM : At S.world.func b M)
    (hp : Part b' S.world) {x p : ValueId} (e : Acts b b' (.store x p)) {n : Nat}
    (haddr : Holds b M p (.ptr (addressOf k (n * cellBytes (S.env.ir elem)))))
    (hx : S.world.func.valueType x = S.env.ir elem) {y : Value} (hy : Denotes S b M g x ⟨y, elem⟩) (hn : n < capacity)
    (goal : ∀ {g' : Ground} {M' : State} {buf' : Allocation}, Moved S.world.func b M b' M' → g <+: g' →
      Stands S scope ρ g' (H.set id (.vector elem (items.set n (Reference.keptAs elem y)) capacity)) M' →
      VectorIn S g' (H.set id (.vector elem (items.set n (Reference.keptAs elem y)) capacity)) M' elem id j
        (items.set n (Reference.keptAs elem y)) capacity d (blockAddress k) →
      BufferAt S.layout S.world.module g' M'.store.memory id elem (items.set n (Reference.keptAs elem y)) capacity k buf' →
      (∀ i, i ≠ n → buf'.read (S.env.ir elem) (i * cellBytes (S.env.ir elem)) =
        buf.read (S.env.ir elem) (i * cellBytes (S.env.ir elem))) →
      Encodes S.layout S.world.module g' elem (Reference.keptAs elem y)
        (buf'.read (S.env.ir elem) (n * cellBytes (S.env.ir elem))) →
      S.world.goal M') : S.world.goal M := by
  refine store_runs hst hM hp e haddr.value hb.role rfl hb.live hS hx hy (fun hr => ?_) (hb.inside hn)
    fun {g₁ st z M'} hg hst₁ hold henc m hst' => ?_
  · show (!elem.isReference) = false
    rw [show elem.isReference = true from hr]
    rfl
  have hcell : (S.env.ir elem).isScalar = true := Env.isScalar_ir elem
  have hof : z.Of (S.env.ir elem) := henc.of hS.runnable.pointerBits
  have h₁ : VectorIn S g₁ H { M with store := st } elem id j items capacity d (blockAddress k) :=
    ⟨getElem?_of_grown hg h.role, h.object, h.stored.mono hg (hold j h.stored.live.lt_size) fun hk =>
      hold _ (hst.models.size ▸ (List.getElem?_eq_some_iff.1 hk).1)⟩
  have hb₁ := hb.mono hg (hold k hb.live.lt_size)
  have hapart : ∀ i, i ≠ n → (buf.write (S.env.ir elem) (n * cellBytes (S.env.ir elem)) z).read (S.env.ir elem)
      (i * cellBytes (S.env.ir elem)) = buf.read (S.env.ir elem) (i * cellBytes (S.env.ir elem)) :=
    fun i hi => Allocation.read_write_apart hcell (cells_apart hi)
  have hself : Encodes S.layout S.world.module g₁ elem (Reference.keptAs elem y)
      ((buf.write (S.env.ir elem) (n * cellBytes (S.env.ir elem)) z).read (S.env.ir elem)
        (n * cellBytes (S.env.ir elem))) := by
    rw [Allocation.read_write_self buf _ hof]
    exact henc.kept hS.runnable.pointerBits
  have hitems : ∀ {i : Nat} {v : Value}, (items.set n (Reference.keptAs elem y))[i]? = some v →
      Encodes S.layout S.world.module g₁ elem v
        ((buf.write (S.env.ir elem) (n * cellBytes (S.env.ir elem)) z).read (S.env.ir elem)
          (i * cellBytes (S.env.ir elem))) := by
    intro i v hi
    rcases eq_or_ne i n with rfl | hne
    · rw [List.getElem?_set_self'] at hi
      obtain ⟨-, -, rfl⟩ := Option.map_eq_some_iff.1 hi
      exact hself
    · rw [List.getElem?_set_ne hne.symm] at hi
      rw [hapart i hne]
      exact hb₁.holds hi
  obtain ⟨hst₂, h₂⟩ := hst₁.refill hS h₁ hb₁ (Allocation.size_write ..) (List.length_set ..) hitems
    (hst.seated.stays m.stays) hst'
  refine goal m hg hst₂ h₂ ⟨hb₁.role, ?_, by rw [Allocation.size_write]; exact hb.room, hitems⟩ hapart hself
  rw [hst']
  exact hb₁.live.set_self (Allocation.size_write ..)

end

section

variable {env : Env} {elem : Ty} {v : VectorShape} {b : Builder} (h : b.Live) (hv : Shaped env elem v)
  (hf : v.Fits b .i64) (hl : env.config.pointerBits = 64) {desc index : ValueId} (hd : b.function.Has desc .ptr)

include h hv hf hl hd

theorem loadSize_operates :
    (v.loadSize desc).Sat b fun p b' => (Onward b b' ∧ b'.function.Has p (env.ir .usize)) ∧
      Operates env elem desc b b' (fun _ _ _ => True) Reference.sizeOf fun S x g M =>
        Denotes S b' M g p ⟨x, .usize⟩ := by
  refine (loadSize_reads h hv hf hd).imp ?_
  rintro p b' ⟨o, r⟩
  refine ⟨by rwa [ir_usize hl], fun {S scope ρ g H M u} hS he ht hM hst hdesc _ => ?_⟩
  subst he
  obtain ⟨hnull, hread⟩ := r hS.toReady rfl ht.toPart hM
  show Leads S scope ρ b M g b' ((Reference.vectorOf u >>= _ : Sem Value) H) _
  refine hdesc.leads_vector hS hst hnull fun hv hin => ?_
  refine (Leads.of_reaches hS.toReady hst (hread hv hin)).value fun _ hp => ?_
  exact .of_holds hp (encodes_usize hl hin.length_lt)

theorem loadCapacity_operates :
    (v.loadCapacity desc).Sat b fun p b' => (Onward b b' ∧ b'.function.Has p (env.ir .usize)) ∧
      Operates env elem desc b b' (fun _ _ _ => True) Reference.capacityOf fun S x g M =>
        Denotes S b' M g p ⟨x, .usize⟩ := by
  refine (loadCapacity_reads h hv hf hd).imp ?_
  rintro p b' ⟨o, r⟩
  refine ⟨by rwa [ir_usize hl], fun {S scope ρ g H M u} hS he ht hM hst hdesc _ => ?_⟩
  subst he
  obtain ⟨hnull, hread⟩ := r hS.toReady rfl ht.toPart hM
  show Leads S scope ρ b M g b' ((Reference.vectorOf u >>= _ : Sem Value) H) _
  refine hdesc.leads_vector hS hst hnull fun hv hin => ?_
  refine (Leads.of_reaches hS.toReady hst (hread hv hin)).value fun _ hp => ?_
  exact .of_holds hp (encodes_usize hl (Nat.lt_of_le_of_lt hin.capacity_le (by decide)))

omit hl

variable (hi : b.function.Has index .i64)

include hi

/-- The element at an index. -/
theorem getAt_operates :
    (v.getAt desc index).Sat b fun p b' => (Onward b b' ∧ b'.function.Has p (env.ir elem)) ∧
      ∀ n, Operates env elem desc b b' (IndexAt b index n) (Reference.getAt · n) fun S x g M =>
        Denotes S b' M g p ⟨x, elem⟩ := by
  have hcell : (env.ir elem).isScalar = true := Env.isScalar_ir elem
  refine Sat.bind (access_finds h hv hf hd hi) ?_
  rintro a b₁ ⟨⟨o₁, -, -, hslot⟩, r₁⟩
  rw [hv.cell]
  refine (load_reaches o₁.live hslot hcell _).imp ?_
  rintro p b₂ ⟨⟨o₂, hp⟩, r₂⟩
  refine ⟨⟨o₁.trans o₂, hp⟩, fun n {S scope ρ g H M u} hS he ht hM hst hdesc ⟨hn, hindex⟩ => ?_⟩
  subst he
  obtain ⟨hnull, hfind⟩ := r₁ hS.toReady rfl (ht.before o₂.ext) hM
  show Leads S scope ρ b M g b₂ ((Reference.vectorOf u >>= _ : Sem Value) H) _
  refine hdesc.leads_vector hS hst hnull fun {id j items capacity d elems} hv hin => ?_
  obtain ⟨hfound, hout⟩ := hfind hv hin hindex hn
  rcases Nat.lt_or_ge n items.length with hlt | hge
  · obtain ⟨k, buf, rfl, hb⟩ := hin.stored.buffer (Nat.lt_of_lt_of_le (Nat.zero_lt_of_lt hlt) hin.stored.fits)
    have hget := List.getElem?_eq_getElem hlt
    simp only [hget]
    refine (Leads.of_reaches hS.toReady hst ?_).value fun ha hx => .of_holds hx ((hb.holds hget).mono ha.grows)
    refine (hfound hlt rfl).keeps.bind fun M₁ m₁ ⟨hst₁, _, _, haddr⟩ => ?_
    refine r₂ ht.toPart m₁.toAt haddr.value ?_
    rw [hst₁]
    exact hb.live.load_eq hS.runnable.modulePointerBits hcell (hb.inside (Nat.lt_of_lt_of_le hlt hin.stored.fits))
  · simp only [List.getElem?_eq_none hge]
    exact .of_refusal hS hst (hout hge)

/-- The element at an index is overwritten. -/
theorem setAt_operates {x : ValueId} (hx : b.function.Has x (env.ir elem)) :
    (v.setAt desc index x).Sat b fun _ b' => Onward b b' ∧
      ∀ n y, Operates env elem desc b b' (fun S M g => IndexAt b index n S M g ∧ Denotes S b M g x ⟨y, elem⟩)
        (Reference.setAt · n (Reference.keptAs elem y)) fun _ _ _ _ => True := by
  refine Sat.bind (access_finds h hv hf hd hi) ?_
  rintro a b₁ ⟨⟨o₁, -, -, hslot⟩, r₁⟩
  refine ((Ir.Emit.store_onward o₁.live (.inl ⟨_, o₁.has hx⟩) hslot).and (Machine.store_acts o₁.live hslot)).imp ?_
  rintro - b₂ ⟨⟨o₂, -⟩, e⟩
  refine ⟨o₁.trans o₂, fun n y {S scope ρ g H M u} hS he ht hM hst hdesc ⟨⟨hn, hindex⟩, hvalue⟩ => ?_⟩
  subst he
  obtain ⟨hnull, hfind⟩ := r₁ hS.toReady rfl (ht.before o₂.ext) hM
  show Leads S scope ρ b M g b₂ ((Reference.vectorOf u >>= _ : Sem Unit) H) _
  refine hdesc.leads_vector hS hst hnull fun {id j items capacity d elems} hv hin => ?_
  obtain ⟨hfound, hout⟩ := hfind hv hin hindex hn
  rcases Nat.lt_or_ge n items.length with hlt | hge
  · obtain ⟨k, buf, rfl, hb⟩ := hin.stored.buffer (Nat.lt_of_lt_of_le (Nat.zero_lt_of_lt hlt) hin.stored.fits)
    simp only [if_pos hlt]
    intro goal
    refine hfound hlt rfl fun M₁ m₁ hst₁ ⟨_, _, haddr⟩ => ?_
    refine cell_stored hS.toReady (hst.stays hS.toReady m₁.stays hst₁) (hin.same hst₁) (hst₁ ▸ hb) m₁.toAt ht.toPart e
      haddr (valueType_of_has (ht.toPart.back o₂) (o₁.has hx)) ((hvalue.mono m₁ (List.prefix_refl _)))
      (Nat.lt_of_lt_of_le hlt hin.stored.fits) fun {g₂ M₂ buf'} m₂ hg hst₂ _ _ _ _ => ?_
    exact goal ⟨m₁.trans m₂, hst₂, hg⟩ trivial
  · simp only [if_neg (Nat.not_lt.2 hge)]
    exact .of_refusal hS hst (hout hge)

end

end BlockForge.Simulation
