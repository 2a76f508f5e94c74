import BlockForge.Proofs.Simulation.Growing

/-!
# Inserting and removing elements

Elements are moved within the buffer, one place up to make a gap or one place down to close it. Meanwhile the list that
the buffer holds is of no use, but it is one of the same length, so the store holds a vector all the time.
-/

namespace BlockForge.Simulation

open Ir (Builder Emit ValueId)
open Ir.Emit (Onward)
open Lowering (Env Scope VectorShape)
open Machine (Acts Allocation At Holds Live Moved Part State Toward Val World addressOf blockAddress cellBytes maxOffset)
open Reference (Heap Locals Object Result Sem Value)
open StateM
open BlockForge.Types (Ty)

theorem intCompare_ult {m n : Nat} (hm : m < 2 ^ 64) (hn : n < 2 ^ 64) :
    Machine.intCompare .ult 64 (UInt64.ofNat m) (UInt64.ofNat n) = decide (m < n) := by
  refine decide_eq_decide.2 ?_
  rw [UInt64.lt_iff_toNat_lt, UInt64.toNat_ofNat_of_lt' hm, UInt64.toNat_ofNat_of_lt' hn]

/-- The index behind an element, and whether an element stands there. -/
def behind (index size : ValueId) (nextName tailName : String) : Emit (ValueId × ValueId) := do
  let one ← Emit.constUsize 1
  let next ← Emit.binary .add index one nextName
  let tail ← Emit.icmp .ult next size tailName
  return (next, tail)

theorem behind_bind {α : Type} (index size : ValueId) (nextName tailName : String) (k : ValueId → ValueId → Emit α) :
    (Emit.constUsize 1 >>= fun one => Emit.binary .add index one nextName >>= fun next =>
      Emit.icmp .ult next size tailName >>= fun tail => k next tail) =
      behind index size nextName tailName >>= fun p => k p.1 p.2 := by
  simp only [behind, bind_assoc, pure_bind]

theorem behind_reaches {b : Builder} (h : b.Live) (hw : b.module.ptrInt = .i64) {index size : ValueId}
    (hi : b.function.Has index .i64) (hs : b.function.Has size .i64) (nextName tailName : String) :
    (behind index size nextName tailName).Sat b fun p b' =>
      (Onward b b' ∧ b'.function.Has p.1 .i64 ∧ b'.function.Has p.2 .i1) ∧
      ∀ {w : World} {M : State} {n length : Nat}, Part b' w → At w.func b M → Holds b M index (.int (UInt64.ofNat n)) →
        Holds b M size (.int (UInt64.ofNat length)) → n < length → length < 2 ^ 64 →
        w.Reaches b M b' fun M' => Holds b' M' p.1 (.int (UInt64.ofNat (n + 1))) ∧
          Holds b' M' p.2 (.bool (decide (n + 1 < length))) := by
  refine Sat.bind (constUsize_reaches h hw 1) fun one b₁ ⟨⟨o₁, h₁⟩, r₁⟩ => ?_
  refine Sat.bind (word_reaches o₁.live (show Ir.BinOp.isFloat .add = false from rfl) (o₁.has hi) h₁ _)
    fun next b₂ ⟨⟨o₂, h₂⟩, r₂⟩ => ?_
  have o₁₂ := o₁.trans o₂
  refine Sat.bind (icmp_reaches o₂.live (show Ir.Ty.intBits? .i64 = some 64 from rfl) .ult h₂ (o₁₂.has hs) _)
    fun tail b₃ ⟨⟨o₃, h₃⟩, r₃⟩ => ?_
  refine Sat.pure ⟨⟨o₁₂.trans o₃, o₃.has h₂, h₃⟩, fun {w M n length} hp hM hindex hsize hlt hlength => ?_⟩
  have p₂ := hp.back o₃
  have hnext : UInt64.ofNat n + 1 = UInt64.ofNat (n + 1) := (UInt64.ofNat_add n 1).symm
  refine (r₁ (p₂.back o₂) hM).bind fun M₁ m₁ hv₁ => ?_
  refine (r₂ p₂ m₁.toAt (m₁.holds hindex) hv₁ (intBinary_words _ _).1).bind fun M₂ m₂ hv₂ => ?_
  rw [hnext] at hv₂
  refine (r₃ hp m₂.toAt hv₂ ((m₁.trans m₂).holds hsize)).imp_moved fun M₃ m₃ hv₃ => ?_
  rw [intCompare_ult (Nat.lt_of_le_of_lt hlt hlength) hlength] at hv₃
  exact ⟨m₃.holds hv₂, hv₃⟩

/-! ### Elements that move -/

section

variable {S : Scene} {scope : Scope} {ρ : Locals} {b b' : Builder} {M M' : State} {g : Ground} {H : Heap} {elem : Ty}
  {id j k : Nat} {items : List Value} {capacity : Nat} {d buf : Allocation}

/-- Cells that all hold something hold a list. -/
theorem exists_items {P : Nat → Value → Prop} (n : Nat) (h : ∀ i < n, ∃ v, P i v) :
    ∃ items : List Value, items.length = n ∧ ∀ {i v}, items[i]? = some v → P i v := by
  choose f hf using h
  refine ⟨List.ofFn fun i : Fin n => f i.1 i.2, by simp, fun {i v} hi => ?_⟩
  obtain ⟨hlt, rfl⟩ := List.getElem?_eq_some_iff.1 hi
  rw [List.getElem_ofFn]
  exact hf _ _

/-- The cells of a buffer that some of its own were copied to. -/
theorem read_shifted (buf : Allocation) (source target n i : Nat) {c : Nat} {t : Ir.Ty} (ht : t.isScalar = true) (hc : c = cellBytes t) :
    (i < n → (buf.fill (target * c) (n * c) fun x => buf.byte (source * c + x)).read t ((target + i) * c) =
      buf.read t ((source + i) * c)) ∧
    (i < target ∨ target + n ≤ i → (buf.fill (target * c) (n * c) fun x => buf.byte (source * c + x)).read t (i * c) =
      buf.read t (i * c)) := by
  subst hc
  constructor
  · intro hi
    rw [Nat.add_mul, Nat.add_mul]
    refine Allocation.read_copy _ _ ht ?_
    rw [← Nat.succ_mul]
    exact Nat.mul_le_mul_right _ hi
  · intro hi
    refine Allocation.read_fill_apart ht ?_
    rw [← Nat.succ_mul, ← Nat.add_mul]
    exact hi.imp (Nat.mul_le_mul_right _) (Nat.mul_le_mul_right _)

/-- Some elements of a vector are moved within its buffer. -/
theorem elements_shifted (hS : S.Ready) (hst : Stands S scope ρ g H M)
    (h : VectorIn S g H M elem id j items capacity d (blockAddress k))
    (hb : BufferAt S.layout S.world.module g M.store.memory id elem items capacity k buf) (source target : Nat) {n : Nat}
    (hfrom : source + n ≤ items.length) (hto : target + n ≤ capacity) {dst src len : ValueId}
    (e : Acts b b' (.memMove dst src len)) (hp : Part b' S.world) (hM : At S.world.func b M)
    (hd : Holds b M dst (.ptr (addressOf k (target * cellBytes (S.env.ir elem)))))
    (hs : Holds b M src (.ptr (addressOf k (source * cellBytes (S.env.ir elem)))))
    (hl : Holds b M len (.int (UInt64.ofNat (n * cellBytes (S.env.ir elem)))))
    (goal : ∀ {M' : State} {rough : List Value} {buf' : Allocation}, Moved S.world.func b M b' M' →
      Stands S scope ρ g (H.set id (.vector elem rough capacity)) M' →
      VectorIn S g (H.set id (.vector elem rough capacity)) M' elem id j rough capacity d (blockAddress k) →
      BufferAt S.layout S.world.module g M'.store.memory id elem rough capacity k buf' →
      (∀ {i : Nat} {x : Value}, i < n → items[source + i]? = some x → Encodes S.layout S.world.module g elem x
        (buf'.read (S.env.ir elem) ((target + i) * cellBytes (S.env.ir elem)))) →
      (∀ {i : Nat} {x : Value}, i < target ∨ target + n ≤ i → items[i]? = some x → Encodes S.layout S.world.module g elem x
        (buf'.read (S.env.ir elem) (i * cellBytes (S.env.ir elem)))) →
      S.world.goal M') : S.world.goal M := by
  have hcell : (S.env.ir elem).isScalar = true := Env.isScalar_ir elem
  rcases Nat.eq_zero_or_pos n with rfl | hpos
  · rw [Nat.zero_mul] at hl
    refine copy_nothing (.inr rfl) e hp hM hd hs hl fun M' m hst' => ?_
    refine @goal M' items _ m ?_ ?_ (hst' ▸ hb) (fun hi => absurd hi (Nat.not_lt_zero _)) fun _ hi => hb.holds hi
    · rw [h.set_eq]
      exact hst.stays hS m.stays hst'
    · rw [h.set_eq]
      exact h.same hst'
  have hread := fun i => read_shifted buf source target n i hcell rfl
  have hroom : ∀ {m : Nat}, m ≤ capacity → m * cellBytes (S.env.ir elem) ≤ buf.size := fun hm =>
    Nat.le_trans (Nat.mul_le_mul_right _ hm) hb.room
  refine copy_runs (.inr rfl) hst e hp hM _ _ hd hs hl hb.role hb.role hb.live hb.live
    (by rw [← Nat.add_mul]; exact hroom (Nat.le_trans hfrom h.stored.fits))
    (by rw [← Nat.add_mul]; exact hroom hto) (Nat.mul_pos hpos (Machine.cellBytes_pos hcell)) fun M' m hst' => ?_
  have hmoved : ∀ {i : Nat} {x : Value}, i < n → items[source + i]? = some x → Encodes S.layout S.world.module g elem x
      ((buf.fill (target * cellBytes (S.env.ir elem)) (n * cellBytes (S.env.ir elem)) fun x =>
        buf.byte (source * cellBytes (S.env.ir elem) + x)).read (S.env.ir elem)
          ((target + i) * cellBytes (S.env.ir elem))) := fun {i x} hi hx => by
    rw [(hread i).1 hi]
    exact hb.holds hx
  have hrest : ∀ {i : Nat} {x : Value}, i < target ∨ target + n ≤ i → items[i]? = some x →
      Encodes S.layout S.world.module g elem x
      ((buf.fill (target * cellBytes (S.env.ir elem)) (n * cellBytes (S.env.ir elem)) fun x =>
        buf.byte (source * cellBytes (S.env.ir elem) + x)).read (S.env.ir elem)
          (i * cellBytes (S.env.ir elem))) := fun {i x} hi hx => by
    rw [(hread i).2 hi]
    exact hb.holds hx
  have hsize := Allocation.size_fill buf (target * cellBytes (S.env.ir elem)) (n * cellBytes (S.env.ir elem)) fun x =>
    buf.byte (source * cellBytes (S.env.ir elem) + x)
  obtain ⟨rough, hlen, hrough⟩ := exists_items (P := fun i x => Encodes S.layout S.world.module g elem x
      ((buf.fill (target * cellBytes (S.env.ir elem)) (n * cellBytes (S.env.ir elem)) fun x =>
        buf.byte (source * cellBytes (S.env.ir elem) + x)).read (S.env.ir elem)
          (i * cellBytes (S.env.ir elem)))) items.length fun i hi => by
    by_cases hin : i < target ∨ target + n ≤ i
    · exact ⟨_, hrest hin (List.getElem?_eq_getElem hi)⟩
    · obtain ⟨p, rfl⟩ : ∃ p, i = target + p := ⟨i - target, by omega⟩
      exact ⟨_, hmoved (i := p) (by omega) (List.getElem?_eq_getElem (by omega))⟩
  obtain ⟨hst₁, h₁⟩ := hst.refill hS h hb hsize hlen hrough (hst.seated.stays m.stays) hst'
  refine goal m hst₁ h₁ ⟨hb.role, ?_, hsize ▸ hb.room, hrough⟩ hmoved hrest
  rw [hst']
  exact hb.live.set_self hsize

end

/-- Running what was emitted from `b` to `b'` takes an element out of a buffer: those behind it are one place down. -/
def ClosesGap (env : Env) (elem : Ty) (elems next size slot : ValueId) (b b' : Builder)
    (given : Scene → State → Nat → Nat → Prop) : Prop :=
  ∀ {S : Scene} {scope : Scope} {ρ : Locals} {g : Ground} {H : Heap} {M : State} {id j k n : Nat} {items : List Value}
    {capacity : Nat} {d buf : Allocation}, S.Ready → S.env = env → given S M n items.length → At S.world.func b M →
    Stands S scope ρ g H M → VectorIn S g H M elem id j items capacity d (blockAddress k) →
    BufferAt S.layout S.world.module g M.store.memory id elem items capacity k buf → n < items.length →
    Holds b M elems (.ptr (blockAddress k)) → Holds b M next (.int (UInt64.ofNat (n + 1))) →
    Holds b M size (.int (UInt64.ofNat items.length)) →
    Holds b M slot (.ptr (addressOf k (n * cellBytes (env.ir elem)))) →
    (∀ {M' : State} {rough : List Value} {buf' : Allocation}, Moved S.world.func b M b' M' →
      Stands S scope ρ g (H.set id (.vector elem rough capacity)) M' →
      VectorIn S g (H.set id (.vector elem rough capacity)) M' elem id j rough capacity d (blockAddress k) →
      BufferAt S.layout S.world.module g M'.store.memory id elem rough capacity k buf' →
      (∀ {i : Nat} {x : Value}, (items.eraseIdx n)[i]? = some x → Encodes S.layout S.world.module g elem x
        (buf'.read (S.env.ir elem) (i * cellBytes (S.env.ir elem)))) →
      S.world.goal M') → S.world.goal M

/-- The last element is taken out as it is, the others by way of the detour. -/
theorem ClosesGap.detour {env : Env} {elem : Ty} {elems next size slot c : ValueId} {b s d b' : Builder}
    (h : ClosesGap env elem elems next size slot s d fun S _ _ _ => Part d S.world) (hd : Machine.Detours b c s d b') :
    ClosesGap env elem elems next size slot b b' fun S M n length =>
      Toward b b' S.world ∧ Holds b M c (.bool (decide (n + 1 < length))) := by
  intro S scope ρ g H M id j k n items capacity ds buf hS henv hgiven hM hst hin hb hn helems hnext hsize hslot goal
  obtain ⟨ht, hc⟩ := hgiven
  by_cases htail : n + 1 < items.length
  · rw [decide_eq_true htail] at hc
    refine hd.enter ht hM hc fun M₁ m₁ hst₁ _ => ?_
    refine h hS henv (hd.inside ht).toPart m₁.toAt (hst.stays hS m₁.stays hst₁) (hin.same hst₁) (hst₁ ▸ hb) hn
      (m₁.holds helems) (m₁.holds hnext) (m₁.holds hsize) (m₁.holds hslot)
      fun {M₂ rough buf'} m₂ hst₂ hin₂ hb₂ herase => ?_
    refine hd.leave ht m₂.toAt fun M₃ m₃ hst₃ _ => ?_
    exact goal (m₁.trans (m₂.trans m₃)) (hst₂.stays hS m₃.stays hst₃) (hin₂.same hst₃) (hst₃ ▸ hb₂) herase
  · rw [decide_eq_false htail] at hc
    refine hd.skip ht hM hc fun M₁ m₁ hst₁ _ => ?_
    refine @goal M₁ items _ m₁ ?_ ?_ (hst₁ ▸ hb) fun {i x} hx => ?_
    · rw [hin.set_eq]
      exact hst.stays hS m₁.stays hst₁
    · rw [hin.set_eq]
      exact hin.same hst₁
    · -- what is left stands before the last element
      have hlen := (List.getElem?_eq_some_iff.1 hx).1
      rw [List.length_eraseIdx_of_lt hn] at hlen
      rw [List.getElem?_eraseIdx_of_lt (by omega)] at hx
      exact hb.holds hx

section

variable {env : Env} {elem : Ty} {v : VectorShape} {b : Builder} (h : b.Live) (hv : Shaped env elem v)
  (hf : v.Fits b .i64) {desc index : ValueId} (hd : b.function.Has desc .ptr) (hi : b.function.Has index .i64)

include h hv hf

/-- The elements from an index on are moved one place up. -/
theorem openGap_shifts {elems size slot : ValueId} (he : b.function.Has elems .ptr) (hi : b.function.Has index .i64)
    (hs : b.function.Has size .i64) (hp : b.function.Has slot .ptr) :
    (v.openGap elems index size slot).Sat b fun _ b' => Onward b b' ∧
      ∀ {S : Scene} {scope : Scope} {ρ : Locals} {g : Ground} {H : Heap} {M : State} {id j k n : Nat} {items : List Value}
        {capacity : Nat} {d buf : Allocation}, S.Ready → S.env = env → Part b' S.world → At S.world.func b M →
        Stands S scope ρ g H M → VectorIn S g H M elem id j items capacity d (blockAddress k) →
        BufferAt S.layout S.world.module g M.store.memory id elem items capacity k buf → n ≤ items.length →
        items.length < capacity → Holds b M elems (.ptr (blockAddress k)) → Holds b M index (.int (UInt64.ofNat n)) →
        Holds b M size (.int (UInt64.ofNat items.length)) →
        Holds b M slot (.ptr (addressOf k (n * cellBytes (env.ir elem)))) →
        (∀ {M' : State} {rough : List Value} {buf' : Allocation}, Moved S.world.func b M b' M' →
          Stands S scope ρ g (H.set id (.vector elem rough capacity)) M' →
          VectorIn S g (H.set id (.vector elem rough capacity)) M' elem id j rough capacity d (blockAddress k) →
          BufferAt S.layout S.world.module g M'.store.memory id elem rough capacity k buf' →
          (∀ {i : Nat} {x y : Value}, i ≠ n → (items.insertIdx n y)[i]? = some x → Encodes S.layout S.world.module g elem x
            (buf'.read (S.env.ir elem) (i * cellBytes (S.env.ir elem)))) →
          S.world.goal M') → S.world.goal M := by
  refine Sat.bind (constUsize_reaches h hf.word 1) fun one b₁ ⟨⟨o₁, h₁⟩, r₁⟩ => ?_
  refine Sat.bind (word_reaches o₁.live (show Ir.BinOp.isFloat .add = false from rfl) (o₁.has hi) h₁ _)
    fun next b₂ ⟨⟨o₂, h₂⟩, r₂⟩ => ?_
  have o₁₂ := o₁.trans o₂
  refine Sat.bind (elementPtr_reaches o₂.live hv (hf.onward o₁₂) (o₁₂.has he) h₂) fun dst b₃ ⟨⟨o₃, h₃⟩, r₃⟩ => ?_
  have o₁₃ := o₁₂.trans o₃
  refine Sat.bind (word_reaches o₃.live (show Ir.BinOp.isFloat .sub = false from rfl) (o₁₃.has hs) (o₁₃.has hi) _)
    fun tail b₄ ⟨⟨o₄, h₄⟩, r₄⟩ => ?_
  have o₁₄ := o₁₃.trans o₄
  refine Sat.bind (byteLen_reaches o₄.live hv (hf.onward o₁₄) h₄) fun bytes b₅ ⟨⟨o₅, h₅⟩, r₅⟩ => ?_
  have o₁₅ := o₁₄.trans o₅
  refine ((Ir.Emit.memMove_onward o₅.live (o₅.has (o₄.has h₃)) (o₁₅.has hp) (hf.onward o₁₅).word h₅).and
    (Machine.memMove_acts o₅.live)).imp ?_
  rintro - b₆ ⟨⟨o₆, -⟩, e₆⟩
  refine ⟨o₁₅.trans o₆, fun {S scope ρ g H M id j k n items capacity d buf} hS henv hpart hM hst hin hb hn hroom helems hindex
    hsize hslot goal => ?_⟩
  subst henv
  have p₅ := hpart.back o₆
  have p₄ := p₅.back o₅
  have p₃ := p₄.back o₄
  have p₂ := p₃.back o₃
  have hnext : UInt64.ofNat n + 1 = UInt64.ofNat (n + 1) := (UInt64.ofNat_add n 1).symm
  refine r₁ (p₂.back o₂) hM fun M₁ m₁ hst₁ hv₁ => ?_
  refine r₂ p₂ m₁.toAt (m₁.holds hindex) hv₁ (intBinary_words _ _).1 fun M₂ m₂ hst₂ hv₂ => ?_
  rw [hnext] at hv₂
  have m₁₂ := m₁.trans m₂
  refine r₃ p₃ m₂.toAt (m₁₂.holds helems) hv₂ fun M₃ m₃ hst₃ hv₃ => ?_
  have m₁₃ := m₁₂.trans m₃
  refine r₄ p₄ m₃.toAt (m₁₃.holds hsize) (m₁₃.holds hindex) (intBinary_words _ _).2.1 fun M₄ m₄ hst₄ hv₄ => ?_
  rw [← UInt64.ofNat_sub hn] at hv₄
  refine r₅ p₅ m₄.toAt hv₄ fun M₅ m₅ hst₅ hv₅ => ?_
  have m₁₅ := (m₁₃.trans m₄).trans m₅
  have hstore : M₅.store = M.store := hst₅.trans (hst₄.trans (hst₃.trans (hst₂.trans hst₁)))
  refine elements_shifted hS (hst.stays hS m₁₅.stays hstore) (hin.same hstore) (hstore ▸ hb) n (n + 1)
    (by omega) (by omega) e₆ hpart m₅.toAt (m₅.holds (m₄.holds hv₃)) (m₁₅.holds hslot) hv₅
    fun {M₆ rough buf'} m₆ hst₆ hin₆ hb₆ hmoved hrest => ?_
  refine goal (m₁₅.trans m₆) hst₆ hin₆ hb₆ fun {i x y} hne hx => ?_
  rcases Nat.lt_or_ge i n with hlt | hge
  · rw [List.getElem?_insertIdx_of_lt hlt] at hx
    exact hrest (.inl (by omega)) hx
  · obtain ⟨p, rfl⟩ : ∃ p, i = n + 1 + p := ⟨i - (n + 1), by omega⟩
    rw [List.getElem?_insertIdx_of_gt (by omega)] at hx
    have hx' : items[n + p]? = some x := by
      rwa [show n + 1 + p - 1 = n + p by omega] at hx
    have := (List.getElem?_eq_some_iff.1 hx').1
    exact hmoved (by omega) hx'

/-- The elements behind an index are moved one place down. -/
theorem closeGap_shifts {elems next size slot : ValueId} (he : b.function.Has elems .ptr) (hi : b.function.Has next .i64)
    (hs : b.function.Has size .i64) (hp : b.function.Has slot .ptr) :
    (v.closeGap elems next size slot).Sat b fun _ b' => Onward b b' ∧
      ClosesGap env elem elems next size slot b b' fun S _ _ _ => Part b' S.world := by
  refine Sat.bind (elementPtr_reaches h hv hf he hi) fun src b₁ ⟨⟨o₁, h₁⟩, r₁⟩ => ?_
  refine Sat.bind (word_reaches o₁.live (show Ir.BinOp.isFloat .sub = false from rfl) (o₁.has hs) (o₁.has hi) _)
    fun tail b₂ ⟨⟨o₂, h₂⟩, r₂⟩ => ?_
  have o₁₂ := o₁.trans o₂
  refine Sat.bind (byteLen_reaches o₂.live hv (hf.onward o₁₂) h₂) fun bytes b₃ ⟨⟨o₃, h₃⟩, r₃⟩ => ?_
  have o₁₃ := o₁₂.trans o₃
  refine ((Ir.Emit.memMove_onward o₃.live (o₁₃.has hp) (o₃.has (o₂.has h₁)) (hf.onward o₁₃).word h₃).and
    (Machine.memMove_acts o₃.live)).imp ?_
  rintro - b₄ ⟨⟨o₄, -⟩, e₄⟩
  refine ⟨o₁₃.trans o₄, fun {S scope ρ g H M id j k n items capacity d buf} hS henv hpart hM hst hin hb hn helems hnext
    hsize hslot goal => ?_⟩
  subst henv
  have p₃ := hpart.back o₄
  have p₂ := p₃.back o₃
  refine r₁ (p₂.back o₂) hM helems hnext fun M₁ m₁ hst₁ hv₁ => ?_
  refine r₂ p₂ m₁.toAt (m₁.holds hsize) (m₁.holds hnext) (intBinary_words _ _).2.1 fun M₂ m₂ hst₂ hv₂ => ?_
  rw [← UInt64.ofNat_sub (Nat.succ_le_of_lt hn)] at hv₂
  refine r₃ p₃ m₂.toAt hv₂ fun M₃ m₃ hst₃ hv₃ => ?_
  have m₁₃ := (m₁.trans m₂).trans m₃
  have hstore : M₃.store = M.store := hst₃.trans (hst₂.trans hst₁)
  have hfits := hin.stored.fits
  refine elements_shifted hS (hst.stays hS m₁₃.stays hstore) (hin.same hstore) (hstore ▸ hb) (n + 1) n
    (by omega) (by omega) e₄ hpart m₃.toAt (m₁₃.holds hslot) (m₃.holds (m₂.holds hv₁)) hv₃
    fun {M₄ rough buf'} m₄ hst₄ hin₄ hb₄ hmoved hrest => ?_
  refine goal (m₁₃.trans m₄) hst₄ hin₄ hb₄ fun {i x} hx => ?_
  rcases Nat.lt_or_ge i n with hlt | hge
  · rw [List.getElem?_eraseIdx_of_lt hlt] at hx
    exact hrest (.inl hlt) hx
  · obtain ⟨p, rfl⟩ : ∃ p, i = n + p := ⟨i - n, by omega⟩
    rw [List.getElem?_eraseIdx_of_ge hge] at hx
    have hx' : items[n + 1 + p]? = some x := by
      rwa [show n + p + 1 = n + 1 + p by omega] at hx
    have := (List.getElem?_eq_some_iff.1 hx').1
    exact hmoved (by omega) hx'

include hd hi

/-- An element is put before another one, or at the end. -/
theorem insertAt_operates {x : ValueId} (hx : b.function.Has x (env.ir elem)) :
    (v.insertAt desc index x).Sat b fun _ b' => Onward b b' ∧
      ∀ n y, Operates env elem desc b b' (fun S M g => IndexAt b index n S M g ∧ Denotes S b M g x ⟨y, elem⟩)
        (Reference.insertAt env.layout · n (Reference.keptAs elem y)) fun _ _ _ _ => True := by
  refine Sat.bind (loadSize_reads h hv hf hd) fun size b₁ ⟨⟨o₁, h₁⟩, r₁⟩ => ?_
  have hf₁ := hf.onward o₁
  refine Sat.bind (boundsCheck_words o₁.live hf₁.word (o₁.has hi) h₁ true) fun _ b₂ ⟨o₂, checks⟩ => ?_
  have o₁₂ := o₁.trans o₂
  refine Sat.bind (ensureCapacity_leads o₂.live hv (hf.onward o₁₂) (o₁₂.has hd) (o₂.has h₁)) fun _ b₃ ⟨o₃, r₃⟩ => ?_
  have o₁₃ := o₁₂.trans o₃
  have hs₃ := o₃.has (o₂.has h₁)
  refine Sat.bind (loadElems_reads o₃.live hv (hf.onward o₁₃) (o₁₃.has hd)) fun elems b₄ ⟨⟨o₄, h₄⟩, r₄⟩ => ?_
  have o₁₄ := o₁₃.trans o₄
  refine Sat.bind (elementPtr_reaches o₄.live hv (hf.onward o₁₄) h₄ (o₁₄.has hi)) fun slot b₅ ⟨⟨o₅, h₅⟩, r₅⟩ => ?_
  have o₁₅ := o₁₄.trans o₅
  refine Sat.bind (openGap_shifts o₅.live hv (hf.onward o₁₅) (o₅.has h₄) (o₁₅.has hi) (o₅.has (o₄.has hs₃)) h₅)
    fun _ b₆ ⟨o₆, r₆⟩ => ?_
  have o₁₆ := o₁₅.trans o₆
  refine Sat.bind ((Ir.Emit.store_onward o₆.live (.inl ⟨_, o₁₆.has hx⟩) (o₆.has h₅)).and
    (Machine.store_acts o₆.live (o₆.has h₅))) fun _ b₇ ⟨⟨o₇, _⟩, e₇⟩ => ?_
  have o₁₇ := o₁₆.trans o₇
  have o₃₇ := ((o₄.trans o₅).trans o₆).trans o₇
  refine (bumpSize_runs o₇.live hv (hf.onward o₁₇) (o₁₇.has hd) (o₃₇.has hs₃) true).imp ?_
  rintro - b₈ ⟨o₈, r₈⟩
  refine ⟨o₁₇.trans o₈, fun n y {S scope ρ g H M u} hS he ht hM hst hdesc ⟨⟨hn, hindex⟩, hvalue⟩ => ?_⟩
  subst he
  have p₇ := ht.toPart.back o₈
  have p₆ := p₇.back o₇
  have p₅ := p₆.back o₆
  have p₄ := p₅.back o₅
  have p₃ := p₄.back o₄
  have p₂ := p₃.back o₃
  have o₃₈ := o₃₇.trans o₈
  have ht₂ : Toward b₁ b₂ S.world := (ht.before (o₃.trans o₃₈).ext).since o₁.ext.toLater
  have ht₃ : Toward b₂ b₃ S.world := (ht.before o₃₈.ext).since o₁₂.ext.toLater
  obtain ⟨hnull, hsize⟩ := r₁ hS.toReady rfl (p₂.back o₂) hM
  show Leads S scope ρ b M g b₈ ((Reference.vectorOf u >>= _ : Sem Unit) H) _
  refine hdesc.leads_vector hS hst hnull fun {id j items capacity d elems} hv hin => ?_
  simp only []
  refine Leads.past hS.toReady hst (hsize hv hin) fun {M₁} a₁ hst₁ hs₁ => ?_
  obtain ⟨hpass, hfail⟩ := checks ht₂ a₁.moved.toAt hn hin.length_lt (a₁.moved.holds hindex) hs₁
  rcases Nat.lt_or_ge items.length n with hgt | hle
  · rw [if_neg (Nat.not_le.2 hgt)]
    exact .of_refusal hS a₁.stands (hfail (Nat.not_le.2 hgt))
  rw [if_pos hle, makeRoom_put]
  refine Leads.past hS.toReady a₁.stands (hpass hle) fun {M₂} a₂ hst₂ _ => ?_
  have m₂ := a₁.moved.trans a₂.moved
  have hs₂ := a₂.moved.holds hs₁
  refine Leads.bind_ends (r₃ hS rfl ht₃ a₂.moved.toAt a₂.stands (hin.same (hst₂.trans hst₁)) (m₂.holds hv) hs₂)
    fun {c H₃ g₃ M₃} hends a₃ ⟨d₃, elems₃, hin₃⟩ => ?_
  obtain ⟨rfl, hroom⟩ := grown_ends hin.stored.fits hends
  obtain ⟨k, buf, rfl, hbuf⟩ := hin₃.stored.buffer (Nat.zero_lt_of_lt hroom)
  have m₃ := m₂.trans a₃.moved
  have hreach := (r₄ hS.toReady rfl p₄ a₃.moved.toAt (m₃.holds hv) hin₃).bind fun M₄ m₄ hv₄ =>
    (r₅ p₅ m₄.toAt hv₄ (m₄.holds (m₃.holds hindex))).imp_moved fun M₅ m₅ hv₅ => And.intro (m₅.holds hv₄) hv₅
  refine Leads.past hS.toReady a₃.stands hreach fun {M₅} a₅ hst₅ ⟨helems, hslot⟩ goal => ?_
  have m₅ := m₃.trans a₅.moved
  have hs₅ := a₅.moved.holds (a₃.moved.holds hs₂)
  refine r₆ hS.toReady rfl p₆ a₅.moved.toAt a₅.stands (hin₃.same hst₅) (hst₅ ▸ hbuf) hle hroom helems
    (m₅.holds hindex) hs₅ hslot fun {M₆ rough buf₆} m₆ hst₆ hin₆ hbuf₆ hgap => ?_
  have m₁₆ := m₅.trans m₆
  refine cell_stored hS.toReady hst₆ hin₆ hbuf₆ m₆.toAt p₇ e₇ (m₆.holds hslot) (valueType_of_has p₆ (o₁₆.has hx))
    (hvalue.mono m₁₆ (a₁.grows.trans (a₂.grows.trans (a₃.grows.trans a₅.grows)))) (Nat.lt_of_le_of_lt hle hroom)
    fun {g₇ M₇ buf₇} m₇ hg₇ hst₇ hin₇ hbuf₇ hkeep₇ hcell₇ => ?_
  refine r₈ (n := items.length) (items.insertIdx n (Reference.keptAs elem y)) hS.toReady rfl ht.toPart m₇.toAt
    hst₇ hin₇ (m₇.holds (m₁₆.holds hv)) (m₇.holds (m₆.holds hs₅)) (List.length_insertIdx_of_le_length hle _)
    (by rw [List.length_insertIdx_of_le_length hle]; exact hroom) ?_ fun {M₈} m₈ hst₈ => ?_
  · refine hbuf₇.refilled fun {i z} hi => ?_
    rcases eq_or_ne i n with rfl | hne
    · rw [List.getElem?_insertIdx_self, if_pos hle] at hi
      cases hi
      exact hcell₇
    · exact hkeep₇ i hne ▸ (hgap hne hi).mono hg₇
  · rw [List.set_set, List.set_set] at hst₈
    exact goal ⟨m₆.trans (m₇.trans m₈), hst₈, hg₇⟩ trivial

/-- The element at an index is taken out. -/
theorem removeAt_operates :
    (v.removeAt desc index).Sat b fun p b' => (Onward b b' ∧ b'.function.Has p (env.ir elem)) ∧
      ∀ n, Operates env elem desc b b' (IndexAt b index n) (Reference.removeAt · n) fun S x g M =>
        Denotes S b' M g p ⟨x, elem⟩ := by
  have hcell : (env.ir elem).isScalar = true := Env.isScalar_ir elem
  show (v.access desc index >>= fun a => Emit.load v.elem a.slot "removed" >>= fun removed =>
    Emit.constUsize 1 >>= fun one => Emit.binary .add index one "idx.next" >>= fun next =>
    Emit.icmp .ult next a.size "has.tail" >>= fun tail =>
    Machine.detour tail "vec.shift" "vec.removed" (v.closeGap a.elems next a.size a.slot) >>= fun _ =>
    v.bumpSize desc a.size false >>= fun _ => pure removed).Sat b _
  refine Sat.bind (access_finds h hv hf hd hi) fun a b₁ ⟨⟨o₁, hs₁, he₁, hp₁⟩, r₁⟩ => ?_
  rw [hv.cell]
  refine Sat.bind (load_reaches o₁.live hp₁ hcell _) fun removed b₂ ⟨⟨o₂, h₂⟩, r₂⟩ => ?_
  have o₁₂ := o₁.trans o₂
  rw [behind_bind]
  refine Sat.bind (behind_reaches o₂.live (hf.onward o₁₂).word (o₁₂.has hi) (o₂.has hs₁) _ _) ?_
  rintro ⟨next, tail⟩ b₃ ⟨⟨o₃, hn₃, ht₃⟩, r₃⟩
  have o₁₃ := o₁₂.trans o₃
  have o₂₃ := o₂.trans o₃
  refine Sat.bind (Machine.detour_detours o₃.live ht₃ _ _ fun s os => closeGap_shifts os.live hv (hf.onward (o₁₃.trans os))
    ((o₂₃.trans os).has he₁) (os.has hn₃) ((o₂₃.trans os).has hs₁) ((o₂₃.trans os).has hp₁)) ?_
  rintro - b₄ ⟨s, d, os, close, detours⟩
  have o₄ := detours.onward
  have o₁₄ := o₁₃.trans o₄
  refine Sat.bind (bumpSize_runs o₄.live hv (hf.onward o₁₄) (o₁₄.has hd) ((o₂₃.trans o₄).has hs₁) false) ?_
  rintro - b₅ ⟨o₅, r₅⟩
  have o₃₅ := (o₃.trans o₄).trans o₅
  refine Sat.pure ⟨⟨o₁₄.trans o₅, o₃₅.has h₂⟩, fun n {S scope ρ g H M u} hS henv ht hM hst hdesc ⟨hn, hindex⟩ => ?_⟩
  subst henv
  have p₃ := (ht.toPart.back o₅).back o₄
  have ht₄ : Toward b₃ b₄ S.world := (ht.before o₅.ext).since o₁₃.ext.toLater
  obtain ⟨hnull, hfind⟩ := r₁ hS.toReady rfl (ht.before (o₂.trans o₃₅).ext) hM
  show Leads S scope ρ b M g b₅ ((Reference.vectorOf u >>= _ : Sem Value) H) _
  refine hdesc.leads_vector hS hst hnull fun {id j items capacity dsc elems} hv hin => ?_
  obtain ⟨hfound, hout⟩ := hfind hv hin hindex hn
  rcases Nat.lt_or_ge n items.length with hlt | hge
  swap
  · simp only [List.getElem?_eq_none hge]
    exact .of_refusal hS hst (hout hge)
  have hinside := Nat.lt_of_lt_of_le hlt hin.stored.fits
  obtain ⟨k, buf, rfl, hb⟩ := hin.stored.buffer (Nat.zero_lt_of_lt hinside)
  have hget := List.getElem?_eq_getElem hlt
  simp only [hget]
  have hreach : S.world.Reaches b M b₃ fun M' => (Holds b₃ M' a.size (.int (UInt64.ofNat items.length)) ∧
      Holds b₃ M' a.elems (.ptr (blockAddress k)) ∧
      Holds b₃ M' a.slot (.ptr (addressOf k (n * cellBytes (S.env.ir elem))))) ∧
      Holds b₃ M' removed (buf.read (S.env.ir elem) (n * cellBytes (S.env.ir elem))) ∧
      Holds b₃ M' next (.int (UInt64.ofNat (n + 1))) ∧ Holds b₃ M' tail (.bool (decide (n + 1 < items.length))) := by
    refine (hfound hlt rfl).keeps.bind fun M₁ m₁ ⟨hst₁, hsize₁, helems₁, hslot₁⟩ => ?_
    have hload : M₁.store.memory.load S.world.module (S.env.ir elem) (addressOf k (n * cellBytes (S.env.ir elem))) =
        .ok (buf.read (S.env.ir elem) (n * cellBytes (S.env.ir elem))) := by
      rw [hst₁]
      exact hb.live.load_eq hS.runnable.modulePointerBits hcell (hb.inside hinside)
    refine (r₂ (p₃.back o₃) m₁.toAt hslot₁.value hload).bind fun M₂ m₂ hv₂ => ?_
    refine (r₃ p₃ m₂.toAt ((m₁.trans m₂).holds hindex) (m₂.holds hsize₁) hlt hin.length_lt).imp_moved
      fun M₃ m₃ ⟨hnext₃, htail₃⟩ => ?_
    have m₂₃ := m₂.trans m₃
    exact ⟨⟨m₂₃.holds hsize₁, m₂₃.holds helems₁, m₂₃.holds hslot₁⟩, m₃.holds hv₂, hnext₃, htail₃⟩
  refine Leads.past hS.toReady hst hreach fun {M₃} a₃ hst₃ ⟨⟨hsize₃, helems₃, hslot₃⟩, hremoved₃, hnext₃, htail₃⟩ goal => ?_
  refine close.detour detours hS.toReady rfl ⟨ht₄, htail₃⟩ a₃.moved.toAt a₃.stands (hin.same hst₃) (hst₃ ▸ hb) hlt
    helems₃ hnext₃ hsize₃ hslot₃ fun {M₄ rough buf'} m₄ hst₄ hin₄ hb₄ herase => ?_
  have hlength := List.length_eraseIdx_of_lt hlt
  have hfits := hin.stored.fits
  refine r₅ (n := items.length) (items.eraseIdx n) hS.toReady rfl ht.toPart m₄.toAt hst₄ hin₄
    (m₄.holds (a₃.moved.holds hv)) (m₄.holds hsize₃) (show _ + 1 = _ by omega) (by omega) (hb₄.refilled herase)
    fun {M₅} m₅ hst₅ => ?_
  rw [List.set_set] at hst₅
  have m := m₄.trans m₅
  exact goal ⟨m, hst₅, List.prefix_refl _⟩ (.of_holds (m.holds hremoved₃) (hb.holds hget))

end

end BlockForge.Simulation
