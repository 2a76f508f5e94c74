import BlockForge.Proofs.Ir.Layout
import BlockForge.Proofs.Ir.Shape
import BlockForge.Proofs.Lowering.Program
import BlockForge.Proofs.Lowering.Rules

/-!
# The capacity of a new vector

The bytes of a new buffer are computed in words of 64 bits, where a product that does not fit becomes the
largest word. Then both they and the capacity are cut to the width of a pointer. Where pointers are as wide
as words, the buffer has room for the capacity or asks for all there is. Where they are narrower, that fails
for every capacity whose elements take more bytes than a pointer can count, unless the product was too large
before.
-/

namespace BlockForge.Ir

/-- A value is a constant with this number. -/
def Builder.Holds (b : Builder) (v : ValueId) (n : Nat) : Prop :=
  ∃ w, b.constIntValue? v = some w ∧ w.toNat = n

/-- A block stores a value into a field of a struct. -/
def Function.StoresField (f : Function) (struct : StructId) (base : ValueId) (field : Nat) (v : ValueId) : Prop :=
  ∃ c ptr, ⟨some ptr, .fieldPtr struct base field⟩ ∈ f.code c ∧ ⟨none, .store v ptr⟩ ∈ f.code c

namespace Emit

open StateM

variable {b b' : Builder}

theorem Onward.holds (o : Onward b b') {v : ValueId} {n : Nat} (h : b.Holds v n) : b'.Holds v n := by
  obtain ⟨w, hw, hn⟩ := h
  refine ⟨w, ?_, hn⟩
  unfold Builder.constIntValue? at hw ⊢
  split at hw
  · rename_i hv
    rw [o.ext.grows.value? hv]
    exact hw
  · cases hw

theorem Onward.storesField (o : Onward b b') {struct : StructId} {base v : ValueId} {field : Nat}
    (h : b.function.StoresField struct base field v) : b'.function.StoresField struct base field v := by
  obtain ⟨c, ptr, hp, hs⟩ := h
  exact ⟨c, ptr, o.ext.grows.mem_code hp, o.ext.grows.mem_code hs⟩

section

variable (h : b.Live) {t : Ty} {bits : Nat} (hb : t.intBits? = some bits)

include h hb

theorem constInt_holds (w : UInt64) :
    (constInt t w).Runs b fun v b' => b'.function.Has v t ∧ b'.Holds v (w.toNat % 2 ^ bits) := by
  have hholds : (constInt t w).Sat b fun v b' => b'.Holds v (w.toNat % 2 ^ bits) := by
    refine (pushValue_declared h _ _ _).imp ?_
    rintro v b' ⟨rfl, hfun, -⟩
    refine ⟨Word.mask w bits, ?_, Word.toNat_mask (intBits?_le hb) w⟩
    simp [Builder.constIntValue?, hfun, Function.value?, Function.addValue, hb]
  refine ((constInt_onward h (Option.isSome_iff_exists.2 ⟨bits, hb⟩) w).and hholds).imp ?_
  rintro v b' ⟨⟨o, hv⟩, hn⟩
  exact ⟨o, hv, hn⟩

theorem constUsize_holds (ht : b.module.ptrInt = t) (w : UInt64) :
    (constUsize w).Runs b fun v b' => b'.function.Has v t ∧ b'.Holds v (w.toNat % 2 ^ bits) := by
  refine Sat.get_bind ?_
  rw [ht]
  exact constInt_holds h hb w

end

end Emit

theorem intBits?_ptrInt {m : Module} (h : m.pointerBits = 16 ∨ m.pointerBits = 32 ∨ m.pointerBits = 64) :
    m.ptrInt.intBits? = some m.pointerBits := by
  unfold Module.ptrInt
  rcases h with h | h | h <;> rw [h] <;> rfl

theorem sizeOf_scalar {m : Module} (h : m.pointerBits = 16 ∨ m.pointerBits = 32 ∨ m.pointerBits = 64) {t : Ty}
    (ht : t.isScalar = true) : m.sizeOf t = 1 ∨ m.sizeOf t = 2 ∨ m.sizeOf t = 4 ∨ m.sizeOf t = 8 := by
  cases t with
  | ptr =>
    show m.pointerBits / 8 = 1 ∨ m.pointerBits / 8 = 2 ∨ m.pointerBits / 8 = 4 ∨ m.pointerBits / 8 = 8
    omega
  | void => cases ht
  | struct id => cases ht
  | _ => simp [Module.sizeOf_of_plain, Module.plainLayout]

end BlockForge.Ir

namespace BlockForge.Lowering

open Ir (Builder Emit ValueId)
open Ir.Emit (Onward Runs)
open Source (Program TypeExpr Span)
open StateM
open BlockForge.Types (Ty)

/-! ### Bytes for a capacity -/

/-- There are bytes for some elements, or all that a pointer can count were asked for. -/
def Covers (bits size capacity bytes : Nat) : Prop := capacity * size ≤ bytes ∨ bytes = 2 ^ bits - 1

theorem allOnes_mod {bits : Nat} (h : bits ≤ 64) : (2 ^ 64 - 1) % 2 ^ bits = 2 ^ bits - 1 := by
  obtain ⟨k, hk⟩ : ∃ k, 2 ^ 64 = 2 ^ bits * (k + 1) := by
    obtain ⟨k, hk⟩ := pow_dvd_pow 2 h
    cases k with
    | zero => simp at hk
    | succ k => exact ⟨k, hk⟩
  have hpos := Nat.two_pow_pos bits
  have hsplit : 2 ^ 64 - 1 = 2 ^ bits - 1 + 2 ^ bits * k := by
    rw [hk, Nat.mul_add]
    omega
  rw [hsplit, Nat.add_mul_mod_self_left, Nat.mod_eq_of_lt (by omega)]

/-- The bytes are enough unless the elements of what is left of the capacity take more than a pointer can
count, and the product was no largest word. -/
theorem covers_iff {bits size : Nat} (hpos : 0 < bits) (hbits : bits ≤ 64)
    (hsize : size = 1 ∨ size = 2 ∨ size = 4 ∨ size = 8) (capacity : Nat) :
    Covers bits size (capacity % 2 ^ bits) (min (capacity * size) (2 ^ 64 - 1) % 2 ^ bits) ↔
      2 ^ 64 - 1 ≤ capacity * size ∨ capacity % 2 ^ bits * size < 2 ^ bits := by
  unfold Covers
  by_cases hmax : 2 ^ 64 - 1 ≤ capacity * size
  · rw [Nat.min_eq_right hmax, allOnes_mod hbits]
    exact iff_of_true (.inr rfl) (.inl hmax)
  · have hbytes : min (capacity * size) (2 ^ 64 - 1) % 2 ^ bits = capacity % 2 ^ bits * size % 2 ^ bits := by
      rw [Nat.min_eq_left (Nat.le_of_not_le hmax), Nat.mod_mul_mod]
    rw [hbytes, or_iff_right hmax]
    refine ⟨fun h => ?_, fun h => .inl (Nat.le_of_eq (Nat.mod_eq_of_lt h).symm)⟩
    have hlt := Nat.mod_lt (capacity % 2 ^ bits * size) (Nat.two_pow_pos bits)
    rcases h with h | h
    · omega
    · -- the bytes of larger elements are even, the largest number of them is odd
      rcases hsize with rfl | heven
      · rw [Nat.mul_one]
        exact Nat.mod_lt _ (Nat.two_pow_pos bits)
      · exfalso
        have hdvd : 2 ∣ 2 ^ bits := dvd_pow_self 2 (Nat.ne_of_gt hpos)
        have heven : 2 ∣ capacity % 2 ^ bits * size := Dvd.dvd.mul_left (by omega) _
        have := (Nat.dvd_mod_iff hdvd).2 heven
        omega

/-! ### The code of a new vector -/

/-- What the elements of a new vector are: nothing, or what was allocated for a number of bytes. -/
inductive Buffer (a : Allocator) (kind : AllocKind) (b b' : Builder) (elems : ValueId) : (bytes : Nat) → Prop
  | none (hv : b'.function.value? elems = some ⟨.ptr, .constNull, ""⟩) : Buffer a kind b b' elems 0
  | allocated {b₁ b₂ size bytes} (before : Onward b b₁) (hs : b₁.Holds size bytes)
      (ha : a.allocate size kind "vec.buf" b₁ = (elems, b₂)) (after : Onward b₂ b') :
      Buffer a kind b b' elems bytes

theorem Buffer.onward {a : Allocator} {kind : AllocKind} {b₀ b b' b'' : Builder} {elems : ValueId} {bytes : Nat}
    (h : Buffer a kind b b' elems bytes) (before : Onward b₀ b) (after : Onward b' b'') :
    Buffer a kind b₀ b'' elems bytes := by
  cases h with
  | none hv => exact .none (after.ext.grows.value? hv)
  | allocated o hs ha k => exact .allocated (before.trans o) hs ha (k.trans after)

namespace VectorShape

/-- The descriptor of a new vector: a capacity, and a buffer for which a number of bytes was asked. -/
structure Made (v : VectorShape) (b b' : Builder) (desc : ValueId) (capacity bytes : Nat) : Prop where
  capacity : ∃ cap, b'.Holds cap capacity ∧
    b'.function.StoresField v.struct desc VectorField.capacity.position cap
  size : ∃ zero, b'.Holds zero 0 ∧ b'.function.StoresField v.struct desc VectorField.size.position zero
  elems : ∃ elems, Buffer v.allocator v.kind b b' elems bytes ∧
    b'.function.StoresField v.struct desc VectorField.elems.position elems

theorem toNat_initialBytes (v : VectorShape) (capacity : UInt64) :
    (v.initialBytes capacity).toNat = min (capacity.toNat * v.elemSize) (2 ^ 64 - 1) := by
  rw [initialBytes, UInt64.toNat_ofNat']
  omega

variable {v : VectorShape} {b : Builder} {w : Ir.Ty} (h : b.Live) (hv : v.Fits b w)

include h hv

theorem storeField_stores {desc x : ValueId} {t : Ir.Ty} (hd : b.function.Has desc .ptr) (f : VectorField)
    (hx : b.function.Has x t) :
    (v.storeField desc f x).Runs b fun _ b' => b'.function.StoresField v.struct desc f.position x := by
  obtain ⟨c, hc, -⟩ := h.isOpen
  have hfield : f.position < (b.module.structFields v.struct).length := by
    rw [hv.fields]
    cases f <;> simp [VectorField.position]
  have hptr : (v.fieldPtr desc f).Sat b fun ptr b' =>
      ⟨some ptr, .fieldPtr v.struct desc f.position⟩ ∈ b'.function.code c :=
    Ir.Emit.demand_bind (by simpa using hfield) (Ir.Emit.emit_mem h.opened hc ..)
  refine Sat.bind (((fieldPtr_gives h hv hd f).and hptr).and
    ((Ir.Emit.fieldPtr_inline ..).sat b h.ok.valid)) ?_
  rintro ptr b₁ ⟨⟨⟨o₁, hp⟩, hmem⟩, i₁⟩
  have hstore : (Emit.store x ptr).Sat b₁ fun _ b' => ⟨none, .store x ptr⟩ ∈ b'.function.code c := by
    refine Ir.Emit.demand_bind ?_ (Ir.Emit.insert_mem o₁.live.opened (i₁.current.trans hc) ..)
    simp [Builder.valueType, hp.valueType_eq, Ir.Ty.isPtr]
  refine ((Ir.Emit.store_onward o₁.live (.inl ⟨t, o₁.has hx⟩) hp).and hstore).imp ?_
  rintro - b₂ ⟨⟨o₂, -⟩, hmem₂⟩
  exact ⟨o₁.trans o₂, c, ptr, o₂.ext.grows.mem_code hmem, hmem₂⟩

theorem newBuffer_buffer {bits : Nat} (hb : w.intBits? = some bits) (capacity : UInt64) :
    (v.newBuffer capacity).Runs b fun elems b' => b'.function.Has elems .ptr ∧
      Buffer v.allocator v.kind b b' elems (min (capacity.toNat * v.elemSize) (2 ^ 64 - 1) % 2 ^ bits) := by
  unfold newBuffer
  split
  · refine Runs.bind (Ir.Emit.constUsize_holds h hb hv.word _) ?_
    rintro size b₁ o₁ ⟨hs, hholds⟩
    rw [toNat_initialBytes] at hholds
    have hgives : (v.allocator.allocate size v.kind "vec.buf").Gives b₁ .ptr :=
      hv.allocator _ _ o₁.live (by rw [(hv.onward o₁).word]; exact hs)
    exact ⟨hgives.1, hgives.2, .allocated o₁ hholds rfl (.refl hgives.1.live)⟩
  · -- without a capacity the bytes are none, whatever the element
    rename_i hzero
    obtain rfl : capacity = 0 := by
      rw [UInt64.lt_iff_toNat_lt] at hzero
      apply UInt64.toNat_inj.1
      exact Nat.eq_zero_of_not_pos hzero
    have hnull : Emit.constNull.Sat b fun elems b' =>
        b'.function.value? elems = some ⟨.ptr, .constNull, ""⟩ := by
      refine (Ir.Emit.pushValue_declared h _ _ _).imp ?_
      rintro _ b' ⟨rfl, hfun, -⟩
      simp [hfun, Ir.Function.value?, Ir.Function.addValue]
    refine ((Ir.Emit.constNull_onward h).and hnull).imp ?_
    rintro elems b' ⟨⟨o, he⟩, hn⟩
    refine ⟨o, he, ?_⟩
    simpa using Buffer.none hn

/-- A new vector says the capacity of the target, and its buffer is the one allocated. -/
theorem new_made {bits : Nat} (hb : w.intBits? = some bits) (descBytes : Nat) (capacity : UInt64) :
    (v.new descBytes capacity).Runs b fun desc b' => v.Made b b' desc (capacity.toNat % 2 ^ bits)
      (min (capacity.toNat * v.elemSize) (2 ^ 64 - 1) % 2 ^ bits) := by
  refine Sat.get_bind ?_
  rw [hv.word]
  refine Runs.bind (Ir.Emit.constUsize_onward h hv.word _) fun size b₁ o₁ h₁ => ?_
  have hv₁ := hv.onward o₁
  refine Runs.bind (hv.allocator _ _ o₁.live (by rw [hv₁.word]; exact h₁)) fun desc b₂ o₂ hd => ?_
  have hv₂ := hv₁.onward o₂
  refine Runs.bind (newBuffer_buffer o₂.live hv₂ hb capacity) ?_
  rintro elems b₃ o₃ ⟨he, hbuffer⟩
  refine Runs.bind (Ir.Emit.constInt_holds o₃.live hb 0) ?_
  rintro zero b₄ o₄ ⟨hz, hzero⟩
  have hv₄ : v.Fits b₄ w := by apply_rules [Fits.onward]
  refine Runs.bind (Ir.Emit.constUsize_holds o₄.live hb hv₄.word _) ?_
  rintro cap b₅ o₅ ⟨hc, hcap⟩
  have hv₅ := hv₄.onward o₅
  refine Runs.bind (storeField_stores (x := elems) (t := .ptr) o₅.live hv₅
    (by apply_rules [Onward.has]) .elems (by apply_rules [Onward.has])) fun _ b₆ o₆ selems => ?_
  refine Runs.bind (storeField_stores (x := zero) (t := w) o₆.live (hv₅.onward o₆)
    (by apply_rules [Onward.has]) .size (by apply_rules [Onward.has])) fun _ b₇ o₇ ssize => ?_
  refine Runs.bind (storeField_stores (x := cap) (t := w) o₇.live ((hv₅.onward o₆).onward o₇)
    (by apply_rules [Onward.has]) .capacity (by apply_rules [Onward.has])) fun _ b₈ o₈ scap => ?_
  have o₅₈ := (o₆.trans o₇).trans o₈
  refine Sat.pure ⟨.refl o₈.live, ⟨cap, o₅₈.holds hcap, scap⟩,
    ⟨zero, (o₅.trans o₅₈).holds hzero, o₈.storesField ssize⟩,
    ⟨elems, ?_, (o₇.trans o₈).storesField selems⟩⟩
  exact hbuffer.onward (o₁.trans o₂) ((o₄.trans o₅).trans o₅₈)

end VectorShape

theorem lowerVectorNew_sat {env : Env} {s : State} {t : TypeExpr} {elem : Ty}
    (ht : env.tables.resolve t = .ok elem) {Q : ValueId → Builder → Prop}
    (h : ((env.shapeAt elem s.builder).new (s.builder.module.sizeOf (.struct env.tables.vector))
      env.config.initialCapacity).Sat s.builder Q) (span : Span) :
    (lowerVectorNew env t span).run.Sat s fun r s' => ∃ desc, r = some ⟨desc, .vector elem⟩ ∧ Q desc s'.builder := by
  have helem : (Attempt.resolve env t span).run.Sat s fun r s' => r = some elem ∧ s' = s := by
    unfold Attempt.resolve
    rw [ht]
    exact ⟨rfl, rfl⟩
  have hshape : (vectorShape env elem).Sat s fun shape s' => shape = env.shapeAt elem s.builder ∧ s' = s :=
    ⟨rfl, rfl⟩
  refine Attempt.sat_bind helem ?_ (by rintro _ ⟨hr, -⟩; cases hr)
  rintro _ _ ⟨hr, rfl⟩
  cases hr
  refine Attempt.lift_sat_bind hshape ?_
  rintro _ _ ⟨rfl, rfl⟩
  refine Attempt.get_sat_bind (Attempt.emit_sat_bind h fun desc b hq => ?_)
  exact ⟨desc, rfl, hq⟩

/-- New vectors are covered as far as a pointer can count. The descriptor of a new vector gets the capacity
cut to the width of a pointer, and its buffer the bytes of the whole capacity, at most the largest word and
cut likewise. That is enough or all there is if and only if the product did not fit a word or the bytes for
the capacity that is left can be counted by a pointer; it always is where pointers are words. -/
theorem new_vectors_are_covered {env : Env} {s : State} (hl : s.builder.Live) (hf : env.Fits s.builder.module)
    {t : TypeExpr} {elem : Ty} (ht : env.tables.resolve t = .ok elem) (span : Span) :
    ∃ desc s' capacity bytes, (lowerVectorNew env t span).run s = (some ⟨desc, .vector elem⟩, s') ∧
      (env.shapeAt elem s.builder).Made s.builder s'.builder desc capacity bytes ∧
      capacity = env.config.initialCapacity.toNat % 2 ^ env.config.pointerBits ∧
      bytes = min (env.config.initialCapacity.toNat * s.builder.module.sizeOf (env.ir elem)) (2 ^ 64 - 1) %
        2 ^ env.config.pointerBits ∧
      (Covers env.config.pointerBits (s.builder.module.sizeOf (env.ir elem)) capacity bytes ↔
        2 ^ 64 - 1 ≤ env.config.initialCapacity.toNat * s.builder.module.sizeOf (env.ir elem) ∨
        capacity * s.builder.module.sizeOf (env.ir elem) < 2 ^ env.config.pointerBits) ∧
      (env.config.pointerBits = 64 →
        Covers env.config.pointerBits (s.builder.module.sizeOf (env.ir elem)) capacity bytes) := by
  have hwidth := hf.width
  have hscalar : (env.ir elem).isScalar = true := Env.isScalar_ir elem
  have hsize := Ir.sizeOf_scalar (by rw [hf.pointerBits]; exact hwidth) hscalar
  have hshape : (env.shapeAt elem s.builder).Fits s.builder s.builder.module.ptrInt :=
    ⟨rfl, hf.vector, hscalar, hf.allocator⟩
  have hbits : s.builder.module.ptrInt.intBits? = some env.config.pointerBits := by
    rw [← hf.pointerBits] at hwidth ⊢
    exact Ir.intBits?_ptrInt hwidth
  obtain ⟨desc, hdesc, -, hmade⟩ := lowerVectorNew_sat ht (VectorShape.new_made hl hshape hbits _ _) span
  have hcovers := @covers_iff env.config.pointerBits _ (by omega) (by omega) hsize
    env.config.initialCapacity.toNat
  refine ⟨desc, _, _, _, Prod.ext hdesc rfl, hmade, rfl, rfl, hcovers, fun h64 => ?_⟩
  refine hcovers.2 ?_
  rw [h64, Nat.mod_eq_of_lt (UInt64.toNat_lt _)]
  omega

def vectorMaker : Program where
  structs := []
  functions := [{
    symbol := "make"
    receiver := none
    params := []
    returnType := .unit
    body := [.expr ⟨2, 3⟩ (.vectorNew ⟨0, 1⟩ (.named "i64"))]
    span := ⟨4, 5⟩ }]

def makerEnv (config : Config) : Env :=
  ⟨config, (Collection.ofProgram config vectorMaker).tables, .collector, .unit, "make"⟩

theorem new_vectors_are_covered_wrapped : ∃ (s s' : State) (desc : ValueId),
    (lowerVectorNew (makerEnv { pointerBits := 32, initialCapacity := 2 ^ 32 + 3 }) (.named "i64") ⟨0, 1⟩).run s =
      (some ⟨desc, .vector (.signed .w64)⟩, s') ∧
    ((makerEnv { pointerBits := 32, initialCapacity := 2 ^ 32 + 3 }).shapeAt (.signed .w64) s.builder).Made
      s.builder s'.builder desc 3 24 ∧ Covers 32 8 3 24 := by
  obtain ⟨c, hc⟩ : ∃ c, c = Collection.ofProgram { pointerBits := 32, initialCapacity := 2 ^ 32 + 3 } vectorMaker :=
    ⟨_, rfl⟩
  have hfits : (makerEnv { pointerBits := 32, initialCapacity := 2 ^ 32 + 3 }).Fits c.module := by
    rw [hc]
    exact (Collection.ofProgram_fits _ _).env (.inr (.inl rfl)) collector_sound .unit "make"
  have hdecl : c.module.function? ⟨0⟩ = some (.declare "make" [] .void) := by
    rw [hc]
    rfl
  obtain ⟨b, hb⟩ : ∃ b, Ir.Emit.Entered c.module ⟨0⟩ b :=
    ⟨_, Ir.Emit.start_entered (fun _ hd => by rw [hc] at hd; cases hd) hdecl⟩
  obtain ⟨desc, s', capacity, bytes, hrun, hmade, hcap, hbytes, hcovers, -⟩ := new_vectors_are_covered
    (s := ⟨b, {}, {}, [], false, {}⟩) hb.live (hfits.grows hb.later.module) (t := .named "i64") rfl ⟨0, 1⟩
  have hsize : b.module.sizeOf ((makerEnv { pointerBits := 32, initialCapacity := 2 ^ 32 + 3 }).ir (.signed .w64)) =
      8 := by
    show b.module.sizeOf .i64 = 8
    rfl
  rw [hsize] at hbytes hcovers
  obtain rfl : capacity = 3 := hcap.trans (by decide)
  obtain rfl : bytes = 24 := hbytes.trans (by decide)
  exact ⟨_, s', desc, hrun, hmade, hcovers.2 (.inr (by decide))⟩

/-- Where pointers have 32 bits, the second call allocates no bytes for 2^29 integers of eight bytes. -/
theorem new_vector_without_bytes :
    (lowerProgram { pointerBits := 32, initialCapacity := 2 ^ 29 } .collector vectorMaker).hasErrors = false ∧
    ((lowerProgram { pointerBits := 32, initialCapacity := 2 ^ 29 } .collector vectorMaker).module.functions.toList.map
      fun f => ((f.code Ir.Id.entry).map (·.kind), f.value? ⟨2⟩, f.value? ⟨5⟩)) =
      [([.call (.host ⟨0⟩) [⟨0⟩] .ptr, .call (.host ⟨1⟩) [⟨2⟩] .ptr,
        .fieldPtr ⟨0⟩ ⟨1⟩ VectorField.elems.position, .store ⟨3⟩ ⟨6⟩,
        .fieldPtr ⟨0⟩ ⟨1⟩ VectorField.size.position, .store ⟨4⟩ ⟨7⟩,
        .fieldPtr ⟨0⟩ ⟨1⟩ VectorField.capacity.position, .store ⟨5⟩ ⟨8⟩],
        some ⟨.i32, .constInt 0, ""⟩, some ⟨.i32, .constInt (2 ^ 29), ""⟩)] ∧
    ¬Covers 32 8 (2 ^ 29) 0 := by
  refine ⟨?_, ?_, ?_⟩
  · decide +kernel
  · decide +kernel
  · unfold Covers
    omega

end BlockForge.Lowering
