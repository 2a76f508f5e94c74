import BlockForge.Lowering.VectorCode
import BlockForge.Proofs.Ir.Flow

/-!
# Well-formed vector operations

The blocks that the vector operations emit join again: each operation goes on at a live position and
gives what it should, for descriptors that are addresses and indices as wide as a pointer.
-/

namespace BlockForge.Lowering

open Ir (Builder Emit ValueId)
open Ir.Emit
open StateM

/-! ### Allocation -/

/-- An allocator whose code is well-formed and gives an address. -/
def Allocator.Sound (a : Allocator) : Prop :=
  ∀ {b : Builder} {size : ValueId} (kind : AllocKind) (name : String), b.Live →
    b.function.Has size b.module.ptrInt → (a.allocate size kind name).Gives b .ptr

theorem callAllocator_gives {b : Builder} (h : b.Live) {d : Ir.HostDecl}
    (hd : d ∈ b.module.knownHosts) (hr : d.ret = .ptr) {args : List ValueId}
    (hargs : List.Forall₂ b.function.Has args d.params) (name : String) :
    (Allocator.callAllocator d.name d.params args name).Gives b .ptr := by
  unfold Allocator.callAllocator
  rw [← hr]
  refine Runs.bind (declareHost_onward h hd) fun host b₁ o₁ hhost => ?_
  have hargs₁ := o₁.ext.grows.hasAll hargs
  refine Runs.bind (callHost_onward o₁.live hhost hargs₁ (.inr (by rw [hr]; rfl))) ?_
  rintro r b₂ o₂ (⟨hv, -⟩ | ⟨v, rfl, hv⟩)
  · rw [hr] at hv
    cases hv
  · exact Sat.pure ⟨.refl o₂.live, hv⟩

theorem collector_sound : Allocator.collector.Sound := by
  intro b size kind name h hs
  have hargs : List.Forall₂ b.function.Has [size] [b.module.ptrInt] := .cons hs .nil
  refine Sat.get_bind ?_
  cases kind with
  | general =>
    exact callAllocator_gives (d := ⟨Machine.hostMalloc, [b.module.ptrInt], .ptr⟩) h
      (by simp [Ir.Module.knownHosts]) rfl hargs name
  | noReferences =>
    exact callAllocator_gives (d := ⟨Machine.hostMallocAtomic, [b.module.ptrInt], .ptr⟩) h
      (by simp [Ir.Module.knownHosts]) rfl hargs name

/-! ### Bounds checks -/

theorem callBoundsError_goes {b : Builder} (h : b.Live) {w : Ir.Ty} (hw : b.module.ptrInt = w)
    {index size : ValueId} (hi : b.function.Has index w) (hs : b.function.Has size w) :
    (callBoundsError index size).Goes b := by
  refine Sat.get_bind ?_
  rw [hw]
  have hd : (⟨boundsErrorHook, [w, w], .void⟩ : Ir.HostDecl) ∈ b.module.knownHosts := by
    simp [Ir.Module.knownHosts, hw, boundsErrorHook, Machine.hostBoundsError]
  refine Runs.bind (declareHost_onward h hd) fun hook b₁ o₁ hhook => ?_
  have hargs : List.Forall₂ b₁.function.Has [index, size] [w, w] :=
    .cons (o₁.has hi) (.cons (o₁.has hs) .nil)
  refine Runs.bind (callHost_onward o₁.live hhook hargs (.inl rfl)) fun _ b₂ o₂ _ => ?_
  exact Sat.pure ⟨.refl o₂.live, trivial⟩

theorem emitBoundsCheck_goes {b : Builder} (h : b.Live) {w : Ir.Ty} (hw : b.module.ptrInt = w)
    {index size : ValueId} (hi : b.function.Has index w) (hs : b.function.Has size w)
    (inclusive : Bool) : (emitBoundsCheck index size inclusive).Goes b := by
  have hint : w.isInt = true := hw ▸ isInt_ptrInt b.module
  refine Runs.bind (icmp_onward h hi hs (.inl hint)) fun ok b₁ o₁ hok => ?_
  refine Sat.bind (appendBlock_appended o₁.live _) fun inBounds b₂ a₂ => ?_
  refine Sat.bind (appendBlock_appended a₂.live _) fun outOfBounds b₃ a₃ => ?_
  refine Sat.bind (condBr_fresh a₃.live (a₃.has (a₂.has hok)) (a₂.fresh.ext a₃.ext) a₃.fresh)
    fun _ b₄ h₄ => ?_
  have fork := forked a₂ a₃ h₄ (.inl rfl)
  refine Sat.bind fork.enterRight ?_
  rintro - b₅ ⟨o₅, fresh₅, hb₅⟩
  have hw₅ : b₅.module.ptrInt = w := by rw [o₅.ptrInt, o₁.ptrInt, hw]
  refine Sat.bind (callBoundsError_goes o₅.live hw₅ (o₅.has (o₁.has hi)) (o₅.has (o₁.has hs))) ?_
  rintro - b₆ ⟨o₆, -⟩
  refine Sat.bind (unreachable_halted o₆.live) fun _ b₇ h₇ => ?_
  have within₇ : Within b₁ b₇ := h₇.within (o₅.trans o₆).toWithin
    (by simp [Ir.Terminator.successors])
  refine (positionAt_fresh h₇.ok within₇ ((fresh₅.ext o₆.ext).ext h₇.ext) fork.leftNew
    (fork.pathLeft (hb₅ ▸ o₆.ext.trans h₇.ext))).imp ?_
  rintro - b₈ ⟨o₈, -⟩
  exact ⟨o₈, trivial⟩

namespace VectorShape

/-- A shape that fits the module: its descriptor has an address and two words. -/
structure Fits (v : VectorShape) (b : Builder) (w : Ir.Ty) : Prop where
  word : b.module.ptrInt = w
  fields : b.module.structFields v.struct = [.ptr, w, w]
  elem : v.elem.isScalar = true
  allocator : v.allocator.Sound

variable {v : VectorShape} {b : Builder} {w : Ir.Ty}

theorem Fits.onward {b' : Builder} (o : Onward b b') (h : v.Fits b w) : v.Fits b' w where
  word := o.ptrInt.trans h.word
  fields := (o.structFields _).trans h.fields
  elem := h.elem
  allocator := h.allocator

theorem Fits.isInt (h : v.Fits b w) : w.isInt = true := h.word ▸ isInt_ptrInt b.module

variable (h : b.Live) (hv : v.Fits b w)

include h hv

/-! ### Descriptor and elements -/

theorem fieldPtr_gives {desc : ValueId} (hd : b.function.Has desc .ptr) (f : VectorField) :
    (v.fieldPtr desc f).Gives b .ptr := by
  refine fieldPtr_onward h hd ?_
  rw [hv.fields]
  cases f <;> simp [VectorField.position]

theorem loadField_gives {desc : ValueId} (hd : b.function.Has desc .ptr) (f : VectorField)
    (name : String) :
    (v.loadField desc f name).Gives b (if f = .elems then .ptr else w) := by
  refine Runs.bind (fieldPtr_gives h hv hd f) fun ptr b₁ o₁ hptr => ?_
  refine Sat.get_bind ?_
  rw [o₁.ptrInt, hv.word]
  refine load_onward o₁.live hptr ?_
  split
  · rfl
  · exact isScalar_of_isInt hv.isInt

theorem storeField_goes {desc x : ValueId} {t : Ir.Ty} (hd : b.function.Has desc .ptr)
    (f : VectorField) (hx : b.function.Has x t) : (v.storeField desc f x).Goes b := by
  refine Runs.bind (fieldPtr_gives h hv hd f) fun ptr b₁ o₁ hptr => ?_
  exact store_onward o₁.live (.inl ⟨t, o₁.has hx⟩) hptr

theorem elementPtr_gives {elems index : ValueId} (he : b.function.Has elems .ptr)
    (hi : b.function.Has index w) : (v.elementPtr elems index).Gives b .ptr := by
  refine Runs.bind (constUsize_onward h hv.word _) fun size b₁ o₁ hs => ?_
  refine Runs.bind (binaryInt_onward o₁.live (o₁.has hi) hs hv.isInt rfl) fun off b₂ o₂ ho => ?_
  exact ptrAdd_onward o₂.live (by apply_rules [Onward.has]) ((hv.onward o₁).onward o₂).word ho

theorem byteLen_gives {count : ValueId} (hc : b.function.Has count w) :
    (v.byteLen count).Gives b w := by
  refine Runs.bind (constUsize_onward h hv.word _) fun size b₁ o₁ hs => ?_
  exact binaryInt_onward o₁.live (o₁.has hc) hs hv.isInt rfl

theorem bumpSize_goes {desc size : ValueId} (hd : b.function.Has desc .ptr)
    (hs : b.function.Has size w) (grow : Bool) : (v.bumpSize desc size grow).Goes b := by
  refine Runs.bind (constUsize_onward h hv.word _) fun one b₁ o₁ h₁ => ?_
  cases grow
  · refine Runs.bind (binaryInt_onward o₁.live (o₁.has hs) h₁ hv.isInt rfl) fun s b₂ o₂ h₂ => ?_
    exact storeField_goes o₂.live ((hv.onward o₁).onward o₂) (by apply_rules [Onward.has]) _ h₂
  · refine Runs.bind (binaryInt_onward o₁.live (o₁.has hs) h₁ hv.isInt rfl) fun s b₂ o₂ h₂ => ?_
    exact storeField_goes o₂.live ((hv.onward o₁).onward o₂) (by apply_rules [Onward.has]) _ h₂

/-! ### Growth -/

omit hv in
theorem doubledCapacity_gives (hw : b.module.ptrInt = w) {cap : ValueId}
    (hc : b.function.Has cap w) : (doubledCapacity cap).Gives b w := by
  have hi : w.isInt = true := hw ▸ isInt_ptrInt b.module
  refine Sat.get_bind ?_
  rw [hw]
  refine Runs.bind (constInt_onward h hi 0) fun zero b₁ o₁ h₁ => ?_
  refine Runs.bind (constInt_onward o₁.live hi 1) fun one b₂ o₂ h₂ => ?_
  refine Runs.bind (constInt_onward o₂.live hi 2) fun two b₃ o₃ h₃ => ?_
  refine Runs.bind (icmp_onward (t := w) o₃.live (by apply_rules [Onward.has])
    (by apply_rules [Onward.has]) (.inl hi)) fun empty b₄ o₄ h₄ => ?_
  refine Runs.bind (binaryInt_onward (t := w) o₄.live (by apply_rules [Onward.has])
    (by apply_rules [Onward.has]) hi rfl) fun doubled b₅ o₅ h₅ => ?_
  exact select_onward o₅.live (o₅.has h₄) (by apply_rules [Onward.has]) h₅

theorem moveElements_goes {desc size cap : ValueId} (hd : b.function.Has desc .ptr)
    (hs : b.function.Has size w) (hc : b.function.Has cap w) :
    (v.moveElements desc size cap).Goes b := by
  refine Runs.bind (doubledCapacity_gives h hv.word hc) fun newCap b₁ o₁ hn => ?_
  refine Runs.bind (byteLen_gives o₁.live (hv.onward o₁) hn) fun bytes b₂ o₂ hb => ?_
  have hv₂ : v.Fits b₂ w := by apply_rules [Fits.onward]
  refine Runs.bind (hv.allocator _ _ o₂.live (by rw [hv₂.word]; exact hb))
    fun buffer b₃ o₃ hbuf => ?_
  refine Runs.bind (loadField_gives o₃.live (hv₂.onward o₃) (by apply_rules [Onward.has]) .elems _)
    fun old b₄ o₄ hold => ?_
  have hv₄ : v.Fits b₄ w := by apply_rules [Fits.onward]
  have hs₄ : b₄.function.Has size w := by apply_rules [Onward.has]
  refine Runs.bind (byteLen_gives o₄.live hv₄ hs₄) fun live b₅ o₅ hl => ?_
  have hv₅ := hv₄.onward o₅
  refine Runs.bind (memCopy_onward (s := old) o₅.live (by apply_rules [Onward.has]) (o₅.has hold)
    hv₅.word hl) fun _ b₆ o₆ _ => ?_
  refine Runs.bind (storeField_goes (x := buffer) (t := .ptr) o₆.live (hv₅.onward o₆)
    (by apply_rules [Onward.has]) .elems (by apply_rules [Onward.has])) fun _ b₇ o₇ _ => ?_
  exact storeField_goes (t := w) o₇.live ((hv₅.onward o₆).onward o₇) (by apply_rules [Onward.has])
    .capacity (by apply_rules [Onward.has])

theorem ensureCapacity_goes {desc size : ValueId} (hd : b.function.Has desc .ptr)
    (hs : b.function.Has size w) : (v.ensureCapacity desc size).Goes b := by
  refine Runs.bind (loadField_gives h hv hd .capacity _) fun cap b₁ o₁ hcap => ?_
  refine Runs.bind (icmp_onward o₁.live (o₁.has hs) hcap (.inl hv.isInt)) fun full b₂ o₂ hf => ?_
  refine Sat.bind (appendBlock_appended o₂.live _) fun grow b₃ a₃ => ?_
  refine Sat.bind (appendBlock_appended a₃.live _) fun room b₄ a₄ => ?_
  refine Sat.bind (condBr_fresh a₄.live (a₄.has (a₃.has hf)) (a₃.fresh.ext a₄.ext) a₄.fresh)
    fun _ b₅ h₅ => ?_
  have fork := forked a₃ a₄ h₅ (.inl rfl)
  refine Sat.bind fork.enterLeft ?_
  rintro - b₆ ⟨o₆, fresh₆, hb₆⟩
  have hv₆ : v.Fits b₆ w := by apply_rules [Fits.onward]
  refine Sat.bind (moveElements_goes o₆.live hv₆ (by apply_rules [Onward.has])
    (by apply_rules [Onward.has]) (o₆.has (o₂.has hcap))) ?_
  rintro - b₇ ⟨o₇, -⟩
  have fresh₇ := fresh₆.ext o₇.ext
  refine Sat.bind (br_halted o₇.live fresh₇.lt_size fresh₇.noPhi) fun _ b₈ h₈ => ?_
  have within₈ : Within b₂ b₈ := h₈.within (o₆.trans o₇).toWithin
    (by simpa [Ir.Terminator.successors] using fork.rightNew)
  refine (positionAt_fresh h₈.ok within₈ (fresh₇.ext h₈.ext) fork.rightNew
    (fork.pathRight (hb₆ ▸ o₇.ext.trans h₈.ext))).imp ?_
  rintro - b₉ ⟨o₉, -⟩
  exact ⟨o₉, trivial⟩

/-! ### Operations -/

theorem newBuffer_gives (capacity : UInt64) : (v.newBuffer capacity).Gives b .ptr := by
  unfold newBuffer
  split
  · refine Runs.bind (constUsize_onward h hv.word _) fun size b₁ o₁ h₁ => ?_
    exact hv.allocator _ _ o₁.live (by rw [(hv.onward o₁).word]; exact h₁)
  · exact constNull_onward h

theorem new_gives (descBytes : Nat) (capacity : UInt64) : (v.new descBytes capacity).Gives b .ptr := by
  refine Sat.get_bind ?_
  rw [hv.word]
  refine Runs.bind (constUsize_onward h hv.word _) fun size b₁ o₁ h₁ => ?_
  have hv₁ := hv.onward o₁
  refine Runs.bind (hv.allocator _ _ o₁.live (by rw [hv₁.word]; exact h₁)) fun desc b₂ o₂ hd => ?_
  have hv₂ := hv₁.onward o₂
  refine Runs.bind (newBuffer_gives o₂.live hv₂ capacity) fun elems b₃ o₃ he => ?_
  refine Runs.bind (constInt_onward o₃.live hv.isInt 0) fun zero b₄ o₄ hz => ?_
  have hv₄ : v.Fits b₄ w := by apply_rules [Fits.onward]
  refine Runs.bind (constUsize_onward o₄.live hv₄.word _) fun cap b₅ o₅ hc => ?_
  have hv₅ := hv₄.onward o₅
  refine Runs.bind (storeField_goes (x := elems) (t := .ptr) o₅.live hv₅
    (by apply_rules [Onward.has]) .elems (by apply_rules [Onward.has])) fun _ b₆ o₆ _ => ?_
  refine Runs.bind (storeField_goes (x := zero) (t := w) o₆.live (hv₅.onward o₆)
    (by apply_rules [Onward.has]) .size (by apply_rules [Onward.has])) fun _ b₇ o₇ _ => ?_
  refine Runs.bind (storeField_goes (x := cap) (t := w) o₇.live ((hv₅.onward o₆).onward o₇)
    (by apply_rules [Onward.has]) .capacity (by apply_rules [Onward.has])) fun _ b₈ o₈ _ => ?_
  exact Sat.pure ⟨.refl o₈.live, by apply_rules [Onward.has]⟩

theorem access_runs {desc index : ValueId} (hd : b.function.Has desc .ptr)
    (hi : b.function.Has index w) : (v.access desc index).Runs b fun a b' =>
      b'.function.Has a.size w ∧ b'.function.Has a.elems .ptr ∧ b'.function.Has a.slot .ptr := by
  refine Runs.bind (loadField_gives h hv hd .size _) fun size b₁ o₁ hs => ?_
  have hv₁ := hv.onward o₁
  refine Runs.bind (emitBoundsCheck_goes o₁.live hv₁.word (o₁.has hi) hs _) fun _ b₂ o₂ _ => ?_
  have hv₂ := hv₁.onward o₂
  refine Runs.bind (loadField_gives o₂.live hv₂ (by apply_rules [Onward.has]) .elems _)
    fun elems b₃ o₃ he => ?_
  have hi₃ : b₃.function.Has index w := by apply_rules [Onward.has]
  refine Runs.bind (elementPtr_gives o₃.live (hv₂.onward o₃) he hi₃) fun slot b₄ o₄ hp => ?_
  have hs₄ : b₄.function.Has size w := by
    have hs₁ : b₁.function.Has size w := hs
    apply_rules [Onward.has]
  exact Sat.pure ⟨.refl o₄.live, hs₄, o₄.has he, hp⟩

theorem getAt_gives {desc index : ValueId} (hd : b.function.Has desc .ptr)
    (hi : b.function.Has index w) : (v.getAt desc index).Gives b v.elem := by
  refine Runs.bind (access_runs h hv hd hi) fun a b₁ o₁ ha => ?_
  exact load_onward o₁.live ha.2.2 hv.elem

theorem setAt_goes {desc index x : ValueId} {t : Ir.Ty} (hd : b.function.Has desc .ptr)
    (hi : b.function.Has index w) (hx : b.function.Has x t) : (v.setAt desc index x).Goes b := by
  refine Runs.bind (access_runs h hv hd hi) fun a b₁ o₁ ha => ?_
  exact store_onward o₁.live (.inl ⟨t, o₁.has hx⟩) ha.2.2

theorem append_goes {desc x : ValueId} {t : Ir.Ty} (hd : b.function.Has desc .ptr)
    (hx : b.function.Has x t) : (v.append desc x).Goes b := by
  refine Runs.bind (loadField_gives h hv hd .size _) fun size b₁ o₁ hs => ?_
  have hs₁ : b₁.function.Has size w := hs
  have hv₁ := hv.onward o₁
  refine Runs.bind (ensureCapacity_goes o₁.live hv₁ (o₁.has hd) hs₁) fun _ b₂ o₂ _ => ?_
  have hv₂ := hv₁.onward o₂
  refine Runs.bind (loadField_gives o₂.live hv₂ (by apply_rules [Onward.has]) .elems _)
    fun elems b₃ o₃ he => ?_
  have hs₃ : b₃.function.Has size w := by apply_rules [Onward.has]
  refine Runs.bind (elementPtr_gives o₃.live (hv₂.onward o₃) he hs₃) fun slot b₄ o₄ hp => ?_
  refine Runs.bind (store_onward (v := x) o₄.live (.inl ⟨t, by apply_rules [Onward.has]⟩) hp)
    fun _ b₅ o₅ _ => ?_
  have hv₅ : v.Fits b₅ w := by apply_rules [Fits.onward]
  exact bumpSize_goes o₅.live hv₅ (by apply_rules [Onward.has]) (by apply_rules [Onward.has]) true

theorem openGap_goes {elems index size slot : ValueId} (he : b.function.Has elems .ptr)
    (hi : b.function.Has index w) (hs : b.function.Has size w) (hp : b.function.Has slot .ptr) :
    (v.openGap elems index size slot).Goes b := by
  refine Runs.bind (constUsize_onward h hv.word _) fun one b₁ o₁ h₁ => ?_
  refine Runs.bind (binaryInt_onward o₁.live (o₁.has hi) h₁ hv.isInt rfl) fun next b₂ o₂ h₂ => ?_
  have hv₂ : v.Fits b₂ w := by apply_rules [Fits.onward]
  refine Runs.bind (elementPtr_gives o₂.live hv₂ (by apply_rules [Onward.has]) h₂)
    fun dst b₃ o₃ h₃ => ?_
  refine Runs.bind (binaryInt_onward (t := w) (l := size) (r := index) o₃.live
    (by apply_rules [Onward.has]) (by apply_rules [Onward.has]) hv.isInt rfl) fun tail b₄ o₄ h₄ => ?_
  have hv₄ : v.Fits b₄ w := by apply_rules [Fits.onward]
  refine Runs.bind (byteLen_gives o₄.live hv₄ h₄) fun bytes b₅ o₅ h₅ => ?_
  exact memMove_onward o₅.live (by apply_rules [Onward.has]) (by apply_rules [Onward.has])
    (hv₄.onward o₅).word h₅

theorem closeGap_goes {elems next size slot : ValueId} (he : b.function.Has elems .ptr)
    (hn : b.function.Has next w) (hs : b.function.Has size w) (hp : b.function.Has slot .ptr) :
    (v.closeGap elems next size slot).Goes b := by
  refine Runs.bind (elementPtr_gives h hv he hn) fun src b₁ o₁ h₁ => ?_
  refine Runs.bind (binaryInt_onward o₁.live (o₁.has hs) (o₁.has hn) hv.isInt rfl)
    fun tail b₂ o₂ h₂ => ?_
  have hv₂ : v.Fits b₂ w := by apply_rules [Fits.onward]
  refine Runs.bind (byteLen_gives o₂.live hv₂ h₂) fun bytes b₃ o₃ h₃ => ?_
  exact memMove_onward o₃.live (by apply_rules [Onward.has]) (by apply_rules [Onward.has])
    (hv₂.onward o₃).word h₃

theorem insertAt_goes {desc index x : ValueId} {t : Ir.Ty} (hd : b.function.Has desc .ptr)
    (hi : b.function.Has index w) (hx : b.function.Has x t) :
    (v.insertAt desc index x).Goes b := by
  refine Runs.bind (loadField_gives h hv hd .size _) fun size b₁ o₁ hs => ?_
  have hs₁ : b₁.function.Has size w := hs
  have hv₁ := hv.onward o₁
  refine Runs.bind (emitBoundsCheck_goes o₁.live hv₁.word (o₁.has hi) hs₁ _) fun _ b₂ o₂ _ => ?_
  refine Runs.bind (ensureCapacity_goes o₂.live (hv₁.onward o₂) (by apply_rules [Onward.has])
    (o₂.has hs₁)) fun _ b₃ o₃ _ => ?_
  have hv₃ : v.Fits b₃ w := by apply_rules [Fits.onward]
  refine Runs.bind (loadField_gives o₃.live hv₃ (by apply_rules [Onward.has]) .elems _)
    fun elems b₄ o₄ he => ?_
  have he₄ : b₄.function.Has elems .ptr := he
  have hi₄ : b₄.function.Has index w := by apply_rules [Onward.has]
  refine Runs.bind (elementPtr_gives o₄.live (hv₃.onward o₄) he hi₄) fun slot b₅ o₅ hp => ?_
  have hv₅ : v.Fits b₅ w := by apply_rules [Fits.onward]
  refine Runs.bind (openGap_goes o₅.live hv₅ (o₅.has he₄) (o₅.has hi₄) (by apply_rules [Onward.has])
    hp) fun _ b₆ o₆ _ => ?_
  refine Runs.bind (store_onward (v := x) o₆.live (.inl ⟨t, by apply_rules [Onward.has]⟩)
    (o₆.has hp)) fun _ b₇ o₇ _ => ?_
  have hv₇ : v.Fits b₇ w := by apply_rules [Fits.onward]
  exact bumpSize_goes o₇.live hv₇ (by apply_rules [Onward.has]) (by apply_rules [Onward.has]) true

theorem removeAt_gives {desc index : ValueId} (hd : b.function.Has desc .ptr)
    (hi : b.function.Has index w) : (v.removeAt desc index).Gives b v.elem := by
  refine Runs.bind (access_runs h hv hd hi) fun a b₁ o₁ ⟨hs, he, hp⟩ => ?_
  refine Runs.bind (load_onward o₁.live hp hv.elem) fun removed b₂ o₂ hr => ?_
  have hv₂ : v.Fits b₂ w := by apply_rules [Fits.onward]
  refine Runs.bind (constUsize_onward o₂.live hv₂.word _) fun one b₃ o₃ h₃ => ?_
  refine Runs.bind (binaryInt_onward (t := w) (l := index) o₃.live (by apply_rules [Onward.has]) h₃
    hv.isInt rfl) fun next b₄ o₄ h₄ => ?_
  refine Runs.bind (icmp_onward (t := w) (r := a.size) o₄.live h₄ (by apply_rules [Onward.has])
    (.inl hv.isInt)) fun hasTail b₅ o₅ h₅ => ?_
  refine Sat.bind (appendBlock_appended o₅.live _) fun shift b₆ a₆ => ?_
  refine Sat.bind (appendBlock_appended a₆.live _) fun done b₇ a₇ => ?_
  refine Sat.bind (condBr_fresh a₇.live (a₇.has (a₆.has h₅)) (a₆.fresh.ext a₇.ext) a₇.fresh)
    fun _ b₈ h₈ => ?_
  have fork := forked a₆ a₇ h₈ (.inl rfl)
  refine Sat.bind fork.enterLeft ?_
  rintro - b₉ ⟨o₉, fresh₉, hb₉⟩
  have hv₅ : v.Fits b₅ w := by apply_rules [Fits.onward]
  refine Sat.bind (closeGap_goes o₉.live (hv₅.onward o₉) (by apply_rules [Onward.has])
    (by apply_rules [Onward.has]) (by apply_rules [Onward.has]) (by apply_rules [Onward.has])) ?_
  rintro - b₁₀ ⟨o₁₀, -⟩
  have fresh₁₀ := fresh₉.ext o₁₀.ext
  refine Sat.bind (br_halted o₁₀.live fresh₁₀.lt_size fresh₁₀.noPhi) fun _ b₁₁ h₁₁ => ?_
  have within₁₁ : Within b₅ b₁₁ := h₁₁.within (o₉.trans o₁₀).toWithin
    (by simpa [Ir.Terminator.successors] using fork.rightNew)
  refine Sat.bind (positionAt_fresh h₁₁.ok within₁₁ (fresh₁₀.ext h₁₁.ext) fork.rightNew
    (fork.pathRight (hb₉ ▸ o₁₀.ext.trans h₁₁.ext))) ?_
  rintro - b₁₂ ⟨o₁₂, -⟩
  refine Sat.bind (bumpSize_goes o₁₂.live (hv₅.onward o₁₂) (by apply_rules [Onward.has])
    (by apply_rules [Onward.has]) false) ?_
  rintro - b₁₃ ⟨o₁₃, -⟩
  exact Sat.pure ⟨o₁₂.trans o₁₃, by apply_rules [Onward.has]⟩

end VectorShape

end BlockForge.Lowering
