import BlockForge.Machine.Host
import BlockForge.Proofs.Ir.Building
import BlockForge.Proofs.Numeric.Words

/-!
# Emission

Every operation of the builder, seen through `Emit.Sat`: from a live position and with fitting
operands it meets the demands made on its caller, keeps the function well-formed and goes on at a live
position. `Builder.Ext` bounds what it may have touched.
-/

/-! ### Postconditions -/

/-- What holds of the result and of the state after a stateful computation. -/
def StateM.Sat {σ α : Type} (x : StateM σ α) (s : σ) (Q : α → σ → Prop) : Prop :=
  Q (x s).1 (x s).2

namespace StateM.Sat

variable {σ α β : Type} {s : σ}

theorem bind {x : StateM σ α} {f : α → StateM σ β} {P : α → σ → Prop} {Q : β → σ → Prop}
    (h : x.Sat s P) (k : ∀ a s', P a s' → (f a).Sat s' Q) : (x >>= f).Sat s Q := k _ _ h

theorem imp {x : StateM σ α} {P Q : α → σ → Prop} (h : x.Sat s P)
    (k : ∀ a s', P a s' → Q a s') : x.Sat s Q := k _ _ h

theorem and {x : StateM σ α} {P Q : α → σ → Prop} (h : x.Sat s P) (k : x.Sat s Q) :
    x.Sat s fun a s' => P a s' ∧ Q a s' := ⟨h, k⟩

theorem pure {a : α} {Q : α → σ → Prop} (h : Q a s) : (Pure.pure a : StateM σ α).Sat s Q := h

theorem map {x : StateM σ α} {f : α → β} {Q : β → σ → Prop} (h : x.Sat s fun a => Q (f a)) :
    (f <$> x).Sat s Q := h

theorem get_bind {f : σ → StateM σ α} {Q : α → σ → Prop} (h : (f s).Sat s Q) :
    (get >>= f).Sat s Q := h

theorem modify_bind {f : σ → σ} {x : Unit → StateM σ α} {Q : α → σ → Prop}
    (h : (x ()).Sat (f s) Q) : (modify f >>= x).Sat s Q := h

theorem of_eq {x : StateM σ α} {Q : α → σ → Prop} (h : x.Sat s Q) {a : α} {s' : σ}
    (he : x s = (a, s')) : Q a s' := by
  unfold StateM.Sat at h
  rw [he] at h
  exact h

end StateM.Sat

namespace BlockForge.Ir

/-! ### Host functions -/

namespace Module

/-- The host functions that code may call. -/
def knownHosts (m : Module) : List HostDecl :=
  [⟨Machine.hostMalloc, [m.ptrInt], .ptr⟩, ⟨Machine.hostMallocAtomic, [m.ptrInt], .ptr⟩,
    ⟨Machine.hostBoundsError, [m.ptrInt, m.ptrInt], .void⟩]

def HostsKnown (m : Module) : Prop := ∀ d ∈ m.hosts.toList, d ∈ m.knownHosts

theorem eq_of_knownHosts {m : Module} {d e : HostDecl} (hd : d ∈ m.knownHosts)
    (he : e ∈ m.knownHosts) (h : d.name = e.name) : d = e := by
  have h₁ : Machine.hostMalloc ≠ Machine.hostMallocAtomic := by decide
  have h₂ : Machine.hostMalloc ≠ Machine.hostBoundsError := by decide
  have h₃ : Machine.hostMallocAtomic ≠ Machine.hostBoundsError := by decide
  simp only [knownHosts, List.mem_cons, List.not_mem_nil, or_false] at hd he
  rcases hd with rfl | rfl | rfl <;> rcases he with rfl | rfl | rfl <;> simp_all

theorem declareHost_grows (m : Module) (name : String) (params : List Ty) (ret : Ty) :
    m.Grows (m.declareHost name params ret).2 ∧
      (m.declareHost name params ret).2.functions = m.functions := by
  unfold Module.declareHost
  split
  · exact ⟨.refl m, rfl⟩
  · exact ⟨⟨rfl, rfl, List.prefix_refl _, by simp, fun hj => ⟨_, hj, rfl, rfl, rfl⟩⟩, rfl⟩

/-- Declaring a known host function gives that one, whether it was declared before or not. -/
theorem declareHost_known {m : Module} (h : m.HostsKnown) {d : HostDecl} (hd : d ∈ m.knownHosts) :
    (m.declareHost d.name d.params d.ret).2.HostsKnown ∧
      (m.declareHost d.name d.params d.ret).2.host?
        (m.declareHost d.name d.params d.ret).1 = some d := by
  unfold Module.declareHost
  split
  · rename_i i hi
    obtain ⟨hlt, hn, -⟩ := Array.findIdx?_eq_some_iff_getElem.1 hi
    refine ⟨h, ?_⟩
    have he : m.hosts[i] = d := by
      refine eq_of_knownHosts (h _ (by simp)) hd ?_
      simpa using hn
    simp [host?, hlt, he]
  · constructor
    · intro e he
      rcases (by simpa using he : e ∈ m.hosts ∨ e = ⟨d.name, d.params, d.ret⟩) with he | rfl
      · exact h e (by simpa using he)
      · exact hd
    · simp [host?]

end Module

/-! ### Builder states -/

namespace Builder

/-- A builder in the middle of its work: no demand broken, and a position. -/
structure Ok (b : Builder) : Prop where
  valid : b.func.index < b.module.functions.size
  whole : b.broken = []
  position : ∃ c, b.current = some c ∧ c.index < b.function.blocks.size
  hosts : b.module.HostsKnown
  function : b.function.Ok b.module

/-- A builder whose current block has not ended. -/
structure Live (b : Builder) : Prop where
  ok : b.Ok
  isOpen : ∃ c, b.current = some c ∧ b.function.ending c = none

/-- A later state of the same body. -/
structure Later (s b : Builder) : Prop where
  func : b.func = s.func
  module : s.module.Grows b.module
  others : ∀ j, j ≠ s.func → b.module.function? j = s.module.function? j
  functions : b.module.functions.size = s.module.functions.size
  grows : s.function.Grows b.function

theorem Later.trans {s b d : Builder} (h : s.Later b) (k : b.Later d) : s.Later d where
  func := k.func.trans h.func
  module := h.module.trans k.module
  others j hj := (k.others j (by rw [h.func]; exact hj)).trans (h.others j hj)
  functions := k.functions.trans h.functions
  grows := h.grows.trans k.grows

/-- Only the position moves. -/
theorem later_moveTo (b : Builder) (t : BlockId) : b.Later { b with current := some t } :=
  ⟨rfl, .refl _, fun _ _ => rfl, rfl, .refl _⟩

/-- A later state that has worked, of the blocks that were there, only on the one at the position; the
position is where it was or in a new block. -/
structure Ext (s b : Builder) : Prop extends Later s b where
  keep : ∀ i, i.index < s.function.blocks.size → s.current ≠ some i →
    b.function.body i = s.function.body i ∧ b.function.ending i = s.function.ending i
  noPhi : ∀ i, i.index < s.function.blocks.size → s.function.NoPhi i → b.function.NoPhi i
  current : b.current = s.current ∨ ∃ c, b.current = some c ∧ s.function.blocks.size ≤ c.index
  terminators : s.terminators ≤ b.terminators
  steady : b.terminators = s.terminators → b.function.ending = s.function.ending

namespace Ext

theorem refl (b : Builder) : b.Ext b where
  func := rfl
  module := .refl _
  others _ _ := rfl
  functions := rfl
  grows := .refl _
  keep _ _ _ := ⟨rfl, rfl⟩
  noPhi _ _ h := h
  current := .inl rfl
  terminators := Nat.le_refl _
  steady _ := rfl

theorem trans {s b d : Builder} (h : s.Ext b) (k : b.Ext d) : s.Ext d where
  toLater := h.toLater.trans k.toLater
  keep i hi hne := by
    obtain ⟨hb, he⟩ := h.keep i hi hne
    have hcur : b.current ≠ some i := by
      rcases h.current with hc | ⟨c, hc, hle⟩
      · rw [hc]
        exact hne
      · rw [hc]
        intro heq
        cases heq
        omega
    obtain ⟨hb', he'⟩ := k.keep i (Nat.lt_of_lt_of_le hi h.grows.size) hcur
    exact ⟨hb'.trans hb, he'.trans he⟩
  noPhi i hi hn := k.noPhi i (Nat.lt_of_lt_of_le hi h.grows.size) (h.noPhi i hi hn)
  current := by
    rcases k.current with hc | ⟨c, hc, hle⟩
    · rw [hc]
      exact h.current
    · exact .inr ⟨c, hc, Nat.le_trans h.grows.size hle⟩
  terminators := Nat.le_trans h.terminators k.terminators
  steady he := by
    have h₁ := h.terminators
    have h₂ := k.terminators
    rw [k.steady (by omega), h.steady (by omega)]

/-- Moving the position to a block made since the start. -/
theorem moveTo {s b : Builder} (h : s.Ext b) {t : BlockId}
    (ht : s.function.blocks.size ≤ t.index) : s.Ext { b with current := some t } :=
  { h with current := .inr ⟨t, rfl, ht⟩ }

theorem has {s b : Builder} (h : s.Ext b) {v : ValueId} {t : Ty} (hv : s.function.Has v t) :
    b.function.Has v t := h.grows.has hv

end Ext

/-! ### The function under construction -/

theorem function?_eq {b : Builder} (h : b.func.index < b.module.functions.size) :
    b.module.function? b.func = some b.function := by
  simp [function, Module.function?, Array.getElem?_eq_getElem h]

theorem function_modifyFunction {b : Builder} (h : b.func.index < b.module.functions.size)
    (F : Function → Function) : (b.modifyFunction F).function = F b.function := by
  simp [function, modifyFunction, Module.modifyFunction, Module.function?, Array.getElem?_modify,
    Array.getElem?_eq_getElem h]

theorem function?_modifyFunction_ne (b : Builder) (F : Function → Function) {j : FuncId}
    (hj : j ≠ b.func) : (b.modifyFunction F).module.function? j = b.module.function? j := by
  have hne : b.func.index ≠ j.index := fun he => hj (Id.ext he.symm)
  simp [modifyFunction, Module.modifyFunction, Module.function?, Array.getElem?_modify, hne]

theorem hasTerminator_eq (b : Builder) (c : BlockId) :
    b.hasTerminator c = (b.function.ending c).isSome := by
  simp only [hasTerminator, Function.block?, Function.ending]
  cases b.function.blocks[c.index]? <;> rfl

theorem module_grows_modifyFunction (b : Builder) (h : b.func.index < b.module.functions.size)
    {F : Function → Function} (hF : b.function.Grows (F b.function)) :
    b.module.Grows (b.modifyFunction F).module where
  pointerBits := rfl
  structs := rfl
  globals := List.prefix_refl _
  hosts := List.prefix_refl _
  header {j f} hj := by
    by_cases he : j = b.func
    · subst he
      have hf : b.function = f := by
        rw [function?_eq h] at hj
        exact Option.some.inj hj
      refine ⟨F b.function, ?_, ?_⟩
      · rw [← function_modifyFunction h F]
        exact function?_eq (by simpa [modifyFunction, Module.modifyFunction] using h)
      · rw [← hf]
        exact ⟨hF.name, hF.params, hF.ret⟩
    · exact ⟨f, (function?_modifyFunction_ne b F he).trans hj, rfl, rfl, rfl⟩

/-- An edit that keeps the blocks other than the current one is an extension. If it ends a block it
has to be counted. -/
theorem ext_modifyFunction {b : Builder} (h : b.func.index < b.module.functions.size) (n : Nat)
    {F : Function → Function} (hF : b.function.Grows (F b.function))
    (hkeep : ∀ i, i.index < b.function.blocks.size → b.current ≠ some i →
      (F b.function).body i = b.function.body i ∧ (F b.function).ending i = b.function.ending i)
    (hphi : ∀ i, i.index < b.function.blocks.size → b.function.NoPhi i → (F b.function).NoPhi i)
    (hend : n = 0 → (F b.function).ending = b.function.ending) :
    b.Ext { b.modifyFunction F with terminators := b.terminators + n } := by
  have hf : ({ b.modifyFunction F with terminators := b.terminators + n } : Builder).function =
      F b.function := function_modifyFunction h F
  exact {
    func := rfl
    module := module_grows_modifyFunction b h hF
    others := fun _ hj => function?_modifyFunction_ne b F hj
    functions := by simp [modifyFunction, Module.modifyFunction]
    grows := by rw [hf]; exact hF
    keep := by rw [hf]; exact hkeep
    noPhi := by rw [hf]; exact hphi
    current := .inl rfl
    terminators := Nat.le_add_right _ _
    steady := fun he => by
      rw [hf]
      exact hend (Nat.add_eq_left.1 he) }

theorem Ok.modifyFunction {b : Builder} (h : b.Ok) {F : Function → Function}
    (hF : b.function.Grows (F b.function)) (hok : (F b.function).Ok b.module) :
    (b.modifyFunction F).Ok where
  valid := by simpa [Builder.modifyFunction, Module.modifyFunction] using h.valid
  whole := h.whole
  position := by
    obtain ⟨c, hc, hlt⟩ := h.position
    refine ⟨c, hc, ?_⟩
    rw [function_modifyFunction h.valid]
    exact Nat.lt_of_lt_of_le hlt hF.size
  hosts := h.hosts
  function := by
    rw [function_modifyFunction h.valid]
    exact hok.growModule (module_grows_modifyFunction b h.valid hF)

end Builder

namespace Emit

open Builder StateM

theorem demand_bind {α : Type} {b : Builder} {d : Demand} {met : Builder → Bool}
    {x : Unit → Emit α} {Q : α → Builder → Prop} (hm : met b = true) (h : (x ()).Sat b Q) :
    (demand d met >>= x).Sat b Q := by
  have hd : demand d met b = ((), b) := by
    show ((), b.demand d (met b)) = ((), b)
    simp [Builder.demand, hm]
  show Q (x (demand d met b).1 (demand d met b).2).1 (x (demand d met b).1 (demand d met b).2).2
  rw [hd]
  exact h

/-- Work that branches only to blocks of its own. -/
structure Within (s b : Builder) : Prop where
  ext : s.Ext b
  edges : ∀ {i j : BlockId}, i.index < s.function.blocks.size → i ∈ b.function.succs j →
    i ∈ s.function.succs j

theorem Within.refl (b : Builder) : Within b b := ⟨.refl b, fun _ h => h⟩

theorem Within.trans {s b d : Builder} (h : Within s b) (k : Within b d) : Within s d where
  ext := h.ext.trans k.ext
  edges hi hj := h.edges hi (k.edges (Nat.lt_of_lt_of_le hi h.ext.grows.size) hj)

theorem within_of_ending {s b : Builder} (h : s.Ext b)
    (he : b.function.ending = s.function.ending) : Within s b where
  ext := h
  edges _ hj := by
    simp only [Function.succs, he] at hj
    exact hj

/-- The position goes on in a well-formed function: the usual postcondition. -/
structure Onward (s b : Builder) : Prop extends Within s b where
  live : b.Live
  path : ∀ {c d}, s.current = some c → b.current = some d → b.function.Path c d

theorem Onward.trans {s b d : Builder} (h : Onward s b) (k : Onward b d) : Onward s d where
  toWithin := h.toWithin.trans k.toWithin
  live := k.live
  path hc hd := by
    obtain ⟨e, he, -⟩ := h.live.isOpen
    exact (k.ext.grows.path (h.path hc he)).trans (k.path he hd)

/-- The position is where it was. -/
theorem Onward.stay {s b : Builder} (h : Within s b) (hl : b.Live) (hc : b.current = s.current) :
    Onward s b where
  toWithin := h
  live := hl
  path hs hb := by
    rw [hc, hs] at hb
    cases hb
    exact .refl

theorem Onward.refl {b : Builder} (h : b.Live) : Onward b b := .stay (.refl b) h rfl

theorem Onward.has {s b : Builder} (h : Onward s b) {v : ValueId} {t : Ty}
    (hv : s.function.Has v t) : b.function.Has v t := h.ext.grows.has hv

theorem Onward.ptrInt {s b : Builder} (h : Onward s b) : b.module.ptrInt = s.module.ptrInt :=
  h.ext.module.ptrInt

theorem Onward.structFields {s b : Builder} (h : Onward s b) (i : StructId) :
    b.module.structFields i = s.module.structFields i := h.ext.module.structFields i

/-- Goes on at a live position with a result for which `P` holds. -/
abbrev Runs {α : Type} (x : Emit α) (b : Builder) (P : α → Builder → Prop) : Prop :=
  x.Sat b fun a b' => Onward b b' ∧ P a b'

/-- Goes on with a value of the given type. -/
abbrev Gives (x : Emit ValueId) (b : Builder) (t : Ty) : Prop :=
  x.Runs b fun v b' => b'.function.Has v t

abbrev Goes {α : Type} (x : Emit α) (b : Builder) : Prop := x.Runs b fun _ _ => True

theorem Runs.bind {α β : Type} {x : Emit α} {f : α → Emit β} {b : Builder}
    {P : α → Builder → Prop} {Q : β → Builder → Prop} (h : x.Runs b P)
    (k : ∀ a b', Onward b b' → P a b' → (f a).Runs b' Q) : (x >>= f).Runs b Q :=
  Sat.bind h fun a b' ha => (k a b' ha.1 ha.2).imp fun _ _ hr => ⟨ha.1.trans hr.1, hr.2⟩

/-! ### Values and constants -/

theorem pushValue_onward {b : Builder} (h : b.Live) {ty : Ty} {kind : ValueKind} {name : String}
    (hf : (⟨ty, kind, name⟩ : Value).Fits) :
    (pushValue ty kind name).Sat b fun v b' => Onward b b' ∧ v = ⟨b.function.values.size⟩ ∧
      b'.function = b.function.addValue ⟨ty, kind, name⟩ ∧ b'.current = b.current := by
  have hg := Function.grows_addValue b.function ⟨ty, kind, name⟩
  have hfun := function_modifyFunction h.ok.valid (·.addValue ⟨ty, kind, name⟩)
  have hext : b.Ext (b.modifyFunction (·.addValue ⟨ty, kind, name⟩)) :=
    ext_modifyFunction h.ok.valid 0 hg (fun _ _ _ => ⟨rfl, rfl⟩) (fun _ _ hn => hn) (fun _ => rfl)
  have hend : (b.modifyFunction (·.addValue ⟨ty, kind, name⟩)).function.ending =
      b.function.ending := by
    rw [hfun, Function.ending_addValue]
  refine ⟨.stay (within_of_ending hext hend)
    ⟨h.ok.modifyFunction hg (h.ok.function.addValue hf), ?_⟩ rfl, rfl, hfun, rfl⟩
  obtain ⟨c, hc, ho⟩ := h.isOpen
  exact ⟨c, hc, (congrFun (congrArg Function.ending hfun) c).trans ho⟩

/-- All that a new value changes. -/
structure Declared (s b : Builder) (v : ValueId) (val : Value) : Prop where
  isNext : v = ⟨s.function.values.size⟩
  function : b.function = s.function.addValue val
  current : b.current = s.current

theorem pushValue_declared {b : Builder} (h : b.Live) (ty : Ty) (kind : ValueKind)
    (name : String) :
    (pushValue ty kind name).Sat b fun v b' => Declared b b' v ⟨ty, kind, name⟩ :=
  ⟨rfl, function_modifyFunction h.ok.valid (·.addValue ⟨ty, kind, name⟩), rfl⟩

/-- A constant of a scalar type. -/
theorem pushConst {b : Builder} (h : b.Live) {ty : Ty} {kind : ValueKind} {name : String}
    (hf : (⟨ty, kind, name⟩ : Value).Fits) (hs : ty.isScalar = true)
    (hp : ∀ n, kind ≠ .param n) (hi : ∀ c, kind ≠ .inst c) :
    (pushValue ty kind name).Gives b ty := by
  refine (pushValue_onward h hf).imp ?_
  rintro v b' ⟨hon, rfl, hfun, -⟩
  refine ⟨hon, ⟨⟨⟨ty, kind, name⟩, ?_, rfl, hp, fun c hc => absurd hc (hi c)⟩, hs⟩⟩
  simp [hfun, Function.value?, Function.addValue]

theorem mask_lt {bits : Nat} (w : UInt64) (h : bits ≤ 64) :
    (Word.mask w bits).toNat < 2 ^ bits := by
  rw [Word.toNat_mask h]
  exact Nat.mod_lt _ (Nat.two_pow_pos bits)

theorem intBits?_le {t : Ty} {n : Nat} (h : t.intBits? = some n) : n ≤ 64 := by
  cases t <;> simp [Ty.intBits?] at h <;> omega

theorem isScalar_of_isInt {t : Ty} (h : t.isInt = true) : t.isScalar = true := by
  simp [Ty.isScalar, h]

theorem isScalar_of_isFloat {t : Ty} (h : t.isFloat = true) : t.isScalar = true := by
  simp [Ty.isScalar, h]

theorem constInt_onward {b : Builder} (h : b.Live) {ty : Ty} (ht : ty.isInt = true) (w : UInt64) :
    (constInt ty w).Gives b ty := by
  obtain ⟨n, hn⟩ := Option.isSome_iff_exists.1 ht
  apply pushConst h _ (isScalar_of_isInt ht) (by simp) (by simp)
  refine ⟨n, hn, ?_⟩
  simpa [hn] using mask_lt w (intBits?_le hn)

theorem constBool_onward {b : Builder} (h : b.Live) (v : Bool) :
    (constBool v).Gives b .i1 :=
  constInt_onward h rfl _

theorem isInt_ptrInt (m : Module) : m.ptrInt.isInt = true := by
  unfold Module.ptrInt Ty.int?
  split <;> rfl

theorem constUsize_onward {b : Builder} (h : b.Live) {t : Ty} (ht : b.module.ptrInt = t)
    (w : UInt64) : (constUsize w).Gives b t :=
  ht ▸ Sat.get_bind (constInt_onward h (isInt_ptrInt b.module) w)

theorem constFloat_onward {b : Builder} (h : b.Live) {ty : Ty} (ht : ty.isFloat = true)
    (w : UInt64) :
    (constFloat ty w).Gives b ty :=
  pushConst h ht (isScalar_of_isFloat ht) (by simp) (by simp)

theorem constNull_onward {b : Builder} (h : b.Live) :
    constNull.Gives b .ptr :=
  pushConst h rfl rfl (by simp) (by simp)

/-! ### Instructions -/

theorem insert_eq {b : Builder} {c : BlockId} (hc : b.current = some c)
    (ho : b.function.ending c = none) (kind : InstKind) (r : Option ValueId) :
    insert kind r b = ((), b.modifyFunction (·.addInst c ⟨r, kind⟩)) := by
  have hn : b.hasTerminator c = false := by rw [hasTerminator_eq, ho]; rfl
  show ((), _) = ((), _)
  simp only [hc, hn]
  rfl

theorem insert_onward {b : Builder} (h : b.Live) {kind : InstKind} {r : Option ValueId}
    (hk : kind.isAlloca = false) (hp : kind.isPhi = false)
    (hi : (⟨r, kind⟩ : Inst).Ok b.module b.function)
    (hr : ∀ v, r = some v → b.function.Unused v) :
    (insert kind r).Sat b fun _ b' => Onward b b' ∧
      ∃ c, b.current = some c ∧ b'.function = b.function.addInst c ⟨r, kind⟩ := by
  obtain ⟨c, hc, ho⟩ := h.isOpen
  have hlt : c.index < b.function.blocks.size := by
    obtain ⟨d, hd, hlt⟩ := h.ok.position
    rw [hc] at hd
    cases hd
    exact hlt
  have hg : b.function.Grows (b.function.addInst c ⟨r, kind⟩) := Function.grows_addInst hlt ho hk
  have hfun := function_modifyFunction h.ok.valid (·.addInst c ⟨r, kind⟩)
  have hend : (b.modifyFunction (·.addInst c ⟨r, kind⟩)).function.ending = b.function.ending := by
    rw [hfun, Function.ending_addInst]
  unfold Sat
  rw [insert_eq hc ho]
  refine ⟨.stay (within_of_ending ?_ hend)
    ⟨h.ok.modifyFunction hg (h.ok.function.addInst hlt ho hk hp hi hr), c, hc, ?_⟩ rfl, c, hc, hfun⟩
  · refine ext_modifyFunction h.ok.valid 0 hg ?_ ?_ (fun _ => Function.ending_addInst ..)
    · intro i _ hne
      have hic : i ≠ c := fun he => hne (he ▸ hc)
      rw [Function.body_addInst hlt hk, if_neg hic, Function.ending_addInst]
      exact ⟨rfl, rfl⟩
    · intro i _ hn x hx
      rw [Function.body_addInst hlt hk] at hx
      split at hx
      · rcases List.mem_append.1 hx with hx | hx
        · exact hn x hx
        · rw [List.mem_singleton.1 hx]
          exact hp
      · exact hn x hx
  · rw [hend]
    exact ho

theorem mem_code_of_addInst {f : Function} {c : BlockId} (hc : c.index < f.blocks.size)
    (inst : Inst) : inst ∈ (f.addInst c inst).code c := by
  rw [Function.code_addInst hc]
  simp

theorem lt_size_of_ending {b : Builder} (h : b.Live) {c : BlockId} (hc : b.current = some c) :
    c.index < b.function.blocks.size := by
  obtain ⟨d, hd, hlt⟩ := h.ok.position
  rw [hc] at hd
  cases hd
  exact hlt

/-- An instruction whose operands fit is emitted, and its result has the stated type. -/
theorem emit_onward {b : Builder} (h : b.Live) {ty : Ty} {kind : InstKind} {name : String}
    (hk : kind.isAlloca = false) (hp : kind.isPhi = false) (hs : ty.isScalar = true)
    (ht : kind.Typed b.module b.function (some ty)) :
    (emit ty kind name).Gives b ty := by
  refine Sat.get_bind (Sat.bind (pushValue_onward h (by trivial)) ?_)
  rintro v b₁ ⟨hon, rfl, hfun, hcur⟩
  have hval : b₁.function.value? ⟨b.function.values.size⟩ =
      some ⟨ty, .inst (b.current.getD Id.entry), name⟩ := by
    simp [hfun, Function.value?, Function.addValue]
  have hok : (⟨some ⟨b.function.values.size⟩, kind⟩ : Inst).Ok b₁.module b₁.function := by
    constructor
    · rintro r hr
      cases hr
      exact ⟨_, _, hval, rfl⟩
    · have := ht.mono hon.ext.module hon.ext.grows
      simpa [Function.valueType, hval] using this
  have hunused : b₁.function.Unused ⟨b.function.values.size⟩ := by
    rw [hfun]
    exact h.ok.function.unused (Nat.le_refl _)
  refine Sat.bind (insert_onward hon.live hk hp hok
    (by rintro v hv; cases hv; exact hunused)) ?_
  rintro - b₂ ⟨hon₂, c, hc, hfun₂⟩
  refine Sat.pure ⟨hon.trans hon₂, ⟨_, hon₂.ext.grows.value? hval, rfl, by simp, ?_⟩, hs⟩
  intro _ _
  refine ⟨c, ⟨some ⟨b.function.values.size⟩, kind⟩, ?_, rfl⟩
  rw [hfun₂]
  exact mem_code_of_addInst (lt_size_of_ending hon.live hc) _

theorem emitVoid_onward {b : Builder} (h : b.Live) {kind : InstKind} (hk : kind.isAlloca = false)
    (hp : kind.isPhi = false) (ht : kind.Typed b.module b.function none) :
    (emitVoid kind).Goes b :=
  (insert_onward (r := none) h hk hp ⟨by simp, ht⟩ (by simp)).imp fun _ _ hb => ⟨hb.1, trivial⟩

/-! ### Memory -/

theorem load_onward {b : Builder} (h : b.Live) {ty : Ty} {p : ValueId} {name : String}
    (hp : b.function.Has p .ptr) (hs : ty.isScalar = true) :
    (load ty p name).Gives b ty := by
  refine demand_bind ?_ (emit_onward h rfl rfl hs ⟨hp, hs, rfl⟩)
  simp [Builder.valueType, hp.valueType_eq, Ty.isPtr]

theorem store_onward {b : Builder} (h : b.Live) {v p : ValueId}
    (hv : (∃ t, b.function.Has v t) ∨ ∃ t, b.function.HasParam v t)
    (hp : b.function.Has p .ptr) : (store v p).Goes b := by
  refine demand_bind ?_ (emitVoid_onward h rfl rfl ⟨hv, hp, rfl⟩)
  simp [Builder.valueType, hp.valueType_eq, Ty.isPtr]

theorem ptrAdd_onward {b : Builder} (h : b.Live) {p o : ValueId} {name : String}
    (hp : b.function.Has p .ptr) {w : Ty} (hw : b.module.ptrInt = w) (ho : b.function.Has o w) :
    (ptrAdd p o name).Gives b .ptr :=
  emit_onward h rfl rfl rfl ⟨hp, hw ▸ ho, rfl⟩

theorem fieldPtr_onward {b : Builder} (h : b.Live) {s : StructId} {p : ValueId} {k : Nat}
    {name : String} (hp : b.function.Has p .ptr) (hk : k < (b.module.structFields s).length) :
    (fieldPtr s p k name).Gives b .ptr :=
  demand_bind (by simpa using hk) (emit_onward h rfl rfl rfl ⟨hp, hk, rfl⟩)

theorem memCopy_onward {b : Builder} (h : b.Live) {d s l : ValueId} (hd : b.function.Has d .ptr)
    (hs : b.function.Has s .ptr) {w : Ty} (hw : b.module.ptrInt = w) (hl : b.function.Has l w) :
    (memCopy d s l).Goes b :=
  emitVoid_onward h rfl rfl ⟨hd, hs, hw ▸ hl, rfl⟩

theorem memMove_onward {b : Builder} (h : b.Live) {d s l : ValueId} (hd : b.function.Has d .ptr)
    (hs : b.function.Has s .ptr) {w : Ty} (hw : b.module.ptrInt = w) (hl : b.function.Has l w) :
    (memMove d s l).Goes b :=
  emitVoid_onward h rfl rfl ⟨hd, hs, hw ▸ hl, rfl⟩

/-! ### Arithmetic, comparison and conversion -/

theorem binary_onward {b : Builder} (h : b.Live) {op : BinOp} {l r : ValueId} {t : Ty}
    {name : String} (hl : b.function.Has l t) (hr : b.function.Has r t)
    (hop : op.isFloat = t.isFloat) (ht : t.isFloat = true ∨ t.isInt = true) :
    (binary op l r name).Gives b t := by
  refine demand_bind ?_ (demand_bind ?_ (Sat.get_bind ?_))
  · simp [Builder.valueType, hl.valueType_eq, hr.valueType_eq]
  · simp [Builder.valueType, hl.valueType_eq, hop]
  · rw [Builder.valueType, hl.valueType_eq]
    exact emit_onward h rfl rfl hl.scalar ⟨t, hl, hr, hop, ht, rfl⟩

theorem binaryInt_onward {b : Builder} (h : b.Live) {op : BinOp} {l r : ValueId} {t : Ty}
    {name : String} (hl : b.function.Has l t) (hr : b.function.Has r t) (ht : t.isInt = true)
    (hop : op.isFloat = false) :
    (binary op l r name).Gives b t := by
  refine binary_onward h hl hr ?_ (.inr ht)
  cases t <;> simp_all [Ty.isInt, Ty.intBits?, Ty.isFloat]

theorem neg_onward {b : Builder} (h : b.Live) {v : ValueId} {t : Ty} {name : String}
    (hv : b.function.Has v t) (ht : t.isInt = true) :
    (neg v name).Gives b t := by
  refine Sat.get_bind ?_
  rw [Builder.valueType, hv.valueType_eq]
  refine Sat.bind (constInt_onward h ht 0) ?_
  rintro z b₁ ⟨hon, hz⟩
  refine (binaryInt_onward hon.live hz (hon.ext.has hv) ht rfl).imp ?_
  rintro r b₂ ⟨hon₂, hr⟩
  exact ⟨hon.trans hon₂, hr⟩

theorem fneg_onward {b : Builder} (h : b.Live) {v : ValueId} {t : Ty} {name : String}
    (hv : b.function.Has v t) (ht : t.isFloat = true) :
    (fneg v name).Gives b t := by
  refine Sat.get_bind ?_
  rw [Builder.valueType, hv.valueType_eq]
  exact emit_onward h rfl rfl hv.scalar ⟨t, hv, ht, rfl⟩

theorem not_onward {b : Builder} (h : b.Live) {v : ValueId} {t : Ty} {name : String}
    (hv : b.function.Has v t) (ht : t.isInt = true) :
    (not v name).Gives b t := by
  refine Sat.get_bind ?_
  rw [Builder.valueType, hv.valueType_eq]
  refine Sat.bind (constInt_onward h ht _) ?_
  rintro z b₁ ⟨hon, hz⟩
  refine (binaryInt_onward hon.live (hon.ext.has hv) hz ht rfl).imp ?_
  rintro r b₂ ⟨hon₂, hr⟩
  exact ⟨hon.trans hon₂, hr⟩

theorem icmp_onward {b : Builder} (h : b.Live) {pred : IntPred} {l r : ValueId} {t : Ty}
    {name : String} (hl : b.function.Has l t) (hr : b.function.Has r t)
    (ht : t.isInt = true ∨ t = .ptr) :
    (icmp pred l r name).Gives b .i1 := by
  refine demand_bind ?_ (emit_onward h rfl rfl rfl ⟨t, hl, hr, ht, rfl⟩)
  simp [Builder.valueType, hl.valueType_eq, hr.valueType_eq]

theorem fcmp_onward {b : Builder} (h : b.Live) {pred : FloatPred} {l r : ValueId} {t : Ty}
    {name : String} (hl : b.function.Has l t) (hr : b.function.Has r t) (ht : t.isFloat = true) :
    (fcmp pred l r name).Gives b .i1 :=
  emit_onward h rfl rfl rfl ⟨t, hl, hr, ht, rfl⟩

theorem cast_onward {b : Builder} (h : b.Live) {op : CastOp} {v : ValueId} {t target : Ty}
    {name : String} (hv : b.function.Has v t) (hop : op.Fits t target)
    (hs : target.isScalar = true) :
    (cast op v target name).Gives b target :=
  emit_onward h rfl rfl hs ⟨t, hv, hop, rfl⟩

theorem eq_of_intBits? {t u : Ty} {n : Nat} (ht : t.intBits? = some n) (hu : u.intBits? = some n) :
    t = u := by
  have h := Ty.int?_intBits? ht
  rw [Ty.int?_intBits? hu] at h
  exact (Option.some.inj h).symm

theorem intResize_onward {b : Builder} (h : b.Live) {v : ValueId} {t target : Ty} {signed : Bool}
    {name : String} (hv : b.function.Has v t) (ht : t.isInt = true)
    (htarget : target.isInt = true) :
    (intResize v target signed name).Gives b target := by
  obtain ⟨n, hn⟩ := Option.isSome_iff_exists.1 ht
  obtain ⟨k, hk⟩ := Option.isSome_iff_exists.1 htarget
  refine Sat.get_bind ?_
  simp only [Builder.valueType, hv.valueType_eq, hn, hk, Option.getD_some]
  split
  · rename_i he
    subst he
    rw [eq_of_intBits? hn hk] at hv
    exact Sat.pure ⟨.refl h, hv⟩
  · split
    · rename_i hlt
      refine cast_onward h hv ?_ (isScalar_of_isInt htarget)
      cases signed <;> exact ⟨n, k, hn, hk, Nat.le_of_lt hlt⟩
    · exact cast_onward h hv ⟨ht, htarget⟩ (isScalar_of_isInt htarget)

theorem select_onward {b : Builder} (h : b.Live) {c x y : ValueId} {t : Ty} {name : String}
    (hc : b.function.Has c .i1) (hx : b.function.Has x t) (hy : b.function.Has y t) :
    (select c x y name).Gives b t := by
  refine Sat.get_bind ?_
  rw [Builder.valueType, hx.valueType_eq]
  exact emit_onward h rfl rfl hx.scalar ⟨t, hc, hx, hy, rfl⟩

/-! ### Calls -/

theorem callAt_onward {b : Builder} (h : b.Live) {callee : Callee} {params : List Ty} {ret : Ty}
    {args : List ValueId} {name : String}
    (hsig : b.module.signature? callee = some (params, ret))
    (hargs : List.Forall₂ b.function.Has args params)
    (hret : ret = .void ∨ ret.isScalar = true) :
    (callAt callee ret args name).Sat b fun r b' => Onward b b' ∧
      (ret = .void ∧ r = none ∨ ∃ v, r = some v ∧ b'.function.Has v ret) := by
  unfold callAt
  split
  · rename_i hv
    have ht : (InstKind.call callee args ret).Typed b.module b.function none :=
      ⟨params, hsig, hargs, by simp [hv]⟩
    refine Sat.bind (emitVoid_onward h rfl rfl ht) ?_
    intro _ b' hb
    exact Sat.pure ⟨hb.1, .inl ⟨hv, rfl⟩⟩
  · rename_i hv
    have hs : ret.isScalar = true := hret.resolve_left hv
    have ht : (InstKind.call callee args ret).Typed b.module b.function (some ret) :=
      ⟨params, hsig, hargs, by simp [hv]⟩
    refine Sat.map ((emit_onward h rfl rfl hs ht).imp ?_)
    rintro v b' ⟨hb, hv'⟩
    exact ⟨hb, .inr ⟨v, rfl, hv'⟩⟩

theorem call_onward {b : Builder} (h : b.Live) {func : FuncId} {f : Function}
    {args : List ValueId} {name : String} (hf : b.module.function? func = some f)
    (hargs : List.Forall₂ b.function.Has args f.params)
    (hret : f.ret = .void ∨ f.ret.isScalar = true) :
    (call func args name).Sat b fun r b' => Onward b b' ∧
      (f.ret = .void ∧ r = none ∨ ∃ v, r = some v ∧ b'.function.Has v f.ret) := by
  refine demand_bind ?_ (Sat.get_bind ?_)
  · simp [hf, hargs.length_eq]
  · simp only [hf, Option.elim_some]
    exact callAt_onward h (by simp [Module.signature?, hf]) hargs hret

theorem callHost_onward {b : Builder} (h : b.Live) {host : HostId} {d : HostDecl}
    {args : List ValueId} {name : String} (hd : b.module.host? host = some d)
    (hargs : List.Forall₂ b.function.Has args d.params)
    (hret : d.ret = .void ∨ d.ret.isScalar = true) :
    (callHost host args name).Sat b fun r b' => Onward b b' ∧
      (d.ret = .void ∧ r = none ∨ ∃ v, r = some v ∧ b'.function.Has v d.ret) := by
  refine Sat.get_bind ?_
  simp only [hd, Option.elim_some]
  exact callAt_onward h (by simp [Module.signature?, hd]) hargs hret

/-! ### Module tables -/

/-- A change of the module that keeps functions and struct types. -/
theorem ext_onModule {b : Builder} {m : Module} (hm : b.module.Grows m)
    (hf : m.functions = b.module.functions) : b.Ext { b with module := m } := by
  have hfun : ∀ j, m.function? j = b.module.function? j := by simp [Module.function?, hf]
  have hsame : ({ b with module := m } : Builder).function = b.function := by
    simp [Builder.function, hfun]
  exact {
    func := rfl
    module := hm
    others := fun j _ => hfun j
    functions := by simp [hf]
    grows := by rw [hsame]; exact .refl _
    keep := by rw [hsame]; exact fun _ _ _ => ⟨rfl, rfl⟩
    noPhi := by rw [hsame]; exact fun _ _ h => h
    current := .inl rfl
    terminators := Nat.le_refl _
    steady := by rw [hsame]; exact fun _ => rfl }

theorem onModule_onward {α : Type} {b : Builder} (h : b.Live) {F : Module → α × Module}
    (hm : b.module.Grows (F b.module).2) (hf : (F b.module).2.functions = b.module.functions)
    (hh : (F b.module).2.HostsKnown) :
    (onModule F).Sat b fun a b' => Onward b b' ∧ a = (F b.module).1 ∧
      b'.module = (F b.module).2 := by
  have hext := ext_onModule hm hf
  have hsame : ({ b with module := (F b.module).2 } : Builder).function = b.function := by
    simp [Builder.function, Module.function?, hf]
  refine ⟨.stay (within_of_ending hext (congrArg Function.ending hsame))
    ⟨⟨?_, h.ok.whole, ?_, hh, ?_⟩, ?_⟩ rfl, rfl, rfl⟩
  · show b.func.index < (F b.module).2.functions.size
    rw [hf]
    exact h.ok.valid
  · show ∃ c, b.current = some c ∧
      c.index < ({ b with module := (F b.module).2 } : Builder).function.blocks.size
    rw [hsame]
    exact h.ok.position
  · show ({ b with module := (F b.module).2 } : Builder).function.Ok (F b.module).2
    rw [hsame]
    exact h.ok.function.growModule hm
  · show ∃ c, b.current = some c ∧
      ({ b with module := (F b.module).2 } : Builder).function.ending c = none
    rw [hsame]
    exact h.isOpen

theorem addString_grows (m : Module) (text : String) : m.Grows (m.addString text).2 where
  pointerBits := rfl
  structs := rfl
  globals := by simp [Module.addString]
  hosts := List.prefix_refl _
  header hj := ⟨_, hj, rfl, rfl, rfl⟩

theorem globalString_onward {b : Builder} (h : b.Live) (text : String) :
    (globalString text).Gives b .ptr := by
  refine Sat.bind (onModule_onward h (addString_grows b.module text) rfl h.ok.hosts) ?_
  rintro g b₁ ⟨hon, -, -⟩
  have hfits : (⟨.ptr, .global g, ""⟩ : Value).Fits := rfl
  refine (pushConst hon.live hfits rfl (by simp) (by simp)).imp ?_
  rintro v b₂ ⟨hon₂, hv⟩
  exact ⟨hon.trans hon₂, hv⟩

/-- Declares a known host function and calls it. -/
theorem declareHost_onward {b : Builder} (h : b.Live) {d : HostDecl}
    (hd : d ∈ b.module.knownHosts) :
    (onModule (·.declareHost d.name d.params d.ret)).Sat b fun i b' =>
      Onward b b' ∧ b'.module.host? i = some d := by
  obtain ⟨hm, hf⟩ := b.module.declareHost_grows d.name d.params d.ret
  obtain ⟨hk, hi⟩ := Module.declareHost_known h.ok.hosts hd
  refine (onModule_onward h hm hf hk).imp ?_
  rintro i b₁ ⟨hon, rfl, hm₁⟩
  exact ⟨hon, by rw [hm₁]; exact hi⟩

end Emit

end BlockForge.Ir
