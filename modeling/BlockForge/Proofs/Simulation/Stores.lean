import BlockForge.Proofs.Simulation.Calls

/-!
# Changes of the store

Running the instructions that change the store: an allocation, which may be too large, a store of an operand
into an allocation, and a copy of bytes. They are careful about allocations without references because the roles
of the allocations say what may be stored where.
-/

namespace BlockForge.Simulation

open Ir (Builder Emit ValueId)
open Ir.Emit (Onward)
open Lowering (AllocKind Allocator Env Scope Tables)
open Machine (Acts Allocation At Careful Exec Holds Live Memory Moved Part State Store Val World addressOf blockAddress
  blockIndex cellBytes maxBlocks maxOffset)
open Reference (Datum Heap Locals Object Result Sem)
open StateM
open BlockForge.Types (Ty)

/-! ### Allocations -/

/-- How an allocation of some bytes ends: with a new address, or with the fault of a size that is too large. -/
structure Allocates (w : World) (b : Builder) (M : State) (b' : Builder) (v : ValueId) (bytes : Nat)
    (kind : AllocKind) : Prop where
  done : bytes ≤ maxOffset → (∀ M', Moved w.func b M b' M' →
    M'.store = { M.store with memory := M.store.memory.push { size := bytes } } →
    Holds b' M' v (.ptr (blockAddress M.store.memory.blocks.size)) →
    (w.watched → (w.atomic M.store.memory.blocks.size ↔ kind = .noReferences)) → w.goal M') → w.goal M
  tooLarge : maxOffset < bytes → Exec.step w.module w.limit M = .error (.allocationTooLarge bytes) M ∧
    ∀ A K, Careful w.module A K M

/-- The host function that allocates memory of a kind. -/
def hostName : AllocKind → String
  | .general => Machine.hostMalloc
  | .noReferences => Machine.hostMallocAtomic

section

variable {b : Builder} (h : b.Live) {size : ValueId} (hs : b.function.Has size b.module.ptrInt) (kind : AllocKind)
  (name : String)

include h hs

theorem callAllocator_allocates :
    (Allocator.callAllocator (hostName kind) [b.module.ptrInt] [size] name).Sat b fun v b' =>
      (Onward b b' ∧ b'.function.Has v .ptr) ∧
        ∀ {w : World} {M : State} {n : UInt64}, Part b' w → At w.func b M → Holds b M size (.int n) →
          Allocates w b M b' v n.toNat kind := by
  have hd : (⟨hostName kind, [b.module.ptrInt], .ptr⟩ : Ir.HostDecl) ∈ b.module.knownHosts := by
    cases kind <;> simp [Ir.Module.knownHosts, hostName]
  have hfun := (b.module.declareHost_grows (hostName kind) [b.module.ptrInt] .ptr).2
  have hstay : (Emit.onModule (·.declareHost (hostName kind) [b.module.ptrInt] .ptr)).Sat b fun _ b' =>
      b'.function = b.function ∧ b'.current = b.current := by
    refine ⟨?_, rfl⟩
    simp only [Emit.onModule, Builder.function, Ir.Module.function?, hfun]
  refine Sat.bind ((Ir.Emit.declareHost_onward h hd).and hstay) ?_
  rintro host b₁ ⟨⟨o₁, hhost⟩, hfun₁, hcur₁⟩
  refine Sat.bind ((Ir.Emit.callHost_onward o₁.live hhost (.cons (o₁.has hs) .nil) (.inr rfl)).and
    (Machine.callHost_emits o₁.live hhost name)) ?_
  rintro r b₂ ⟨⟨o₂, hr⟩, hemits⟩
  obtain ⟨hv, -⟩ | ⟨-, v, rfl, e⟩ := hemits
  · cases hv
  obtain ⟨hv, -⟩ | ⟨v', he, hv⟩ := hr
  · cases hv
  cases he
  refine Sat.pure ⟨⟨o₁.trans o₂, hv⟩, fun {w M n} hp hM hn => ?_⟩
  have m₁ : Moved w.func b M b₁ M := hM.stay hcur₁ (fun _ => by rw [hfun₁]) (by rw [hfun₁])
  have hhost' : w.module.host? host = some ⟨hostName kind, [b.module.ptrInt], .ptr⟩ :=
    Ir.getElem?_of_prefix (hp.back o₂).module.hosts hhost
  have hi := e.inst hp m₁.toAt
  have hcall : ∀ mem : Memory, Machine.callHost (hostName kind) [.int n] mem =
      (Machine.Mem.allocate n.toNat >>= fun addr => pure (some (.ptr addr)) : Machine.Mem (Option Val)) mem := by
    intro mem
    cases kind <;> rfl
  have hatomic : Machine.CallsAtomic w.module M ↔ kind = .noReferences := by
    constructor
    · rintro ⟨r, id, args, t, d, hi', hd', hname⟩
      rw [hi] at hi'
      cases hi'
      rw [hhost'] at hd'
      cases hd'
      cases kind with
      | general => exact absurd hname (show Machine.hostMalloc ≠ Machine.hostMallocAtomic by decide)
      | noReferences => rfl
    · rintro rfl
      exact ⟨_, _, _, _, _, hi, hhost', rfl⟩
  constructor
  · intro hle k
    refine e.change hp m₁.toAt rfl
      (Machine.perform_callHost hhost' (.cons hn.value .nil)
        ((hcall _).trans (Machine.bind_ok (Machine.allocate_eq hle)))) fun M' m hst hres htells => ?_
    refine k M' (m₁.trans m) hst hres fun hw => ?_
    rw [← hatomic]
    refine htells hw _ (Nat.le_refl _) ?_
    rw [hst]
    simp
  · intro hlt
    refine ⟨?_, fun A K => Machine.careful_of_quiet hi rfl⟩
    exact Machine.step_error hi (Machine.perform_callHost_error hhost' (.cons hn.value .nil)
      ((hcall _).trans (Machine.bind_error (Machine.allocate_too_large hlt))))

theorem collector_allocates :
    (Allocator.collector.allocate size kind name).Sat b fun v b' => (Onward b b' ∧ b'.function.Has v .ptr) ∧
      ∀ {w : World} {M : State} {n : UInt64}, Part b' w → At w.func b M → Holds b M size (.int n) →
        Allocates w b M b' v n.toNat kind := by
  refine Sat.get_bind ?_
  cases kind with
  | general => exact callAllocator_allocates h hs .general name
  | noReferences => exact callAllocator_allocates h hs .noReferences name

end

/-! ### Objects that change -/

section

variable {S : Scene} {scope : Scope} {ρ : Locals} {b b' : Builder} {M M' : State} {g : Ground} {H : Heap}

/-- An object changes, and may get another buffer. -/
theorem Stands.update (hS : S.Ready) (h : Stands S scope ρ g H M) {id j : Nat} {t : Ty}
    (hj : g[j]? = some (.object id t)) (bufs : List Role) (mem : Memory) {o : Object}
    (hbufs : ∀ {i : Nat} {r : Role}, bufs[i]? = some r → ∃ elem, r = .buffer id elem)
    (hwatch : S.world.watched → ∀ {i : Nat} {r : Role}, bufs[i]? = some r →
      (S.world.atomic (g.length + i) ↔ r.isAtomic S.env.tables = true))
    (hsize : mem.blocks.size = M.store.memory.blocks.size + bufs.length)
    (hroom : mem.blocks.size + pending M.store.globals < maxBlocks)
    (hkeep : ∀ {i : Nat} {r : Role}, g[i]? = some r → r.owner ≠ some id →
      mem.blocks[i]? = M.store.memory.blocks[i]?)
    (ho : Stored S.layout S.env.tables S.world.module (g ++ bufs) mem j id t o) (hseat : Seated S M')
    (hst : M'.store = { M.store with memory := mem }) : Stands S scope ρ (g ++ bufs) (H.set id o) M' := by
  refine h.carry hS hseat (List.prefix_append ..) ?_ (h.watch.append fun hw _ _ hi _ => hwatch hw hi) fun hi => ?_
  · rw [hst]
    exact h.models.update hj hbufs hsize hroom (fun hi _ => hkeep hi) ho
  · rw [hst]
    exact hkeep hi (by simp [Role.owner])

/-- An object changes in its own allocations. -/
theorem Stands.change (hS : S.Ready) (h : Stands S scope ρ g H M) {id j : Nat} {t : Ty}
    (hj : g[j]? = some (.object id t)) (mem : Memory) {o : Object}
    (hsize : mem.blocks.size = M.store.memory.blocks.size)
    (hkeep : ∀ {i : Nat} {r : Role}, g[i]? = some r → r.owner ≠ some id →
      mem.blocks[i]? = M.store.memory.blocks[i]?)
    (ho : Stored S.layout S.env.tables S.world.module g mem j id t o) (hseat : Seated S M')
    (hst : M'.store = { M.store with memory := mem }) : Stands S scope ρ g (H.set id o) M' := by
  have := h.update hS hj [] mem (o := o) (fun hi => by cases hi)
    (fun _ _ _ hi => by cases hi) (by simpa using hsize) (by rw [hsize]; exact h.models.room) hkeep
    (by rwa [List.append_nil]) hseat hst
  rwa [List.append_nil] at this

/-! ### Stores of operands -/

theorem isReference_of_ptr {env : Env} {t : Ty} (h : env.ir t = .ptr) : t.isReference = true := by
  cases t with
  | signed w | unsigned w =>
    revert h
    simp only [Env.ir, Types.Layout.irType, Ir.Ty.int?]
    split <;> intro h <;> cases h
  | float w => cases w <;> cases h
  | _ => first | rfl | cases h

theorem valueType_of_has {w : World} (hp : Part b w) {v : ValueId} {t : Ir.Ty} (h : b.function.Has v t) :
    w.func.valueType v = t := (hp.function.has h).valueType_eq

section

variable (hst : Stands S scope ρ g H M) (hM : At S.world.func b M) (hp : Part b' S.world) {v p : ValueId}
  (e : Acts b b' (.store v p)) {j offset : Nat} (hptr : M.frame.value? p = some (.ptr (addressOf j offset)))
  {r : Role} (hr : g[j]? = some r) (htext : r.isText = false) {a : Allocation} (hlive : Live M.store.memory j a)

include hst hM hp e hptr hr htext hlive

/-- A value that was fetched is stored in an allocation. -/
theorem store_fetched (hS : S.Ready) {t : Ir.Ty} (hv : S.world.func.valueType v = t)
    (hatomic : t = .ptr → r.isAtomic S.env.tables = false) (hfit : offset + cellBytes t ≤ a.size) {st : Store} {x : Val}
    (hx : Exec.operand S.world.module v M = .ok x { M with store := st }) (hof : x.Of t)
    (hold : ∀ i < M.store.memory.blocks.size, st.memory.blocks[i]? = M.store.memory.blocks[i]?)
    (k : ∀ M', Moved S.world.func b M b' M' →
      M'.store = { st with memory := st.memory.set j (a.write t offset x) } → S.world.goal M') : S.world.goal M := by
  have htype : M.frame.func.valueType v = t := by rw [hM.func, hv]
  have haddr : Exec.operandPtr S.world.module p { M with store := st } =
      .ok (addressOf j offset) { M with store := st } :=
    Machine.operandPtr_eq (M := { M with store := st }) hptr
  have hindex : blockIndex (addressOf j offset) = j := hlive.blockIndex_eq hfit
  have hstore : Machine.Mem.store S.world.module t (addressOf j offset) x st.memory =
      .ok () (st.memory.set j (a.write t offset x)) :=
    (hlive.of_eq (hold j hlive.lt_size)).store_eq hS.runnable.modulePointerBits hof hfit
  have hperform : Exec.perform S.world.module (.store v p) M =
      .ok (.done none) { M with store := { st with memory := st.memory.set j (a.write t offset x) } } := by
    refine (Machine.bind_ok (Machine.typeOf_eq v)).trans ((Machine.bind_ok hx).trans ((Machine.bind_ok haddr).trans ?_))
    rw [htype]
    exact Machine.bind_ok (Machine.onMemory_ok (M := { M with store := st }) hstore)
  refine e.change hp hM (fun hw => Machine.careful_store (e.inst hp hM) hx haddr (fun ht hA => ?_) fun hK => ?_) hperform
    fun M' m hst' _ => k M' m hst'
  · rw [hindex] at hA
    have := (hst.watch.atomic hw hr htext).1 hA
    rw [hatomic (htype.symm.trans ht)] at this
    cases this
  · rw [hindex] at hK
    exact hst.watch.not_kept hr htext hK

/-- A value in a register is stored. -/
theorem store_known (hS : S.Ready) {t : Ir.Ty} (hv : S.world.func.valueType v = t)
    (hatomic : t = .ptr → r.isAtomic S.env.tables = false) (hfit : offset + cellBytes t ≤ a.size) {x : Val}
    (hx : Holds b M v x) (hof : x.Of t)
    (k : ∀ M', Moved S.world.func b M b' M' →
      M'.store = { M.store with memory := M.store.memory.set j (a.write t offset x) } → S.world.goal M') :
    S.world.goal M :=
  store_fetched hst hM hp e hptr hr htext hlive hS hv hatomic hfit (Machine.operand_eq hx.value) hof (fun _ _ => rfl) k

/-- An operand is stored; a text may come into memory before. -/
theorem store_runs (hS : S.Ready) {d : Datum} (hv : S.world.func.valueType v = S.env.ir d.type)
    (hd : Denotes S b M g v d) (hatomic : d.type.isReference = true → r.isAtomic S.env.tables = false)
    (hfit : offset + cellBytes (S.env.ir d.type) ≤ a.size)
    (k : ∀ {g₁ : Ground} {st : Store} {x : Val} {M' : State}, g <+: g₁ →
      Stands S scope ρ g₁ H { M with store := st } →
      (∀ i < M.store.memory.blocks.size, st.memory.blocks[i]? = M.store.memory.blocks[i]?) →
      Encodes S.layout S.world.module g₁ d.type d.value x → Moved S.world.func b M b' M' →
      M'.store = { st with memory := st.memory.set j (a.write (S.env.ir d.type) offset x) } → S.world.goal M') :
    S.world.goal M := by
  obtain ⟨x, st, g₁, hx, hg₁, hst₁, henc, hold⟩ := hd.fetch hS hst hM.func
  exact store_fetched hst hM hp e hptr hr htext hlive hS hv (fun ht => hatomic (isReference_of_ptr ht)) hfit hx
    (henc.of hS.runnable.pointerBits) hold fun M' m hst' => k hg₁ hst₁ hold henc m hst'

end

/-! ### Copies -/

variable {kind : Ir.InstKind} {dst src len : ValueId} (hkind : kind = .memCopy dst src len ∨ kind = .memMove dst src len)

include hkind

theorem perform_copy {m : Ir.Module} {x y n : UInt64} {mem : Memory} (hd : M.frame.value? dst = some (.ptr x))
    (hs : M.frame.value? src = some (.ptr y)) (hl : M.frame.value? len = some (.int n))
    (h : Machine.Mem.copy x y n.toNat M.store.memory = .ok () mem) :
    Exec.perform m kind M = .ok (.done none) { M with store := { M.store with memory := mem } } := by
  rcases hkind with rfl | rfl
  · exact Machine.perform_memCopy hd hs hl h
  · exact Machine.perform_memMove hd hs hl h

theorem inst_copy {w : World} (e : Acts b b' kind) (hp : Part b' w) (hM : At w.func b M) :
    M.frame.code.insts[M.frame.next]? = some ⟨none, .memCopy dst src len⟩ ∨
      M.frame.code.insts[M.frame.next]? = some ⟨none, .memMove dst src len⟩ := by
  have hi := e.inst hp hM
  rcases hkind with rfl | rfl
  · exact .inl hi
  · exact .inr hi

/-- Nothing is copied. -/
theorem copy_nothing {w : World} (e : Acts b b' kind) (hp : Part b' w) (hM : At w.func b M) {x y : UInt64}
    (hd : Holds b M dst (.ptr x)) (hs : Holds b M src (.ptr y)) (hl : Holds b M len (.int 0))
    (k : ∀ M', Moved w.func b M b' M' → M'.store = M.store → w.goal M') : w.goal M := by
  refine e.change hp hM (fun _ => Machine.careful_copy (inst_copy hkind e hp hM) (Machine.operandPtr_eq hd.value)
    (Machine.operandPtr_eq hs.value) (Machine.operandInt_eq hl.value) (fun h => absurd rfl h) fun h => absurd rfl h)
    (perform_copy hkind hd.value hs.value hl.value rfl) fun M' m hst _ => k M' m hst

/-- Bytes are copied between buffers of one kind, or within one. -/
theorem copy_runs (hst : Stands S scope ρ g H M) (e : Acts b b' kind) (hp : Part b' S.world)
    (hM : At S.world.func b M) {i j n : Nat} (source target : Nat) {A B : Allocation}
    (hd : Holds b M dst (.ptr (addressOf j target))) (hs : Holds b M src (.ptr (addressOf i source)))
    (hl : Holds b M len (.int (UInt64.ofNat n))) {id id' : Nat} {elem : Ty} (hi : g[i]? = some (.buffer id elem))
    (hj : g[j]? = some (.buffer id' elem)) (hA : Live M.store.memory i A) (hB : Live M.store.memory j B)
    (hfrom : source + n ≤ A.size) (hto : target + n ≤ B.size) (hpos : 0 < n)
    (k : ∀ M', Moved S.world.func b M b' M' → M'.store = { M.store with
      memory := M.store.memory.set j (B.fill target n fun x => A.byte (source + x)) } → S.world.goal M') :
    S.world.goal M := by
  have hsmall := hA.small
  have hn : (UInt64.ofNat n).toNat = n := UInt64.toNat_ofNat_of_lt' (by
    show n < 2 ^ 64
    unfold maxOffset at hsmall
    omega)
  have hcopy := hA.copy_eq hB hfrom hto hpos
  rw [← hn] at hcopy
  refine e.change hp hM (fun hw => Machine.careful_copy (inst_copy hkind e hp hM) (Machine.operandPtr_eq hd.value)
    (Machine.operandPtr_eq hs.value) (Machine.operandInt_eq hl.value) (fun _ => ?_) fun _ => ?_)
    (perform_copy hkind hd.value hs.value hl.value hcopy) fun M' m hst' _ => k M' m (by rw [hst', hn])
  · rw [hA.blockIndex_eq hfrom, hB.blockIndex_eq hto, hst.watch.atomic hw hi rfl, hst.watch.atomic hw hj rfl]
    exact fun h => h
  · rw [hB.blockIndex_eq hto]
    exact hst.watch.not_kept hj rfl

end

end BlockForge.Simulation
