import BlockForge.Proofs.Machine.Structure
import BlockForge.Proofs.Numeric.Words

/-!
# Values of their types

In a well-typed module every register holds a value of the kind of its type, and an integer is in the range
of its width. Loads read a value of the type that they ask for, so nothing need be known of the memory. A
call returns a value of the return type, and none from a function that returns nothing.
-/

namespace BlockForge.Machine

open Ir (BlockId CastOp FuncId Function Inst InstKind Module Ty ValueId)

/-- A value of the kind of a type, in its range. -/
def Val.Fits (t : Ty) : Val → Prop
  | .int w => ∃ n, t.intBits? = some n ∧ w.toNat < 2 ^ n
  | .float _ => t.isFloat = true
  | .ptr _ => t = .ptr

/-- What a function with a return type gives back. -/
def Returns (t : Ty) : Option Val → Prop
  | none => t = .void
  | some x => x.Fits t

/-- A module all of whose functions fit, and that calls no host functions but the known ones. -/
structure WellTyped (m : Module) : Prop where
  functions : ∀ {id f}, m.function? id = some f → f.Ok m
  hosts : m.HostsKnown

/-! ### Words in memory -/

theorem Allocation.toNat_word_succ (a : Allocation) (offset : Nat) {n : Nat} (hn : n < 8)
    (h : (a.word (offset + 1) n).toNat < 2 ^ (8 * n)) :
    (a.word offset (n + 1)).toNat = (a.word (offset + 1) n).toNat * 2 ^ 8 + (a.byte offset).toNat := by
  have hpow : 2 ^ (8 * n) ≤ 2 ^ 56 := Nat.pow_le_pow_right (by decide) (by omega)
  have hbyte : (a.byte offset).toNat < 2 ^ 8 := (a.byte offset).toNat_lt
  rw [word, UInt64.toNat_or, UInt64.toNat_shiftLeft, UInt8.toNat_toUInt64]
  have hshift : (a.word (offset + 1) n).toNat <<< ((8 : UInt64).toNat % 64) % 2 ^ 64 =
      2 ^ 8 * (a.word (offset + 1) n).toNat := by
    rw [show (8 : UInt64).toNat % 64 = 8 from rfl, Nat.shiftLeft_eq, Nat.mod_eq_of_lt (by omega), Nat.mul_comm]
  rw [hshift, ← Nat.two_pow_add_eq_or_of_lt hbyte, Nat.mul_comm]

theorem Allocation.toNat_word_lt (a : Allocation) (offset : Nat) {n : Nat} (hn : n ≤ 8) :
    (a.word offset n).toNat < 2 ^ (8 * n) := by
  induction n generalizing offset with
  | zero => simp [word]
  | succ n ih =>
    have hrest := ih (offset + 1) (by omega)
    have hbyte : (a.byte offset).toNat < 2 ^ 8 := (a.byte offset).toNat_lt
    rw [a.toNat_word_succ offset (by omega) hrest, show 8 * (n + 1) = 8 * n + 8 by omega, Nat.pow_add]
    omega

theorem readWord_lt {mem : Memory} {addr w : UInt64} {n : Nat} (hn : n ≤ 8)
    (h : mem.readWord addr n = .ok w) : w.toNat < 2 ^ (8 * n) := by
  unfold Memory.readWord at h
  cases hl : mem.locate addr n with
  | error e =>
    rw [hl] at h
    cases h
  | ok a =>
    rw [hl] at h
    cases h
    exact a.toNat_word_lt _ hn

/-- A load gives a value of the type that it reads. -/
theorem load_fits {m : Module} {mem : Memory} {t : Ty} {addr : UInt64} {x : Val}
    (h : mem.load m t addr = .ok x) : x.Fits t := by
  have hword : ∀ {n : Nat} {f : UInt64 → Val}, (mem.readWord addr n).map f = .ok x →
      ∃ w, mem.readWord addr n = .ok w ∧ f w = x := by
    intro n f h
    cases hr : mem.readWord addr n with
    | error e =>
      rw [hr] at h
      cases h
    | ok w =>
      rw [hr] at h
      exact ⟨w, rfl, Except.ok.inj h⟩
  cases t with
  | i1 =>
    obtain ⟨w, -, rfl⟩ := hword h
    refine ⟨1, rfl, ?_⟩
    rw [UInt64.toNat_and]
    exact Nat.lt_of_le_of_lt Nat.and_le_right (by decide)
  | i8 =>
    obtain ⟨w, hw, rfl⟩ := hword h
    exact ⟨8, rfl, readWord_lt (n := 1) (by decide) hw⟩
  | i16 =>
    obtain ⟨w, hw, rfl⟩ := hword h
    exact ⟨16, rfl, readWord_lt (n := 2) (by decide) hw⟩
  | i32 =>
    obtain ⟨w, hw, rfl⟩ := hword h
    exact ⟨32, rfl, readWord_lt (n := 4) (by decide) hw⟩
  | i64 =>
    obtain ⟨w, hw, rfl⟩ := hword h
    exact ⟨64, rfl, readWord_lt (n := 8) (by decide) hw⟩
  | f32 =>
    obtain ⟨w, -, rfl⟩ := hword h
    rfl
  | f64 =>
    obtain ⟨w, -, rfl⟩ := hword h
    rfl
  | ptr =>
    obtain ⟨w, -, rfl⟩ := hword h
    rfl
  | void => cases h
  | struct id => cases h

/-! ### Operands -/

/-- The arguments and registers of a frame hold values of their types. -/
structure Frame.Typed (F : Frame) : Prop where
  args : ∀ {n : Nat} {t : Ty} {x : Val}, F.func.params[n]? = some t → F.args[n]? = some x → x.Fits t
  regs : ∀ {v : ValueId} {x : Val}, F.regs[v.index]? = some (some x) → x.Fits (F.func.valueType v)

/-- Leaves the frames of a run as they are, and gives a result of which `Q` holds. -/
def Gives (F : Frame) (callers : List Frame) {α : Type} (x : Exec α) (Q : α → Prop) : Prop :=
  ∀ M : State, M.frame = F → M.callers = callers →
    Safe (fun _ => True) x M fun a M' => Q a ∧ M'.frame = F ∧ M'.callers = callers

section

variable {α β : Type} {F : Frame} {callers : List Frame} {Q : α → Prop} {R : β → Prop}

theorem Gives.bind {x : Exec α} {f : α → Exec β} (h : Gives F callers x Q)
    (k : ∀ a, Q a → Gives F callers (f a) R) : Gives F callers (x >>= f) R :=
  fun M hF hc => (h M hF hc).bind fun a M' ha => k a ha.1 M' ha.2.1 ha.2.2

theorem Gives.pure {a : α} (h : Q a) : Gives F callers (Pure.pure a : Exec α) Q :=
  fun _ hF hc => .pure ⟨h, hF, hc⟩

theorem Gives.throw (e : Fault) : Gives F callers (throw e : Exec α) Q := fun _ _ _ => trivial

theorem Gives.checked (r : Except Fault α) : Gives F callers (Machine.checked r) fun a => r = .ok a := by
  intro M hF hc
  cases r with
  | ok a => exact ⟨rfl, hF, hc⟩
  | error e => trivial

theorem Gives.frame_bind {f : Frame → Exec α} (h : Gives F callers (f F) Q) :
    Gives F callers (Exec.frame >>= f) Q := by
  rintro M rfl hc
  exact h M rfl hc

theorem Gives.typeOf_bind {f : Ty → Exec α} {v : ValueId} (h : Gives F callers (f (F.func.valueType v)) Q) :
    Gives F callers (Exec.typeOf v >>= f) Q := by
  rintro M rfl hc
  exact h M rfl hc

theorem Gives.of_tame {x : Exec α} (h : x.Tame F.func fun _ => True) :
    Gives F callers x fun _ => True := by
  rintro M rfl rfl
  exact (h M rfl).imp fun _ _ h' => ⟨trivial, h'⟩

theorem Gives.onMemory {op : Mem α} (h : ∀ mem a mem', op mem = .ok a mem' → Q a) :
    Gives F callers (Exec.onMemory op) Q := by
  rintro ⟨⟨memory, globals, calls⟩, frame, _⟩ hF hc
  unfold Safe
  cases hop : op memory with
  | ok a mem' =>
    rw [onMemory_ok (M := ⟨⟨memory, globals, calls⟩, frame, _⟩) hop]
    exact ⟨h _ _ _ hop, hF, hc⟩
  | error e mem' =>
    rw [onMemory_error (M := ⟨⟨memory, globals, calls⟩, frame, _⟩) hop]
    trivial

end

section

variable {m : Module} {F : Frame} {callers : List Frame}

theorem operand_fits (hok : F.func.Ok m) (hF : F.Typed) {v : ValueId} {t : Ty}
    (hv : F.func.Has v t ∨ F.func.HasParam v t) : Gives F callers (Exec.operand m v) (Val.Fits t) := by
  refine Gives.frame_bind ?_
  rcases hv with hv | hv
  · obtain ⟨val, hval, rfl, hp, -⟩ := hv.entry
    have hfits := hok.values val (by simpa using Array.mem_of_getElem? hval)
    unfold Ir.Value.Fits at hfits
    rw [hval]
    dsimp only
    cases hk : val.kind with
    | param n => exact absurd hk (hp n)
    | constInt bits =>
      rw [hk] at hfits
      exact .pure hfits
    | constFloat bits =>
      rw [hk] at hfits
      exact .pure hfits
    | constNull =>
      rw [hk] at hfits
      exact .pure hfits
    | global g =>
      rw [hk] at hfits
      have hany : Allows F.func (fun _ => True) [] := ⟨fun _ _ => trivial, fun _ _ _ => trivial⟩
      exact (Gives.of_tame (Exec.globalAddress_tame m hany g)).bind
        fun addr _ => .pure hfits
    | inst b =>
      dsimp only
      split
      · rename_i a ha
        have := hF.regs ha
        rw [hv.valueType_eq] at this
        exact .pure this
      · exact .throw _
  · obtain ⟨n, name, hval, hparam⟩ := hv.entry
    rw [hval]
    dsimp only
    split
    · rename_i a ha
      exact .pure (hF.args hparam ha)
    · exact .throw _

theorem operands_fit (hok : F.func.Ok m) (hF : F.Typed) {vs : List ValueId} {ts : List Ty}
    (hv : List.Forall₂ F.func.Has vs ts) :
    Gives F callers (Exec.operands m vs) fun xs => List.Forall₂ Val.Fits ts xs := by
  induction hv with
  | nil => exact .pure .nil
  | cons hv _ ih =>
    exact (operand_fits hok hF (.inl hv)).bind fun x hx => ih.bind fun xs hxs => .pure (.cons hx hxs)

/-! ### Instructions -/

/-- What an instruction with a result of a type asks for fits. -/
def Effect.Fits (m : Module) (kind : InstKind) (r : Option Ty) : Effect → Prop
  | .done none => True
  | .done (some x) => ∀ t ∈ r, x.Fits t
  | .slot _ => ∀ t ∈ r, t = .ptr
  | .call id xs => ∃ f args, kind = .call (.func id) args f.ret ∧ m.function? id = some f ∧
    List.Forall₂ Val.Fits f.params xs

theorem fits_bool (b : Bool) : (Val.bool b).Fits .i1 := ⟨1, rfl, by cases b <;> decide⟩

theorem fits_mask {t : Ty} {n : Nat} (ht : t.intBits? = some n) (w : UInt64) :
    (Val.int (Word.mask w n)).Fits t := by
  refine ⟨n, ht, ?_⟩
  rw [Word.toNat_mask (Ir.Emit.intBits?_le ht)]
  exact Nat.mod_lt _ (Nat.two_pow_pos n)

theorem opBits_eq {t : Ty} {n : Nat} (ht : t.intBits? = some n) : opBits t = .ok n := by
  cases t <;> simp_all [opBits, Ty.intBits?]

theorem binary_fits (hok : F.func.Ok m) (hF : F.Typed) {op : Ir.BinOp} {a b : ValueId} {t : Ty}
    (ha : F.func.Has a t) (hb : F.func.Has b t) (hop : op.isFloat = t.isFloat)
    (ht : t.isFloat = true ∨ t.isInt = true) : Gives F callers (Exec.binary m op a b) (Val.Fits t) := by
  refine Gives.typeOf_bind ((operand_fits hok hF (.inl ha)).bind fun x _ =>
    (operand_fits hok hF (.inl hb)).bind fun y _ => ?_)
  rw [ha.valueType_eq]
  split
  · rename_i hfloat
    refine (Gives.checked _).bind fun _ _ => (Gives.checked _).bind fun _ _ => .pure ?_
    exact hop.symm.trans hfloat
  · rename_i hfloat
    have hint : t.isInt = true := ht.resolve_left fun h => hfloat (hop.trans h)
    obtain ⟨n, hn⟩ := Option.isSome_iff_exists.1 hint
    refine (Gives.checked _).bind fun bits hbits => (Gives.checked _).bind fun _ _ =>
      (Gives.checked _).bind fun _ _ => ?_
    obtain rfl : n = bits := Except.ok.inj ((opBits_eq hn).symm.trans hbits)
    split
    · rename_i w hw
      obtain ⟨raw, -, rfl⟩ := Option.map_eq_some_iff.1 hw
      exact .pure (fits_mask hn raw)
    · exact Gives.frame_bind (.throw _)

theorem compare_fits (hok : F.func.Ok m) (hF : F.Typed) {p : Ir.IntPred} {a b : ValueId} {t : Ty}
    (ha : F.func.Has a t) (hb : F.func.Has b t) :
    Gives F callers (Exec.compare m p a b) (Val.Fits .i1) := by
  refine Gives.typeOf_bind ((operand_fits hok hF (.inl ha)).bind fun x _ =>
    (operand_fits hok hF (.inl hb)).bind fun y _ => ?_)
  split
  · exact .pure (fits_bool _)
  · exact (Gives.checked _).bind fun _ _ => (Gives.checked _).bind fun _ _ =>
      (Gives.checked _).bind fun _ _ => .pure (fits_bool _)

theorem convert_fits {op : CastOp} {source target : Ty} (hop : op.Fits source target) {x y : Val}
    (hx : x.Fits source) (h : convert op source target x = .ok y) : y.Fits target := by
  have hbits : target.isInt = true → ∃ n, target.intBits? = some n ∧ opBits target = .ok n := fun ht =>
    have ⟨n, hn⟩ := Option.isSome_iff_exists.1 ht
    ⟨n, hn, opBits_eq hn⟩
  cases op with
  | trunc =>
    obtain ⟨n, hn, hop'⟩ := hbits hop.2
    cases x <;> simp only [convert, Val.asInt, hop', bind, Except.bind, pure, Except.pure] at h <;> cases h
    exact fits_mask hn _
  | zext =>
    obtain ⟨k, n, hk, hn, hle⟩ := hop
    cases x <;> simp only [convert, Val.asInt, bind, Except.bind, pure, Except.pure] at h <;> cases h
    obtain ⟨k', hk', hlt⟩ := hx
    obtain rfl : k = k' := Option.some.inj (hk.symm.trans hk')
    exact ⟨n, hn, Nat.lt_of_lt_of_le hlt (Nat.pow_le_pow_right (by decide) hle)⟩
  | sext =>
    obtain ⟨k, n, hk, hn, -⟩ := hop
    cases x <;> simp only [convert, Val.asSigned, Val.asInt, opBits_eq hk, opBits_eq hn, bind, Except.bind,
      Except.map, pure, Except.pure] at h <;> cases h
    exact fits_mask hn _
  | sitofp =>
    obtain ⟨k, hk⟩ := Option.isSome_iff_exists.1 hop.1
    cases x <;> simp only [convert, Val.asSigned, Val.asInt, opBits_eq hk, bind, Except.bind, Except.map,
      pure, Except.pure] at h <;> cases h
    exact hop.2
  | uitofp =>
    cases x <;> simp only [convert, Val.asInt, bind, Except.bind, pure, Except.pure] at h <;> cases h
    exact hop.2
  | fptosi =>
    obtain ⟨n, hn, hop'⟩ := hbits hop.2
    cases x <;> simp only [convert, Val.asFloat, hop', bind, Except.bind, pure, Except.pure] at h <;> cases h
    exact fits_mask hn _
  | fptoui =>
    obtain ⟨n, hn, hop'⟩ := hbits hop.2
    cases x <;> simp only [convert, Val.asFloat, hop', bind, Except.bind, pure, Except.pure] at h <;> cases h
    exact fits_mask hn _
  | fpext =>
    cases x <;> simp only [convert, Val.asFloat, bind, Except.bind, pure, Except.pure] at h <;> cases h
    exact hop.2
  | fptrunc =>
    cases x <;> simp only [convert, Val.asFloat, bind, Except.bind, pure, Except.pure] at h <;> cases h
    exact hop.2

/-- Of the host functions only the allocators come back, with an address. -/
theorem callHost_returns {name : String} {xs : List Val} {mem mem' : Memory} {r : Option Val}
    (h : callHost name xs mem = .ok r mem') :
    (name = hostMalloc ∨ name = hostMallocAtomic) ∧ ∃ addr, r = some (.ptr addr) := by
  have hchecked : ∀ {β : Type} {e : Except Fault UInt64} {f : UInt64 → Mem β} {b : β},
      (checked e >>= f) mem = .ok b mem' → ∃ w, f w mem = .ok b mem' := by
    intro β e f b hb
    cases e with
    | error e => cases hb
    | ok w => exact ⟨w, hb⟩
  unfold callHost at h
  split at h
  · rename_i hname
    obtain ⟨size, hsize⟩ := hchecked h
    cases ha : Mem.allocate size.toNat mem with
    | error e mem₁ =>
      rw [bind_error ha] at hsize
      cases hsize
    | ok addr mem₁ =>
      rw [bind_ok ha] at hsize
      cases hsize
      exact ⟨hname, addr, rfl⟩
  · split at h
    · obtain ⟨index, hindex⟩ := hchecked h
      obtain ⟨size, hsize⟩ := hchecked hindex
      cases hsize
    · cases h

theorem callHost_fits (hm : m.HostsKnown) {id : Ir.HostId} {d : Ir.HostDecl} (hd : m.host? id = some d)
    {xs : List Val} {mem mem' : Memory} {x : Val} (h : callHost d.name xs mem = .ok (some x) mem') :
    x.Fits d.ret := by
  have hmem : d ∈ m.knownHosts := hm d (by simpa using Array.mem_of_getElem? hd)
  obtain ⟨hname, addr, hx⟩ := callHost_returns h
  cases hx
  simp only [Module.knownHosts, List.mem_cons, List.not_mem_nil, or_false] at hmem
  rcases hmem with rfl | rfl | rfl
  · rfl
  · rfl
  · simp [hostBoundsError, hostMalloc, hostMallocAtomic] at hname

theorem Gives.of_allowed {α : Type} {x : Exec α} {v : ValueId}
    (h : Allows F.func (fun _ => True) [v] → x.Tame F.func fun _ => True) :
    Gives F callers x fun _ => True :=
  .of_tame (h ⟨fun _ _ => trivial, fun _ _ _ => trivial⟩)

theorem operand_gives (v : ValueId) : Gives F callers (Exec.operand m v) fun _ => True :=
  .of_allowed fun h => Exec.operand_tame m h (List.mem_singleton_self v)

theorem operandPtr_gives (v : ValueId) : Gives F callers (Exec.operandPtr m v) fun _ => True :=
  .of_allowed fun h => Exec.operandPtr_tame m h (List.mem_singleton_self v)

theorem operandInt_gives (v : ValueId) : Gives F callers (Exec.operandInt m v) fun _ => True :=
  .of_allowed fun h => Exec.operandInt_tame m h (List.mem_singleton_self v)

theorem operandFloat_gives (v : ValueId) : Gives F callers (Exec.operandFloat m v) fun _ => True :=
  .of_allowed fun h => Exec.operandFloat_tame m h (List.mem_singleton_self v)

theorem operandBool_gives (v : ValueId) : Gives F callers (Exec.operandBool m v) fun _ => True :=
  .of_allowed fun h => Exec.operandBool_tame m h (List.mem_singleton_self v)

theorem memory_gives : Gives F callers Exec.memory fun _ => True := .of_tame Exec.memory_tame

/-- An instruction that fits gives what its result type says. -/
theorem perform_fits (hm : WellTyped m) (hok : F.func.Ok m) (hF : F.Typed) {kind : InstKind} {r : Option Ty}
    (hk : kind.Typed m F.func r) : Gives F callers (Exec.perform m kind) (Effect.Fits m kind r) := by
  have hgives : ∀ {t : Ty} {x : Val}, r = some t → x.Fits t → Effect.Fits m kind r (.done (some x)) := by
    rintro t x rfl hx _ ⟨⟩
    exact hx
  cases kind with
  | alloca t =>
    refine (Gives.checked _).bind fun _ _ =>
      (Gives.onMemory (Q := fun _ => True) fun _ _ _ _ => trivial).bind fun addr _ => .pure ?_
    rintro u hu
    rw [hk.2] at hu
    cases hu
    rfl
  | load t p =>
    exact (operandPtr_gives p).bind fun addr _ => memory_gives.bind fun mem _ =>
      (Gives.checked _).bind fun x hx => .pure (hgives hk.2.2 (load_fits hx))
  | store v p =>
    exact Gives.typeOf_bind ((operand_gives v).bind fun x _ =>
      (operandPtr_gives p).bind fun addr _ =>
      (Gives.onMemory (Q := fun _ => True) fun _ _ _ _ => trivial).bind fun _ _ => .pure trivial)
  | binary op a b =>
    obtain ⟨t, ha, hb, hop, ht, hr⟩ := hk
    exact (binary_fits hok hF ha hb hop ht).bind fun x hx => .pure (hgives hr hx)
  | fneg v =>
    obtain ⟨t, hv, ht, hr⟩ := hk
    exact (operandFloat_gives v).bind fun f _ => .pure (hgives hr ht)
  | icmp p a b =>
    obtain ⟨t, ha, hb, ht, hr⟩ := hk
    exact (compare_fits hok hF ha hb).bind fun x hx => .pure (hgives hr hx)
  | fcmp p a b =>
    obtain ⟨t, ha, hb, ht, hr⟩ := hk
    exact (operandFloat_gives a).bind fun _ _ => (operandFloat_gives b).bind fun _ _ =>
      .pure (hgives hr (fits_bool _))
  | cast op v target =>
    obtain ⟨t, hv, hop, hr⟩ := hk
    refine Gives.typeOf_bind ((operand_fits hok hF (.inl hv)).bind fun x hx =>
      (Gives.checked _).bind fun y hy => .pure (hgives hr ?_))
    rw [hv.valueType_eq] at hy
    exact convert_fits hop hx hy
  | select c a b =>
    obtain ⟨t, hc, ha, hb, hr⟩ := hk
    refine (operandBool_gives c).bind fun taken _ => ?_
    split
    · exact (operand_fits hok hF (.inl ha)).bind fun x hx => .pure (hgives hr hx)
    · exact (operand_fits hok hF (.inl hb)).bind fun x hx => .pure (hgives hr hx)
  | phi t incoming => exact Gives.frame_bind (.throw _)
  | call callee args ret =>
    obtain ⟨params, hs, ha, hr⟩ := hk
    cases callee with
    | func id =>
      obtain ⟨f, hf, hsig⟩ := Option.map_eq_some_iff.1 hs
      cases hsig
      exact (operands_fit hok hF ha).bind fun xs hxs => .pure ⟨f, args, rfl, hf, hxs⟩
    | host id =>
      obtain ⟨d, hd, hsig⟩ := Option.map_eq_some_iff.1 hs
      cases hsig
      refine (operands_fit hok hF ha).bind fun xs _ => ?_
      rw [hd]
      refine (Gives.onMemory (Q := fun x => ∀ y, x = some y → y.Fits d.ret) ?_).bind fun x hx => .pure ?_
      · rintro mem _ mem' hcall x rfl
        exact callHost_fits hm.hosts hd hcall
      · cases x with
        | none => trivial
        | some x =>
          intro t ht
          rw [hr] at ht
          split at ht
          · cases ht
          · cases ht
            exact hx x rfl
  | ptrAdd p o =>
    exact (operandPtr_gives p).bind fun _ _ => (operandInt_gives o).bind fun _ _ =>
      .pure (hgives hk.2.2 rfl)
  | fieldPtr s p field =>
    refine (operandPtr_gives p).bind fun addr _ => ?_
    split
    · exact .throw _
    · exact (Gives.checked _).bind fun _ _ => .pure (hgives hk.2.2 rfl)
  | memCopy d s l =>
    exact (operandPtr_gives d).bind fun _ _ => (operandPtr_gives s).bind fun _ _ =>
      (operandInt_gives l).bind fun _ _ =>
      (Gives.onMemory (Q := fun _ => True) fun _ _ _ _ => trivial).bind fun _ _ => .pure trivial
  | memMove d s l =>
    exact (operandPtr_gives d).bind fun _ _ => (operandPtr_gives s).bind fun _ _ =>
      (operandInt_gives l).bind fun _ _ =>
      (Gives.onMemory (Q := fun _ => True) fun _ _ _ _ => trivial).bind fun _ _ => .pure trivial

/-! ### Frames -/

theorem Frame.Typed.setReg (hF : F.Typed) {v : ValueId} {x : Val} (hx : x.Fits (F.func.valueType v)) :
    Frame.Typed { F with regs := F.regs.setIfInBounds v.index (some x) } where
  args := hF.args
  regs {u y} hy := by
    rw [Array.getElem?_setIfInBounds] at hy
    split at hy
    · rename_i he
      split at hy
      · cases hy
        rw [← Ir.Id.ext he]
        exact hx
      · cases hy
    · exact hF.regs hy

end

section

variable {m : Module} {limit : Nat} {M : State}

/-- A frame goes on behind an instruction whose result fits. -/
theorem Frame.Typed.finish (hF : M.frame.Typed) {r : Option ValueId} {x : Option Val}
    (hx : ∀ v ∈ r, ∀ y ∈ x, y.Fits (M.frame.func.valueType v)) : (M.finish r x).frame.Typed := by
  cases r with
  | none => exact ⟨hF.args, hF.regs⟩
  | some v =>
    cases x with
    | none => exact ⟨hF.args, hF.regs⟩
    | some x =>
      have := hF.setReg (hx v rfl x rfl)
      exact ⟨this.args, this.regs⟩

theorem func_finish (M : State) (r : Option ValueId) (x : Option Val) :
    (M.finish r x).frame.func = M.frame.func := by
  cases r with
  | none => rfl
  | some v => cases x <;> rfl

/-- Control enters a block: its merges take values of their types. -/
theorem phiValues_fit {F : Frame} {callers : List Frame} (hok : F.func.Ok m) (hF : F.Typed)
    {block : BlockId} {source : Option BlockId} {insts : List Inst}
    (hi : ∀ x ∈ insts, x.Ok m F.func) :
    Gives F callers (Exec.phiValues m block source insts) fun values =>
      ∀ e ∈ values, ∀ r ∈ e.1, e.2.Fits (F.func.valueType r) := by
  induction insts with
  | nil => exact .pure (by simp)
  | cons inst rest ih =>
    obtain ⟨result, kind⟩ := inst
    cases kind with
    | phi t incoming =>
      unfold Exec.phiValues
      split
      · exact .throw _
      · split
        · exact .throw _
        · rename_i v _ hfound
          have htyped := (hi _ List.mem_cons_self).typed
          have hv := htyped.1 _ (List.mem_of_find?_eq_some hfound)
          refine (operand_fits hok hF (.inl hv)).bind fun x hx =>
            (ih fun y hy => hi y (List.mem_cons_of_mem _ hy)).bind fun values hvalues => .pure ?_
          intro e he r hr
          rcases List.mem_cons.1 he with rfl | he
          · have hres : result.map F.func.valueType = some t := htyped.2
            cases hr
            rw [Option.map_some] at hres
            rw [Option.some.inj hres]
            exact hx
          · exact hvalues e he r hr
    | _ => exact .pure (by simp)

theorem setRegs_typed {values : List (Option ValueId × Val)} (hF : M.frame.Typed)
    (hv : ∀ e ∈ values, ∀ r ∈ e.1, e.2.Fits (M.frame.func.valueType r)) :
    Safe (fun _ => True) (Exec.setRegs values) M fun _ M' =>
      M'.frame.Typed ∧ M'.frame.func = M.frame.func ∧ M'.callers = M.callers := by
  induction values generalizing M with
  | nil => exact .pure ⟨hF, rfl, rfl⟩
  | cons value rest ih =>
    obtain ⟨r, x⟩ := value
    cases r with
    | none => exact ih hF fun e he => hv e (List.mem_cons_of_mem _ he)
    | some r =>
      refine Safe.bind (Q := fun _ M' => M'.frame.Typed ∧ M'.frame.func = M.frame.func ∧
        M'.callers = M.callers) ⟨hF.setReg (hv _ List.mem_cons_self r rfl), rfl, rfl⟩ ?_
      rintro - M₁ ⟨h₁, hf₁, hc₁⟩
      refine (ih h₁ fun e he => ?_).imp fun _ M₂ h₂ => ⟨h₂.1, h₂.2.1.trans hf₁, h₂.2.2.trans hc₁⟩
      rw [hf₁]
      exact hv e (List.mem_cons_of_mem _ he)

theorem enterBlock_typed (hok : M.frame.func.Ok m) (hF : M.frame.Typed) (block : BlockId)
    (source : Option BlockId) :
    Safe (fun _ => True) (Exec.enterBlock m block source) M fun _ M' =>
      M'.frame.Typed ∧ M'.frame.func = M.frame.func ∧ M'.callers = M.callers := by
  refine Safe.frame_bind ?_
  split
  · exact .throw trivial
  · rename_i code hcode
    have hi : ∀ x ∈ code.insts.toList, x.Ok m M.frame.func := by
      intro x hx
      refine hok.insts block x ?_
      rw [Ir.Function.block?] at hcode
      simpa [Ir.Function.code, hcode] using hx
    refine (phiValues_fit hok hF hi M rfl rfl).bind fun values M₁ h₁ => ?_
    obtain ⟨hv, hf₁, hc₁⟩ := h₁
    refine (setRegs_typed (M := M₁) (hf₁ ▸ hF) (by rw [hf₁]; exact hv)).bind fun _ M₂ h₂ => ?_
    exact ⟨⟨h₂.1.args, h₂.1.regs⟩, h₂.2.1.trans (by rw [hf₁]), h₂.2.2.trans hc₁⟩

/-! ### Runs -/

/-- The frame waits for a call that returns a type. -/
def Frame.Awaits (ret : Ty) (F : Frame) : Prop :=
  ∃ result callee args, F.code.insts[F.next]? = some ⟨result, .call callee args ret⟩

/-- Frames wait for each other, the outermost returns `last`. -/
def Chained (last : Ty) : Ty → List Frame → Prop
  | ret, [] => ret = last
  | ret, F :: rest => F.Awaits ret ∧ Chained last F.func.ret rest

/-- All frames of a run hold values of their types, and wait for values of the types that are returned. -/
structure State.Typed (last : Ty) (M : State) : Prop where
  frame : M.frame.Typed
  callers : ∀ F ∈ M.callers, F.Typed
  chain : Chained last M.frame.func.ret M.callers

/-- The instruction at the position of a frame fits. -/
theorem Frame.Inside.inst_ok (hm : WellTyped m) {F : Frame} (h : F.Inside m) {inst : Inst} {n : Nat}
    (hi : F.code.insts[n]? = some inst) : inst.Ok m F.func := by
  obtain ⟨id, hid⟩ := h.func
  refine (hm.functions hid).insts F.block inst ?_
  have hcode := h.code
  rw [Ir.Function.block?] at hcode
  simpa [Ir.Function.code, hcode] using Array.mem_of_getElem? hi

theorem Frame.Inside.ok (hm : WellTyped m) {F : Frame} (h : F.Inside m) : F.func.Ok m :=
  have ⟨_, hid⟩ := h.func
  hm.functions hid

variable {last : Ty}

theorem popReturn_typed (hm : WellTyped m) (hin : M.Inside m) (h : M.Typed last) {value : Option Val}
    (hv : Returns M.frame.func.ret value) :
    Safe (fun _ => True) (Exec.popReturn value) M fun r M' =>
      match r with
      | none => M'.Typed last
      | some v => Returns last v := by
  have hchain := h.chain
  cases hc : M.callers with
  | nil =>
    unfold Safe
    rw [popReturn_last hc]
    rw [hc] at hchain
    exact hchain ▸ hv
  | cons caller callers =>
    rw [hc] at hchain
    obtain ⟨⟨result, callee, args, hinst⟩, hrest⟩ := hchain
    have htyped := ((hin.callers caller (by simp [hc])).1.inst_ok hm hinst).typed
    obtain ⟨params, -, -, hres⟩ := htyped
    unfold Safe
    rw [popReturn_caller hc]
    unfold State.return
    dsimp only
    rw [hinst]
    refine ⟨Frame.Typed.finish (M := ⟨_, caller, callers⟩) (h.callers caller (by simp [hc])) ?_, ?_, ?_⟩
    · intro v hv' x hx
      cases hv'
      cases hx
      rw [Option.map_some] at hres
      split at hres
      · cases hres
      · rw [Option.some.inj hres]
        exact hv
    · rw [callers_finish]
      exact fun F hF => h.callers F (by rw [hc]; exact List.mem_cons_of_mem _ hF)
    · rw [callers_finish, func_finish]
      exact hrest

theorem ofCall_typed {id : FuncId} {f : Function} (hf : m.function? id = some f) {xs : List Val}
    (hx : List.Forall₂ Val.Fits f.params xs) {depth : Nat} {F : Frame}
    (h : Frame.ofCall m limit id xs depth = .ok F) : F.Typed ∧ F.func = f := by
  unfold Frame.ofCall at h
  rw [hf] at h
  dsimp only [Option.getD_some] at h
  split at h
  · cases h
  · split at h
    · cases h
    · split at h
      · cases h
      · cases h
        refine ⟨⟨fun {n t x} ht hn => ?_, fun {v x} hv => ?_⟩, rfl⟩
        · have hn' : xs[n]? = some x := by simpa using hn
          obtain ⟨hlt, rfl⟩ := List.getElem?_eq_some_iff.1 ht
          obtain ⟨hlt', rfl⟩ := List.getElem?_eq_some_iff.1 hn'
          exact (List.forall₂_iff_get.1 hx).2 n hlt hlt'
        · rw [Array.getElem?_replicate] at hv
          split at hv <;> cases hv

/-- A step keeps the values of their types. -/
theorem step_typed (limit : Nat) (hm : WellTyped m) (hin : M.Inside m) (h : M.Typed last) :
    Safe (fun _ => True) (Exec.step m limit) M fun r M' =>
      match r with
      | none => M'.Typed last
      | some v => Returns last v := by
  have hok := hin.frame.ok hm
  cases hi : M.frame.code.insts[M.frame.next]? with
  | some inst =>
    have hinst := hin.frame.inst_ok hm hi
    unfold Safe
    rw [step_inst hi]
    refine Safe.bind (Q := fun _ M' => M'.Typed last) ?_ fun _ _ h' => .pure h'
    refine (perform_fits hm hok h.frame hinst.typed M rfl rfl).bind fun effect M₁ h₁ => ?_
    obtain ⟨hfits, hf₁, hc₁⟩ := h₁
    have hM₁ : M₁.Typed last := ⟨hf₁ ▸ h.frame, hc₁ ▸ h.callers, by rw [hf₁, hc₁]; exact h.chain⟩
    cases effect with
    | done x =>
      unfold Safe
      dsimp only
      rw [finishInst_eq]
      refine ⟨hM₁.frame.finish ?_, by rw [callers_finish]; exact hM₁.callers, ?_⟩
      · intro v hv y hy
        cases hy
        rw [hf₁]
        exact hfits _ (by rw [hv]; rfl)
      · rw [callers_finish, func_finish]
        exact hM₁.chain
    | slot addr =>
      refine Safe.bind (Q := fun _ M' => M' = M₁.addSlot addr) rfl ?_
      rintro - _ rfl
      unfold Safe
      dsimp only
      rw [finishInst_eq]
      refine ⟨Frame.Typed.finish (M := M₁.addSlot addr) ⟨hM₁.frame.args, hM₁.frame.regs⟩ ?_,
        by rw [callers_finish]; exact hM₁.callers, ?_⟩
      · intro v hv y hy
        cases hy
        show M₁.frame.func.valueType v = .ptr
        rw [hf₁]
        exact hfits _ (by rw [hv]; rfl)
      · rw [callers_finish, func_finish]
        exact hM₁.chain
    | call id xs =>
      obtain ⟨f, args, hkind, hf, hxs⟩ := hfits
      show Safe _ (checked (Frame.ofCall m limit id xs M₁.frame.depth) >>= _) M₁ _
      cases hcall : Frame.ofCall m limit id xs M₁.frame.depth with
      | error e => trivial
      | ok F =>
        obtain ⟨hF, rfl⟩ := ofCall_typed hf hxs hcall
        let M₂ : State := ⟨M₁.store.countCall id, F, M₁.frame :: M₁.callers⟩
        refine (enterBlock_typed (M := M₂) (hm.functions hf) hF _ _).imp fun _ M' h' => ⟨h'.1, ?_, ?_⟩
        · rw [h'.2.2]
          intro G hG
          rcases List.mem_cons.1 hG with rfl | hG
          · exact hM₁.frame
          · exact hM₁.callers G hG
        · rw [h'.2.1, h'.2.2]
          refine ⟨⟨inst.result, .func id, args, ?_⟩, hM₁.chain⟩
          rw [hf₁, hi, ← hkind]
  | none =>
    have hterm : ∀ {t}, M.frame.code.terminator = some t → t.Ok M.frame.func := fun ht =>
      hok.terms (hin.frame.ending.trans ht)
    have henter : ∀ (target : BlockId) (M' : State), M'.frame = M.frame → M'.callers = M.callers →
        Safe (fun _ => True) (do
          Exec.enterBlock m target (some M.frame.block)
          pure none : Exec (Option (Option Val))) M' fun r M'' =>
          match r with
          | none => M''.Typed last
          | some v => Returns last v := by
      intro target M' hf hc
      refine (enterBlock_typed (hf ▸ hok) (hf ▸ h.frame) target _).bind fun _ M'' h'' => .pure ?_
      exact ⟨h''.1, by rw [h''.2.2, hc]; exact h.callers, by rw [h''.2.1, h''.2.2, hf, hc]; exact h.chain⟩
    unfold Safe
    rw [step_terminator hi]
    refine Safe.frame_bind ?_
    split
    · exact .throw trivial
    · exact henter _ M rfl rfl
    · rename_i c l r ht
      refine (operandBool_gives c M rfl rfl).bind fun taken M₁ h₁ => henter _ M₁ h₁.2.1 h₁.2.2
    · rename_i ht
      exact popReturn_typed hm hin h (hterm ht)
    · rename_i v ht
      refine (operand_fits hok h.frame (.inl (hterm ht)) M rfl rfl).bind fun x M₁ h₁ => ?_
      obtain ⟨hx, hf₁, hc₁⟩ := h₁
      refine popReturn_typed hm ⟨hf₁ ▸ hin.frame, hc₁ ▸ hin.callers⟩ ⟨hf₁ ▸ h.frame, hc₁ ▸ h.callers, ?_⟩ ?_
      · rw [hf₁, hc₁]
        exact h.chain
      · rw [hf₁]
        exact hx
    · exact .throw trivial

/-- The states of a run from a call with arguments of their types hold values of their types. -/
theorem Visits.typed (hm : WellTyped m) {store : Store} {id : FuncId} {f : Function}
    (hf : m.function? id = some f) {xs : List Val} (hx : List.Forall₂ Val.Fits f.params xs)
    (h : Visits m limit store id xs M) : M.Typed f.ret := by
  induction h with
  | @start F M hF hM =>
    obtain ⟨hT, rfl⟩ := ofCall_typed hf hx hF
    have := enterBlock_typed (M := ⟨store.countCall id, F, []⟩) (hm.functions hf) hT Ir.Id.entry none
    unfold Safe at this
    rw [hM] at this
    exact ⟨this.1, by simp [this.2.2], by rw [this.2.1, this.2.2]; rfl⟩
  | @step M M' hvisit hstep ih =>
    have := step_typed limit hm hvisit.inside ih
    unfold Safe at this
    rw [hstep] at this
    exact this

theorem run_returns (hm : WellTyped m) {store : Store} {id : FuncId} {f : Function}
    (hf : m.function? id = some f) {xs : List Val} (hx : List.Forall₂ Val.Fits f.params xs)
    (h : Visits m limit store id xs M) {fuel : Nat} {r : Option Val}
    (hr : (run m limit fuel M).result = .ok r) : Returns f.ret r := by
  induction fuel generalizing M with
  | zero => cases hr
  | succ fuel ih =>
    have htyped := step_typed limit hm h.inside (h.typed hm hf hx)
    unfold Safe at htyped
    unfold run at hr
    cases hs : Exec.step m limit M with
    | error e M' =>
      rw [hs] at hr
      cases hr
    | ok v M' =>
      rw [hs] at hr htyped
      cases v with
      | none => exact ih (h.step hs) hr
      | some v =>
        cases hr
        exact htyped

/-- A call that ends normally returns a value of the return type, and nothing if that is empty. -/
theorem invoke_returns (hm : WellTyped m) {limit fuel : Nat} {store : Store} {id : FuncId} {f : Function}
    (hf : m.function? id = some f) {xs : List Val} (hx : List.Forall₂ Val.Fits f.params xs)
    {r : Option Val} (hr : (invoke m limit fuel store id xs).result = .ok r) : Returns f.ret r := by
  unfold invoke at hr
  cases hF : Frame.ofCall m limit id xs 0 with
  | error e =>
    rw [hF] at hr
    cases hr
  | ok F =>
    rw [hF] at hr
    dsimp only at hr
    cases hM : Exec.enterBlock m Ir.Id.entry none ⟨store.countCall id, F, []⟩ with
    | error e M =>
      rw [hM] at hr
      cases hr
    | ok _ M =>
      rw [hM] at hr
      exact run_returns hm hf hx (.start hF hM) hr

end

end BlockForge.Machine
