import BlockForge.Proofs.Ir.Emission
import BlockForge.Proofs.Ir.Printed

/-!
# Building tidy functions

Every operation of the builder leaves the functions of its module tidy: a new result is a new value, an integer
constant is cut to its type, and new blocks are to have names like blocks.
-/

namespace BlockForge.Ir

namespace Function

namespace Tidy

variable {f : Function} (h : f.Tidy)

include h

theorem addValue {v : Value} (hv : ∀ {ty bits name}, v = ⟨ty, .constInt bits, name⟩ →
    Word.mask bits (ty.intBits?.getD 64) = bits) : (f.addValue v).Tidy where
  labels := h.labels
  once := h.once
  result r hr := by
    obtain ⟨ty, block, name, hr'⟩ := h.result r hr
    exact ⟨ty, block, name, getElem?_of_prefix (by simp [Function.addValue]) hr'⟩
  params i hi := by
    obtain ⟨ty, hp⟩ := h.params i hi
    exact ⟨ty, getElem?_of_prefix (by simp [Function.addValue]) hp⟩
  masked hm := by
    rcases (by simpa [Function.addValue] using hm : _ ∈ f.values ∨ _ = v) with hm | hm
    · exact h.masked (by simpa using hm)
    · exact hv hm.symm

theorem addBlock {name : String} (hn : IsLabel name) : (f.addBlock name).Tidy where
  labels := by
    intro n hm
    rcases (by simpa [Function.addBlock] using hm : (∃ b ∈ f.blocks, b.name = n) ∨ n = name) with ⟨b, hb, rfl⟩ | rfl
    · exact h.labels _ (List.mem_map_of_mem (by simpa using hb))
    · exact hn
  once := by simpa [Function.addBlock, results, insts] using h.once
  result r hr := h.result r (by simpa [Function.addBlock, results, insts] using hr)
  params := h.params
  masked := h.masked

/-- With the results in another order, and all else as it was. -/
theorem of_perm {g : Function} (hblocks : g.blocks.toList.map (·.name) = f.blocks.toList.map (·.name))
    (hresults : g.results.Perm f.results) (hparams : g.params = f.params) (hvalues : g.values = f.values) :
    g.Tidy where
  labels := by rw [hblocks]; exact h.labels
  once := hresults.nodup_iff.2 h.once
  result r hr := by rw [value?, hvalues]; exact h.result r (hresults.mem_iff.1 hr)
  params i hi := by rw [value?, hvalues]; exact h.params i (by rwa [hparams] at hi)
  masked hm := h.masked (by rwa [hvalues] at hm)

end Tidy

theorem names_modify (f : Function) (i : BlockId) {g : Block → Block} (hg : ∀ b, (g b).name = b.name) :
    (f.blocks.modify i.index g).toList.map (·.name) = f.blocks.toList.map (·.name) := by
  refine List.ext_getElem? fun j => ?_
  simp only [Array.toList_modify, List.getElem?_map, List.getElem?_modify]
  cases f.blocks.toList[j]? with
  | none => rfl
  | some b =>
    by_cases hj : i.index = j
    · simp [hj, hg]
    · simp [hj]

/-- An instruction more in one block, or none if there is no such block. -/
theorem insts_editInsts (f : Function) (i : BlockId) {k : Array Inst → Array Inst} {x : Inst}
    (hk : ∀ xs, (k xs).toList.Perm (x :: xs.toList)) :
    (f.editInsts i k).insts.Perm (x :: f.insts) ∨ (f.editInsts i k).insts = f.insts := by
  have hlist : ∀ (bs : List Block) (n : Nat),
      ((bs.modify n fun bl => { bl with insts := k bl.insts }).flatMap (·.insts.toList)).Perm
        (x :: bs.flatMap (·.insts.toList)) ∨
      (bs.modify n fun bl => { bl with insts := k bl.insts }).flatMap (·.insts.toList) =
        bs.flatMap (·.insts.toList) := by
    intro bs
    induction bs with
    | nil => intro n; exact .inr (by cases n <;> rfl)
    | cons b bs ih =>
      intro n
      cases n with
      | zero => exact .inl (by simpa using (hk b.insts).append_right _)
      | succ n =>
        simp only [List.modify_succ_cons, List.flatMap_cons]
        refine (ih n).imp (fun hp => ?_) fun heq => by rw [heq]
        exact (hp.append_left _).trans List.perm_middle
  unfold insts
  rw [editInsts, Array.toList_modify]
  exact hlist _ _

namespace Tidy

variable {f : Function} (h : f.Tidy)

include h

theorem setEnding (i : BlockId) (t : Terminator) : (f.setEnding i t).Tidy := by
  refine h.of_perm (names_modify f i fun _ => rfl) ?_ rfl rfl
  have hinsts : (f.setEnding i t).insts = f.insts := by
    unfold insts
    rw [Function.setEnding, Array.toList_modify]
    generalize f.blocks.toList = bs, i.index = n
    induction bs generalizing n with
    | nil => cases n <;> rfl
    | cons b bs ih => cases n <;> simp_all
  rw [results, hinsts, results]

/-- An instruction without a result. -/
theorem addVoid (i : BlockId) {k : Array Inst → Array Inst} {kind : InstKind}
    (hk : ∀ xs, (k xs).toList.Perm (⟨none, kind⟩ :: xs.toList)) : (f.editInsts i k).Tidy := by
  refine h.of_perm (names_modify f i fun _ => rfl) ?_ rfl rfl
  rcases insts_editInsts f i hk with hp | heq
  · exact hp.filterMap _
  · rw [results, heq, results]

/-- An instruction whose result is the next value. -/
theorem addResult (i : BlockId) {k : Array Inst → Array Inst} {kind : InstKind} {ty : Ty} {block : BlockId}
    {name : String} (hk : ∀ xs, (k xs).toList.Perm (⟨some ⟨f.values.size⟩, kind⟩ :: xs.toList)) :
    ((f.addValue ⟨ty, .inst block, name⟩).editInsts i k).Tidy := by
  have hadd : (f.addValue ⟨ty, .inst block, name⟩).Tidy := h.addValue (by simp)
  rcases insts_editInsts (f.addValue ⟨ty, .inst block, name⟩) i hk with hp | heq
  · have hresults : ((f.addValue ⟨ty, .inst block, name⟩).editInsts i k).results.Perm
        (⟨f.values.size⟩ :: f.results) := hp.filterMap _
    -- what has been a result is an older value
    have hfresh : (⟨f.values.size⟩ : ValueId) ∉ f.results := by
      intro hr
      obtain ⟨_, _, _, hv⟩ := h.result _ hr
      simp [value?] at hv
    refine ⟨?_, hresults.nodup_iff.2 (List.nodup_cons.2 ⟨hfresh, h.once⟩), fun r hr => ?_, hadd.params, hadd.masked⟩
    · have hnames := names_modify (f.addValue ⟨ty, .inst block, name⟩) i (g := fun bl => { bl with insts := k bl.insts })
        fun _ => rfl
      exact fun n hn => hadd.labels n (hnames ▸ hn)
    · rcases List.mem_cons.1 (hresults.mem_iff.1 hr) with rfl | hr
      · exact ⟨ty, block, name, by simp [value?, editInsts, Function.addValue]⟩
      · exact hadd.result r hr
  · refine hadd.of_perm (names_modify _ i fun _ => rfl) ?_ rfl rfl
    rw [results, heq, results]

end Tidy

end Function

theorem perm_push (x : Inst) (xs : Array Inst) : (xs.push x).toList.Perm (x :: xs.toList) := by
  simp

theorem perm_insertAfterLeading (leading : Inst → Bool) (x : Inst) (xs : Array Inst) :
    (insertAfterLeading leading x xs).toList.Perm (x :: xs.toList) := by
  have hperm : (xs.toList.takeWhile leading ++ x :: xs.toList.dropWhile leading).Perm
      (x :: (xs.toList.takeWhile leading ++ xs.toList.dropWhile leading)) := List.perm_middle
  rwa [List.takeWhile_append_dropWhile] at hperm

/-! ### Tidy modules -/

/-- A module of tidy functions. -/
structure Module.Tidy (m : Module) : Prop where
  function : ∀ {j f}, m.function? j = some f → f.Tidy

/-- One function is changed. -/
theorem Module.Tidy.modifyFunction {m : Module} (h : m.Tidy) {func : FuncId} {F : Function → Function}
    (hF : ∀ f, m.function? func = some f → f.Tidy → (F f).Tidy) : (m.modifyFunction func F).Tidy := by
  refine ⟨fun {j f} hf => ?_⟩
  simp only [Module.modifyFunction, Module.function?, Array.getElem?_modify] at hf
  split at hf
  · rename_i hj
    obtain ⟨g, hg, rfl⟩ := Option.map_eq_some_iff.1 hf
    have hg' : m.function? func = some g := by rw [Module.function?, hj]; exact hg
    exact hF g hg' (h.function hg')
  · exact h.function hf


namespace Emit

/-- Leaves tidy modules tidy. -/
structure KeepsTidy {α : Type} (x : Emit α) : Prop where
  run : ∀ {b : Builder}, b.module.Tidy → (x b).2.module.Tidy

namespace KeepsTidy

variable {α β : Type}

theorem pure (a : α) : KeepsTidy (Pure.pure a) := ⟨id⟩

theorem bind {x : Emit α} {f : α → Emit β} (h : KeepsTidy x) (k : ∀ a, KeepsTidy (f a)) : KeepsTidy (x >>= f) :=
  ⟨fun hb => (k _).run (h.run hb)⟩

theorem get_bind {f : Builder → Emit α} (h : ∀ b, KeepsTidy (f b)) : KeepsTidy (get >>= f) :=
  ⟨fun hb => (h _).run hb⟩

end KeepsTidy

theorem demand_module (b : Builder) (d : Demand) (met : Bool) (F : Function → Function) :
    ((b.demand d met).modifyFunction F).module = (b.modifyFunction F).module := by
  cases met <;> rfl

theorem demand_tidy (d : Demand) (met : Builder → Bool) : KeepsTidy (demand d met) := by
  refine ⟨fun {b} h => ?_⟩
  change (b.demand d (met b)).module.Tidy
  cases met b <;> exact h

theorem pushValue_tidy {ty : Ty} {kind : ValueKind} (name : String) (hk : ∀ {bits}, kind = .constInt bits →
    Word.mask bits (ty.intBits?.getD 64) = bits) : KeepsTidy (pushValue ty kind name) :=
  ⟨fun h => h.modifyFunction fun _ _ hf => hf.addValue fun he => by cases he; exact hk rfl⟩

theorem appendBlock_tidy {name : String} (hn : IsLabel name) : KeepsTidy (appendBlock name) :=
  ⟨fun h => h.modifyFunction fun _ _ hf => hf.addBlock hn⟩

theorem closeBlock_tidy (i : BlockId) (t : Terminator) : KeepsTidy (closeBlock i t) := by
  refine ⟨fun {b} h => ?_⟩
  unfold closeBlock
  split
  · exact h
  · exact h.modifyFunction fun _ _ hf => hf.setEnding i t

/-- Two changes of one function are one. -/
theorem modifyFunction_modifyFunction (b : Builder) (F G : Function → Function) :
    (b.modifyFunction F).modifyFunction G = b.modifyFunction (G ∘ F) := by
  simp only [Builder.modifyFunction, Module.modifyFunction]
  congr 2
  exact Array.toList_inj.1 (by simp [List.modify_modify_eq])

/-- The next value becomes the result of an instruction. -/
theorem addResult_tidy {b : Builder} (h : b.module.Tidy) (i : BlockId) {k : Array Inst → Array Inst} {kind : InstKind}
    (ty : Ty) (block : BlockId) (name : String)
    (hk : ∀ xs, (k xs).toList.Perm (⟨some ⟨b.function.values.size⟩, kind⟩ :: xs.toList)) :
    ((b.modifyFunction (·.addValue ⟨ty, .inst block, name⟩)).modifyFunction (·.editInsts i k)).module.Tidy := by
  rw [modifyFunction_modifyFunction]
  refine h.modifyFunction fun f hf ht => ?_
  have hfun : b.function = f := by rw [Builder.function, hf, Option.getD_some]
  rw [hfun] at hk
  exact ht.addResult i hk

theorem insert_tidy {b : Builder} (h : b.module.Tidy) (kind : InstKind) (r : Option ValueId)
    (hi : ∀ i, (b.modifyFunction (·.addInst i ⟨r, kind⟩)).module.Tidy) : (insert kind r b).2.module.Tidy := by
  simp only [insert, modify, modifyGet, MonadStateOf.modifyGet, StateT.modifyGet, Pure.pure]
  split
  · exact h
  · split
    · exact h
    · exact hi _

theorem emitVoid_tidy (kind : InstKind) : KeepsTidy (emitVoid kind) :=
  ⟨fun h => insert_tidy h kind none fun i => h.modifyFunction fun _ _ hf => hf.addVoid i (perm_push _)⟩

theorem emit_tidy (ty : Ty) (kind : InstKind) (name : String) : KeepsTidy (emit ty kind name) :=
  ⟨fun h => insert_tidy ((pushValue_tidy name (by simp)).run h) kind _ fun i =>
    addResult_tidy h i ty _ name (perm_push _)⟩

theorem constInt_tidy (ty : Ty) (value : UInt64) : KeepsTidy (constInt ty value) := by
  refine pushValue_tidy "" fun he => ?_
  have hbits : ty.intBits?.getD 64 ≤ 64 := by cases ty <;> simp [Ty.intBits?]
  cases he
  exact UInt64.toNat_inj.1 (by rw [Word.toNat_mask hbits, Word.toNat_mask hbits, Nat.mod_mod])

theorem entryAlloca_tidy (ty : Ty) (name : String) : KeepsTidy (entryAlloca ty name) := by
  refine ⟨fun {b} h => ?_⟩
  have hrun : (entryAlloca ty name b).2.module = ((b.modifyFunction (·.addValue ⟨.ptr, .inst Id.entry, name⟩)).modifyFunction
      (·.editInsts Id.entry (insertAfterLeading (·.kind.isAlloca) ⟨some ⟨b.function.values.size⟩, .alloca ty⟩))).module :=
    demand_module ..
  rw [hrun]
  exact addResult_tidy h Id.entry _ _ name (perm_insertAfterLeading _ _)

theorem phi_tidy (ty : Ty) (incoming : List (ValueId × BlockId)) (name : String) : KeepsTidy (phi ty incoming name) := by
  refine .get_bind fun b => ?_
  cases b.current with
  | none => exact .bind (demand_tidy ..) fun _ => constInt_tidy ..
  | some i => exact ⟨fun h => addResult_tidy h i ty i name (perm_insertAfterLeading _ _)⟩

theorem onModule_tidy {α : Type} {f : Module → α × Module} (hf : ∀ m, (f m).2.functions = m.functions) :
    KeepsTidy (onModule f) :=
  ⟨fun {b} h => ⟨fun {j g} hg => h.function (j := j) (by rw [Module.function?, ← hf]; exact hg)⟩⟩

theorem callAt_tidy (callee : Callee) (ret : Ty) (args : List ValueId) (name : String) :
    KeepsTidy (callAt callee ret args name) := by
  unfold callAt
  split
  · exact (emitVoid_tidy _).bind fun _ => .pure none
  · exact (emit_tidy ..).bind fun r => .pure (some r)

theorem callHost_tidy (host : HostId) (args : List ValueId) (name : String) : KeepsTidy (callHost host args name) :=
  .get_bind fun _ => callAt_tidy ..

theorem globalString_tidy (text : String) : KeepsTidy (globalString text) :=
  (onModule_tidy fun _ => rfl).bind fun _ => pushValue_tidy "" (by simp)

end Emit

end BlockForge.Ir
