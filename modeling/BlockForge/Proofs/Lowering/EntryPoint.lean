import BlockForge.Proofs.Lowering.Names

/-!
# The wrapper around the entry point

The wrapper calls the entry point and brings its result to the width of an exit code. It is the last
function of the module; the others are as the definitions left them.
-/

namespace StateM

variable {σ α β : Type} {s s' : σ}

theorem bind_eq {x : StateM σ α} {f : α → StateM σ β} {a : α} (h : x s = (a, s')) :
    (x >>= f) s = f a s' := by
  show f (x s).1 (x s).2 = _
  rw [h]

end StateM

namespace BlockForge.Ir

/-! ### The function that was declared last -/

namespace Builder

/-- A builder of the last function of a module. -/
def last (m : Module) (f : Function) (current : Option BlockId) (terminators : Nat) : Builder :=
  ⟨{ m with functions := m.functions.push f }, ⟨m.functions.size⟩, current, terminators, []⟩

variable {m : Module} {f : Function} {current : Option BlockId} {terminators : Nat}

@[simp] theorem current_last : (last m f current terminators).current = current := rfl

@[simp] theorem function_last : (last m f current terminators).function = f := by
  simp [last, Builder.function, Module.function?]

@[simp] theorem modifyFunction_last (g : Function → Function) :
    (last m f current terminators).modifyFunction g = last m (g f) current terminators := by
  have hpush : (m.functions.push f).modify m.functions.size g = m.functions.push (g f) := by
    ext i hi hi'
    · simp
    · rw [Array.getElem_modify]
      split
      · rename_i he
        simp [← he]
      · rename_i hne
        have : i < m.functions.size := by simp at hi; omega
        rw [Array.getElem_push_lt this, Array.getElem_push_lt this]
  simp [last, modifyFunction, Module.modifyFunction, hpush]

theorem function?_last {j : FuncId} {g : Function} (h : m.function? j = some g) :
    (last m f current terminators).module.function? j = some g := by
  have hlt : j.index < m.functions.size := (Array.getElem?_eq_some_iff.1 h).1
  show (m.functions.push f)[j.index]? = some g
  rw [Array.getElem?_push_lt hlt]
  rw [← h]
  simp [Module.function?, hlt]

end Builder

end BlockForge.Ir

namespace BlockForge.Lowering

open Diagnostic (Diag Queue)
open Ir (Builder Emit FuncId Function Module)
open Source (FunctionDef Program)
open BlockForge.Types (Ty)

/-! ### The code of the wrapper -/

/-- A wrapper of one block. -/
def oneBlock (values : Array Ir.Value) (insts : Array Ir.Inst) (ending : Option Ir.Terminator) : Function :=
  ⟨wrapperName, [], .i32, values, #[⟨"entry", insts, ending⟩]⟩

/-- The conversion of a result to an exit code. -/
def exitCast (signed : Bool) (bits : Nat) : Ir.CastOp :=
  if bits < 32 then if signed then .sext else .zext else .trunc

/-- The wrapper around an entry point, by the return type of that. -/
def wrapperCode (sig : Signature) (name : String) (ret : Ir.Ty) : Function :=
  let bits := ret.intBits?.getD 64
  let returned : Ir.Value := ⟨ret, .inst Ir.Id.entry, name⟩
  if ret = .void then
    oneBlock #[⟨.i32, .constInt 0, ""⟩] #[⟨none, .call (.func sig.func) [] ret⟩] (some (.ret (some ⟨0⟩)))
  else if bits = 32 then
    oneBlock #[returned] #[⟨some ⟨0⟩, .call (.func sig.func) [] ret⟩] (some (.ret (some ⟨0⟩)))
  else
    oneBlock #[returned, ⟨.i32, .inst Ir.Id.entry, "exit.code"⟩]
      #[⟨some ⟨0⟩, .call (.func sig.func) [] ret⟩,
        ⟨some ⟨1⟩, .cast (exitCast sig.ret.isSignedInt bits) ⟨0⟩ .i32⟩] (some (.ret (some ⟨1⟩)))

section

variable {m : Module} {values : Array Ir.Value} {insts : Array Ir.Inst}

/-- The last function of a module, while its block is filled in. -/
def filling (m : Module) (values : Array Ir.Value) (insts : Array Ir.Inst) : Builder :=
  .last m (oneBlock values insts none) (some Ir.Id.entry) 0

theorem insert_filling (kind : Ir.InstKind) (result : Option Ir.ValueId) :
    Emit.insert kind result (filling m values insts) = ((), filling m values (insts.push ⟨result, kind⟩)) := by
  simp [Emit.insert, modify, modifyGet, MonadStateOf.modifyGet, StateT.modifyGet, pure, filling, oneBlock,
    Builder.hasTerminator, Function.block?, Builder.modifyBlock, Ir.Id.entry]

theorem pushValue_filling (t : Ir.Ty) (kind : Ir.ValueKind) (name : String) :
    Emit.pushValue t kind name (filling m values insts) =
      (⟨values.size⟩, filling m (values.push ⟨t, kind, name⟩) insts) := by
  simp [Emit.pushValue, filling, oneBlock]

theorem emit_filling (t : Ir.Ty) (kind : Ir.InstKind) (name : String) :
    Emit.emit t kind name (filling m values insts) =
      (⟨values.size⟩, filling m (values.push ⟨t, .inst Ir.Id.entry, name⟩)
        (insts.push ⟨some ⟨values.size⟩, kind⟩)) := by
  have hget : (get : Emit Builder) (filling m values insts) = (filling m values insts, filling m values insts) :=
    rfl
  unfold Emit.emit
  rw [StateM.bind_eq hget, StateM.bind_eq (pushValue_filling _ _ _), StateM.bind_eq (insert_filling _ _)]
  rfl

theorem ret_filling (v : Ir.ValueId) : Emit.ret v (filling m values insts) =
    ((), .last m (oneBlock values insts (some (.ret (some v)))) (some Ir.Id.entry) 1) := by
  have hclose : Emit.closeBlock Ir.Id.entry (.ret (some v)) (filling m values insts) =
      (true, .last m (oneBlock values insts (some (.ret (some v)))) (some Ir.Id.entry) 1) := by
    simp [Emit.closeBlock, filling, oneBlock, Builder.hasTerminator, Function.block?, Builder.modifyBlock,
      Ir.Id.entry]
    rfl
  show (Emit.closeBlock Ir.Id.entry (.ret (some v)) >>= fun closed => Emit.demand .blockOpen fun _ => closed)
    (filling m values insts) = _
  rw [StateM.bind_eq hclose]
  rfl

theorem appendBlock_filling : Emit.appendBlock "entry" (.last m (.declare wrapperName [] .i32) none 0) =
    (Ir.Id.entry, .last m (oneBlock #[] #[] none) none 0) := by
  simp [Emit.appendBlock, Function.declare, oneBlock, Ir.Id.entry]

theorem positionAt_filling : Emit.positionAt Ir.Id.entry (.last m (oneBlock #[] #[] none) none 0) =
    ((), filling m #[] #[]) := by
  have hdemand : Emit.demand .blockExists (fun b => Ir.Id.entry.index < b.function.blocks.size)
      (.last m (oneBlock #[] #[] none) none 0) = ((), .last m (oneBlock #[] #[] none) none 0) := by
    show ((), Builder.demand _ _ _) = _
    simp [Builder.demand, oneBlock, Ir.Id.entry]
  unfold Emit.positionAt
  rw [StateM.bind_eq hdemand]
  rfl

end

theorem callAt_filling (m : Module) (func : FuncId) (ret : Ir.Ty) (name : String) :
    Emit.callAt (.func func) ret [] name (filling m #[] #[]) =
      if ret = .void then (none, filling m #[] #[⟨none, .call (.func func) [] ret⟩])
      else (some ⟨0⟩, filling m #[⟨ret, .inst Ir.Id.entry, name⟩] #[⟨some ⟨0⟩, .call (.func func) [] ret⟩]) := by
  unfold Emit.callAt
  split
  · exact StateM.bind_eq (insert_filling _ _)
  · rw [map_eq_pure_bind]
    exact StateM.bind_eq (emit_filling _ _ _)

theorem resize_filling (m : Module) (v : Ir.Value) (insts : Array Ir.Inst) (signed : Bool) :
    Emit.intResize ⟨0⟩ .i32 signed "exit.code" (filling m #[v] insts) =
      if v.ty.intBits?.getD 64 = 32 then (⟨0⟩, filling m #[v] insts)
      else (⟨1⟩, filling m #[v, ⟨.i32, .inst Ir.Id.entry, "exit.code"⟩]
        (insts.push ⟨some ⟨1⟩, .cast (exitCast signed (v.ty.intBits?.getD 64)) ⟨0⟩ .i32⟩)) := by
  have htype : (filling m #[v] insts).valueType ⟨0⟩ = v.ty := by
    simp [Builder.valueType, filling, oneBlock, Function.valueType, Function.value?]
  unfold Emit.intResize
  show (if ((filling m #[v] insts).valueType ⟨0⟩).intBits?.getD 64 = 32 then pure ⟨0⟩
    else if ((filling m #[v] insts).valueType ⟨0⟩).intBits?.getD 64 < 32 then
      Emit.cast (if signed then .sext else .zext) ⟨0⟩ .i32 "exit.code"
    else Emit.cast .trunc ⟨0⟩ .i32 "exit.code" : Emit Ir.ValueId) (filling m #[v] insts) = _
  rw [htype]
  by_cases heq : v.ty.intBits?.getD 64 = 32
  · rw [if_pos heq, if_pos heq]
    rfl
  · rw [if_neg heq, if_neg heq, exitCast]
    split
    · exact emit_filling _ _ _
    · exact emit_filling _ _ _

/-- The rest of the wrapper, once it is known what its callee returns. -/
def wrapCall (sig : Signature) (ret : Ir.Ty) (name : String) : Emit Unit := do
  let result ← Emit.callAt (.func sig.func) ret [] name
  let code ← match result with
    | some value =>
      if sig.ret.isUnit then Emit.constInt .i32 0
      else Emit.intResize value .i32 sig.ret.isSignedInt "exit.code"
    | none => Emit.constInt .i32 0
  Emit.ret code

/-- The callee's parameters matter only for the demand that there are none. -/
theorem emitWrapper_start {m : Module} {sig : Signature} {f : Function} (hf : m.function? sig.func = some f)
    (name : String) : emitWrapper sig name (.last m (.declare wrapperName [] .i32) none 0) =
      wrapCall sig f.ret name ((filling m #[] #[]).demand .callArity (f.params.length = 0)) := by
  have hcallee : (filling m #[] #[]).module.function? sig.func = some f := Builder.function?_last hf
  have hmodule : ∀ met, ((filling m #[] #[]).demand .callArity met).module = (filling m #[] #[]).module := by
    intro met
    cases met <;> rfl
  have hdemand : Emit.demand .callArity (fun b => ((b.module.function? sig.func).elim 0 (·.params.length)) =
      ([] : List Ir.ValueId).length) (filling m #[] #[]) =
        ((), (filling m #[] #[]).demand .callArity (f.params.length = 0)) := by
    show ((), (filling m #[] #[]).demand .callArity _) = _
    dsimp only
    rw [hcallee]
    rfl
  have hget : ∀ b : Builder, (get : Emit Builder) b = (b, b) := fun _ => rfl
  unfold emitWrapper Emit.call
  rw [StateM.bind_eq appendBlock_filling, StateM.bind_eq positionAt_filling, bind_assoc,
    StateM.bind_eq hdemand, bind_assoc, StateM.bind_eq (hget _)]
  dsimp only
  rw [hmodule, hcallee]
  rfl

theorem wrapCall_filling (m : Module) {sig : Signature} {ret : Ir.Ty}
    (hu : ret = .void ↔ sig.ret.isUnit = true) (name : String) :
    wrapCall sig ret name (filling m #[] #[]) =
      ((), .last m (wrapperCode sig name ret) (some Ir.Id.entry) 1) := by
  unfold wrapCall
  by_cases hvoid : ret = .void
  · have hzero : Emit.constInt .i32 0 (filling m #[] #[⟨none, .call (.func sig.func) [] ret⟩]) =
        (⟨0⟩, filling m #[⟨.i32, .constInt 0, ""⟩] #[⟨none, .call (.func sig.func) [] ret⟩]) :=
      pushValue_filling _ _ _
    rw [StateM.bind_eq ((callAt_filling ..).trans (if_pos hvoid)), wrapperCode, if_pos hvoid]
    exact (StateM.bind_eq hzero).trans (ret_filling _)
  · have hunit : sig.ret.isUnit = false := by
      rw [← Bool.not_eq_true, ← hu]
      exact hvoid
    rw [StateM.bind_eq ((callAt_filling ..).trans (if_neg hvoid)), wrapperCode, if_neg hvoid]
    dsimp only
    rw [hunit, if_neg (by simp)]
    by_cases hbits : ret.intBits?.getD 64 = 32
    · rw [if_pos hbits]
      exact (StateM.bind_eq ((resize_filling _ _ _ _).trans (if_pos hbits))).trans (ret_filling _)
    · rw [if_neg hbits]
      exact (StateM.bind_eq ((resize_filling _ _ _ _).trans (if_neg hbits))).trans (ret_filling _)

theorem emitWrapper_eq {m : Module} {sig : Signature} {f : Function}
    (hf : m.function? sig.func = some f) (hp : f.params = []) (hu : f.ret = .void ↔ sig.ret.isUnit = true)
    (name : String) :
    emitWrapper sig name (.last m (.declare wrapperName [] .i32) none 0) =
      ((), .last m (wrapperCode sig name f.ret) (some Ir.Id.entry) 1) := by
  have hmet : (filling m #[] #[]).demand .callArity (f.params.length = 0) = filling m #[] #[] := by
    simp [Builder.demand, hp]
  rw [emitWrapper_start hf, hmet, wrapCall_filling m hu]

/-! ### The module of a program -/

/-- The definition of the entry point. -/
def entryDefinition? (config : Config) (p : Program) : Option FunctionDef :=
  p.functions.find? fun d => d.receiver.isNone && d.symbol == config.entryPoint

theorem mem_of_entryDefinition? {config : Config} {p : Program} {d : FunctionDef}
    (h : entryDefinition? config p = some d) :
    d ∈ p.functions ∧ d.receiver = none ∧ d.symbol = config.entryPoint := by
  refine ⟨List.mem_of_find?_eq_some h, ?_⟩
  simpa using List.find?_some h

/-- The wrapper is added, or there is nothing to wrap or an error. -/
theorem addEntryWrapper_cases (config : Config) (p : Program) (tables : Tables) (acc : Module × Queue) :
    (∃ d sig, entryDefinition? config p = some d ∧ tables.function? d.symbol = some sig ∧ sig.params = [] ∧
      (sig.ret.isInteger = true ∨ sig.ret.isUnit = true) ∧
      (addEntryWrapper config p tables acc).1 = (emitWrapper sig d.symbol
        (.start (acc.1.declareFunction wrapperName [] .i32).2 ⟨acc.1.functions.size⟩)).2.module) ∨
    (addEntryWrapper config p tables acc).1 = acc.1 ∧
      (hasError (addEntryWrapper config p tables acc).2 = false → ∀ d, entryDefinition? config p = some d →
        tables.function? d.symbol = none) := by
  have hreport : ∀ {d : Diag} {P : Prop}, d.isError = true → hasError (acc.2.add d).2 = false → P := by
    intro d P hd he
    rw [hasError, any_isError_add, hd, Bool.or_true] at he
    cases he
  unfold addEntryWrapper
  dsimp only
  split
  · rename_i hnone
    exact .inr ⟨rfl, fun _ d hd => by cases hnone.symm.trans hd⟩
  · rename_i d hd
    split
    · rename_i hnone
      refine .inr ⟨rfl, fun _ e he => ?_⟩
      obtain rfl : d = e := Option.some.inj (hd.symm.trans he)
      exact hnone
    · rename_i sig hsig
      split
      · refine .inr ⟨rfl, hreport ?_⟩
        rfl
      · rename_i hparams
        split
        · refine .inr ⟨rfl, hreport ?_⟩
          rfl
        · rename_i hret
          have hnil : sig.params = [] := by simpa using hparams
          have hkind : sig.ret.isInteger = true ∨ sig.ret.isUnit = true := by
            rw [← Bool.or_eq_true]
            simpa only [Bool.not_eq_true', Bool.not_eq_false] using hret
          refine .inl ⟨d, sig, hd, hsig, hnil, hkind, ?_⟩
          dsimp only [Module.declareFunction]

section

variable {config : Config} {allocator : Allocator} {p : Program}

/-- A definition has been lowered, and its function is called as declared. -/
theorem Declares.lowered (ha : allocator.IsInline) {i : Nat} {d : FunctionDef} {sig : Signature}
    (h : Declares p (Collection.ofProgram config p).tables i d sig) :
    LoweredBody config allocator (.ofProgram config p) d sig
      (lowerFirst config allocator p p.functions.length) ∧
    ∃ f, (lowerFirst config allocator p p.functions.length).1.function? sig.func = some f ∧
      f.head = (Collection.irName config d, (sig.receiver.toList ++ sig.params).map config.layout.irType,
        config.layout.returnIrType sig.ret) := by
  have hready := lowerFirst_ready config ha (Nat.le_refl _) (p := p)
  refine ⟨hready.done (List.getElem?_eq_some_iff.1 h.1).1 h, ?_⟩
  have hhead := hready.heads sig.func
  rw [h.declared.1, Option.map_some, Option.map_eq_some_iff] at hhead
  exact hhead

/-- Without errors the module of a program has the functions of the definitions and, if there is an entry
point, the wrapper around it. -/
theorem lowerProgram_cases (ha : allocator.IsInline) (herr : (lowerProgram config allocator p).hasErrors = false) :
    entryDefinition? config p = none ∧ (lowerProgram config allocator p).module =
      (lowerFirst config allocator p p.functions.length).1 ∨
    ∃ d sig, entryDefinition? config p = some d ∧
      Declares p (Collection.ofProgram config p).tables sig.definition d sig ∧
      (sig.ret.isInteger = true ∨ sig.ret.isUnit = true) ∧ sig.receiver = none ∧ sig.params = [] ∧
      (lowerProgram config allocator p).module =
        { (lowerFirst config allocator p p.functions.length).1 with
          functions := (lowerFirst config allocator p p.functions.length).1.functions.push
            (wrapperCode sig d.symbol (config.layout.returnIrType sig.ret)) } := by
  have hready := lowerFirst_ready config ha (Nat.le_refl _) (p := p)
  have hsafe : ¬(Collection.ofProgram config p).Failed := fun hf => by
    have := hready.errors hf
    rw [hasError_lowerFirst ha herr (Nat.le_refl _)] at this
    cases this
  -- the definition of the entry point is the one that was declared
  have hentry : ∀ {d}, entryDefinition? config p = some d → ∃ sig,
      Declares p (Collection.ofProgram config p).tables sig.definition d sig := by
    intro d hd
    obtain ⟨i, hi⟩ := List.mem_iff_getElem?.1 (mem_of_entryDefinition? hd).1
    have hlisted := Collection.ofProgram_listed config p
    obtain ⟨sig, hmem, hdef⟩ := hlisted.complete hsafe (List.getElem?_eq_some_iff.1 hi).1 hi
    exact ⟨sig, hdef ▸ hi, hlisted.lookup hmem, rfl⟩
  have hquiet : hasError (addEntryWrapper config p (Collection.ofProgram config p).tables
      (lowerFirst config allocator p p.functions.length)).2 = false := by
    rw [Output.hasErrors, lowerProgram_eq, any_isError_flush] at herr
    exact herr
  rw [lowerProgram_eq]
  rcases addEntryWrapper_cases config p (Collection.ofProgram config p).tables
    (lowerFirst config allocator p p.functions.length) with ⟨d, sig, hd, hsig, hparams, hret, hm⟩ | ⟨hm, hnone⟩
  · obtain ⟨sig', hdecl⟩ := hentry hd
    obtain rfl : sig' = sig := Option.some.inj (hdecl.2.1.symm.trans hsig)
    have hreceiver := hdecl.declared.2 (mem_of_entryDefinition? hd).2.1
    refine .inr ⟨d, sig', hd, hdecl, hret, hreceiver, hparams, hm.trans ?_⟩
    obtain ⟨f, hf, hhead⟩ := (hdecl.lowered ha).2
    simp only [Ir.Function.head, Prod.mk.injEq] at hhead
    have hstart : Builder.start ((lowerFirst config allocator p p.functions.length).1.declareFunction
        wrapperName [] .i32).2 ⟨(lowerFirst config allocator p p.functions.length).1.functions.size⟩ =
        .last (lowerFirst config allocator p p.functions.length).1 (.declare wrapperName [] .i32) none 0 :=
      Ir.Emit.start_eq (Array.getElem?_push_size)
    have hvoid : f.ret = .void ↔ sig'.ret.isUnit = true := by
      rw [hhead.2.2]
      exact returnIrType_eq_void sig'.ret
    rw [hstart, emitWrapper_eq hf (by rw [hhead.2.1, hreceiver, hparams]; rfl) hvoid, hhead.2.2]
    rfl
  · refine .inl ⟨?_, hm⟩
    cases hd : entryDefinition? config p with
    | none => rfl
    | some d =>
      obtain ⟨sig, hdecl⟩ := hentry hd
      cases hdecl.2.1.symm.trans (hnone hquiet d hd)

end

end BlockForge.Lowering
