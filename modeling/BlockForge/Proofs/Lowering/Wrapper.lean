import BlockForge.Proofs.Lowering.Declarations
import BlockForge.Proofs.Lowering.EntryPoint
import BlockForge.Proofs.Lowering.Symbols

/-!
# Whom the wrapper calls

The definition of the entry point is found by its name among the functions, but what is called is the
function of the first definition with its symbol, and that may be a method. Then the call lacks the receiver:
the builder notes a broken demand, and verification finds the call. In all other programs the wrapper calls
the definition that was found, and nothing is wrong with it.
-/

namespace BlockForge.Ir

/-- More demands were broken before. -/
def Builder.noting (b : Builder) (before : List Demand) : Builder := { b with broken := b.broken ++ before }

namespace Emit

variable {α β : Type}

/-- Whether demands were broken before makes no difference. -/
structure Blind (x : Emit α) : Prop where
  run : ∀ b before, x (b.noting before) = ((x b).1, (x b).2.noting before)

theorem Blind.pure (a : α) : Blind (Pure.pure a) := ⟨fun _ _ => rfl⟩

theorem Blind.bind {x : Emit α} {f : α → Emit β} (h : Blind x) (k : ∀ a, Blind (f a)) : Blind (x >>= f) := by
  refine ⟨fun b before => ?_⟩
  rw [StateM.bind_eq (h.run b before), (k _).run]
  rfl

theorem Blind.map {x : Emit α} {f : α → β} (h : Blind x) : Blind (f <$> x) := by
  rw [map_eq_pure_bind]
  exact h.bind fun a => .pure (f a)

theorem Blind.get_bind {f : Builder → Emit α} (h : ∀ b, Blind (f b))
    (hf : ∀ b before, f (b.noting before) = f b) : Blind (get >>= f) := by
  refine ⟨fun b before => ?_⟩
  show f (b.noting before) (b.noting before) = ((f b b).1, (f b b).2.noting before)
  rw [hf, (h b).run]

theorem demand_blind (d : Demand) {met : Builder → Bool} (hm : ∀ b before, met (b.noting before) = met b) :
    Blind (demand d met) := by
  refine ⟨fun b before => ?_⟩
  show ((), (b.noting before).demand d (met (b.noting before))) = ((), (b.demand d (met b)).noting before)
  rw [hm]
  cases met b <;> rfl

theorem pushValue_blind (ty : Ty) (kind : ValueKind) (name : String) : Blind (pushValue ty kind name) :=
  ⟨fun _ _ => rfl⟩

theorem closeBlock_blind (block : BlockId) (t : Terminator) : Blind (closeBlock block t) := by
  refine ⟨fun b before => ?_⟩
  unfold closeBlock
  rw [show (b.noting before).hasTerminator block = b.hasTerminator block from rfl]
  split <;> rfl

theorem insert_blind (kind : InstKind) (r : Option ValueId) : Blind (insert kind r) := by
  refine ⟨fun b before => ?_⟩
  simp only [insert, modify, modifyGet, MonadStateOf.modifyGet, StateT.modifyGet, Pure.pure]
  rw [show (b.noting before).current = b.current from rfl]
  cases b.current with
  | none => rfl
  | some c =>
    dsimp only
    rw [show (b.noting before).hasTerminator c = b.hasTerminator c from rfl]
    split <;> rfl

theorem emit_blind (ty : Ty) (kind : InstKind) (name : String) : Blind (emit ty kind name) :=
  .get_bind (fun _ => (pushValue_blind ..).bind fun r => (insert_blind ..).bind fun _ => .pure r)
    fun _ _ => rfl

theorem callAt_blind (callee : Callee) (ret : Ty) (args : List ValueId) (name : String) :
    Blind (callAt callee ret args name) := by
  unfold callAt
  split
  · exact (insert_blind ..).bind fun _ => .pure none
  · exact (emit_blind ..).map

theorem intResize_blind (v : ValueId) (ty : Ty) (signed : Bool) (name : String) :
    Blind (intResize v ty signed name) := by
  refine .get_bind (fun b => ?_) fun _ _ => rfl
  dsimp only
  split
  · exact .pure v
  · split <;> exact emit_blind ..

theorem ret_blind (v : ValueId) : Blind (ret v) := by
  refine .get_bind (fun b => ?_) fun _ _ => rfl
  split
  · exact demand_blind _ fun _ _ => rfl
  · exact (closeBlock_blind ..).bind fun _ => demand_blind _ fun _ _ => rfl

end Emit

/-- What the code of a function calls. -/
def Function.calls (f : Function) : List (Callee × List ValueId) :=
  f.blocks.toList.flatMap fun b => b.insts.toList.filterMap fun i =>
    match i.kind with
    | .call callee args _ => some (callee, args)
    | _ => none

end BlockForge.Ir

namespace BlockForge.Lowering

open Ir (Builder Emit FuncId Function Module)
open Ir.Emit (Blind)
open Source (FunctionDef Program)
open BlockForge.Types (Ty)

theorem wrapCall_blind (sig : Signature) (ret : Ir.Ty) (name : String) : Blind (wrapCall sig ret name) := by
  refine (Ir.Emit.callAt_blind ..).bind fun result => ?_
  have hzero : Blind (Emit.constInt .i32 0 >>= Emit.ret) :=
    (Ir.Emit.pushValue_blind ..).bind Ir.Emit.ret_blind
  cases result with
  | none => exact hzero
  | some v =>
    dsimp only
    split
    · exact hzero
    · exact (Ir.Emit.intResize_blind ..).bind Ir.Emit.ret_blind

def wrapperBuilder (m : Module) (sig : Signature) (name : String) : Builder :=
  (emitWrapper sig name (.start (m.declareFunction wrapperName [] .i32).2 ⟨m.functions.size⟩)).2

/-- The wrapper has the same code whatever its callee takes; only the demand tells. -/
theorem wrapperBuilder_eq {m : Module} {sig : Signature} {f : Function} (hf : m.function? sig.func = some f)
    (hu : f.ret = .void ↔ sig.ret.isUnit = true) (name : String) :
    wrapperBuilder m sig name = (Builder.last m (wrapperCode sig name f.ret) (some Ir.Id.entry) 1).noting
      (if f.params.length = 0 then [] else [.callArity]) := by
  have hstart : Builder.start (m.declareFunction wrapperName [] .i32).2 ⟨m.functions.size⟩ =
      .last m (.declare wrapperName [] .i32) none 0 := Ir.Emit.start_eq Array.getElem?_push_size
  have hnoting : (filling m #[] #[]).demand .callArity (f.params.length = 0) =
      (filling m #[] #[]).noting (if f.params.length = 0 then [] else [.callArity]) := by
    by_cases hn : f.params.length = 0 <;> simp [Builder.demand, Builder.noting, hn, filling, Builder.last]
  rw [wrapperBuilder, hstart, emitWrapper_start hf, hnoting, (wrapCall_blind ..).run, wrapCall_filling m hu]

theorem calls_wrapperCode (sig : Signature) (name : String) (ret : Ir.Ty) :
    (wrapperCode sig name ret).calls = [(.func sig.func, [])] := by
  unfold wrapperCode
  dsimp only
  split
  · rfl
  · split <;> rfl

/-- What the checks of a function share. -/
def verifyContext (m : Module) (f : Function) : Ir.VerifyContext := ⟨m, f, f.predecessors, f.definedSet⟩

/-- A block that calls first and then returns: the checks of the call, and of what follows. -/
theorem verify_calling {m : Module} {id : FuncId} {f : Function} (hf : m.function? id = some f)
    (values : Array Ir.Value) (result : Option Ir.ValueId) (ret : Ir.Ty) (rest : List Ir.Inst) (v : Ir.ValueId) :
    let code := oneBlock values (⟨result, .call (.func id) [] ret⟩ :: rest).toArray (some (.ret (some v)))
    (verifyContext m code).checkInsts Ir.Id.entry true rest = [] →
    (verifyContext m code).returnFits (some v) = true → code.verify m =
      if f.params.length = 0 then [] else [.callArity wrapperName f.name f.params.length 0] := by
  intro code hrest hret
  have harity : (verifyContext m code).checkCall (.func id) [] =
      if f.params.length = 0 then [] else [.callArity wrapperName f.name f.params.length 0] := by
    simp [Ir.VerifyContext.checkCall, Module.calleeArity, verifyContext, hf, code, oneBlock]
  calc code.verify m
      = (verifyContext m code).checkCall (.func id) [] ++
          (verifyContext m code).checkInsts Ir.Id.entry true rest ++
          (if (verifyContext m code).returnFits (some v) then [] else [.returnMismatch wrapperName Ir.Id.entry]) ++
          [] := rfl
    _ = _ := by rw [hrest, hret, harity]; simp

/-- Verification finds nothing in a wrapper but a callee that takes arguments. -/
theorem verify_wrapperCode {m : Module} {sig : Signature} {f : Function} (hf : m.function? sig.func = some f)
    {ret : Ir.Ty} (hret : ret = .void ∨ ret.isInt = true) (name : String) :
    (wrapperCode sig name ret).verify m =
      if f.params.length = 0 then [] else [.callArity wrapperName f.name f.params.length 0] := by
  unfold wrapperCode
  dsimp only
  split
  · apply verify_calling hf _ _ _ []
    · rfl
    · rfl
  · rename_i hvoid
    split
    · rename_i hbits
      obtain rfl : ret = .i32 := by
        have hint := hret.resolve_left hvoid
        cases ret <;> simp_all [Ir.Ty.isInt, Ir.Ty.intBits?]
      apply verify_calling hf _ _ _ []
      · rfl
      · rfl
    · apply verify_calling hf _ _ _ [_]
      · rfl
      · rfl

section

variable {config : Config} {allocator : Allocator} {p : Program}

theorem entryDefinition?_eq {i : Nat} {e : FunctionDef} {sig : Signature}
    (h : Declares p (Collection.ofProgram config p).tables i e sig) (hr : e.receiver = none)
    (hs : e.symbol = config.entryPoint) : entryDefinition? config p = some e := by
  obtain ⟨hi, he⟩ := List.getElem?_eq_some_iff.1 h.1
  refine List.find?_eq_some_iff_getElem.2 ⟨by simp [hr, hs], i, hi, he, fun j hj => ?_⟩
  have hother : p.functions[j].symbol ≠ config.entryPoint := by
    intro hsymbol
    have := h.first (List.getElem?_eq_getElem (Nat.lt_trans hj hi)) (hsymbol.trans hs.symm)
    omega
  simp [hother]

/-- The function that the wrapper calls takes a receiver or nothing. -/
theorem Declares.callee (ha : allocator.IsInline) {i : Nat} {e : FunctionDef} {sig : Signature}
    (h : Declares p (Collection.ofProgram config p).tables i e sig) (hparams : sig.params = [])
    (hret : sig.ret.isInteger = true ∨ sig.ret.isUnit = true) :
    ∃ f, (lowerFirst config allocator p p.functions.length).1.function? sig.func = some f ∧
      f.name = Collection.irName config e ∧ f.params.length = e.receiver.toList.length ∧
      (f.ret = .void ↔ sig.ret.isUnit = true) ∧ (f.ret = .void ∨ f.ret.isInt = true) := by
  obtain ⟨f, hf, hhead⟩ := (h.lowered ha).2
  simp only [Function.head, Prod.mk.injEq] at hhead
  obtain ⟨hname, hfp, hfr⟩ := hhead
  refine ⟨f, hf, hname, ?_, ?_, ?_⟩
  · have hreceiver := congrArg (·.toList.length) h.written.receiver
    simp only [Option.toList_map, List.length_map] at hreceiver
    rw [hfp, hparams, hreceiver]
    simp
  · rw [hfr]
    exact returnIrType_eq_void sig.ret
  · rw [hfr]
    exact hret.symm.imp (returnIrType_eq_void _).2 returnIrType_isInt

/-- The wrapper calls what was declared first. If there is a wrapper, then it makes one call, without
arguments, of the function that the first definition with the entry point's symbol was lowered to. If that is
a function, it is the entry point, no demand of the builder is broken and the wrapper verifies; if it is a
method, the call lacks its receiver, and both find that. -/
theorem wrapper_calls_the_first_definition (ha : allocator.IsInline) {w : Function}
    (hw : (lowerProgram config allocator p).module.function?
      ⟨(lowerFirst config allocator p p.functions.length).1.functions.size⟩ = some w) :
    ∃ d sig e, entryDefinition? config p = some d ∧ e.symbol = d.symbol ∧
      Declares p (Collection.ofProgram config p).tables sig.definition e sig ∧
      (∀ {j e'}, p.functions[j]? = some e' → e'.symbol = d.symbol → sig.definition ≤ j) ∧
      (lowerProgram config allocator p).module.function? sig.func =
        some (definitionState config allocator p sig.definition e sig).builder.function ∧
      w.calls = [(.func sig.func, [])] ∧
      (lowerProgram config allocator p).module =
        (wrapperBuilder (lowerFirst config allocator p p.functions.length).1 sig d.symbol).module ∧
      (e.receiver = none → e = d ∧
        (wrapperBuilder (lowerFirst config allocator p p.functions.length).1 sig d.symbol).broken = [] ∧
        w.verify (lowerProgram config allocator p).module = []) ∧
      (e.receiver ≠ none →
        (wrapperBuilder (lowerFirst config allocator p p.functions.length).1 sig d.symbol).broken =
          [.callArity] ∧
        w.verify (lowerProgram config allocator p).module =
          [.callArity wrapperName (Collection.irName config e) 1 0]) := by
  have hmodule : (lowerProgram config allocator p).module = (addEntryWrapper config p
      (Collection.ofProgram config p).tables (lowerFirst config allocator p p.functions.length)).1 := by
    rw [lowerProgram_eq]
  rcases addEntryWrapper_cases config p (Collection.ofProgram config p).tables
    (lowerFirst config allocator p p.functions.length) with ⟨d, sig, hd, hsig, hparams, hret, hm⟩ | ⟨hm, -⟩
  · obtain ⟨e, hdecl, he⟩ := declares_of_function? hsig
    obtain ⟨f, hf, hname, hlen, hvoid, hkind⟩ := hdecl.callee ha hparams hret
    have hbuilder := wrapperBuilder_eq hf hvoid d.symbol
    have hmain : (lowerProgram config allocator p).module =
        (wrapperBuilder (lowerFirst config allocator p p.functions.length).1 sig d.symbol).module := by
      rw [hmodule, hm, wrapperBuilder]
    obtain rfl : wrapperCode sig d.symbol f.ret = w := by
      rw [hmain, hbuilder] at hw
      exact Option.some.inj ((Array.getElem?_push_size).symm.trans hw)
    have hcallee : (lowerProgram config allocator p).module.function? sig.func = some f := by
      rw [hmain, hbuilder]
      exact @Builder.function?_last _ _ (some Ir.Id.entry) 1 _ _ hf
    have hverify := verify_wrapperCode hcallee hkind d.symbol
    refine ⟨d, sig, e, hd, he, hdecl, fun hj hs => hdecl.first hj (hs.trans he.symm), hdecl.output ha,
      calls_wrapperCode .., hmain, fun hr => ?_, fun hr => ?_⟩
    · have hfound := entryDefinition?_eq hdecl hr (he.trans (mem_of_entryDefinition? hd).2.2)
      rw [hverify, hbuilder, hlen, hr]
      exact ⟨Option.some.inj (hfound.symm.trans hd), rfl, rfl⟩
    · obtain ⟨r, hmethod⟩ := Option.ne_none_iff_exists'.1 hr
      rw [hverify, hbuilder, hlen, hmethod, hname]
      exact ⟨rfl, rfl⟩
  · rw [hmodule, hm] at hw
    simp [Module.function?] at hw

theorem wrapper_calls_the_first_definition_twice : ∃ w,
    (lowerProgram {} .collector (returningPair "main" "main" (.named "u8") 200 3)).hasErrors = true ∧
    (lowerProgram {} .collector (returningPair "main" "main" (.named "u8") 200 3)).module.function? ⟨1⟩ = some w ∧
    w.calls = [(.func ⟨0⟩, [])] ∧
    w.verify (lowerProgram {} .collector (returningPair "main" "main" (.named "u8") 200 3)).module = [] := by
  have herr : (lowerProgram {} .collector (returningPair "main" "main" (.named "u8") 200 3)).hasErrors = true := by
    decide +kernel
  have hsize : (lowerFirst {} .collector (returningPair "main" "main" (.named "u8") 200 3)
      (returningPair "main" "main" (.named "u8") 200 3).functions.length).1.functions.size = 1 := by
    decide +kernel
  have hsome : ((lowerProgram {} .collector
      (returningPair "main" "main" (.named "u8") 200 3)).module.function? ⟨1⟩).isSome = true := by
    decide +kernel
  obtain ⟨w, hw⟩ := Option.isSome_iff_exists.1 hsome
  obtain ⟨d, sig, e, hd, he, hdecl, -, -, hcalls, -, hfunction, -⟩ :=
    wrapper_calls_the_first_definition collector_inline (hsize.symm ▸ hw)
  obtain rfl : returning "main" (.named "u8") 200 = d := Option.some.inj hd
  have hsig : (Collection.ofProgram {} (returningPair "main" "main" (.named "u8") 200 3)).tables.function? "main" =
      some ⟨⟨0⟩, 0, none, [], .unsigned .w8⟩ := rfl
  obtain rfl : sig = ⟨⟨0⟩, 0, none, [], .unsigned .w8⟩ :=
    Option.some.inj ((he ▸ hdecl.2.1).symm.trans hsig)
  obtain rfl : returning "main" (.named "u8") 200 = e := Option.some.inj hdecl.1
  exact ⟨w, herr, hw, hcalls, (hfunction rfl).2.2⟩

/-- A method with the symbol of the entry point in front of it. -/
def methodFirst : Program where
  structs := []
  functions := [{ returning "i32.go" (.named "i32") 3 with receiver := some (.named "i32", "go") },
    returning "i32.go" (.named "i32") 7]

/-- The wrapper calls the method, and without its receiver. -/
theorem method_called_for_entry_point :
    entryDefinition? { entryPoint := "i32.go" } methodFirst = some (returning "i32.go" (.named "i32") 7) ∧
    ((lowerProgram { entryPoint := "i32.go" } .collector methodFirst).module.functions.toList.map fun f =>
      (f.name, f.params, f.calls)) =
        [("i32.go", [.i32], []), ("main", [], [(.func ⟨0⟩, [])])] ∧
    ((lowerProgram { entryPoint := "i32.go" } .collector methodFirst).module.functions.toList.flatMap fun f =>
      f.verify (lowerProgram { entryPoint := "i32.go" } .collector methodFirst).module) =
        [.callArity "main" "i32.go" 1 0] := by
  refine ⟨rfl, ?_, ?_⟩
  · decide +kernel
  · decide +kernel

end

end BlockForge.Lowering
