import BlockForge.Proofs.Ir.Tidy
import BlockForge.Proofs.Lowering.Allocators
import BlockForge.Proofs.Lowering.EntryPoint
import BlockForge.Proofs.Lowering.Twins

/-!
# Unambiguous modules

Lowering names its blocks by words that end in a letter and gives every result a number of its own, whatever the
identifiers of the program are. So what is printed for a lowered module tells its names and its constants apart.
-/

namespace BlockForge.Ir

open Emit

theorem Emit.KeepsTidy.agrees {α : Type} {x : Emit α} (h : x.KeepsTidy) :
    StateM.Agrees (fun b c : Builder => c = b ∧ b.module.Tidy) x := by
  refine ⟨?_⟩
  rintro b _ ⟨rfl, hb⟩
  exact ⟨rfl, rfl, h.run hb⟩

/-- Builders of tidy modules, each in tandem with itself. -/
def tidyTandem : Tandem where
  Rel L b c := L.Diagonal ∧ c = b ∧ b.module.Tidy
  current h := by rw [h.2.1]
  terminators h := by rw [h.2.1]
  hasTerminator h i := by rw [h.2.1]
  successorLists h := by rw [h.2.1]
  blocks h := by rw [h.2.1]
  pointerBits h := by rw [h.2.1]
  structs h := by rw [h.2.1]
  heads h f := by rw [h.2.1]
  valueType h hL := by rw [h.2.1, h.1.eq hL]
  constIntValue? h hL := by rw [h.2.1, h.1.eq hL]
  demand h d met := by
    obtain ⟨hd, rfl, ht⟩ := h
    exact ⟨hd, rfl, (demand_tidy d fun _ => met).run ht⟩
  moveTo h i := ⟨h.1, by rw [h.2.1], h.2.2⟩
  appendBlock hn := (appendBlock_tidy hn).agrees.follows (fun _ => rfl) (by simp)
  closeBlock i ht := (closeBlock_tidy i _).agrees.follows (fun hd => by rw [ht.eq_of hd]) (by simp)
  constInt ty value := (constInt_tidy ty value).agrees.follows (fun _ => rfl) (by simp)
  constFloat ty bits := (pushValue_tidy "" (by simp)).agrees.follows (fun _ => rfl) (by simp)
  constNull := (pushValue_tidy "" (by simp)).agrees.follows (fun _ => rfl) (by simp)
  globalString text := (globalString_tidy text).agrees.follows (fun _ => rfl) (by simp)
  entryAlloca ty name := (entryAlloca_tidy ty name).agrees.follows (fun _ => rfl) (by simp)
  phi ty name h := (phi_tidy ty _ name).agrees.follows
    (fun hd => by cases (InstKind.Like.phi ty h).eq_of hd; rfl) (by simp)
  emit ty name _ _ h := (emit_tidy ty _ name).agrees.follows (fun hd => by rw [h.eq_of hd]) (by simp)
  emitVoid _ _ h := (emitVoid_tidy _).agrees.follows (fun hd => by rw [h.eq_of hd]) (by simp)

theorem declareHost_tidy (name : String) (params : List Ty) (ret : Ty) :
    KeepsTidy (onModule (·.declareHost name params ret)) :=
  onModule_tidy fun m => (Module.declareHost_grows m name params ret).2

theorem Emit.CallsOut.tidy {own : Set HostDecl} {α : Type} {x : Emit α} (h : x.CallsOut own) : x.KeepsTidy := by
  induction h with
  | pure a => exact .pure a
  | bind _ _ hx hf => exact hx.bind hf
  | get => exact ⟨id⟩
  | constInt ty value => exact constInt_tidy ty value
  | constFloat ty bits => exact pushValue_tidy "" (by simp)
  | constNull => exact pushValue_tidy "" (by simp)
  | globalString text => exact globalString_tidy text
  | declareHost _ => exact declareHost_tidy ..
  | callHost host args name => exact callHost_tidy host args name

theorem Function.declare_tidy (name : String) (params : List Ty) (ret : Ty) : (declare name params ret).Tidy where
  labels := by simp [declare]
  once := by simp [declare, results, insts]
  result := by simp [declare, results, insts]
  params i hi := ⟨params.get ⟨i, hi⟩, by
    have hlt : i < params.length := hi
    simp [declare, value?, param, hlt]⟩
  masked hm := by simp [declare] at hm

theorem Module.Tidy.declareFunction {m : Module} (h : m.Tidy) (name : String) (params : List Ty) (ret : Ty) :
    (m.declareFunction name params ret).2.Tidy := by
  refine ⟨fun {j f} hf => ?_⟩
  simp only [Module.declareFunction, Module.function?, Array.getElem?_push] at hf
  split at hf
  · cases hf
    exact Function.declare_tidy name params ret
  · exact h.function hf

end BlockForge.Ir

namespace BlockForge.Lowering

open Diagnostic (Queue)
open Ir (Builder Emit HostDecl Linkable Links Module ValueId)
open Ir.Emit (KeepsTidy)
open Source (FunctionDef Program)

/-- Lowerings of tidy modules, each in tandem with itself. -/
def tidyLowering : Tandem where
  toTandem := Ir.tidyTandem
  reports q r := r = q
  report h d := by rw [h]
  boundsError hi hn := by
    have htidy : ∀ i n : ValueId, KeepsTidy (callBoundsError i n) := fun i n =>
      .get_bind fun b => (Ir.declareHost_tidy ..).bind fun hook => (Ir.Emit.callHost_tidy ..).bind fun _ => .pure ()
    exact (htidy _ _).agrees.follows (fun hd => by rw [hd _ _ hi, hd _ _ hn]) (by simp)

theorem Allocator.CallsOut.tidy {own : Set HostDecl} {a : Allocator} (h : a.CallsOut own) : a.Follows tidyLowering a := by
  intro known size size' kind name hs
  exact (h.code size kind name).tidy.agrees.follows (fun hd => by rw [hd _ _ hs]) (by simp)

section

variable {config : Config} {own : Set HostDecl} {allocator : Allocator}

theorem start_tidy {m : Module} (h : m.Tidy) (func : Ir.FuncId) : (Builder.start m func).module.Tidy :=
  (Ir.Emit.demand_tidy .noBody (·.function.isDeclaration)).run (b := ⟨m, func, none, 0, []⟩) h

theorem lowerBody_tidy (ha : allocator.CallsOut own) {m : Module} (hm : m.Tidy) (tables : Tables) (q : Queue)
    (d : FunctionDef) (sig : Signature) : (lowerBody config allocator tables (m, q) d sig).builder.module.Tidy := by
  have hstart : (⟨.start m sig.func, q, {}, [], false, {}⟩ : State).Linked tidyLowering {p | p.2 = p.1}
      ⟨.start m sig.func, q, {}, [], false, {}⟩ :=
    ⟨⟨fun _ hp => hp, rfl, start_tidy hm sig.func⟩, rfl, .nil, rfl, rfl, rfl⟩
  have hparams : ∀ p ∈ paramLinks (parameters d sig).length, p ∈ {p : ValueId × ValueId | p.2 = p.1} := by
    intro p hp
    obtain ⟨i, -, rfl⟩ := List.mem_map.1 hp
    rfl
  have he : (⟨config, tables, allocator, sig.ret, d.symbol⟩ : Env).Follows tidyLowering
      ⟨config, tables, allocator, sig.ret, d.symbol⟩ := .refl ha.tidy
  obtain ⟨_, _, hend, -⟩ := (lowerFunction_follows he d sig).run hparams hstart
  exact hend.builder.2.2

theorem lowerDefinitions_tidy (ha : allocator.CallsOut own) (tables : Tables) (ds : List (FunctionDef × Nat)) :
    ∀ {acc : Module × Queue}, acc.1.Tidy → (lowerDefinitions config allocator tables acc ds).1.Tidy := by
  induction ds with
  | nil => exact id
  | cons e rest ih =>
    intro acc h
    obtain ⟨d, i⟩ := e
    refine ih ?_
    dsimp only [lowerDefinition]
    split
    · exact h
    · split
      · exact h
      · exact lowerBody_tidy ha h tables acc.2 d _

theorem emitWrapper_tidy (sig : Signature) (name : String) : KeepsTidy (emitWrapper sig name) := by
  refine ⟨fun {b} h => ?_⟩
  have hrel : tidyLowering.Rel ∅ b b := ⟨by simp [Links.Diagonal], rfl, h⟩
  have hfollows : tidyLowering.Follows [] (emitWrapper sig name) (emitWrapper sig name) := emitWrapper_follows sig name
  obtain ⟨_, _, hend, -⟩ := hfollows.run (by simp) hrel
  exact hend.2.2

theorem addEntryWrapper_tidy (p : Program) (tables : Tables) {acc : Module × Queue} (h : acc.1.Tidy) :
    (addEntryWrapper config p tables acc).1.Tidy := by
  rcases addEntryWrapper_cases config p tables acc with ⟨d, sig, -, -, -, -, heq⟩ | ⟨heq, -⟩
  · rw [heq]
    exact (emitWrapper_tidy sig d.symbol).run (start_tidy (h.declareFunction wrapperName [] .i32) _)
  · rw [heq]
    exact h

theorem ofProgram_tidy (config : Config) (p : Program) : (Collection.ofProgram config p).module.Tidy := by
  refine ⟨fun {j f} hf => ?_⟩
  obtain ⟨d, sig, hd, rfl⟩ := ofProgram_declares hf
  obtain rfl := Option.some.inj (hf.symm.trans hd.declared.1)
  exact Ir.Function.declare_tidy ..

theorem lowerProgram_tidy (ha : allocator.CallsOut own) (p : Program) :
    (lowerProgram config allocator p).module.Tidy := by
  rw [lowerProgram_eq]
  exact addEntryWrapper_tidy p _ (lowerDefinitions_tidy ha _ _ (ofProgram_tidy config p))

/-- What is printed for a lowered program tells apart the parameters, blocks and results of each function, the
constants of each type, and constant texts, in which quotes and other special bytes are escaped. -/
theorem printed_programs_are_unambiguous (config : Config) (ha : allocator.CallsOut own) (p : Program) :
    let m := (lowerProgram config allocator p).module
    (∀ f ∈ m.functions, (f.givenNames m).Nodup) ∧
    (∀ f ∈ m.functions, ∀ g ∈ m.functions, ∀ v w ty a b s t, f.value? v = some ⟨ty, .constInt a, s⟩ →
      g.value? w = some ⟨ty, .constInt b, t⟩ → f.printValue m v = g.printValue m w → a = b) ∧
    (∀ x y : Ir.Global, x.escaped = y.escaped → x.bytes = y.bytes) ∧
    ∀ x : Ir.Global, Ir.Escaped x.escaped.toList := by
  intro m
  have htidy : ∀ f ∈ m.functions, f.Tidy := by
    intro f hf
    obtain ⟨j, hj, rfl⟩ := Array.mem_iff_getElem.1 hf
    exact (lowerProgram_tidy ha p).function (j := ⟨j⟩) (Array.getElem?_eq_getElem hj)
  refine ⟨fun f hf => (htidy f hf).nodup_givenNames m, ?_, fun _ _ => Ir.Global.escaped_inj, Ir.Global.escaped_escaped⟩
  intro f hf g hg v w ty a b s t hv hw h
  have hmasked : ∀ {f : Ir.Function}, f.Tidy → ∀ {v a s}, f.value? v = some ⟨ty, .constInt a, s⟩ →
      Word.mask a (ty.intBits?.getD 64) = a := by
    intro f ht v a s hv
    exact ht.masked (by simpa using Array.mem_of_getElem? hv)
  simp only [Ir.Function.printValue, hv, hw] at h
  exact Ir.printConstInt_inj (hmasked (htidy f hf) hv) (hmasked (htidy g hg) hw) h

end

/-- A function whose variables are named as if their names were numbered. -/
def dottedNames : Program where
  structs := []
  functions := [{
    symbol := "f", receiver := none, params := [⟨"x", .named "i32", default⟩], returnType := .unit
    body := [.var default "x.1" none (.int default 7), .var default "1" none (.int default 7)], span := default }]

theorem dotted_names_are_unambiguous :
    let m := (lowerProgram {} .collector dottedNames).module
    (∃ f ∈ m.functions, f.givenNames m = ["%0", "%entry0", "%x.1", "%x.1.3", "%1.5"] ∧ (f.givenNames m).Nodup ∧
      ∃ a b, f.value? ⟨2⟩ = some ⟨.i32, .constInt a, ""⟩ ∧ f.value? ⟨4⟩ = some ⟨.i32, .constInt b, ""⟩ ∧
        f.printValue m ⟨2⟩ = f.printValue m ⟨4⟩ ∧ a = b) ∧
    ∃ x y : Ir.Global, x.name ≠ y.name ∧ x.escaped = y.escaped ∧ x.bytes = y.bytes := by
  intro m
  obtain ⟨hnames, hconstants, htexts, -⟩ := printed_programs_are_unambiguous {} collector_callsOut dottedNames
  have hsize : 0 < m.functions.size := by decide +kernel
  have hmem : m.functions.getD 0 default ∈ m.functions := by
    rw [Array.getD, dif_pos hsize]
    exact Array.getElem_mem hsize
  have hfirst : (m.functions.getD 0 default).value? ⟨2⟩ = some ⟨.i32, .constInt 7, ""⟩ := by decide +kernel
  have hsecond : (m.functions.getD 0 default).value? ⟨4⟩ = some ⟨.i32, .constInt 7, ""⟩ := by decide +kernel
  have hprint : (m.functions.getD 0 default).printValue m ⟨2⟩ = (m.functions.getD 0 default).printValue m ⟨4⟩ := by
    decide +kernel
  refine ⟨⟨_, hmem, by decide +kernel, hnames _ hmem, 7, 7, hfirst, hsecond, hprint, ?_⟩, ?_⟩
  · exact hconstants _ hmem _ hmem _ _ _ _ _ _ _ hfirst hsecond hprint
  · exact ⟨⟨"a", #[0x22]⟩, ⟨"b", #[0x22]⟩, by decide, rfl, htexts ⟨"a", #[0x22]⟩ ⟨"b", #[0x22]⟩ rfl⟩

end BlockForge.Lowering
