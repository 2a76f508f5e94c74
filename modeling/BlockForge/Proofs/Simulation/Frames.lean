import BlockForge.Proofs.Lowering.State
import BlockForge.Proofs.Machine.Branching
import BlockForge.Proofs.Machine.Entry
import BlockForge.Proofs.Reference.Evaluation
import BlockForge.Proofs.Simulation.Encoding

/-!
# Frames and variables

A frame of the machine `Stands` for a point in the run of a function: its stack slots hold the variables in
scope, the store holds the objects, and what belongs to the frames below is as it was when the function was
entered.
-/

namespace BlockForge.Simulation

open Ir (Builder Inst ValueId)
open Lowering (Binding Env Scope Tables)
open Machine (Aim Allocation CallsAtomic Live Memory Stays Tells World blockAddress maxBlocks maxOffset slotSize)
open Reference (Caller Datum Heap Locals)

/-! ### Allocations without references -/

/-- Where allocations are watched, their roles tell which of them are atomic; only constant texts are kept as
they are. Nothing is ever written to a text, so it does not matter how it is allocated. -/
structure Watch (A : Aim) (tables : Tables) (g : Ground) : Prop where
  atomic : A.watched → ∀ {j : Nat} {r : Role}, g[j]? = some r → r.isText = false →
    (A.atomic j ↔ r.isAtomic tables = true)
  kept : ∀ {j : Nat}, A.kept j → ∃ k, g[j]? = some (.text k)

theorem Watch.append {A : Aim} {tables : Tables} {g : Ground} (h : Watch A tables g) {new : List Role}
    (hnew : A.watched → ∀ {i : Nat} {r : Role}, new[i]? = some r → r.isText = false →
      (A.atomic (g.length + i) ↔ r.isAtomic tables = true)) : Watch A tables (g ++ new) where
  atomic hw j r hj hr := by
    rw [List.getElem?_append] at hj
    split at hj
    · exact h.atomic hw hj hr
    · have := hnew hw hj hr
      rwa [show g.length + (j - g.length) = j by omega] at this
  kept hj := by
    obtain ⟨k, hk⟩ := h.kept hj
    exact ⟨k, getElem?_of_grown (List.prefix_append ..) hk⟩

/-- What is no text is not kept. -/
theorem Watch.not_kept {A : Aim} {tables : Tables} {g : Ground} (h : Watch A tables g) {j : Nat} {r : Role}
    (hj : g[j]? = some r) (hr : r.isText = false) : ¬A.kept j := by
  intro hk
  obtain ⟨k, hk⟩ := h.kept hk
  rw [hj] at hk
  cases hk
  cases hr

/-! ### Scenes -/

/-- What stays the same while a function runs: where it was entered, with the roles of the allocations then,
what its calls compute, and how many more of them may be active. -/
structure Scene where
  env : Env
  world : World
  call : Caller
  depth : Nat
  rounds : Nat
  start : Machine.State
  ground : Ground

namespace Scene

variable (S : Scene)

def layout : Types.Layout := S.env.layout

/-- The stack slots of the function. -/
def slots : List Inst := S.world.func.slots Ir.Id.entry

/-- The number of the allocation of a stack slot. -/
def slotBlock (i : Nat) : Nat := S.start.store.memory.blocks.size + i

/-- With one less to show. -/
def pred : Scene := { S with world := S.world.pred }

end Scene

/-- A program that can be run: the target has 64-bit pointers, the functions have bodies, the layouts of records
fit an address, and the texts fit into memory. Nothing is shown of a run that has used up the numbers of
allocations. -/
structure Runnable (env : Env) (A : Aim) : Prop where
  bits : env.config.pointerBits = 64
  fits : env.Fits A.module
  allocator : env.allocator = .collector
  bodies : ∀ {symbol sig}, env.tables.function? symbol = some sig →
    ∃ f, A.module.function? sig.func = some f ∧ f.Ok A.module ∧ 0 < f.blocks.size
  full : ∀ {n : Nat} {M : Machine.State},
    maxBlocks ≤ M.store.memory.blocks.size + pending M.store.globals → A.holds n M
  recordSize : ∀ {name info}, env.tables.record? name = some info → A.module.sizeOf (.struct info.id) < 2 ^ 64
  fieldNames : ∀ {name info}, env.tables.record? name = some info → (info.fields.map (·.1)).Nodup
  textSize : ∀ {k : Nat} {t : Ir.Global}, A.module.globals[k]? = some t → t.bytes.size ≤ maxOffset

theorem Runnable.pointerBits {env : Env} {A : Aim} (h : Runnable env A) : env.layout.pointerBits = 64 := h.bits

theorem Runnable.modulePointerBits {env : Env} {A : Aim} (h : Runnable env A) : A.module.pointerBits = 64 :=
  h.fits.pointerBits.trans h.bits

/-! ### Variables -/

/-- A name of the scope is a variable of the program, with a slot of its own. -/
def Var (P : ValueId → Datum → Prop) (e : String × Binding) (x : String × Datum) : Prop :=
  e.1 = x.1 ∧ ∃ slot, e.2 = Binding.slot slot x.2.type ∧ P slot x.2

/-- The variables of a scope, block by block. -/
def Vars (P : ValueId → Datum → Prop) (scope : Scope) (ρ : Locals) : Prop :=
  List.Forall₂ (List.Forall₂ (Var P)) scope.frames ρ

/-- The slot of a binding. -/
def slotOf (e : String × Binding) : Option ValueId :=
  match e.2 with
  | .slot slot _ => some slot
  | .poisoned => none

/-- The slots of a scope. -/
def slotsOf (scope : Scope) : List ValueId := scope.frames.flatten.filterMap slotOf

theorem mem_of_lookup_slot {frame : List (String × Binding)} {name : String} {slot : ValueId} {t : Types.Ty}
    (h : frame.lookup name = some (.slot slot t)) : slot ∈ frame.filterMap slotOf :=
  List.mem_filterMap.2 ⟨_, Lowering.mem_of_lookup h, rfl⟩

section

variable {P Q : ValueId → Datum → Prop} {scope : Scope} {ρ : Locals}

theorem Var.imp {e : String × Binding} {x : String × Datum} (h : Var P e x)
    (hPQ : ∀ slot d, slotOf e = some slot → P slot d → Q slot d) : Var Q e x := by
  obtain ⟨hn, slot, hs, hp⟩ := h
  exact ⟨hn, slot, hs, hPQ slot x.2 (by rw [slotOf, hs]) hp⟩

theorem block_imp {frame : List (String × Binding)} {block : List (String × Datum)}
    (h : List.Forall₂ (Var P) frame block)
    (hPQ : ∀ slot d, slot ∈ frame.filterMap slotOf → P slot d → Q slot d) : List.Forall₂ (Var Q) frame block := by
  induction h with
  | nil => exact .nil
  | @cons e x frame block he hrest ih =>
    refine .cons (he.imp fun slot d hs => hPQ slot d ?_) (ih fun slot d hs => hPQ slot d ?_)
    · exact List.mem_filterMap.2 ⟨e, by simp, hs⟩
    · obtain ⟨e', he', hs⟩ := List.mem_filterMap.1 hs
      exact List.mem_filterMap.2 ⟨e', by simp [he'], hs⟩

theorem blocks_imp {frames : List (List (String × Binding))} {ρ : Locals}
    (h : List.Forall₂ (List.Forall₂ (Var P)) frames ρ)
    (hPQ : ∀ slot d, slot ∈ frames.flatten.filterMap slotOf → P slot d → Q slot d) :
    List.Forall₂ (List.Forall₂ (Var Q)) frames ρ := by
  induction h with
  | nil => exact .nil
  | cons hb hrest ih =>
    rw [List.flatten_cons, List.filterMap_append] at hPQ
    exact .cons (block_imp hb fun slot d hs => hPQ slot d (List.mem_append_left _ hs))
      (ih fun slot d hs => hPQ slot d (List.mem_append_right _ hs))

theorem block_lookup {frame : List (String × Binding)} {block : List (String × Datum)}
    (h : List.Forall₂ (Var P) frame block) (name : String) :
    (frame.lookup name = none → block.lookup name = none) ∧
    ∀ {slot t}, frame.lookup name = some (.slot slot t) →
      ∃ v, block.lookup name = some ⟨v, t⟩ ∧ P slot ⟨v, t⟩ := by
  induction h with
  | nil => exact ⟨fun _ => rfl, fun {_ _} h => nomatch h⟩
  | @cons e x frame block he hrest ih =>
    obtain ⟨n, b⟩ := e
    obtain ⟨n', d⟩ := x
    obtain ⟨hname, slot, hs, hp⟩ := he
    obtain rfl : n = n' := hname
    simp only [List.lookup_cons]
    cases hn : name == n with
    | true =>
      refine ⟨fun h => (nomatch h), fun {_ _} h => ?_⟩
      obtain rfl : b = _ := Option.some.inj h
      cases hs
      exact ⟨d.value, rfl, hp⟩
    | false => exact ⟨ih.1, ih.2⟩

theorem block_assign {frame : List (String × Binding)} {block : List (String × Datum)}
    (h : List.Forall₂ (Var P) frame block) (hnodup : (frame.filterMap slotOf).Nodup) {name : String}
    {slot : ValueId} {t : Types.Ty} (hn : frame.lookup name = some (.slot slot t)) {v : Reference.Value}
    (hothers : ∀ s d, s ≠ slot → P s d → Q s d) (hself : Q slot ⟨v, t⟩) :
    List.Forall₂ (Var Q) frame (Locals.assignIn name v block) := by
  induction h with
  | nil => cases hn
  | @cons e x frame block he hrest ih =>
    obtain ⟨n, b⟩ := e
    obtain ⟨n', d⟩ := x
    obtain ⟨hnn, slot', hs, hp⟩ := he
    obtain rfl : n = n' := hnn
    obtain rfl : b = .slot slot' d.type := hs
    change (slot' :: frame.filterMap slotOf).Nodup at hnodup
    obtain ⟨hnot, hnodup⟩ := List.nodup_cons.1 hnodup
    rw [List.lookup_cons] at hn
    cases hname : name == n with
    | true =>
      obtain rfl := eq_of_beq hname
      rw [hname] at hn
      cases hn
      rw [Locals.assignIn, if_pos rfl]
      refine .cons ⟨rfl, slot, rfl, hself⟩ (block_imp hrest fun s d hs => hothers s d ?_)
      rintro rfl
      exact hnot hs
    | false =>
      rw [hname] at hn
      rw [Locals.assignIn, if_neg (fun he => by simp [he] at hname)]
      refine .cons ⟨rfl, slot', rfl, hothers _ _ ?_ hp⟩ (ih hnodup hn)
      rintro rfl
      exact hnot (mem_of_lookup_slot hn)

namespace Vars

theorem imp (h : Vars P scope ρ) (hPQ : ∀ slot d, P slot d → Q slot d) : Vars Q scope ρ :=
  blocks_imp h fun slot d _ => hPQ slot d

/-- The variables that are not in a slot. -/
theorem others (h : Vars P scope ρ) {slot : ValueId} (hs : slot ∉ slotsOf scope)
    (hPQ : ∀ s d, s ≠ slot → P s d → Q s d) : Vars Q scope ρ :=
  blocks_imp h fun s d hmem => hPQ s d fun he => hs (he ▸ hmem)

theorem push (h : Vars P scope ρ) : Vars P scope.push ([] :: ρ) := .cons .nil h

theorem pop (h : Vars P scope ρ) : Vars P scope.pop ρ.tail := by
  unfold Vars at h ⊢
  cases h' : scope.frames with
  | nil =>
    rw [h'] at h
    cases h
    simp [Scope.pop, h']
  | cons f rest =>
    rw [h'] at h
    cases h with
    | cons _ hrest => simpa [Scope.pop, h'] using hrest

theorem lookup (h : Vars P scope ρ) {name : String} {slot : ValueId} {t : Types.Ty}
    (hn : scope.lookup? name = some (.slot slot t)) : ∃ v, ρ.lookup? name = some ⟨v, t⟩ ∧ P slot ⟨v, t⟩ := by
  obtain ⟨frames⟩ := scope
  change List.Forall₂ (List.Forall₂ (Var P)) frames ρ at h
  change frames.findSome? _ = _ at hn
  induction h with
  | nil => cases hn
  | @cons frame block frames ρ hb hrest ih =>
    obtain ⟨hnone, hsome⟩ := block_lookup hb name
    rw [List.findSome?_cons] at hn
    rw [Locals.lookup?, List.findSome?_cons]
    cases hf : frame.lookup name with
    | none =>
      rw [hf] at hn
      rw [hnone hf]
      exact ih hn
    | some b =>
      rw [hf] at hn
      obtain rfl : b = _ := Option.some.inj hn
      obtain ⟨v, hv, hp⟩ := hsome hf
      exact ⟨v, by rw [hv], hp⟩

theorem declare (h : Vars P scope ρ) {name : String} {slot : ValueId} {d : Datum} {scope' : Scope}
    (hd : scope.declare? name (.slot slot d.type) = some scope') (hP : P slot d) :
    Vars P scope' (ρ.declare name d) := by
  obtain ⟨frames⟩ := scope
  change List.Forall₂ (List.Forall₂ (Var P)) frames ρ at h
  cases h with
  | nil => cases hd
  | cons hb hrest =>
    simp only [Scope.declare?] at hd
    split at hd
    · cases hd
    · cases hd
      exact .cons (.cons ⟨rfl, slot, rfl, hP⟩ hb) hrest

theorem assign (h : Vars P scope ρ) (hnodup : (slotsOf scope).Nodup) {name : String} {slot : ValueId} {t : Types.Ty}
    (hn : scope.lookup? name = some (.slot slot t)) {v : Reference.Value}
    (hothers : ∀ s d, s ≠ slot → P s d → Q s d) (hself : Q slot ⟨v, t⟩) :
    Vars Q scope (ρ.assign name v) := by
  obtain ⟨frames⟩ := scope
  change List.Forall₂ (List.Forall₂ (Var P)) frames ρ at h
  change frames.findSome? _ = _ at hn
  change (frames.flatten.filterMap slotOf).Nodup at hnodup
  induction h with
  | nil => cases hn
  | @cons frame block frames ρ hb hrest ih =>
    rw [List.flatten_cons, List.filterMap_append, List.nodup_append] at hnodup
    obtain ⟨hframe, hframes, hdisjoint⟩ := hnodup
    obtain ⟨hnone, hsome⟩ := block_lookup hb name
    rw [List.findSome?_cons] at hn
    rw [Locals.assign]
    cases hf : frame.lookup name with
    | none =>
      rw [hf] at hn
      rw [hnone hf]
      refine .cons (block_imp hb fun s d hs => hothers s d ?_) (ih hn hframes)
      rintro rfl
      obtain ⟨f, hmem, hlookup⟩ := List.exists_of_findSome?_eq_some hn
      refine hdisjoint _ hs s ?_ rfl
      obtain ⟨e, he, hes⟩ := List.mem_filterMap.1 (mem_of_lookup_slot hlookup)
      exact List.mem_filterMap.2 ⟨e, List.mem_flatten.2 ⟨f, hmem, he⟩, hes⟩
    | some b =>
      rw [hf] at hn
      obtain rfl : b = _ := Option.some.inj hn
      obtain ⟨w, hw, -⟩ := hsome hf
      rw [hw]
      refine .cons (block_assign hb hframe hf hothers hself) (blocks_imp hrest fun s d hs => hothers s d ?_)
      rintro rfl
      exact hdisjoint s (mem_of_lookup_slot hf) s hs rfl

end Vars

end

/-! ### Frames -/

/-- The frame of a scene: the addresses of its slots are where they were put at its start. -/
structure Seated (S : Scene) (M : Machine.State) : Prop where
  args : M.frame.args = S.start.frame.args
  depth : M.frame.depth = S.start.frame.depth
  callers : M.callers = S.start.callers
  slots : M.frame.slots = ((List.range S.slots.length).map fun i => blockAddress (S.slotBlock i)).reverse
  held : ∀ {i : Nat} {x : Inst} {v : ValueId}, S.slots[i]? = some x → x.result = some v →
    M.frame.regs[v.index]? = some (some (.ptr (blockAddress (S.slotBlock i))))

theorem Seated.stays {S : Scene} {M M' : Machine.State} {n : Nat} (h : Seated S M)
    (hs : Stays S.world.func n M M') : Seated S M' where
  args := hs.args.trans h.args
  depth := hs.depth.trans h.depth
  callers := hs.callers.trans h.callers
  slots := hs.slots.trans h.slots
  held hx hv := (hs.kept _ (.inr ⟨_, List.mem_of_getElem? hx, hv⟩)).trans (h.held hx hv)

/-- The address of a slot. -/
theorem Seated.value? {S : Scene} {M : Machine.State} (h : Seated S M) (hf : M.frame.func = S.world.func) {i : Nat}
    {x : Inst} {v : ValueId} (hx : S.slots[i]? = some x) (hv : x.result = some v) :
    M.frame.value? v = some (.ptr (blockAddress (S.slotBlock i))) := by
  obtain ⟨hmem, -⟩ := List.mem_filter.1 (List.mem_of_getElem? hx)
  obtain ⟨val, c, hval, hkind⟩ := (S.world.ok.insts _ x hmem).result v hv
  simp [Machine.Frame.value?, hf, hval, hkind, h.held hx hv]

/-- A variable in a slot. -/
structure VarAt (S : Scene) (g : Ground) (mem : Memory) (slot : ValueId) (d : Datum) (i : Nat) (a : Allocation) :
    Prop where
  slot : S.slots[i]? = some ⟨some slot, .alloca (S.env.ir d.type)⟩
  found : mem.blocks[S.slotBlock i]? = some (some a)
  holds : Encodes S.layout S.world.module g d.type d.value (a.read (S.env.ir d.type) 0)

/-- The variables in scope. -/
def VarsAt (S : Scene) (g : Ground) (mem : Memory) : Scope → Locals → Prop :=
  Vars fun slot d => ∃ i a, VarAt S g mem slot d i a

/-- A state of the machine stands for a point in the run of a function. -/
structure Stands (S : Scene) (scope : Scope) (ρ : Locals) (g : Ground) (H : Heap) (M : Machine.State) : Prop where
  seated : Seated S M
  models : Models S.layout S.env.tables S.world.module g H M.store
  watch : Watch S.world.toAim S.env.tables g
  since : S.ground ++ List.replicate S.slots.length .stack <+: g
  frozen : ∀ {i : Nat}, S.ground[i]? = some .stack →
    M.store.memory.blocks[i]? = S.start.store.memory.blocks[i]?
  live : ∀ {i : Nat} {x : Inst}, S.slots[i]? = some x →
    ∃ a, M.store.memory.blocks[S.slotBlock i]? = some (some a) ∧ a.size = slotSize S.world.module x
  vars : VarsAt S g M.store.memory scope ρ

/-- A scene whose functions can be run, and where the roles told all allocations. -/
structure Scene.Ready (S : Scene) : Prop where
  runnable : Runnable S.env S.world.toAim
  size : S.ground.length = S.start.store.memory.blocks.size
  pos : 0 < S.ground.length

namespace Scene.Ready

variable {S : Scene} (h : S.Ready) {g : Ground}

include h

theorem slotBlock_eq (i : Nat) : S.slotBlock i = S.ground.length + i := by rw [Scene.slotBlock, h.size]

/-- The slots are on the stack. -/
theorem role (hg : S.ground ++ List.replicate S.slots.length .stack <+: g) {i : Nat} (hi : i < S.slots.length) :
    g[S.slotBlock i]? = some .stack := by
  refine getElem?_of_grown hg ?_
  rw [h.slotBlock_eq, List.getElem?_append_right (Nat.le_add_right ..), Nat.add_sub_cancel_left,
    List.getElem?_replicate, if_pos hi]

end Scene.Ready

namespace Stands

variable {S : Scene} {scope : Scope} {ρ : Locals} {g g' : Ground} {H H' : Heap} {M M' : Machine.State}

theorem lt_slots {x : Inst} {i : Nat} (hx : S.slots[i]? = some x) : i < S.slots.length :=
  (List.getElem?_eq_some_iff.1 hx).1

/-- What happens outside of the stack leaves the variables as they are. -/
theorem carry (hS : S.Ready) (h : Stands S scope ρ g H M) (hseat : Seated S M') (hg : g <+: g')
    (hm : Models S.layout S.env.tables S.world.module g' H' M'.store) (hw : Watch S.world.toAim S.env.tables g')
    (hkeep : ∀ {i : Nat}, g[i]? = some .stack →
      M'.store.memory.blocks[i]? = M.store.memory.blocks[i]?) : Stands S scope ρ g' H' M' where
  seated := hseat
  models := hm
  watch := hw
  since := h.since.trans hg
  frozen hi := (hkeep (getElem?_of_grown ((List.prefix_append ..).trans h.since) hi)).trans (h.frozen hi)
  live hx := by
    obtain ⟨a, ha, hsize⟩ := h.live hx
    exact ⟨a, (hkeep (hS.role h.since (lt_slots hx))).trans ha, hsize⟩
  vars := h.vars.imp fun slot d ⟨i, a, hv⟩ => ⟨i, a, hv.slot,
    (hkeep (hS.role h.since (lt_slots hv.slot))).trans hv.found, hv.holds.mono hg⟩

/-- The same store. -/
theorem stays (hS : S.Ready) (h : Stands S scope ρ g H M) {n : Nat} (hs : Stays S.world.func n M M')
    (he : M'.store = M.store) : Stands S scope ρ g H M' :=
  h.carry hS (h.seated.stays hs) (List.prefix_refl _) (by rw [he]; exact h.models) h.watch fun _ => by rw [he]

theorem push (h : Stands S scope ρ g H M) : Stands S scope.push ([] :: ρ) g H M := { h with vars := h.vars.push }

theorem pop (h : Stands S scope ρ g H M) : Stands S scope.pop ρ.tail g H M := { h with vars := h.vars.pop }

/-- The allocation of a slot. -/
theorem live_slot (hS : S.Ready) (h : Stands S scope ρ g H M) {i : Nat} {slot : ValueId} {t : Types.Ty} {a : Allocation}
    (hx : S.slots[i]? = some ⟨some slot, .alloca (S.env.ir t)⟩)
    (ha : M.store.memory.blocks[S.slotBlock i]? = some (some a)) :
    Live M.store.memory (S.slotBlock i) a ∧ a.size = Machine.cellBytes (S.env.ir t) := by
  obtain ⟨a', ha', hsize⟩ := h.live hx
  obtain rfl : a = a' := Option.some.inj (Option.some.inj (ha.symm.trans ha'))
  have hcell : a.size = Machine.cellBytes (S.env.ir t) :=
    hsize.trans (Machine.sizeOf_eq_cellBytes hS.runnable.modulePointerBits (Lowering.Env.isScalar_ir t))
  have hrole := hS.role h.since (lt_slots hx)
  refine ⟨⟨?_, h.models.lt_maxBlocks (List.getElem?_eq_some_iff.1 hrole).1, ha, ?_⟩, hcell⟩
  · rw [hS.slotBlock_eq]
    have := hS.pos
    omega
  · have := Machine.cellBytes_le (S.env.ir t)
    unfold maxOffset
    omega

/-- A variable is read from its slot. -/
theorem lookup (hS : S.Ready) (h : Stands S scope ρ g H M) (hf : M.frame.func = S.world.func) {name : String}
    {slot : ValueId} {t : Types.Ty} (hn : scope.lookup? name = some (.slot slot t)) :
    ∃ v addr x, ρ.lookup? name = some ⟨v, t⟩ ∧ M.frame.value? slot = some (.ptr addr) ∧
      M.store.memory.load S.world.module (S.env.ir t) addr = .ok x ∧
      Encodes S.layout S.world.module g t v x := by
  obtain ⟨v, hv, i, a, hvar⟩ := h.vars.lookup hn
  obtain ⟨hlive, hsize⟩ := h.live_slot hS hvar.slot hvar.found
  refine ⟨v, _, _, hv, h.seated.value? hf hvar.slot rfl, ?_, hvar.holds⟩
  rw [← Machine.addressOf_zero]
  exact hlive.load_eq hS.runnable.modulePointerBits (Lowering.Env.isScalar_ir t) (by rw [hsize, Nat.zero_add])

/-- A slot takes a value; the variables in other slots keep theirs. -/
theorem store (hS : S.Ready) (h : Stands S scope ρ g H M) {i : Nat} {slot : ValueId} {t : Types.Ty}
    (hi : S.slots[i]? = some ⟨some slot, .alloca (S.env.ir t)⟩) {v : Reference.Value} {x : Machine.Val}
    (hx : Encodes S.layout S.world.module g t v x) :
    ∃ mem, Machine.Mem.store S.world.module (S.env.ir t) (blockAddress (S.slotBlock i)) x M.store.memory = .ok () mem ∧
      ∀ {M' : Machine.State} {scope' : Scope} {ρ' : Locals}, Seated S M' →
        M'.store = { M.store with memory := mem } →
        ((∀ {s d}, s ≠ slot → (∃ j a, VarAt S g M.store.memory s d j a) → ∃ j a, VarAt S g mem s d j a) →
          (∃ j a, VarAt S g mem slot ⟨Reference.keptAs t v, t⟩ j a) → VarsAt S g mem scope' ρ') →
        Stands S scope' ρ' g H M' := by
  obtain ⟨a, ha, -⟩ := h.live hi
  obtain ⟨hlive, hsize⟩ := h.live_slot hS hi ha
  have hfit : 0 + Machine.cellBytes (S.env.ir t) ≤ a.size := by rw [hsize, Nat.zero_add]
  have hof : x.Of (S.env.ir t) := hx.of hS.runnable.pointerBits
  have hstack := hS.role h.since (lt_slots hi)
  have hother : ∀ {j : Nat}, j ≠ S.slotBlock i →
      (M.store.memory.set (S.slotBlock i) (a.write (S.env.ir t) 0 x)).blocks[j]? = M.store.memory.blocks[j]? :=
    fun hj => Memory.set_ne _ (Ne.symm hj)
  have hself : (M.store.memory.set (S.slotBlock i) (a.write (S.env.ir t) 0 x)).blocks[S.slotBlock i]? =
      some (some (a.write (S.env.ir t) 0 x)) := (hlive.set_self (Allocation.size_write ..)).found
  refine ⟨M.store.memory.set (S.slotBlock i) (a.write (S.env.ir t) 0 x), ?_, fun {M' scope' ρ'} hseat hst hvars => ?_⟩
  · rw [← Machine.addressOf_zero]
    exact hlive.store_eq hS.runnable.modulePointerBits hof hfit
  · have hmodels := h.models.stack 0 M'.store.memory M'.store.calls (by simp [hst])
      (by rw [hst]; simpa using h.models.room) fun {j r} hj hr => by
        rw [hst]
        refine hother ?_
        rintro rfl
        rw [hstack] at hj
        exact hr (Option.some.inj hj).symm
    refine
      { seated := hseat
        models := by
          rw [List.replicate_zero, List.append_nil] at hmodels
          have : M'.store = ⟨M'.store.memory, M.store.globals, M'.store.calls⟩ := by rw [hst]
          rw [this]
          exact hmodels
        watch := h.watch
        since := h.since
        frozen := fun {j} hj => ?_
        live := fun {j y} hy => ?_
        vars := ?_ }
    · rw [hst, ← h.frozen hj]
      refine hother ?_
      have := (List.getElem?_eq_some_iff.1 hj).1
      rw [hS.slotBlock_eq]
      omega
    · rw [hst]
      by_cases hji : j = i
      · subst hji
        rw [hi] at hy
        cases hy
        obtain ⟨a', ha', hsize'⟩ := h.live hi
        obtain rfl : a = a' := Option.some.inj (Option.some.inj (ha.symm.trans ha'))
        exact ⟨_, hself, by rw [Allocation.size_write]; exact hsize'⟩
      · obtain ⟨a', ha', hsize'⟩ := h.live hy
        refine ⟨a', (hother ?_).trans ha', hsize'⟩
        unfold Scene.slotBlock
        omega
    · rw [hst]
      refine hvars (fun {s d} hs ⟨j, b, hb⟩ => ⟨j, b, hb.slot, (hother ?_).trans hb.found, hb.holds⟩)
        ⟨i, _, hi, hself, ?_⟩
      · intro hj
        obtain rfl : j = i := by
          unfold Scene.slotBlock at hj
          omega
        have := hb.slot.symm.trans hi
        simp only [Option.some.injEq, Inst.mk.injEq] at this
        exact hs this.1
      · show Encodes _ _ _ t _ ((a.write (S.env.ir t) 0 x).read (S.env.ir t) 0)
        rw [Allocation.read_write_self a 0 hof]
        exact hx.kept hS.runnable.pointerBits

end Stands

end BlockForge.Simulation
