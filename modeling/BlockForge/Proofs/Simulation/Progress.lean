import BlockForge.Proofs.Lowering.Rules
import BlockForge.Proofs.Simulation.Frames

/-!
# From one point of a run to the next

What it means that running emitted code does what the program means: from a state that `Stands` for a point
in the run of a function, a goal follows if it follows of every state that stands for the next point
(`Leads`). A value is in a register, or is a constant text that comes into memory when it is used.
-/

namespace BlockForge.Simulation

open Ir (Builder GlobalId ValueId)
open Ir.Emit (Onward)
open Lowering (Env Scope Tables)
open Machine (Aim At AtEntry Careful Exec Frame Holds Live Memory Moved Stays Store Val World blockAddress
  blockIndex maxBlocks)
open Reference (Caller Datum Heap Locals Result Sem Stop Trap Value keptAs)
open BlockForge.Types (Layout Ty)

/-! ### Constant texts -/

/-- A constant text is in memory once its address has been asked for. -/
theorem globalAddress_eq {l : Layout} {tables : Tables} {A : Aim} {g : Ground} {H : Heap} {M : Machine.State}
    (hm : Models l tables A.module g H M.store) {k : GlobalId} {s : String} (hs : IsText A.module k.index s)
    (hsize : (textBytes s).size ≤ Machine.maxOffset) :
    ∃ j new st, Exec.globalAddress A.module k M = .ok (blockAddress j) { M with store := st } ∧
      Models l tables A.module (g ++ new) H st ∧ (∀ r ∈ new, r.isText = true) ∧
      (g ++ new)[j]? = some (.text k.index) ∧
      ∀ {i : Nat}, i < M.store.memory.blocks.size → st.memory.blocks[i]? = M.store.memory.blocks[i]? := by
  have hlt : k.index < M.store.globals.size := by
    rw [hm.globals]
    obtain ⟨t, ht, -⟩ := Option.map_eq_some_iff.1 hs
    exact (Array.getElem?_eq_some_iff.1 ht).1
  have hget : (get : Exec Machine.State) M = .ok M M := rfl
  cases hk : M.store.globals[k.index]? with
  | none =>
    rw [Array.getElem?_eq_none_iff] at hk
    omega
  | some o =>
    cases o with
    | some addr =>
      obtain ⟨j, rfl, hj⟩ := hm.texts hk
      refine ⟨j, [], M.store, ?_, by simpa using hm, by simp, by simpa using hj, fun _ => rfl⟩
      unfold Exec.globalAddress
      rw [Machine.bind_ok hget, hk]
      rfl
    | none =>
      obtain ⟨t, ht, hbytes⟩ := Option.map_eq_some_iff.1 hs
      let n := M.store.memory.blocks.size
      let fresh : Machine.Allocation := { size := (textBytes s).size }
      let mem := M.store.memory.push fresh
      have hn : g.length = n := hm.size
      have hlive : Live mem n fresh :=
        ⟨hn ▸ hm.pos, by have := hm.room; omega, Memory.push_self .., hsize⟩
      let filled := fresh.fill 0 (textBytes s).size fun i => (textBytes s).getD i 0
      have hwrite : Machine.Mem.write (blockAddress n) (textBytes s) mem = .ok () (mem.set n filled) := by
        rw [← Machine.addressOf_zero]
        exact hlive.fill_eq (Nat.le_of_eq (Nat.zero_add _)) _
      have hold : ∀ {i : Nat}, i < n → (mem.set n filled).blocks[i]? = M.store.memory.blocks[i]? :=
        fun hi => (Memory.set_ne _ (Nat.ne_of_gt hi)).trans (Memory.push_lt _ hi)
      refine ⟨n, [.text k.index], _, ?_, hm.text (mem.set n filled) hk (by simp [mem, n]) hold,
        by simp [Role.isText], by rw [← hn]; simp, hold⟩
      unfold Exec.globalAddress
      rw [Machine.bind_ok hget, hk]
      dsimp only
      rw [ht, Option.getD_some, hbytes]
      rw [Machine.bind_ok (Machine.onMemory_ok (Machine.allocate_eq hsize)),
        Machine.bind_ok (Machine.onMemory_ok (M := M.withMemory mem) hwrite)]
      rfl

/-! ### Values of operands -/

/-- An operand has a value: in a register, or as a constant text. -/
def Denotes (S : Scene) (b : Builder) (M : Machine.State) (g : Ground) (v : ValueId) (d : Datum) : Prop :=
  (∃ x, Holds b M v x ∧ Encodes S.layout S.world.module g d.type d.value x) ∨
  ∃ s t k name, d = ⟨.text s, .string⟩ ∧ v.index < b.function.values.size ∧
    S.world.func.value? v = some ⟨t, .global k, name⟩ ∧ IsText S.world.module k.index s

section

variable {S : Scene} {b b' : Builder} {M M' : Machine.State} {g g' : Ground} {v : ValueId} {d : Datum}

theorem Denotes.of_holds {x : Val} (h : Holds b M v x)
    (hx : Encodes S.layout S.world.module g d.type d.value x) : Denotes S b M g v d := .inl ⟨x, h, hx⟩

theorem Denotes.mono (h : Denotes S b M g v d) (hm : Moved S.world.func b M b' M') (hg : g <+: g') :
    Denotes S b' M' g' v d := by
  rcases h with ⟨x, hv, hx⟩ | ⟨s, t, k, name, hd, hlt, hv, hs⟩
  · exact .inl ⟨x, hm.holds hv, hx.mono hg⟩
  · exact .inr ⟨s, t, k, name, hd, Nat.lt_of_lt_of_le hlt hm.grown, hv, hs⟩

/-- An operand does not depend on the store. -/
theorem Denotes.restore {st : Store} (h : Denotes S b M g v d) (hg : g <+: g') :
    Denotes S b { M with store := st } g' v d := by
  rcases h with ⟨x, hv, hx⟩ | ⟨s, t, k, name, hd, hlt, hv, hs⟩
  · exact .inl ⟨x, ⟨hv.lt, hv.value⟩, hx.mono hg⟩
  · exact .inr ⟨s, t, k, name, hd, hlt, hv, hs⟩

/-- A value that is not a text is in a register. -/
theorem Denotes.holds (h : Denotes S b M g v d) (ht : d.type ≠ .string) :
    ∃ x, Holds b M v x ∧ Encodes S.layout S.world.module g d.type d.value x := by
  rcases h with h | ⟨s, t, k, name, rfl, -⟩
  · exact h
  · exact absurd rfl ht

theorem Denotes.coerce (h : Denotes S b M g v d) {t : Ty} (ha : Types.assignable d.type t = true) :
    Denotes S b M g v ⟨d.value, t⟩ := by
  rcases h with ⟨x, hv, hx⟩ | ⟨s, u, k, name, rfl, hrest⟩
  · exact .inl ⟨x, hv, hx.coerce ha⟩
  · obtain rfl : t = .string := by cases t <;> simp_all [Types.assignable]
    exact .inr ⟨s, u, k, name, rfl, hrest⟩

variable {scope : Scope} {ρ : Locals} {H : Heap}

/-- The value of an operand; a text may come into memory for it. -/
theorem Denotes.fetch (h : Denotes S b M g v d) (hS : S.Ready) (hM : Stands S scope ρ g H M)
    (hf : M.frame.func = S.world.func) :
    ∃ x st g', Exec.operand S.world.module v M = .ok x { M with store := st } ∧ g <+: g' ∧
      Stands S scope ρ g' H { M with store := st } ∧ Encodes S.layout S.world.module g' d.type d.value x ∧
      ∀ i < M.store.memory.blocks.size, st.memory.blocks[i]? = M.store.memory.blocks[i]? := by
  rcases h with ⟨x, hv, hx⟩ | ⟨s, t, k, name, rfl, hlt, hv, hs⟩
  · exact ⟨x, M.store, g, Machine.operand_eq hv.value, List.prefix_refl _, hM, hx, fun _ _ => rfl⟩
  · have hsize : (textBytes s).size ≤ Machine.maxOffset := by
      obtain ⟨t, ht, hbytes⟩ := Option.map_eq_some_iff.1 hs
      rw [← hbytes]
      exact hS.runnable.textSize ht
    obtain ⟨j, new, st, hstep, hmodels, hnew, hj, hkeep⟩ := globalAddress_eq hM.models hs hsize
    refine ⟨.ptr (blockAddress j), st, g ++ new, ?_, List.prefix_append .., ?_, ⟨rfl, j, k.index, hj, rfl, hs⟩,
      fun _ hi => hkeep hi⟩
    · have hv' : M.frame.func.value? v = some ⟨t, .global k, name⟩ := by rw [hf, hv]
      have hframe : Exec.frame M = .ok M.frame M := rfl
      unfold Exec.operand
      rw [Machine.bind_ok hframe, hv']
      exact Machine.bind_ok hstep
    · refine hM.carry hS (hM.seated.stays (n := 0) ⟨rfl, rfl, rfl, rfl, rfl, fun _ _ => rfl⟩)
        (List.prefix_append ..) hmodels (hM.watch.append fun _ {i r} hi hr => ?_) fun hi => hkeep ?_
      · rw [hnew r (List.mem_of_getElem? hi)] at hr
        cases hr
      · rw [← hM.models.size]
        exact (List.getElem?_eq_some_iff.1 hi).1

end

/-! ### Ends of a run -/

/-- The slots of some frames are on the stack. -/
def Stacked (g : Ground) (frames : List Frame) : Prop :=
  ∀ F ∈ frames, ∀ addr ∈ F.slots, g[blockIndex addr]? = some .stack

/-- What is shown where a computation stops: of a trap, at the step that fails; when a loop is given up,
nothing, if so much had to be shown. -/
def Fails (A : Aim) (n : Nat) (l : Layout) (tables : Tables) : Stop → Heap → Prop
  | .trap t, H => ∀ {g : Ground} {M M' : Machine.State}, Exec.step A.module A.limit M = .error t.fault M' →
      (A.watched → Careful A.module A.atomic A.kept M) → Models l tables A.module g H M'.store →
      Watch A tables g →
      Stacked g (M'.frame :: M'.callers) → A.holds n M
  | .outOfFuel, _ => A.bounded
  | .stuck, _ => True

/-- A function that was entered in the state `M` is about to return. -/
structure Returned (A : Aim) (l : Layout) (tables : Tables) (M : Machine.State) (g : Ground) (ret : Ty) (v : Value)
    (H' : Heap) (g' : Ground) (M' : Machine.State) (x : Option Val) (M'' : Machine.State) : Prop where
  step : Exec.step A.module A.limit M' = Exec.popReturn x M''
  atEnd : M'.frame.code.insts[M'.frame.next]? = none
  models : Models l tables A.module g' H' M''.store
  watch : Watch A tables g'
  grows : g <+: g'
  callers : M''.callers = M.callers
  frozen : ∀ {i : Nat}, g[i]? = some .stack → M''.store.memory.blocks[i]? = M.store.memory.blocks[i]?
  slots : ∀ addr ∈ M''.frame.slots, ∃ j, addr = blockAddress j ∧ g.length ≤ j ∧ g'[j]? = some .stack
  value : if ret.isUnit then v = .unit ∧ x = none else ∃ y, x = some y ∧ Encodes l A.module g' ret v y

/-- An argument of a function: what its slot keeps of it represents what the parameter starts with. -/
structure Passes (l : Layout) (m : Ir.Module) (g : Ground) (t : Ty) (v : Value) (x : Val) : Prop where
  of : x.Of (l.irType t)
  kept : Encodes l m g t (keptAs t v) (x.kept (l.irType t))

theorem Encodes.passes {l : Layout} (hl : l.pointerBits = 64) {m : Ir.Module} {g : Ground} {t : Ty} {v : Value}
    {x : Val} (h : Encodes l m g t v x) : Passes l m g t v x := ⟨h.of hl, h.kept hl⟩

/-- The arguments of a function, by the types of its parameters. -/
inductive PassesAll (l : Layout) (m : Ir.Module) (g : Ground) : List Ty → List Value → List Val → Prop
  | nil : PassesAll l m g [] [] []
  | cons {t v x ts vs xs} (h : Passes l m g t v x) (hs : PassesAll l m g ts vs xs) :
      PassesAll l m g (t :: ts) (v :: vs) (x :: xs)

/-- Calls lead to their returns, as long as `depth` more of them may be active. -/
def Answers (A : Aim) (env : Env) (rounds : Nat) (call : Caller) : (depth : Nat) → Prop
  | 0 => ∀ symbol args, call symbol args = Sem.trap (.stackOverflow A.limit)
  | depth + 1 => ∀ {n : Nat} {symbol : String} {sig : Lowering.Signature} {f : Ir.Function} {vs : List Value}
      {xs : List Val} {g : Ground} {H : Heap} {M : Machine.State}, (A.bounded → n ≤ rounds) →
      env.tables.function? symbol = some sig → A.module.function? sig.func = some f → AtEntry f M →
      M.frame.args = xs.toArray → M.frame.depth + depth = A.limit →
      PassesAll env.layout A.module g (sig.receiver.toList ++ sig.params) vs xs →
      Models env.layout env.tables A.module g H M.store → Watch A env.tables g → Stacked g M.callers →
      (call symbol vs H).All (fun v H' => ∀ {g' M' x M''},
        Returned A env.layout env.tables M g sig.ret v H' g' M' x M'' → A.holds n M')
        (Fails A n env.layout env.tables) → A.holds n M

/-! ### Scenes -/

/-- A scene in which the program can be played on. -/
structure Scene.Open (S : Scene) : Prop extends S.Ready where
  stacked : Stacked S.ground S.start.callers
  deep : S.start.frame.depth + S.depth = S.world.limit
  bound : S.world.bounded → S.world.index ≤ S.rounds
  answers : Answers S.world.toAim S.env S.rounds S.call S.depth

/-- A later point of a run of emitted code. -/
structure Arrives (S : Scene) (scope : Scope) (ρ : Locals) (b : Builder) (M : Machine.State) (g : Ground)
    (b' : Builder) (H' : Heap) (g' : Ground) (M' : Machine.State) : Prop where
  moved : Moved S.world.func b M b' M'
  stands : Stands S scope ρ g' H' M'
  grows : g <+: g'

namespace Arrives

variable {S : Scene} {scope : Scope} {ρ : Locals} {b b₁ b' : Builder} {M M₁ M' : Machine.State} {g g₁ g' : Ground}
  {H H' : Heap}

theorem refl (hM : At S.world.func b M) (h : Stands S scope ρ g H M) : Arrives S scope ρ b M g b H g M :=
  ⟨.refl hM, h, List.prefix_refl _⟩

theorem trans (h : Arrives S scope ρ b M g b₁ H g₁ M₁) (k : Arrives S scope ρ b₁ M₁ g₁ b' H' g' M') :
    Arrives S scope ρ b M g b' H' g' M' := ⟨h.moved.trans k.moved, k.stands, h.grows.trans k.grows⟩

end Arrives

/-- Running what was emitted from `b` to `b'` leads to each way in which a computation ends. -/
def Leads (S : Scene) (scope : Scope) (ρ : Locals) (b : Builder) (M : Machine.State) (g : Ground) (b' : Builder)
    {α : Type} (r : Result α) (R : α → Ground → Machine.State → Prop) : Prop :=
  r.All (fun a H' => ∀ {g' M'}, Arrives S scope ρ b M g b' H' g' M' → R a g' M' → S.world.goal M')
    (Fails S.world.toAim S.world.index S.layout S.env.tables) → S.world.goal M

namespace Leads

variable {S : Scene} {scope : Scope} {ρ : Locals} {b b₁ b' : Builder} {M M₁ M' : Machine.State} {g g₁ g' : Ground}
  {H H' : Heap} {α β : Type} {R Q : α → Ground → Machine.State → Prop}

theorem pure {a : α} (hm : Arrives S scope ρ b M g b' H g M) (hR : R a g M) :
    Leads S scope ρ b M g b' ((Pure.pure a : Sem α) H) R := fun k => k hm hR

theorem bind_ends {x : Sem α} {f : α → Sem β} {R' : β → Ground → Machine.State → Prop}
    (h : Leads S scope ρ b M g b₁ (x H) R)
    (k : ∀ {a H₁ g₁ M₁}, (x H).Ends (.ok a) H₁ → Arrives S scope ρ b M g b₁ H₁ g₁ M₁ → R a g₁ M₁ →
      Leads S scope ρ b₁ M₁ g₁ b' (f a H₁) R') :
    Leads S scope ρ b M g b' ((x >>= f) H) R' := by
  intro hall
  have hends := Result.all_and_ends (Sem.all_bind.1 hall)
  refine h (hends.imp (fun a H₁ ⟨hf, he⟩ g₁ M₁ ha hR => ?_) fun _ _ hs => hs)
  exact k he ha hR (hf.imp (fun c H₂ hc g₂ M₂ ha₂ hR₂ => hc (ha.trans ha₂) hR₂) fun _ _ hs => hs)

theorem bind {x : Sem α} {f : α → Sem β} {R' : β → Ground → Machine.State → Prop}
    (h : Leads S scope ρ b M g b₁ (x H) R)
    (k : ∀ {a H₁ g₁ M₁}, Arrives S scope ρ b M g b₁ H₁ g₁ M₁ → R a g₁ M₁ →
      Leads S scope ρ b₁ M₁ g₁ b' (f a H₁) R') :
    Leads S scope ρ b M g b' ((x >>= f) H) R' := bind_ends h fun _ ha hR => k ha hR

theorem imp (h : Leads S scope ρ b M g b' (x : Result α) R) (hRQ : ∀ {a g' M'}, R a g' M' → Q a g' M') :
    Leads S scope ρ b M g b' x Q := fun hall =>
  h (hall.imp (fun _ _ hk _ _ ha hR => hk ha (hRQ hR)) fun _ _ hs => hs)

/-- Steps for which nothing is computed come first. -/
theorem next {a : β} {P : β → Ground → Machine.State → Prop} {r : Result α}
    (h : Leads S scope ρ b M g b₁ (.value a H) P)
    (k : ∀ {g₁ M₁}, Arrives S scope ρ b M g b₁ H g₁ M₁ → P a g₁ M₁ → Leads S scope ρ b₁ M₁ g₁ b' r R) :
    Leads S scope ρ b M g b' r R := fun hall =>
  h fun ha hP => k ha hP (hall.imp (fun _ _ hk _ _ ha₂ hR => hk (ha.trans ha₂) hR) fun _ _ hs => hs)

theorem value {a : β} {c : α} {P : β → Ground → Machine.State → Prop} (h : Leads S scope ρ b M g b' (.value a H) P)
    (k : ∀ {g' M'}, Arrives S scope ρ b M g b' H g' M' → P a g' M' → R c g' M') :
    Leads S scope ρ b M g b' (.value c H) R := fun hall => h fun ha hP => hall ha (k ha hP)

/-- Code that leaves the store as it is. -/
theorem of_reaches (hS : S.Ready) (hM : Stands S scope ρ g H M) {P : Machine.State → Prop}
    (h : S.world.Reaches b M b' P) : Leads S scope ρ b M g b' (.value () H) fun _ _ M' => P M' := fun k =>
  h fun _ hm he hP => k ⟨hm, hM.stays hS hm.stays he, List.prefix_refl _⟩ hP

/-- Code that leaves the store as it is comes first. -/
theorem past {r : Result α} (hS : S.Ready) (hM : Stands S scope ρ g H M) {P : Machine.State → Prop}
    (h : S.world.Reaches b M b₁ P)
    (k : ∀ {M₁}, Arrives S scope ρ b M g b₁ H g M₁ → M₁.store = M.store → P M₁ → Leads S scope ρ b₁ M₁ g b' r R) :
    Leads S scope ρ b M g b' r R := fun hall =>
  h fun _ m hst hP => k ⟨m, hM.stays hS m.stays hst, List.prefix_refl _⟩ hst hP
    (hall.imp (fun _ _ hk _ _ ha hR => hk (Arrives.trans ⟨m, hM.stays hS m.stays hst, List.prefix_refl _⟩ ha) hR)
      fun _ _ hs => hs)

end Leads

/-! ### Faults -/

theorem Stands.stacked {S : Scene} {scope : Scope} {ρ : Locals} {g : Ground} {H : Heap} {M : Machine.State}
    (hS : S.Open) (h : Stands S scope ρ g H M) : Stacked g (M.frame :: M.callers) := by
  intro F hF addr haddr
  rcases List.mem_cons.1 hF with rfl | hF
  · rw [h.seated.slots, List.mem_reverse, List.mem_map] at haddr
    obtain ⟨i, hi, rfl⟩ := haddr
    have hrole := hS.role h.since (List.mem_range.1 hi)
    rw [Machine.blockIndex_blockAddress (h.models.lt_maxBlocks (List.getElem?_eq_some_iff.1 hrole).1)]
    exact hrole
  · rw [h.seated.callers] at hF
    exact getElem?_of_grown ((List.prefix_append ..).trans h.since) (hS.stacked F hF addr haddr)

/-- A step that fails without a change. -/
theorem Leads.fault {S : Scene} {scope : Scope} {ρ : Locals} {b b' : Builder} {M : Machine.State} {g : Ground}
    {H : Heap} {α : Type} {R : α → Ground → Machine.State → Prop} (hS : S.Open) (h : Stands S scope ρ g H M) {t : Trap}
    (hstep : Exec.step S.world.module S.world.limit M = .error t.fault M)
    (hc : S.world.watched → Careful S.world.module S.world.atomic S.world.kept M) :
    Leads S scope ρ b M g b' (.stop (.trap t) H) R := fun k => k hstep hc h.models h.watch (h.stacked hS)

/-! ### Lowered expressions -/

/-- Where code is lowered: the builder is at work on a module that declares what the program does, and the
variables in scope have slots of their own. -/
structure Placed (env : Env) (scope : Scope) (b : Builder) : Prop where
  live : b.Live
  fits : env.Fits b.module
  bound : ∀ frame ∈ scope.frames, ∀ e ∈ frame, ∃ slot t, e.2 = .slot slot t ∧ b.function.Has slot .ptr ∧
    ⟨some slot, .alloca (env.ir t)⟩ ∈ b.function.slots Ir.Id.entry
  distinct : (slotsOf scope).Nodup

theorem Placed.ext {env : Env} {scope : Scope} {b b' : Builder} (h : Placed env scope b) (hl : b'.Live)
    (he : b.Ext b') : Placed env scope b' where
  live := hl
  fits := h.fits.grows he.module
  bound frame hf e hmem := by
    obtain ⟨slot, t, hs, hptr, hslot⟩ := h.bound frame hf e hmem
    exact ⟨slot, t, hs, he.has hptr, (he.grows.slots _).subset hslot⟩
  distinct := h.distinct

theorem Placed.onward {env : Env} {scope : Scope} {b b' : Builder} (h : Placed env scope b) (o : Onward b b') :
    Placed env scope b' := h.ext o.live o.ext

theorem Placed.lookup {env : Env} {scope : Scope} {b : Builder} (h : Placed env scope b) {name : String}
    {slot : ValueId} {t : Ty} (hn : scope.lookup? name = some (.slot slot t)) :
    b.function.Has slot .ptr ∧ ⟨some slot, .alloca (env.ir t)⟩ ∈ b.function.slots Ir.Id.entry := by
  obtain ⟨frame, hf, hl⟩ := List.exists_of_findSome?_eq_some hn
  obtain ⟨slot', t', hs, hrest⟩ := h.bound frame hf _ (Lowering.mem_of_lookup hl)
  cases hs
  exact hrest

/-- What was lowered from `b` to `b'` gives a value, and running it does what the expression means. -/
structure Follows (env : Env) (scope : Scope) (b : Builder) (v : Lowering.Typed) (b' : Builder)
    (mean : Caller → String → Locals → Sem Datum) : Prop where
  onward : Onward b b'
  has : b'.function.Has v.value (env.ir v.ty)
  runs : ∀ {S : Scene} {ρ : Locals} {g : Ground} {H : Heap} {M : Machine.State}, S.Open → S.env = env →
    Machine.Toward b b' S.world → At S.world.func b M → Stands S scope ρ g H M →
    Leads S scope ρ b M g b' (mean S.call S.world.func.name ρ H) fun d g' M' =>
      d.type = v.ty ∧ Denotes S b' M' g' v.value d

end BlockForge.Simulation
