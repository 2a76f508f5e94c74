import BlockForge.Proofs.Machine.Cleanup
import BlockForge.Proofs.Simulation.ShortCircuit

/-!
# Calls

Running a call: the operands are read left to right, the called function answers as the evaluator says, and the
caller goes on behind the call with its variables as they were.
-/

namespace BlockForge.Simulation

open Ir (Builder Inst ValueId)
open Ir.Emit (Onward)
open Lowering (Calls Env Scope Signature Typed)
open Machine (At Exec Stays State Store Toward Val blockAddress)
open Reference (Caller Datum Eval Heap Locals Sem Value)
open BlockForge.Types (Ty)

/-! ### Arguments -/

/-- Operands have values, by type. -/
inductive DenotesAll (S : Scene) (b : Builder) (M : Machine.State) (g : Ground) :
    List Ty → List ValueId → List Value → Prop
  | nil : DenotesAll S b M g [] [] []
  | cons {t v x ts vs xs} (h : Denotes S b M g v ⟨x, t⟩) (hs : DenotesAll S b M g ts vs xs) :
      DenotesAll S b M g (t :: ts) (v :: vs) (x :: xs)

section

variable {S : Scene} {b b' : Builder} {M M' : Machine.State} {g g' : Ground} {ts : List Ty} {vs : List ValueId}
  {values : List Value}

theorem DenotesAll.mono (h : DenotesAll S b M g ts vs values) (hm : Machine.Moved S.world.func b M b' M')
    (hg : g <+: g') : DenotesAll S b' M' g' ts vs values := by
  induction h with
  | nil => exact .nil
  | cons h _ ih => exact .cons (h.mono hm hg) ih

theorem DenotesAll.restore {st : Store} (h : DenotesAll S b M g ts vs values) (hg : g <+: g') :
    DenotesAll S b { M with store := st } g' ts vs values := by
  induction h with
  | nil => exact .nil
  | cons h _ ih => exact .cons (h.restore hg) ih

theorem PassesAll.length {l : Types.Layout} {m : Ir.Module} {xs : List Val} (h : PassesAll l m g ts values xs) :
    xs.length = ts.length := by
  induction h with
  | nil => rfl
  | cons _ _ ih => rw [List.length_cons, List.length_cons, ih]

variable {scope : Scope} {ρ : Locals} {H : Heap}

/-- The values of operands; texts may come into memory for them. -/
theorem DenotesAll.fetch (h : DenotesAll S b M g ts vs values) (hS : S.Ready) (hM : Stands S scope ρ g H M)
    (hf : M.frame.func = S.world.func) :
    ∃ xs st g', Exec.operands S.world.module vs M = .ok xs { M with store := st } ∧ g <+: g' ∧
      Stands S scope ρ g' H { M with store := st } ∧ PassesAll S.layout S.world.module g' ts values xs := by
  induction vs generalizing ts values M g with
  | nil =>
    cases h
    exact ⟨[], M.store, g, rfl, List.prefix_refl _, hM, .nil⟩
  | cons v vs ih =>
    cases h with
    | @cons t _ x ts _ values h hs =>
      obtain ⟨y, st₁, g₁, hy, hg₁, hM₁, hx, -⟩ := h.fetch hS hM hf
      obtain ⟨ys, st₂, g₂, hys, hg₂, hM₂, hall⟩ := ih (hs.restore hg₁) hM₁ hf
      refine ⟨y :: ys, st₂, g₂, ?_, hg₁.trans hg₂, hM₂, .cons ((hx.mono hg₂).passes hS.runnable.pointerBits) hall⟩
      show (Exec.operand S.world.module v >>= fun x => Exec.operands S.world.module vs >>= fun xs => pure (x :: xs)) M = _
      rw [Machine.bind_ok hy, Machine.bind_ok hys]
      rfl

end

/-- What was lowered from `b` to `b'` gives values of some types, and running it does what the arguments mean. -/
structure FollowsAll (env : Env) (scope : Scope) (b : Builder) (ts : List Ty) (vs : List ValueId) (b' : Builder)
    (mean : Caller → String → Locals → Sem (List Value)) : Prop where
  onward : Onward b b'
  has : List.Forall₂ b'.function.Has vs (ts.map env.ir)
  runs : ∀ {S : Scene} {ρ : Locals} {g : Ground} {H : Heap} {M : Machine.State}, S.Open → S.env = env →
    Toward b b' S.world → At S.world.func b M → Stands S scope ρ g H M →
    Leads S scope ρ b M g b' (mean S.call S.world.func.name ρ H) fun values g' M' =>
      DenotesAll S b' M' g' ts vs values

section

variable {env : Env} {scope : Scope} {b b₁ b' : Builder} {v : Typed} {t : Ty} {ts : List Ty} {vs : List ValueId}
  {mean : Caller → String → Locals → Sem Datum} {means : Caller → String → Locals → Sem (List Value)}

theorem FollowsAll.nil (h : b.Live) : FollowsAll env scope b [] [] b fun _ _ _ => pure [] where
  onward := .refl h
  has := .nil
  runs _ _ _ hM hst := Leads.pure (.refl hM hst) .nil

theorem FollowsAll.cons (h : Follows env scope b v b₁ mean) (ha : Types.assignable v.ty t = true)
    (k : FollowsAll env scope b₁ ts vs b' means) :
    FollowsAll env scope b (t :: ts) (v.value :: vs) b' fun call func ρ => do
      let a ← mean call func ρ
      let values ← means call func ρ
      pure (a.value :: values) where
  onward := h.onward.trans k.onward
  has := .cons ((show env.ir v.ty = env.ir t from Lowering.ir_of_assignable ha) ▸ k.onward.has h.has) k.has
  runs {S ρ g H M} hS he ht hM hst := by
    refine (h.runs hS he (ht.before k.onward.ext) hM hst).bind fun {d H₁ g₁ M₁} a₁ hd => ?_
    obtain ⟨u, tu⟩ := d
    obtain ⟨rfl, hu⟩ := hd
    refine (k.runs hS he (ht.since h.onward.ext.toLater) a₁.moved.toAt a₁.stands).bind fun a₂ hall => ?_
    exact Leads.pure (.refl a₂.moved.toAt a₂.stands) (.cons ((hu.coerce ha).mono a₂.moved a₂.grows) hall)

end

/-! ### Calls and returns -/

section

variable {S : Scene} {scope : Scope} {ρ : Locals} {b : Builder} {M : Machine.State} {g : Ground} {H : Heap}
  {symbol : String} {sig : Signature} {vs : List ValueId} {values : List Value}

/-- What a call leaves behind: the slots of the called function are taken away, and no other allocation. -/
theorem Returned.released {A : Machine.Aim} {l : Types.Layout} {tables : Lowering.Tables} {ret : Ty} {v : Value}
    {H' : Heap} {g' : Ground} {M' M'' : Machine.State} {x : Option Val}
    (h : Returned A l tables M g ret v H' g' M' x M'') :
    Models l tables A.module g' H' { M''.store with memory := M''.store.memory.releaseAll M''.frame.slots } ∧
      ∀ {i : Nat} {r : Role}, g'[i]? = some r → r ≠ .stack ∨ i < g.length →
        (M''.store.memory.releaseAll M''.frame.slots).blocks[i]? = M''.store.memory.blocks[i]? := by
  have hkeep : ∀ {i : Nat} {r : Role}, g'[i]? = some r → r ≠ .stack ∨ i < g.length →
      (M''.store.memory.releaseAll M''.frame.slots).blocks[i]? = M''.store.memory.blocks[i]? := by
    intro i r hi hr
    refine Machine.Memory.releaseAll_ne fun addr haddr he => ?_
    obtain ⟨j, rfl, hle, hj⟩ := h.slots addr haddr
    rw [Machine.blockIndex_blockAddress (h.models.lt_maxBlocks (List.getElem?_eq_some_iff.1 hj).1)] at he
    subst he
    rcases hr with hr | hr
    · exact hr (Option.some.inj (hi.symm.trans hj))
    · exact absurd hr (Nat.not_lt.2 hle)
  refine ⟨?_, hkeep⟩
  have := h.models.stack 0 (M''.store.memory.releaseAll M''.frame.slots) M''.store.calls
    (by simp [Machine.Memory.size_releaseAll]) (by rw [Machine.Memory.size_releaseAll]; exact h.models.room)
    fun hi hr => hkeep hi (.inl hr)
  rwa [List.replicate_zero, List.append_nil] at this

/-- A call goes on behind it with its result, or stops where the called function does. -/
theorem call_runs (hS : S.Open) (hst : Stands S scope ρ g H M) (hf : M.frame.func = S.world.func)
    (hsig : S.env.tables.function? symbol = some sig)
    (hvs : DenotesAll S b M g (sig.receiver.toList ++ sig.params) vs values) {r : Option ValueId} {t : Ir.Ty}
    (hi : M.frame.code.insts[M.frame.next]? = some ⟨r, .call (.func sig.func) vs t⟩)
    (k : (S.call symbol values H).All (fun v H' => ∀ {g' st x}, g <+: g' →
        (if sig.ret.isUnit then v = .unit ∧ x = none
          else ∃ y, x = some y ∧ Encodes S.layout S.world.module g' sig.ret v y) →
        (∀ {M' : State}, Seated S M' → M'.store = st → Stands S scope ρ g' H' M') →
        S.world.goal (({ M with store := st } : State).finish r x))
      (Fails S.world.toAim S.world.index S.layout S.env.tables)) : S.world.goal M := by
  obtain ⟨xs, st, g₁, hxs, hg₁, hM₁, hpass⟩ := hvs.fetch hS.toReady hst hf
  obtain ⟨f, hfun, hok, hblocks⟩ := hS.runnable.bodies hsig
  have hargs : xs.length = f.params.length := by
    obtain ⟨f', hf', hparams, -⟩ := hS.runnable.fits.functions hsig
    obtain rfl : f = f' := Option.some.inj (hfun.symm.trans hf')
    rw [hparams, List.length_map, hpass.length]
  have hperform : Exec.perform S.world.module (.call (.func sig.func) vs t) M =
      .ok (.call sig.func xs) { M with store := st } := Machine.bind_ok hxs
  have hcareful : S.world.watched → Machine.Careful S.world.module S.world.atomic S.world.kept M :=
    fun _ => Machine.careful_of_quiet hi rfl
  have hanswers := hS.answers
  have hdeep := hS.deep
  rw [← hst.seated.depth] at hdeep
  cases hd : S.depth with
  | zero =>
    rw [hd] at hanswers hdeep
    rw [hanswers symbol values] at k
    refine k (g := g₁) (Machine.step_call_error hi hperform ?_) hcareful hM₁.models hM₁.watch (hM₁.stacked hS)
    exact Machine.pushCall_overflow hfun hblocks hargs (Nat.le_of_eq hdeep.symm)
  | succ d =>
    rw [hd] at hanswers hdeep
    obtain ⟨M₂, hpush, hentry, hcallers, hframe, hdepth, hstore⟩ :=
      Machine.pushCall_eq (M := { M with store := st }) hfun hblocks hargs hok
        (show M.frame.depth < S.world.limit by omega)
    refine S.world.back (Machine.step_call hi hperform hpush) hcareful fun _ => ?_
    have hmodels : Models S.env.layout S.env.tables S.world.module g₁ H M₂.store := by
      rw [hstore]
      exact hM₁.models.recount _
    refine hanswers hS.bound hsig hfun hentry hframe (by rw [hdepth]; show M.frame.depth + 1 + d = _; omega) hpass
      hmodels hM₁.watch (hcallers ▸ hM₁.stacked hS)
      (k.imp (fun v H' hk {g' M' x M''} hret => ?_) fun _ _ hs => hs)
    obtain ⟨hmodels', hkeep⟩ := hret.released
    refine S.world.back ((hret.step.trans (Machine.popReturn_caller (hret.callers.trans hcallers))))
      (fun _ => Machine.careful_of_end hret.atEnd) fun _ => ?_
    have hreturn : M''.return x M.frame M.callers = (({ M with store := { M''.store with
        memory := M''.store.memory.releaseAll M''.frame.slots } } : State).finish r x) := by
      unfold State.return
      dsimp only
      rw [hi]
    rw [hreturn]
    refine hk (hg₁.trans hret.grows) hret.value fun {M'} hseat hst' => ?_
    refine hM₁.carry hS.toReady hseat hret.grows (by rw [hst']; exact hmodels') hret.watch fun {i} hi => ?_
    rw [hst', hkeep (getElem?_of_grown hret.grows hi) (.inr (List.getElem?_eq_some_iff.1 hi).1), hret.frozen hi,
      hstore]
    rfl

end

/-! ### Calls of functions and methods -/

section

variable {env : Env} {scope : Scope} {b b₁ b₂ b' : Builder} {v : Typed} {symbol name : String} {sig : Signature}
  {vs : List ValueId}

theorem calls_onward (hb : b.Live) (hfits : env.Fits b.module) (hsig : env.tables.function? symbol = some sig)
    (hvs : List.Forall₂ b.function.Has vs ((sig.receiver.toList ++ sig.params).map env.ir))
    (hc : Calls sig name vs b v b') :
    Onward b b' ∧ b'.function.Has v.value (env.ir v.ty) := by
  obtain ⟨f, hf, hparams, hret⟩ := hfits.functions hsig
  have hscalar : f.ret = .void ∨ f.ret.isScalar = true := by
    rw [hret, Types.Layout.returnIrType]
    split
    · exact .inl rfl
    · exact .inr (Lowering.Env.isScalar_ir sig.ret)
  cases hc with
  | value hc =>
    obtain ⟨o, ⟨-, hnone⟩ | ⟨u, hu, hv⟩⟩ := (Ir.Emit.call_onward hb hf (hparams ▸ hvs) hscalar).of_eq hc
    · cases hnone
    · cases hu
      refine ⟨o, ?_⟩
      rw [hret, Types.Layout.returnIrType] at hv
      split at hv
      · cases hv.scalar
      · exact hv
  | nothing hc hu =>
    obtain ⟨o, -⟩ := (Ir.Emit.call_onward hb hf (hparams ▸ hvs) hscalar).of_eq hc
    obtain ⟨o', hv⟩ := (Ir.Emit.constInt_onward o.live rfl _).of_eq hu
    exact ⟨o.trans o', hv⟩

variable {S : Scene} {ρ : Locals} {M : Machine.State} {g : Ground} {H : Heap} {values : List Value}

/-- A call does what it means. -/
theorem call_leads (hS : S.Open) (hb : b.Live) (hfits : S.env.Fits b.module)
    (hsig : S.env.tables.function? symbol = some sig) (hc : Calls sig name vs b v b') (ht : Toward b b' S.world)
    (hM : At S.world.func b M) (hst : Stands S scope ρ g H M)
    (hhas : List.Forall₂ b.function.Has vs ((sig.receiver.toList ++ sig.params).map S.env.ir))
    (hvs : DenotesAll S b M g (sig.receiver.toList ++ sig.params) vs values) :
    Leads S scope ρ b M g b' ((S.call symbol values >>= fun r => pure ⟨r, sig.ret⟩ : Sem Datum) H) fun d g' M' =>
      d.type = v.ty ∧ Denotes S b' M' g' v.value d := by
  obtain ⟨f, hf, hparams, hret⟩ := hfits.functions hsig
  have hlen : vs.length = f.params.length := by rw [hparams, hhas.length_eq]
  have hvoid : f.ret = .void ↔ sig.ret.isUnit = true := by
    rw [hret]
    exact Lowering.returnIrType_eq_void sig.ret
  intro hall
  have hall := Sem.all_bind.1 hall
  cases hc with
  | value hc =>
    obtain ⟨-, hnone, -⟩ | ⟨hne, u, hu, e⟩ := (Machine.call_emits hb hf hlen name).of_eq hc
    · cases hnone
    · cases hu
      have hunit : sig.ret.isUnit = false := by simpa [hvoid] using hne
      refine call_runs hS hst hM.func hsig hvs (e.inst ht.toPart hM)
        (hall.imp (fun r H' hk {g' st x} hg hx hstands => ?_) fun _ _ hs => hs)
      rw [hunit] at hx
      obtain ⟨y, rfl, hy⟩ := hx
      obtain ⟨m, hv⟩ := e.moved ht.toPart hM st y
      exact hk ⟨m, hstands (hst.seated.stays m.stays) rfl, hg⟩ ⟨rfl, .of_holds hv hy⟩
  | nothing hc hu =>
    obtain ⟨hv, -, e⟩ | ⟨-, u, hu, -⟩ := (Machine.call_emits hb hf hlen name).of_eq hc
    · have hunit : sig.ret.isUnit = true := hvoid.1 hv
      obtain ⟨o, -⟩ := (Ir.Emit.call_onward hb hf (hparams ▸ hhas) (.inl hv)).of_eq hc
      obtain ⟨-, hr⟩ := (constInt_reaches o.live (show Ir.Ty.intBits? .i8 = some 8 from rfl) 0).of_eq hu
      have hp := ht.toPart.back ((Ir.Emit.constInt_onward o.live (show Ir.Ty.isInt .i8 = true from rfl) _).of_eq hu).1
      have hty : sig.ret = .unit := by
        revert hunit
        cases sig.ret <;> simp [Ty.isUnit]
      refine call_runs hS hst hM.func hsig hvs (e.inst hp hM)
        (hall.imp (fun r H' hk {g' st x} hg hx hstands => ?_) fun _ _ hs => hs)
      rw [hunit] at hx
      obtain ⟨rfl, rfl⟩ := hx
      have m := @Machine.Acts.moved _ _ _ _ _ e hM st
      refine hr ht.toPart m.toAt fun M' m' hst' hzero => ?_
      have hM' : Stands S scope ρ g' H' M' := (hstands (hst.seated.stays m.stays) rfl).stays hS.toReady m'.stays hst'
      exact hk ⟨m.trans m', hM', hg⟩ ⟨hty, .of_holds hzero ⟨hty, _, rfl⟩⟩
    · cases hu

variable {args : Caller → String → Locals → List Eval}

/-- A call of a function. -/
theorem follows_call (hb : Placed env scope b) (hsig : env.tables.function? symbol = some sig)
    (hrecv : sig.receiver = none) (h : FollowsAll env scope b sig.params vs b₁ fun call func ρ =>
      Reference.evalArgs ((args call func ρ).zip sig.params)) (hc : Calls sig name vs b₁ v b') :
    Follows env scope b v b' fun call func ρ => Reference.evalCall env call symbol [] (args call func ρ) := by
  have hnil : sig.receiver.toList ++ sig.params = sig.params := by rw [hrecv]; rfl
  have hhas := h.has
  rw [← hnil] at hhas
  have hfits := hb.fits.grows h.onward.ext.module
  obtain ⟨o, hv⟩ := calls_onward h.onward.live hfits hsig hhas hc
  refine ⟨h.onward.trans o, hv, fun {S ρ g H M} hS he ht hM hst => ?_⟩
  subst he
  simp only [Reference.evalCall, hsig]
  refine (h.runs hS rfl (ht.before o.ext) hM hst).bind fun {values H₁ g₁ M₁} a₁ hall => ?_
  rw [← hnil] at hall
  exact call_leads hS h.onward.live hfits hsig hc (ht.since h.onward.ext.toLater) a₁.moved.toAt a₁.stands hhas hall

/-- A call of a method on the value of an expression. -/
theorem follows_method (hb : Placed env scope b) {recv : Typed} {method : String}
    {mean : Caller → String → Locals → Sem Datum} (hr : Follows env scope b recv b₁ mean)
    (helem : recv.ty.element? = none) (hm : env.tables.method? recv.ty method = some symbol)
    (hsig : env.tables.function? symbol = some sig) (h : FollowsAll env scope b₁ sig.params vs b₂ fun call func ρ =>
      Reference.evalArgs ((args call func ρ).zip sig.params)) (hc : Calls sig name (recv.value :: vs) b₂ v b') :
    Follows env scope b v b' fun call func ρ => mean call func ρ >>= fun d =>
      Reference.evalMethod env call d method (args call func ρ) := by
  have hrecv : sig.receiver = some recv.ty := by
    obtain ⟨sig', hsig', hrecv⟩ := hb.fits.methods hm
    rwa [← Option.some.inj (hsig.symm.trans hsig')] at hrecv
  have hcons : sig.receiver.toList ++ sig.params = recv.ty :: sig.params := by rw [hrecv]; rfl
  have hhas : List.Forall₂ b₂.function.Has (recv.value :: vs) ((sig.receiver.toList ++ sig.params).map env.ir) := by
    rw [hcons]
    exact .cons (h.onward.has hr.has) h.has
  have o₂ := hr.onward.trans h.onward
  have hfits := hb.fits.grows o₂.ext.module
  obtain ⟨o, hv⟩ := calls_onward o₂.live hfits hsig hhas hc
  refine ⟨o₂.trans o, hv, fun {S ρ g H M} hS he ht hM hst => ?_⟩
  subst he
  refine (hr.runs hS rfl (ht.before (h.onward.trans o).ext) hM hst).bind fun {d H₁ g₁ M₁} a₁ hd => ?_
  have ht₁ := ht.since hr.onward.ext.toLater
  obtain ⟨u, tu⟩ := d
  obtain ⟨rfl, hu⟩ := hd
  simp only [Reference.evalMethod, helem, hm, Reference.evalCall, hsig]
  refine (h.runs hS rfl (ht₁.before o.ext) a₁.moved.toAt a₁.stands).bind fun {values H₂ g₂ M₂} a₂ hall => ?_
  have hall' : DenotesAll S b₂ M₂ g₂ (sig.receiver.toList ++ sig.params) (recv.value :: vs) (u :: values) := by
    rw [hcons]
    exact .cons (hu.mono a₂.moved a₂.grows) hall
  exact call_leads hS o₂.live hfits hsig hc (ht.since o₂.ext.toLater) a₂.moved.toAt a₂.stands hhas hall'

end

end BlockForge.Simulation
