import BlockForge.Proofs.Lowering.Program
import BlockForge.Proofs.Machine.Entry

/-!
# How a call ends

To show that a call of a function ends in a result, given enough fuel, it is enough to run the function's code
from behind its stack slots to a return of its last frame or to a fault.
-/

namespace BlockForge.Machine

open Ir (Builder Module ValueId)
open Ir.Emit (Halted)

/-- To end in a result, given enough fuel. -/
def ends (m : Module) (limit : Nat) (r : Except Fault (Option Val)) : Aim where
  module := m
  limit := limit
  watched := False
  atomic _ := False
  kept _ := False
  bounded := False
  holds _ M := ∃ n, ∀ fuel, n ≤ fuel → (run m limit fuel M).result = r
  step {_ M M'} hstep _ hnext := by
    obtain ⟨n, hn⟩ := hnext (fun h => h.elim)
    refine ⟨n + 1, fun fuel hfuel => ?_⟩
    obtain ⟨k, rfl⟩ : ∃ k, fuel = k + 1 := ⟨fuel - 1, by omega⟩
    rw [run, hstep]
    exact hn k (by omega)
  less h := h
  zero h := h.elim

/-- A finished function, of which it is shown how a call ends. -/
def Ending (b : Builder) (hok : b.Ok) (limit : Nat) (r : Except Fault (Option Val)) : World :=
  { toAim := ends b.module limit r, index := 0, func := b.function, ok := hok.function }

section

variable {b : Builder} {hok : b.Ok} {limit : Nat} {M M' : State}

/-- A run ends in a fault. -/
theorem ends_of_error {f : Fault} (h : Exec.step b.module limit M = .error f M') :
    (Ending b hok limit (.error f)).goal M := by
  refine ⟨1, fun fuel hfuel => ?_⟩
  obtain ⟨k, rfl⟩ : ∃ k, fuel = k + 1 := ⟨fuel - 1, by omega⟩
  show (run b.module limit (k + 1) M).result = _
  rw [run, h]

/-- The last frame returns. -/
theorem ends_of_ret {s : Builder} {v : ValueId} {x : Val} (h : Halted s b (.ret (some v)))
    (hM : At b.function s M) (hv : Holds s M v x) (hc : M.callers = []) :
    (Ending b hok limit (.ok (some x))).goal M := by
  have hp : Part b (Ending b hok limit (.ok (some x))) := ⟨.refl _, .refl _⟩
  obtain ⟨hnone, hterm⟩ := Halted.atEnd h hp hM
  have hstep : Exec.step b.module limit M = _ := (step_ret hnone hterm hv.value).trans (popReturn_last hc)
  refine ⟨1, fun fuel hfuel => ?_⟩
  obtain ⟨k, rfl⟩ : ∃ k, fuel = k + 1 := ⟨fuel - 1, by omega⟩
  show (run b.module limit (k + 1) M).result = _
  rw [run, hstep]

end

/-- A call of the only function of a module ends as its code does, run from behind the slots. -/
theorem invoke_ends {declared : Module} {name : String} {params : List Ir.Ty} {ret : Ir.Ty}
    (hdecl : declared.function? ⟨0⟩ = some (.declare name params ret)) {b₁ b : Builder}
    (entered : Ir.Emit.Entered declared ⟨0⟩ b₁) (hlater : b₁.Later b) (hok : b.Ok) (hbits : declared.pointerBits ≤ 64)
    {limit : Nat} (hlimit : 0 < limit) {store : Store} {args : List Val} (hargs : args.length = params.length)
    {r : Except Fault (Option Val)}
    (k : ∀ {M M' : State}, M.store.memory = store.memory → M'.frame.args = args.toArray → M'.callers = [] →
      Prepared (Ending b hok limit r) M (b.function.slots Ir.Id.entry).length M' → At b.function b₁ M' →
      (Ending b hok limit r).goal M') :
    ∃ n, ∀ fuel, n ≤ fuel → (invoke b.module limit fuel store ⟨0⟩ args).result = r := by
  have later := entered.later.trans hlater
  have hfun : ({ module := declared, func := ⟨0⟩ } : Builder).function = .declare name params ret := by
    simp [Builder.function, hdecl]
  have hf : b.module.function? ⟨0⟩ = some b.function := by
    have hfunc : b.func = ⟨0⟩ := later.func
    obtain ⟨g, hg⟩ : ∃ g, b.module.function? ⟨0⟩ = some g :=
      ⟨_, Array.getElem?_eq_getElem (by rw [← hfunc]; exact hok.valid)⟩
    rw [hg, Builder.function, hfunc, hg]
    rfl
  have hblocks : 0 < b.function.blocks.size := by
    obtain ⟨c, -, hlt⟩ := hok.position
    omega
  have hlength : args.length = b.function.params.length := by
    rw [later.grows.params, hfun]
    exact hargs
  have hpointer : b.module.pointerBits ≤ 64 := by
    rw [later.module.pointerBits]
    exact hbits
  obtain ⟨M, hM, hcallers, hM₁, hM₂, hinvoke⟩ := invoke_eq_run hf hok.function hblocks hlength hlimit
  have hgoal : (Ending b hok limit r).goal M := AtEntry.run hpointer hM fun M' prepared => by
    have hat : At b.function b₁ M' := prepared.at entered.current (by simp [Ir.Function.body, entered.code])
    exact k hM₂ (prepared.args.trans hM₁) (prepared.callers.trans hcallers) prepared hat
  obtain ⟨n, hn⟩ := hgoal
  exact ⟨n, fun fuel hfuel => by rw [hinvoke]; exact hn fuel hfuel⟩

end BlockForge.Machine
