import BlockForge.Proofs.Machine.Ending

/-!
# Code on its own

Code that computes a value can be put alone into a function that returns it. If the code runs to a value
wherever it is emitted, then a call of that function returns the value.
-/

namespace BlockForge.Simulation

open Ir (Builder Emit Module ValueId)
open Ir.Emit (Onward)
open Machine (At Ending Holds Part World)
open StateM

/-- Code that runs to a value, wherever it is emitted. -/
def Runs (code : Emit (Option ValueId)) (ir : Ir.Ty) (x : Machine.Val) : Prop :=
  ∀ b : Builder, b.Live → code.Sat b fun r b' => ∃ v, r = some v ∧ (Onward b b' ∧ b'.function.Has v ir) ∧
    ∀ {w : World} {M : Machine.State}, Part b' w → At w.func b M → w.Reaches b M b' (Holds b' · v x)

/-- The body that returns what the code computes. -/
def emitReturning (code : Emit (Option ValueId)) : Emit Unit := do
  let entry ← Emit.appendBlock "entry"
  Emit.positionAt entry
  match ← code with
  | some v => Emit.ret v
  | none => Emit.unreachable

/-- A module with a function that returns what the code computes. -/
def returning (pointerBits : Nat) (ir : Ir.Ty) (code : Emit (Option ValueId)) : Module :=
  let declared : Module := { name := "code", pointerBits, functions := #[.declare "code" [] ir] }
  (emitReturning code (.start declared ⟨0⟩)).2.module

/-- Code that runs to a value returns it. -/
theorem Runs.returned {pointerBits : Nat} (hbits : pointerBits ≤ 64) {code : Emit (Option ValueId)} {ir : Ir.Ty}
    {x : Machine.Val} (h : Runs code ir x) {limit : Nat} (hlimit : 0 < limit) (store : Machine.Store) :
    ∃ n, ∀ fuel, n ≤ fuel →
      (Machine.invoke (returning pointerBits ir code) limit fuel store ⟨0⟩ []).result = .ok (some x) := by
  let declared : Module := { name := "code", pointerBits, functions := #[.declare "code" [] ir] }
  have hdecl : declared.function? ⟨0⟩ = some (.declare "code" [] ir) := rfl
  have hhosts : declared.HostsKnown := fun d hd => by cases hd
  have hbody : (emitReturning code).Sat (.start declared ⟨0⟩) fun _ b =>
      ∃ n, ∀ fuel, n ≤ fuel → (Machine.invoke b.module limit fuel store ⟨0⟩ []).result = .ok (some x) := by
    refine Sat.bind (Ir.Emit.start_entered hhosts hdecl) fun _ _ h₁ => Sat.bind h₁ fun _ b₁ entered => ?_
    refine Sat.bind (h b₁ entered.live) ?_
    rintro _ b₂ ⟨v, rfl, ⟨onward, hv⟩, run⟩
    have hret : b₂.function.ret = ir := by
      rw [onward.ext.grows.ret, entered.later.grows.ret]
      rfl
    refine (Ir.Emit.ret_halted onward.live (by rw [hret]; exact hv)).imp fun _ b₃ halted => ?_
    refine Machine.invoke_ends hdecl entered (onward.ext.toLater.trans halted.ext.toLater) halted.ok hbits hlimit rfl
      fun _ _ hcallers _ hat => ?_
    have hp : Part b₂ (Ending b₃ halted.ok limit (.ok (some x))) :=
      Part.before ⟨.refl _, .refl _⟩ halted.ext.toLater
    refine run hp hat fun M' moved _ hx => Machine.ends_of_ret halted moved.toAt hx ?_
    rw [moved.stays.callers, hcallers]
  exact hbody

end BlockForge.Simulation
