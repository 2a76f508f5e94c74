import BlockForge.Ir.Verify
import BlockForge.Proofs.Machine.Frames
import BlockForge.Proofs.Machine.Ledger

/-!
# Fuel

Fuel bounds how long a call may run and has no other effect. A run that ends by itself takes a fixed number of
steps, whatever fuel is left over; with less than that it runs out, with exactly as many steps as it had fuel.
What fuel does not bound is a single step: one that sizes a struct that contains itself never ends.
-/

namespace BlockForge.Machine

open Ir (FuncId Module)

variable (m : Module) (limit : Nat)

/-- What fuel does to a computation that ends by itself after `used` units. -/
structure Metered (o : Nat → Outcome) (result : Except Fault (Option Val)) (store : Store) (used : Nat) :
    Prop where
  enough : ∀ {n}, used ≤ n → o n = ⟨result, store, n - used⟩
  short : ∀ {n}, n < used → (o n).result = .error .outOfFuel ∧ (o n).fuel = 0

/-- One step more needs one unit more. -/
theorem Metered.succ {o o' : Nat → Outcome} {result : Except Fault (Option Val)} {store : Store} {used : Nat}
    (h : Metered o result store used) (hs : ∀ n, o' (n + 1) = o n)
    (hz : (o' 0).result = .error .outOfFuel ∧ (o' 0).fuel = 0) : Metered o' result store (used + 1) where
  enough {n} hn := by
    obtain ⟨n, rfl⟩ : ∃ k, n = k + 1 := ⟨n - 1, by omega⟩
    rw [hs, h.enough (by omega), Nat.add_sub_add_right]
  short {n} hn := by
    cases n with
    | zero => exact hz
    | succ n =>
      rw [hs]
      exact h.short (by omega)

end BlockForge.Machine
