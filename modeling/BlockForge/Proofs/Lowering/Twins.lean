import BlockForge.Proofs.Ir.Twins
import BlockForge.Proofs.Lowering.Tandem.Statements

/-!
# Lowering one function in two modules

Lowering reads of its module no more than the declarations, so from states that are twins it leaves twins, if
what the allocator emits does not depend on the module either.
-/

namespace BlockForge.Lowering

open Ir (Builder Emit Peers ValueId)
open Ir.Emit
open Source (FunctionDef)
open StateM

variable {P : Peers}

def Allocator.Even (P : Peers) (a : Allocator) : Prop := ∀ size kind name, Emit.Even P (a.allocate size kind name)

/-- Host functions go by their names. -/
theorem callBoundsError_even (index size : ValueId) : Emit.Even P (callBoundsError index size) := by
  refine .get_bind fun b c h => ?_
  rw [h.ptrInt]
  have hd : (⟨boundsErrorHook, [b.module.ptrInt, b.module.ptrInt], .void⟩ : Ir.HostDecl) ∈ b.module.knownHosts := by
    simp [Ir.Module.knownHosts, boundsErrorHook, Machine.hostBoundsError]
  refine Coupled.bind (declareHost_coupled h hd) ?_
  rintro i b' j c' ⟨h', hi, hj⟩
  exact Coupled.bind (callHost_coupled h' hi hj _ _) fun _ _ _ _ h'' => ⟨rfl, h''.2⟩

/-- Twins in tandem, whatever has been reported. -/
def twinTandem (P : Peers) : Tandem where
  toTandem := P.tandem
  reports _ _ := True
  report _ _ := trivial
  boundsError hi hn := (callBoundsError_even ..).follows (fun hd => by rw [hd _ _ hi, hd _ _ hn]) (by simp)

theorem Allocator.Even.follows {a : Allocator} (h : a.Even P) : a.Follows (twinTandem P) a := by
  intro known size size' kind name hs
  exact (h size kind name).follows (fun hd => by rw [hd _ _ hs]) (by simp)

/-- A function is lowered to the same at the same point of two modules. -/
theorem lowerFunction_twins {env : Env} (ha : env.allocator.Even P) (d : FunctionDef) (sig : Signature)
    {b c : Builder} (h : b.Twins P c) (q q' : Diagnostic.Queue) :
    (lowerFunction env d sig ⟨b, q, {}, [], false, {}⟩).2.builder.Twins P
      (lowerFunction env d sig ⟨c, q', {}, [], false, {}⟩).2.builder := by
  have hstart : (⟨b, q, {}, [], false, {}⟩ : State).Linked (twinTandem P) {p | p.2 = p.1} ⟨c, q', {}, [], false, {}⟩ :=
    ⟨⟨fun _ hp => hp, h⟩, trivial, .nil, rfl, rfl, rfl⟩
  have hparams : ∀ p ∈ paramLinks (parameters d sig).length, p ∈ {p : ValueId × ValueId | p.2 = p.1} := by
    intro p hp
    obtain ⟨i, -, rfl⟩ := List.mem_map.1 hp
    rfl
  obtain ⟨_, _, hend, -⟩ := (lowerFunction_follows (.refl ha.follows) d sig).run hparams hstart
  exact hend.builder.2

/-- The collector calls host functions by their names. -/
theorem collector_even : Allocator.Even P .collector := by
  intro size kind name
  refine .get_bind fun b c h => ?_
  rw [h.ptrInt]
  have hd : ∀ symbol, symbol = Machine.hostMalloc ∨ symbol = Machine.hostMallocAtomic →
      (⟨symbol, [b.module.ptrInt], .ptr⟩ : Ir.HostDecl) ∈ b.module.knownHosts := by
    rintro _ (rfl | rfl) <;> simp [Ir.Module.knownHosts]
  have hcall : ∀ symbol, symbol = Machine.hostMalloc ∨ symbol = Machine.hostMallocAtomic →
      (Allocator.callAllocator symbol [b.module.ptrInt] [size] name).Coupled b
        (Allocator.callAllocator symbol [b.module.ptrInt] [size] name) c fun v b' w c' =>
          w = v ∧ b'.Twins P c' := by
    intro symbol hs
    refine Coupled.bind (declareHost_coupled h (hd symbol hs)) ?_
    rintro i b' j c' ⟨h', hi, hj⟩
    refine Coupled.bind (callHost_coupled h' hi hj _ _) ?_
    rintro _ b'' value c'' ⟨rfl, h''⟩
    cases value with
    | some ptr => exact ⟨rfl, h''⟩
    | none => exact (pushValue_even (by simp) ..).run h''
  cases kind with
  | general => exact hcall _ (.inl rfl)
  | noReferences => exact hcall _ (.inr rfl)

end BlockForge.Lowering
