import BlockForge.Proofs.Machine.Merging

/-!
# Running detours

Code that is run only under a condition: a branch leads to it or past it, and from it control goes on behind.
-/

namespace BlockForge.Machine

open Ir (BlockId Builder Emit ValueId)
open Ir.Emit (Onward)
open StateM

/-- What was emitted from `s` to `d` is run on the way from `b` to `b'` if the value is true. -/
structure Detours (b : Builder) (c : ValueId) (s d b' : Builder) : Prop where
  onward : Onward b b'
  skip : ∀ {w : World} {M : State}, Toward b b' w → At w.func b M → Holds b M c (.bool false) →
    w.Reaches b M b' fun _ => True
  enter : ∀ {w : World} {M : State}, Toward b b' w → At w.func b M → Holds b M c (.bool true) →
    w.Reaches b M s fun _ => True
  inside : ∀ {w : World}, Toward b b' w → Toward s d w
  leave : ∀ {w : World} {M : State}, Toward b b' w → At w.func d M → w.Reaches d M b' fun _ => True

/-- Runs `body` if the value is true. -/
def detour (c : ValueId) (bodyName nextName : String) (body : Emit Unit) : Emit Unit := do
  let start ← Emit.appendBlock bodyName
  let next ← Emit.appendBlock nextName
  Emit.condBr c start next
  Emit.positionAt start
  body
  Emit.br next
  Emit.positionAt next

theorem detour_detours {b : Builder} (h : b.Live) {c : ValueId} (hc : b.function.Has c .i1) (m n : String)
    {body : Emit Unit} {P : Builder → Builder → Prop}
    (hbody : ∀ s, Onward b s → body.Sat s fun _ d => Onward s d ∧ P s d) :
    (detour c m n body).Sat b fun _ b' => ∃ s d, Onward b s ∧ P s d ∧ Detours b c s d b' := by
  refine Sat.bind (Ir.Emit.appendBlock_appended h m) fun start b₁ a₁ => ?_
  refine Sat.bind (Ir.Emit.appendBlock_appended a₁.live n) fun next b₂ a₂ => ?_
  refine Sat.bind (Ir.Emit.condBr_fresh a₂.live (a₂.has (a₁.has hc)) (a₁.fresh.ext a₂.ext) a₂.fresh)
    fun _ b₃ h₃ => ?_
  have fork := Ir.Emit.forked a₁ a₂ h₃ (.inl rfl)
  refine Sat.bind fork.enterLeft ?_
  rintro - s ⟨o₄, fresh₄, hs⟩
  refine Sat.bind (hbody s o₄) ?_
  rintro - d ⟨o₅, hP⟩
  have fresh₅ := fresh₄.ext o₅.ext
  refine Sat.bind (Ir.Emit.br_halted o₅.live fresh₅.lt_size fresh₅.noPhi) fun _ b₆ h₆ => ?_
  have within₆ : Ir.Emit.Within b b₆ := h₆.within (o₄.trans o₅).toWithin
    (by simpa [Ir.Terminator.successors] using fork.rightNew)
  have fresh₆ := fresh₅.ext h₆.ext
  refine (Ir.Emit.positionAt_fresh h₆.ok within₆ fresh₆ fork.rightNew
    (fork.pathRight (hs ▸ o₅.ext.trans h₆.ext))).imp ?_
  rintro - b' ⟨o', hb'⟩
  refine ⟨s, d, o₄, hP, ?_⟩
  -- to move the position leaves the function as it is
  have fs : s.function = b₃.function := by rw [hs]; rfl
  have f' : b'.function = b₆.function := by rw [hb']; rfl
  have hnext : next ≠ Ir.Id.entry := by
    obtain ⟨c, -, hlt⟩ := h.ok.position
    rintro rfl
    exact absurd fork.rightNew (by show ¬_ ≤ 0; omega)
  have hgrown : b₃.function.values.size ≤ b'.function.values.size := by
    rw [f', ← fs]
    exact (o₅.ext.grows.trans h₆.ext.grows).valuesSize
  have hempty : b'.function.body next = [] := by
    rw [f']
    exact fresh₆.empty
  have hcurrent : b'.current = some next := by rw [hb']
  have part₆ : ∀ {w : World}, Toward b b' w → Part b₆ w := fun ht =>
    ⟨by have := ht.module; rwa [hb'] at this, f' ▸ ht.function⟩
  have part₃ : ∀ {w : World}, Toward b b' w → Part b₃ w := fun ht => by
    have hp := ((part₆ ht).before h₆.ext.toLater).back o₅
    exact ⟨by have := hp.module; rwa [hs] at this, fs ▸ hp.function⟩
  have hplain : ∀ {w : World} {i : BlockId}, Toward b b' w → b.function.blocks.size ≤ i.index →
      i.index < b₆.function.blocks.size → b₆.function.NoPhi i → w.func.NoPhi i := fun ht hle hlt hn =>
    ht.plain _ hle (f' ▸ hlt) (f' ▸ hn)
  have hstart : start.index < s.function.blocks.size := fs ▸ fork.left.lt_size
  refine ⟨o', fun {w M} ht hM hv => ?_, fun {w M} ht hM hv => ?_, fun {w} ht => ?_, fun {w M} ht hM => ?_⟩
  · intro k
    exact Halted.branchNew h a₁ a₂ h₃ (part₃ ht) hM hv rfl (hplain ht fork.rightNew fresh₆.lt_size fresh₆.noPhi) hcurrent
      hempty hgrown fun M' m hst => k M' m hst trivial
  · intro k
    refine Halted.branchNew h a₁ a₂ h₃ (part₃ ht) hM hv rfl (hplain ht fork.leftNew ?_ ?_) (show s.current = some start by rw [hs])
      (by rw [fs]; exact fork.left.empty) (by rw [fs]) fun M' m hst => k M' m hst trivial
    · exact Nat.lt_of_lt_of_le hstart (o₅.ext.grows.trans h₆.ext.grows).size
    · exact h₆.ext.noPhi _ (Nat.lt_of_lt_of_le hstart o₅.ext.grows.size) (o₅.ext.noPhi _ hstart (fs ▸ fork.left.noPhi))
  · refine ⟨(part₆ ht).before h₆.ext.toLater, fun i hle hlt hn => ?_⟩
    exact hplain ht (Nat.le_trans o₄.ext.grows.size hle) (Nat.lt_of_lt_of_le hlt h₆.ext.grows.size)
      (h₆.ext.noPhi i hlt hn)
  · intro k
    exact Halted.jump h₆ (part₆ ht) hM hnext (hplain ht fork.rightNew fresh₆.lt_size fresh₆.noPhi) fresh₆.lt_size hcurrent
      hempty (by rw [f']; exact h₆.ext.grows.valuesSize) fun M' m hst => k M' m hst trivial

end BlockForge.Machine
