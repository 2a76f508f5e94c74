import BlockForge.Machine.Memory
import Mathlib

/-!
# Addresses

The number of an allocation and the offset in it, as the two halves of an address. Both can be read back
as long as fewer than `maxBlocks` numbers are given out.
-/

namespace BlockForge.Machine

/-- How many allocations addresses can tell apart. -/
def maxBlocks : Nat := 2 ^ 32

/-- The address of an offset in an allocation. -/
def addressOf (block offset : Nat) : UInt64 := blockAddress block + UInt64.ofNat offset

@[simp] theorem addressOf_zero (block : Nat) : addressOf block 0 = blockAddress block := by
  simp [addressOf]

theorem addressOf_add (block offset n : Nat) :
    addressOf block offset + UInt64.ofNat n = addressOf block (offset + n) := by
  simp [addressOf, UInt64.add_assoc, UInt64.ofNat_add]

theorem toNat_blockAddress {block : Nat} (h : block < maxBlocks) :
    (blockAddress block).toNat = block * 2 ^ 32 := by
  have hb : block < 2 ^ 32 := h
  rw [blockAddress, UInt64.toNat_shiftLeft, UInt64.toNat_ofNat_of_lt' (by
    show block < 2 ^ 64
    omega), show (32 : UInt64).toNat % 64 = 32 from rfl, Nat.shiftLeft_eq]
  omega

theorem toNat_addressOf {block offset : Nat} (h : block < maxBlocks) (ho : offset < maxBlocks) :
    (addressOf block offset).toNat = block * 2 ^ 32 + offset := by
  have hb : block < 2 ^ 32 := h
  have ho' : offset < 2 ^ 32 := ho
  rw [addressOf, UInt64.toNat_add, toNat_blockAddress h, UInt64.toNat_ofNat_of_lt' (by
    show offset < 2 ^ 64
    omega)]
  omega

theorem blockIndex_addressOf {block offset : Nat} (h : block < maxBlocks) (ho : offset < maxBlocks) :
    blockIndex (addressOf block offset) = block := by
  have hb : block < 2 ^ 32 := h
  have ho' : offset < 2 ^ 32 := ho
  rw [blockIndex, UInt64.toNat_shiftRight, toNat_addressOf h ho, show (32 : UInt64).toNat % 64 = 32 from rfl,
    Nat.shiftRight_eq_div_pow]
  omega

theorem blockOffset_addressOf {block offset : Nat} (h : block < maxBlocks) (ho : offset < maxBlocks) :
    blockOffset (addressOf block offset) = offset := by
  have ho' : offset < 2 ^ 32 := ho
  have hmask : (0xffffffff : UInt64).toNat = 2 ^ 32 - 1 := by decide
  rw [blockOffset, UInt64.toNat_and, toNat_addressOf h ho, hmask, Nat.and_two_pow_sub_one_eq_mod]
  omega

theorem blockIndex_blockAddress {block : Nat} (h : block < maxBlocks) :
    blockIndex (blockAddress block) = block := by
  rw [← addressOf_zero, blockIndex_addressOf h (by decide)]

theorem blockAddress_inj {i j : Nat} (hi : i < maxBlocks) (hj : j < maxBlocks) :
    blockAddress i = blockAddress j ↔ i = j := by
  refine ⟨fun h => ?_, fun h => h ▸ rfl⟩
  rw [← blockIndex_blockAddress hi, h, blockIndex_blockAddress hj]

theorem blockAddress_ne_zero {block : Nat} (h : block < maxBlocks) (hpos : 0 < block) :
    blockAddress block ≠ 0 := by
  intro h0
  have := toNat_blockAddress h
  rw [h0] at this
  simp at this
  omega

end BlockForge.Machine
