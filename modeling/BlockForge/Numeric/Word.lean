/-!
# Machine words at a stated width

Integers of the machine are 64-bit words whose low `bits` bits carry the value. This module holds
the two readings of such a word: `mask` keeps the value bits, `signExtend` reads them as two's
complement. Widths of 64 and above denote the whole word.
-/

namespace BlockForge.Word

/-- The low `bits` bits of a word; all of it from width 64 on. -/
def mask (w : UInt64) (bits : Nat) : UInt64 :=
  if 64 ≤ bits then w else w &&& ((1 <<< UInt64.ofNat bits) - 1)

/-- The low `bits` bits of a word as a two's complement integer. Shift amounts count modulo 64, so
width 0 reads the whole word. -/
def signExtend (w : UInt64) (bits : Nat) : Int64 :=
  if 64 ≤ bits then w.toInt64
  else
    let shift := UInt64.ofNat (64 - bits)
    (w <<< shift).toInt64 >>> shift.toInt64

/-- The word whose low bits hold `z` in two's complement. -/
def ofInt (z : Int) : UInt64 := (Int64.ofInt z).toUInt64

theorem mask_of_le {bits : Nat} (h : 64 ≤ bits) (w : UInt64) : mask w bits = w := by
  simp [mask, h]

end BlockForge.Word
