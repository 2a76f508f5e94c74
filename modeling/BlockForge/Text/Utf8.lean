/-!
# Reading bytes as UTF-8

`decodeLossy` reads a byte list as UTF-8. A byte that cannot continue a character ends it: each
maximal part that starts like a character but does not complete one is replaced by one U+FFFD.
-/

namespace BlockForge.Text

/-- The replacement character. -/
def replacement : Char := Char.ofNat 0xfffd

/-- What the first byte of a character announces: how many bytes follow, the bits it contributes, and
the range of the second byte (later bytes are in `80 .. BF`). -/
structure Lead where
  extra : Nat
  bits : Nat
  lo : Nat
  hi : Nat

/-- Classifies a first byte of `80` or above; `none` if no character starts with it. -/
def Lead.of? (b : Nat) : Option Lead :=
  if 0xc2 ≤ b ∧ b ≤ 0xdf then some ⟨1, b - 0xc0, 0x80, 0xbf⟩
  else if b = 0xe0 then some ⟨2, 0, 0xa0, 0xbf⟩
  else if b = 0xed then some ⟨2, 0xd, 0x80, 0x9f⟩
  else if 0xe1 ≤ b ∧ b ≤ 0xef then some ⟨2, b - 0xe0, 0x80, 0xbf⟩
  else if b = 0xf0 then some ⟨3, 0, 0x90, 0xbf⟩
  else if b = 0xf4 then some ⟨3, 4, 0x80, 0x8f⟩
  else if 0xf1 ≤ b ∧ b ≤ 0xf3 then some ⟨3, b - 0xf0, 0x80, 0xbf⟩
  else none

/-- Takes the bytes that follow a first byte: `owed` of them, the next one in `lo .. hi`. Gives the
code point if all are there, and the bytes left over. -/
def continuation : (owed : Nat) → (code lo hi : Nat) → List UInt8 → Option Nat × List UInt8
  | 0, code, _, _, rest => (some code, rest)
  | _ + 1, _, _, _, [] => (none, [])
  | owed + 1, code, lo, hi, b :: rest =>
    if lo ≤ b.toNat ∧ b.toNat ≤ hi then
      continuation owed (code * 64 + (b.toNat - 0x80)) 0x80 0xbf rest
    else (none, b :: rest)

/-- Reads one character or replacement from a nonempty list. -/
def decodeOne (b : UInt8) (rest : List UInt8) : Char × List UInt8 :=
  if b < 0x80 then (Char.ofNat b.toNat, rest)
  else
    match Lead.of? b.toNat with
    | none => (replacement, rest)
    | some lead =>
      match continuation lead.extra lead.bits lead.lo lead.hi rest with
      | (some code, rest) => (Char.ofNat code, rest)
      | (none, rest) => (replacement, rest)

theorem length_continuation_le (owed code lo hi : Nat) (bs : List UInt8) :
    (continuation owed code lo hi bs).2.length ≤ bs.length := by
  induction owed generalizing code lo hi bs with
  | zero => simp [continuation]
  | succ owed ih =>
    cases bs with
    | nil => simp [continuation]
    | cons b rest =>
      simp only [continuation]
      split
      · exact Nat.le_succ_of_le (ih _ _ _ rest)
      · simp

theorem length_decodeOne_le (b : UInt8) (rest : List UInt8) :
    (decodeOne b rest).2.length ≤ rest.length := by
  unfold decodeOne
  split
  · simp
  · split
    · simp
    · rename_i lead _
      have h := length_continuation_le lead.extra lead.bits lead.lo lead.hi rest
      split <;> simp_all

/-- Reads every byte; what is no character becomes replacements. -/
def decodeLossy : List UInt8 → List Char
  | [] => []
  | b :: rest =>
    (decodeOne b rest).1 :: decodeLossy (decodeOne b rest).2
termination_by bs => bs.length
decreasing_by
  have := length_decodeOne_le b rest
  simp only [List.length_cons]
  omega

end BlockForge.Text
