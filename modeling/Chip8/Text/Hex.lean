import Chip8.Text.Line

/-!
Hexadecimal text: integers in a field of a least width, and runs of bytes.
-/

namespace Chip8.Hex

/-- Lowercase hexadecimal in at least `width` places. Zeros fill the field between the sign and the
digits, and a minus sign takes one of the places. -/
def padded (width : Nat) (n : Int) : String :=
  let sign := if n < 0 then ['-'] else []
  let digits := Nat.toDigits 16 n.natAbs
  String.ofList (sign ++ List.replicate (width - sign.length - digits.length) '0' ++ digits)

/-- A byte in two places. -/
def byteChars (b : UInt8) : List Char :=
  [Nat.digitChar (b.toNat / 16), Nat.digitChar (b.toNat % 16)]

def byte (b : UInt8) : String := String.ofList (byteChars b)

/-- Two places for each byte, nothing between them. -/
def bytes (bs : List UInt8) : String := String.ofList (bs.flatMap byteChars)

/-- One place: a register or keypad slot. -/
def digit (d : Fin 16) : String := String.ofList [Nat.digitChar d.val]

/-! ### Hexadecimal text has no line breaks -/

theorem digitChar_ne_newline {d : Nat} (small : d < 16) : Nat.digitChar d ≠ '\n' := by
  revert d
  decide

theorem newline_notMem_toDigits (n : Nat) : '\n' ∉ Nat.toDigits 16 n := by
  induction n using Nat.strongRecOn with
  | ind n ih =>
      rw [Nat.toDigits_eq_if (by decide)]
      split
      · next small => simp [(digitChar_ne_newline small).symm]
      · next big =>
          have last := digitChar_ne_newline (Nat.mod_lt n (by decide : 0 < 16))
          have front := ih (n / 16) (by omega)
          simp [front, last.symm]

open Text in
theorem oneLine_padded (width : Nat) (n : Int) : OneLine (padded width n) := by
  have sign : '\n' ∉ (if n < 0 then ['-'] else []) := by split <;> decide
  have zeros : ∀ count, '\n' ∉ List.replicate count '0' := by simp
  have digits := newline_notMem_toDigits n.natAbs
  simp only [padded, oneLine_ofList, List.mem_append, sign, zeros, digits, or_self, not_false_eq_true]

open Text in
theorem oneLine_byte (b : UInt8) : OneLine (byte b) := by
  have small := b.toNat_lt
  have high : Nat.digitChar (b.toNat / 16) ≠ '\n' := digitChar_ne_newline (by omega)
  have low : Nat.digitChar (b.toNat % 16) ≠ '\n' := digitChar_ne_newline (by omega)
  rw [byte, oneLine_ofList]
  simp [byteChars, high.symm, low.symm]

open Text in
theorem oneLine_digit (d : Fin 16) : OneLine (digit d) := by
  rw [digit, oneLine_ofList]
  simp [(digitChar_ne_newline d.isLt).symm]

end Chip8.Hex
