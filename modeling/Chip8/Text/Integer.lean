import Chip8.Text.Blank
import Chip8.Text.DecimalDigit

/-!
Reading integers from text: blanks around, one sign, and decimal digits of any script. A single
underscore may stand between two digits. Leading zeros are allowed, but no more than
`digitLimit` digits in all.
-/

namespace Chip8.Text

def digitLimit : Nat := 4300

/-- The values of one or more digits, single underscores between them left out. -/
def digits? : List Char → Option (List Nat)
  | [] => none
  | [c] => (decimalValue? c).map fun d => [d]
  | c :: '_' :: rest => do
      let d ← decimalValue? c
      let ds ← digits? rest
      return d :: ds
  | c :: rest => do
      let d ← decimalValue? c
      let ds ← digits? rest
      return d :: ds

def ofDigits (digits : List Nat) : Nat :=
  digits.foldl (fun n d => 10 * n + d) 0

def natural? (text : List Char) : Option Nat := do
  let digits ← digits? text
  if digits.length ≤ digitLimit then some (ofDigits digits) else none

def integer? (text : List Char) : Option Int :=
  match trimBlanks text with
  | '+' :: rest => (natural? rest).map Int.ofNat
  | '-' :: rest => (natural? rest).map fun n => -Int.ofNat n
  | rest => (natural? rest).map Int.ofNat

end Chip8.Text
