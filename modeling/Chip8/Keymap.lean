import Chip8.Layout
import Chip8.Text.Integer
import Chip8.Text.Lowercase
import Chip8.Text.Pieces

/-!
The keymap: which key codes press which slot of the keypad.

It is written as sixteen entries with commas between them, one for each slot, and each entry as one
or more integers with slashes between them. No code may occur twice.
-/

namespace Chip8

structure Keymap where
  /-- The code bound last comes first. -/
  bindings : List (Int × Digit) := []

inductive KeymapError where
  | wrongCount
  | notIntegers
  | duplicate
  /-- A code has no lowercase form. -/
  | caseless (cause : Fault)
  deriving DecidableEq, Repr

def KeymapError.message : KeymapError → String
  | .wrongCount =>
      "Incorrect number of keys defined -- 16 required.  Use commas to split numbers"
  | .notIntegers => "Defined keys are not all integer values"
  | .duplicate => "Duplicate keys defined"
  | .caseless cause => cause.message

namespace Keymap

/-- Key codes and characters agree on lowercase letters and digits, so this map serves windows and
terminals alike. Two players can share the keypad. -/
def defaultText : String :=
  "120,49,50,51,97/113,119,115/101,106,105,107,122,99,52,100/114,108,118"

def slot? (keymap : Keymap) (code : Int) : Option Digit := keymap.bindings.lookup code

def bind (keymap : Keymap) (code : Int) (slot : Digit) : Except KeymapError Keymap :=
  match keymap.slot? code with
  | some _ => .error .duplicate
  | none => .ok { bindings := (code, slot) :: keymap.bindings }

/-- The code that a piece of an entry stands for; with `lower` that of its lowercase character. -/
def code (lower : Bool) (piece : List Char) : Except KeymapError Int :=
  match Text.integer? piece with
  | none => .error .notIntegers
  | some code =>
      if lower then
        match Text.lowercaseCode code with
        | .ok code => .ok code
        | .error cause => .error (.caseless cause)
      else .ok code

/-- The pieces of all entries in reading order, each with the slot of its entry. -/
def slotted (entries : List (List Char)) : List (List Char × Digit) :=
  entries.zipIdx.flatMap fun (entry, n) =>
    (Text.pieces '/' entry).map fun piece => (piece, Digit.ofNat n)

/-- Reads a keymap. The count is checked before anything else, then the first piece that is wrong
decides the error. -/
def parse (text : String) (lower : Bool) : Except KeymapError Keymap :=
  let entries := Text.pieces ',' text.toList
  if entries.length ≠ keyCount then .error .wrongCount
  else (slotted entries).foldlM (fun keymap (piece, slot) => do
    keymap.bind (← code lower piece) slot) {}

end Keymap

end Chip8
