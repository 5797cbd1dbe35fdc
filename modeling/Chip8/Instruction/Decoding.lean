import Chip8.Instruction

/-!
Decoding: from a word to its instruction.

One table serves two look-ups. The first is by the family digit of the word. Families that share
that digit hold an entry that sends the word on to a second look-up, under the whole word or under
its identifying bits. A word found in neither is unsupported.

Nothing in the shape of the table forbids a second look-up from meeting another family entry, so
the search is bounded, and `search` also lists the keys it tried: `dispatch` needs two.
-/

namespace Chip8.Decoding

inductive Entry where
  /-- The word is this instruction. -/
  | body (form : Int → Instruction)
  /-- Look up the whole word, unless it is one of the keys kept for families. -/
  | exact
  /-- Look up the bits of `mask`. -/
  | masked (mask : Nat)

open Word in
/-- Family `0xB` has no instruction. -/
def table : List (Int × Entry) := [
  (0x0, .exact),
  (0x1, .body fun w => .jp (address w)),
  (0x2, .body fun w => .call (address w)),
  (0x3, .body fun w => .seByte (x w) (byte w)),
  (0x4, .body fun w => .sneByte (x w) (byte w)),
  (0x5, .masked 0xF00F),
  (0x6, .body fun w => .ldByte (x w) (byte w)),
  (0x7, .body fun w => .addByte (x w) (byte w)),
  (0x8, .masked 0xF00F),
  (0x9, .masked 0xF00F),
  (0xA, .body fun w => .ldIndex (address w)),
  (0xC, .body fun w => .rnd (x w) (byte w)),
  (0xD, .body fun w => .drw (x w) (y w) (nibble w)),
  (0xE, .masked 0xF0FF),
  (0xF, .masked 0xF0FF),
  -- Family 0, whole words
  (0x00E0, .body fun _ => .cls),
  (0x00EE, .body fun _ => .ret),
  -- Families 5, 8 and 9
  (0x5000, .body fun w => .se (x w) (y w)),
  (0x8000, .body fun w => .ld (x w) (y w)),
  (0x8001, .body fun w => .or (x w) (y w)),
  (0x8002, .body fun w => .and (x w) (y w)),
  (0x8003, .body fun w => .xor (x w) (y w)),
  (0x8004, .body fun w => .add (x w) (y w)),
  (0x8005, .body fun w => .sub (x w) (y w)),
  (0x8006, .body fun w => .shr (x w)),
  (0x8007, .body fun w => .subn (x w) (y w)),
  (0x800E, .body fun w => .shl (x w)),
  (0x9000, .body fun w => .sne (x w) (y w)),
  -- Families E and F
  (0xE09E, .body fun w => .skp (x w)),
  (0xE0A1, .body fun w => .sknp (x w)),
  (0xF007, .body fun w => .readDelay (x w)),
  (0xF00A, .body fun w => .waitKey (x w)),
  (0xF015, .body fun w => .setDelay (x w)),
  (0xF018, .body fun w => .setSound (x w)),
  (0xF01E, .body fun w => .addIndex (x w)),
  (0xF029, .body fun w => .glyph (x w)),
  (0xF033, .body fun w => .bcd (x w)),
  (0xF055, .body fun w => .save (x w)),
  (0xF065, .body fun w => .restore (x w))]

/-- How a search ended. -/
inductive Verdict where
  | found (instruction : Instruction)
  | unsupported
  /-- The search was still being sent on when its bound was reached. -/
  | unfinished
  deriving DecidableEq, Repr

structure Search where
  /-- The keys looked up, in order. -/
  keys : List Int
  verdict : Verdict
  deriving DecidableEq, Repr

/-- At most `bound` look-ups for `word`, the first under `key`. -/
def search : (bound : Nat) → (word key : Int) → Search
  | 0, _, _ => ⟨[], .unfinished⟩
  | bound + 1, word, key =>
      let rest : Search :=
        match table.lookup key with
        | none => ⟨[], .unsupported⟩
        | some (.body form) => ⟨[], .found (form word)⟩
        | some .exact =>
            if word < 0x10 then ⟨[], .unsupported⟩ else search bound word word
        | some (.masked mask) => search bound word (Word.masked word mask)
      { rest with keys := key :: rest.keys }

def dispatch (word : Int) : Search := search 2 word (Word.family word).val

/-- The instruction of a word, if it is one. -/
def decode (word : Int) : Option Instruction :=
  match (dispatch word).verdict with
  | .found instruction => some instruction
  | .unsupported => none
  | .unfinished => none

end Chip8.Decoding
