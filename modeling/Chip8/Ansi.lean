import Chip8.DeviceCall

/-!
Terminal calls as ANSI escape sequences. The pad is kept here as a grid of characters, and shown by
writing the part of it that the screen has room for.
-/

namespace Chip8.Ansi

structure Cell where
  char : Char := ' '
  reverse : Bool := false

structure Pad where
  height : Nat := 0
  width : Nat := 0
  /-- Row after row. -/
  cells : Array Cell := #[]

namespace Pad

def blank (height width : Nat) : Pad :=
  { height, width, cells := Array.replicate (height * width) {} }

/-- Writes characters into consecutive cells. -/
def write (pad : Pad) (place : Nat) (text : List Char) (reverse : Bool) : Pad :=
  let cells := (text.foldl (fun (cells, place) char =>
    (cells.setIfInBounds place { char, reverse }, place + 1)) (pad.cells, place)).1
  { pad with cells }

/-- The first `width` cells of a row, reverse video switched on and off where it changes. -/
def rowText (pad : Pad) (row width : Nat) : String :=
  let start := row * pad.width
  let cells := (pad.cells.extract start (start + min width pad.width)).toList
  let (text, reverse) := cells.foldl (fun (text, on) cell =>
    let mode := if cell.reverse == on then ""
      else if cell.reverse then "\x1b[7m" else "\x1b[27m"
    ((text ++ mode).push cell.char, cell.reverse)) ("", false)
  if reverse then text ++ "\x1b[27m" else text

/-- The rows that fit into a screen of the given size. -/
def region (pad : Pad) (height width : Nat) : String :=
  String.join ((List.range (min height pad.height)).map fun row =>
    "\x1b[" ++ toString (row + 1) ++ ";1H" ++ pad.rowText row width)

end Pad

/-- The pad after a call, and what the call writes to the terminal. -/
def perform (pad : Pad) : DeviceCall → Pad × String
  | .openTerminal => (pad, "\x1b[?1049h")
  | .closeTerminal => (pad, "\x1b[?1049l")
  | .cursor visibility => (pad, if visibility = 0 then "\x1b[?25l" else "\x1b[?25h")
  | .newPad height width => (Pad.blank height.toNat width.toNat, "")
  | .write row column text reverse =>
      (pad.write (row.toNat * pad.width + column.toNat) text.toList reverse, "")
  | .showPad _ _ _ _ bottom right => (pad, pad.region (bottom + 1).toNat (right + 1).toNat)
  | .clearScreen => (pad, "\x1b[2J")
  | .beep => (pad, "\x07")
  | _ => (pad, "")

end Chip8.Ansi
