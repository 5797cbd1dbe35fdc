import Chip8.Bytes
import Chip8.DeviceCall
import Chip8.Layout

/-!
The picture of a terminal: a pad with a title line above the pixels. A pixel is a run of blanks, as
many as the scale says, in reverse video if it is lit. One more column than the pixels need is kept
for the cursor.

The part of the pad that fits is copied to the screen. When the screen has another size than at the
last refresh it is cleared instead, and the copy waits for the next refresh.
-/

namespace Chip8

structure Terminal where
  /-- Height and width of the pad, while there is one. -/
  pad : Option (Int × Int) := none
  /-- Whether the pad holds something that the screen does not show yet. -/
  refreshNeeded : Bool := false
  lastHeight : Int := -1
  lastWidth : Int := -1
  /-- The height and width of the screen at each time of asking. -/
  sizes : Nat → Int × Int
  asked : Nat := 0
  /-- Whether the library behind the terminal can be told of a new size. -/
  resizable : Bool := true

namespace Terminal

def defaultScale : Int := 2

def openingCalls : List DeviceCall := [.openTerminal, .echoOff, .keywise, .cursor 0]

def closingCalls : List DeviceCall := [.linewise, .echoOn, .cursor 1, .closeTerminal]

def blanks (count : Int) : String := String.ofList (List.replicate count.toNat ' ')

/-- The title, filled up with blanks to the length of the title line. -/
def fillLine (title : String) (line : Int) : Except Fault String := do
  let count ← Bytes.length (line - title.length)
  return title ++ blanks count

/-- A new pad for a picture of the given size. -/
def setResolution (terminal : Terminal) (scale width height : Int) :
    Terminal × List DeviceCall :=
  let size := (height + 1, width * scale + 1)
  ({ terminal with pad := some size }, [.newPad size.1 size.2])

/-- The call that paints a pixel. -/
def pixelCall (scale x y colour : Int) : DeviceCall :=
  .write (y + 1) (x * scale) (blanks scale) (colour != 0)

def refresh (terminal : Terminal) (changed : Bool) : Terminal × List DeviceCall :=
  let needed := terminal.refreshNeeded || changed
  let (height, width) := terminal.sizes terminal.asked
  let terminal := { terminal with asked := terminal.asked + 1 }
  if height = terminal.lastHeight ∧ width = terminal.lastWidth then
    if needed && terminal.pad.isSome then
      ({ terminal with refreshNeeded := false }, [.showPad 0 0 0 0 (height - 1) (width - 1)])
    else ({ terminal with refreshNeeded := needed }, [])
  else
    ({ terminal with refreshNeeded := true, lastHeight := height, lastWidth := width },
      [.clearScreen] ++ (if terminal.resizable then [.resizeScreen height width] else [])
        ++ [.showScreen])

/-- Writes the title over the whole title line, if it is shorter than that. -/
def setTitle (terminal : Terminal) (scale width : Int) (title : String) :
    Except Fault (Terminal × List DeviceCall) :=
  let line := width * scale
  if terminal.pad.isSome && decide ((title.length : Int) < line) then do
    let text ← fillLine title line
    let (terminal, calls) := terminal.refresh true
    return (terminal, .write 0 0 text true :: calls)
  else .ok (terminal, [])

end Terminal

end Chip8
