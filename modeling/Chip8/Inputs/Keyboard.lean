import Chip8.Keymap

/-!
The keyboard of a window: keys are pressed and released. Several keys can press one slot of the
keypad, so each slot counts how many of its keys are held, and is down while that is above zero.

Closing the window and releasing the escape key ask to quit; the other events that came with them
still count.
-/

namespace Chip8

inductive KeyEvent where
  | down (code : Int)
  | up (code : Int)
  /-- The window was closed. -/
  | close
  | other
  deriving DecidableEq, Repr

structure Keyboard where
  keymap : Keymap
  held : Vector Nat 16 := Vector.replicate 16 0
  /-- What happens between one poll and the next, for each poll to come. -/
  pending : List (List KeyEvent) := []

namespace Keyboard

def escape : Int := 27

def press (k : Keyboard) (code : Int) : Keyboard :=
  match k.keymap.slot? code with
  | some slot => { k with held := k.held.set slot.val (k.held.get slot + 1) slot.below }
  | none => k

/-- A slot that nothing holds stays at zero. -/
def release (k : Keyboard) (code : Int) : Keyboard :=
  match k.keymap.slot? code with
  | some slot => { k with held := k.held.set slot.val (k.held.get slot - 1) slot.below }
  | none => k

/-- Whether an event asks to quit, and the keyboard after it. -/
def handle (k : Keyboard) : KeyEvent → Bool × Keyboard
  | .down code => (false, k.press code)
  | .up code => if code = escape then (true, k) else (false, k.release code)
  | .close => (true, k)
  | .other => (false, k)

/-- Handles all events of a batch, also behind one that asks to quit. -/
def handleAll (k : Keyboard) : List KeyEvent → Bool × Keyboard
  | [] => (false, k)
  | event :: rest =>
      let (quit, k) := k.handle event
      let (quitLater, k) := k.handleAll rest
      (quit || quitLater, k)

def poll (k : Keyboard) : Bool × Keyboard :=
  match k.pending with
  | [] => k.handleAll []
  | batch :: rest => { k with pending := rest }.handleAll batch

def keyStates (k : Keyboard) : List Bool := k.held.toList.map (0 < ·)

end Keyboard

end Chip8
