import Chip8.Inputs.Keyboard
import Chip8.Inputs.Keystrokes

/-!
Inputs: what the host asks whether the user wants to quit and which keys are down.
-/

namespace Chip8

/-- Inputs that are played back: what each call answers is settled beforehand. -/
structure Playback where
  /-- Whether a poll asks to quit, counted from zero. -/
  quitAt : Nat → Bool
  /-- The keys that are down at each time of asking, counted from zero. -/
  keysAt : Nat → List Bool
  polls : Nat := 0
  reads : Nat := 0

inductive Inputs (τ : Type) where
  /-- No key is ever down. -/
  | silent
  | keyboard (keyboard : Keyboard)
  | keystrokes (keystrokes : Keystrokes τ)
  | playback (playback : Playback)

namespace Inputs

variable {τ : Type} [Scalar τ]

/-- Handles what has happened since the last poll; the answer tells whether to quit. -/
def poll (inputs : Inputs τ) (now : τ) : Bool × Inputs τ :=
  match inputs with
  | .silent => (false, .silent)
  | .keyboard k => let (quit, k) := k.poll; (quit, .keyboard k)
  | .keystrokes k => let (quit, k) := k.poll now; (quit, .keystrokes k)
  | .playback p => (p.quitAt p.polls, .playback { p with polls := p.polls + 1 })

/-- Which of the sixteen keys are down. -/
def keyStates (inputs : Inputs τ) (now : τ) : List Bool × Inputs τ :=
  match inputs with
  | .silent => (List.replicate keyCount false, .silent)
  | .keyboard k => (k.keyStates, .keyboard k)
  | .keystrokes k => (k.keyStates now, .keystrokes k)
  | .playback p => (p.keysAt p.reads, .playback { p with reads := p.reads + 1 })

def shutdown (inputs : Inputs τ) : Inputs τ :=
  match inputs with
  | .keystrokes k => .keystrokes k.shutdown
  | other => other

end Inputs

end Chip8
