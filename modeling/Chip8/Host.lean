import Chip8.Clock
import Chip8.Display
import Chip8.Inputs
import Chip8.Machine
import Chip8.Sound

/-!
The host: a machine with a display, inputs and a sound, and the times at which each is due next.
-/

namespace Chip8

/-- What a host does, in order, as far as the devices and the machine notice it. -/
inductive Event (τ : Type) where
  /-- A pass of the loop began at this time. -/
  | began (now : τ)
  /-- The performance since the last report was shown in the title. -/
  | title (frames operations : Nat)
  | polled (quit : Bool)
  /-- The display was told to draw, and whether there was anything new. -/
  | drew (changed : Bool)
  | keys (states : List Bool)
  | stepped
  | buzzer (on : Bool)

structure Host (τ : Type) where
  machine : Machine
  display : Display
  inputs : Inputs τ
  sound : Sound
  /-- The time between two instructions; none if the speed is not capped. -/
  interval : Option τ
  nextDisplay : τ
  nextTimer : τ
  nextReport : τ
  /-- Frames and instructions since the last report. -/
  frames : Nat := 0
  operations : Nat := 0
  clock : Clock τ
  /-- The time of day, which the inputs go by. -/
  timeOfDay : τ
  /-- What was done, newest first. -/
  journal : List (Event τ) := []
  /-- Which calls are noted down: those that reach a device, unless somebody wants to know what a
  display without one is told. -/
  notes : DeviceCall → Bool := DeviceCall.reachesDevice
  /-- The calls noted down, newest first. -/
  calls : List DeviceCall := []

namespace Host

variable {τ : Type} [Scalar τ]

def titleText (frames operations : Nat) : String :=
  appName ++ " - " ++ toString frames ++ " FPS, " ++ toString operations ++ " OPS"

/-- Appends to the journal. -/
def record (h : Host τ) (event : Event τ) : Host τ := { h with journal := event :: h.journal }

/-- Notes calls down. -/
def log (h : Host τ) (calls : List DeviceCall) : Host τ :=
  { h with calls := (calls.filter h.notes).reverse ++ h.calls }

/-- The time between two instructions at a speed; zero and less stand for uncapped. -/
def intervalOf (speed : Choice Int) : Except Fault (Option τ) :=
  match speed.resolve? defaultClockSpeed with
  | none => .error .blankNumber
  | some speed =>
      if speed ≤ 0 then .ok none
      else do
        let speed ← Scalar.ofInt speed
        return some (Scalar.ofNat 1 / speed)

/-- Shows a performance in the title; the fault tells why it could not be shown. -/
def reportPerformance (h : Host τ) (frames operations : Nat) : Host τ × Option Fault :=
  let shown := h.display.setTitle (titleText frames operations)
  let h := { h with display := shown.display }.log shown.calls
  match shown.fault with
  | some fault => (h, some fault)
  | none => (h.record (.title frames operations), none)

/-- A host whose display, inputs and sound are open. There is none if its title cannot be shown. -/
def create (machine : Machine) (display : Display) (inputs : Inputs τ) (sound : Sound)
    (speed : Choice Int) (clock : Clock τ) (timeOfDay : τ) : Except Fault (Host τ) := do
  let interval ← intervalOf speed
  let host : Host τ :=
    { machine, display, inputs, sound, interval, clock, timeOfDay
      nextDisplay := Scalar.ofNat 0
      nextTimer := Scalar.ofNat 0
      nextReport := Scalar.ofNat 0 }
  match host.reportPerformance 0 0 with
  | (_, some fault) => .error fault
  | (host, none) => .ok host

end Host

end Chip8
