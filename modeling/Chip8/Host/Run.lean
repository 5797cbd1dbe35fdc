import Chip8.Host
import Chip8.Machine.Execution

/-!
The host loop. Each pass reads the clock and, by that time:

* shows the performance, once a second;
* polls the inputs and draws, sixty times a second;
* hands the keys to the machine and runs one instruction;
* ticks the timers, sixty times a second;
* waits until the next instruction is due, if the speed is capped.

The timers go by the clock and not by the number of instructions, so they keep their speed when a
pass takes long.
-/

namespace Chip8

/-- Why a run ended before it was done. -/
inductive Stop where
  | fault (cause : Fault)
  /-- The clock cannot be read any more. -/
  | clockEnded
  deriving DecidableEq, Repr

/-- A computation on a host, which keeps what was done before it stopped. -/
abbrev HostM (τ : Type) := EStateM Stop (Host τ)

namespace Host

variable {τ : Type} [Scalar τ]

def displayInterval : τ := Scalar.ofNat 1 / Scalar.ofNat displayFrequency

def timerInterval : τ := Scalar.ofNat 1 / Scalar.ofNat timerFrequency

/-- Goes on with the value of a result. -/
def ofExcept {α : Type} : Except Fault α → HostM τ α
  | .ok a => pure a
  | .error fault => throw (.fault fault)

/-- Runs a computation on the machine, which is put back however it ends. -/
def onMachine {α : Type} (computation : MachineM α) : HostM τ α := fun h =>
  match computation.run h.machine with
  | .ok a machine => .ok a { h with machine }
  | .error fault machine => .error (.fault fault) { h with machine }

def readClock : HostM τ τ := do
  let h ← get
  match h.clock.read with
  | none => throw .clockEnded
  | some (now, clock) =>
      set { h with clock }
      return now

/-- Shows the performance and starts counting anew, at the first pass in each second. -/
def reportIfDue (now : τ) : HostM τ Unit := do
  let h ← get
  if Scalar.atMost h.nextReport now then
    let second ← ofExcept (Scalar.truncate now)
    let second ← ofExcept (Scalar.ofInt second)
    let h := { h with nextReport := second + Scalar.ofNat 1 }
    set h
    let (h, fault) := h.reportPerformance h.frames h.operations
    set h
    match fault with
    | some fault => throw (.fault fault)
    | none => modify fun h => { h with frames := 0, operations := 0 }

/-- Has the display draw the screen of the machine. -/
def draw : HostM τ Unit := do
  let h ← get
  let changed := h.machine.screen.changed
  let (screen, shown) := h.display.draw h.machine.screen
  let h := { h with machine := { h.machine with screen }, display := shown.display }
  set (h.log shown.calls)
  match shown.fault with
  | some fault => throw (.fault fault)
  | none => modify fun h => h.record (.drew changed)

/-- Polls the inputs; the answer tells whether to quit. -/
def poll : HostM τ Bool := do
  let h ← get
  let (quit, inputs) := h.inputs.poll h.timeOfDay
  set ({ h with inputs }.record (.polled quit))
  return quit

/-- Polls and draws if that is due; the answer tells whether to quit. -/
def pollIfDue (now : τ) : HostM τ Bool := do
  let h ← get
  if Scalar.atMost h.nextDisplay now then
    if ← poll then return true
    modify fun h => { h with nextDisplay := now + displayInterval }
    draw
    modify fun h => { h with frames := h.frames + 1 }
  return false

/-- Hands the keys to the machine and runs one instruction. -/
def stepMachine : HostM τ Unit := do
  let h ← get
  let (states, inputs) := h.inputs.keyStates h.timeOfDay
  set ({ h with inputs }.record (.keys states))
  onMachine (MachineM.setKeys states)
  onMachine MachineM.step
  modify fun h => h.record .stepped

/-- Ticks the timers if that is due, and tells the sound. -/
def tickIfDue (now : τ) : HostM τ Unit := do
  let h ← get
  if Scalar.atMost h.nextTimer now then
    let (on, machine) := h.machine.advanceTimers
    let (sound, calls) := h.sound.enableBuzzer on
    let h := { h with machine, sound, nextTimer := now + timerInterval }
    set ((h.log calls).record (.buzzer on))

/-- Reads the clock, at most `bound` times, until it shows the deadline. -/
def waitUntil (deadline : τ) : (bound : Nat) → HostM τ Unit
  | 0 => throw .clockEnded
  | bound + 1 => do
      let now ← readClock
      if Scalar.less now deadline then waitUntil deadline bound

/-- Waits for the next instruction if the speed is capped. No wait takes more readings than the
clock has left. -/
def awaitNext (now : τ) : HostM τ Unit := do
  let h ← get
  match h.interval with
  | none => pure ()
  | some interval => waitUntil (now + interval) (h.clock.remaining + 1)

/-- What a pass does at a time, up to the wait; the answer tells whether it went through and did
not quit. -/
def begin (now : τ) : HostM τ Bool := do
  modify fun h => h.record (.began now)
  reportIfDue now
  if ← pollIfDue now then return false
  stepMachine
  tickIfDue now
  return true

/-- Counts the instruction of a pass. -/
def finish : HostM τ Unit := modify fun h => { h with operations := h.operations + 1 }

/-- One pass; the answer tells whether it went through and did not quit. -/
def pass : HostM τ Bool := do
  let now ← readClock
  if ← begin now then
    awaitNext now
    finish
    return true
  return false

/-- Whether the number of instructions asked for has been run. -/
def reached (limit : Option Int) (cycles : Int) : Bool :=
  match limit with
  | none => false
  | some limit => limit ≤ cycles

/-- At most `bound` passes, after `cycles` instructions; the answer is the number of instructions
run in the end. -/
def passes (limit : Option Int) : (bound : Nat) → (cycles : Int) → HostM τ Int
  | 0, cycles => if reached limit cycles then pure cycles else throw .clockEnded
  | bound + 1, cycles =>
      if reached limit cycles then pure cycles
      else do
        if ← pass then passes limit bound (cycles + 1) else pure cycles

/-- Runs until the user quits or `limit` instructions have been run, and shows what was drawn last.
Every pass reads the clock, so there are no more passes than it has readings left. -/
def run (limit : Option Int) : HostM τ Int := do
  let h ← get
  let cycles ← passes limit (h.clock.remaining + 1) 0
  draw
  return cycles

end Host

end Chip8
