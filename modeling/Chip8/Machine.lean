import Chip8.Framebuffer
import Chip8.RandomSource
import Chip8.Stack

/-!
The machine: memory, registers, stack, timers, keypad and screen, and the operations that whoever
drives it uses between instructions. The machine has no loop of its own: a step is run when asked
for, and the timers count down when told to.

The program counter, the index register, the timers and the stack entries are integers of any
size. Programs only ever leave them in range; somebody who sets them by hand need not.
-/

namespace Chip8

/-- The lines written so far, newest first. -/
structure Console where
  /-- On standard output. -/
  printed : List String := []
  /-- On standard error. -/
  reported : List String := []

namespace Console

def print (console : Console) (line : String) : Console :=
  { console with printed := line :: console.printed }

def report (console : Console) (line : String) : Console :=
  { console with reported := line :: console.reported }

/-- Lines, newest first, as the text they make. -/
def text (lines : List String) : String :=
  String.join (lines.reverse.map (· ++ "\n"))

end Console

structure Machine where
  ram : Ram
  registers : Vector UInt8 16
  /-- The index register. -/
  index : Int
  delay : Int
  sound : Int
  pc : Int
  /-- The address that the current word was fetched from. -/
  origin : Int
  /-- The current word. -/
  word : Int
  stack : Stack
  screen : Framebuffer
  keypad : Vector Bool 16
  random : RandomSource
  /-- Whether a line is printed before every instruction. -/
  trace : Bool
  /-- Whether a word that is no instruction halts the machine. -/
  strict : Bool
  console : Console := {}

namespace Machine

/-- Memory at the start: the font, and zeros. -/
def bootRam : Ram where
  cells := Bytes.splice (Array.replicate 4096 0) fontStart.toNat systemFont
  top := memorySize - 1
  size := memorySize

def create (trace strict : Bool) (random : RandomSource) : Machine where
  ram := bootRam
  registers := Vector.replicate 16 0
  index := 0
  delay := 0
  sound := 0
  pc := programStart
  origin := programStart
  word := 0
  stack := Stack.empty stackSize
  screen := Framebuffer.screen
  keypad := Vector.replicate 16 false
  random
  trace
  strict

/-- Counts both timers down to zero; the answer tells whether the buzzer sounds in this tick. -/
def advanceTimers (m : Machine) : Bool × Machine :=
  let m := if 0 < m.delay then { m with delay := m.delay - 1 } else m
  if 0 < m.sound then (true, { m with sound := m.sound - 1 }) else (false, m)

/-- The two bytes at the program counter, the high byte first. -/
def fetch (m : Machine) : Except Fault Int := do
  let high ← m.ram.read m.pc
  let low ← m.ram.read (wrapAddress (m.pc + 1))
  return high.toNat * 256 + low.toNat

/-- On to the next instruction. -/
def advance (m : Machine) : Machine := { m with pc := wrapAddress (m.pc + 2) }

/-- Back to the instruction that is being run, so that it is run again. -/
def rewind (m : Machine) : Machine := { m with pc := wrapAddress (m.pc - 2) }

end Machine

/-- A computation on a machine. -/
abbrev MachineM := FaultM Machine

namespace MachineM

variable {α : Type}

def onRam (computation : RamM α) : MachineM α :=
  FaultM.onPart Machine.ram (fun m ram => { m with ram }) computation

def onStack (computation : StackM α) : MachineM α :=
  FaultM.onPart Machine.stack (fun m stack => { m with stack }) computation

def onScreen (computation : FramebufferM α) : MachineM α :=
  FaultM.onPart Machine.screen (fun m screen => { m with screen }) computation

/-- Puts a program at the program start, if it fits. -/
def loadProgram (program : List UInt8) : MachineM Unit :=
  onRam (RamM.writeBlock programStart program)

/-- Takes over which keys are down; there has to be one entry for each key. -/
def setKeys (keys : List Bool) : MachineM Unit :=
  if h : keys.length = 16 then modify fun m => { m with keypad := ⟨keys.toArray, by simp [h]⟩ }
  else throw .keypadSize

end MachineM

namespace Machine

def loadProgram (m : Machine) (program : List UInt8) : Except Fault Machine :=
  (MachineM.loadProgram program).final m

def setKeys (m : Machine) (keys : List Bool) : Except Fault Machine :=
  (MachineM.setKeys keys).final m

end Machine

end Chip8
