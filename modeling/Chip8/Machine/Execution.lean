import Chip8.Instruction.Decoding
import Chip8.Machine.Report

/-!
Execution: what each instruction does to the machine, and the step that fetches, decodes and runs
one. A fault takes nothing back: the machine is left as it was when the fault came up.
-/

namespace Chip8

/-- What an operation leaves behind: the machine, and the fault that stopped it, if one did. -/
structure Outcome where
  machine : Machine
  fault : Option Fault := none

namespace Machine

/-! ### Registers and keys -/

def reg (m : Machine) (x : Digit) : UInt8 := m.registers.get x

def setReg (m : Machine) (x : Digit) (value : UInt8) : Machine :=
  { m with registers := m.registers.set x.val value x.below }

def setFlag (m : Machine) (set : Bool) : Machine := m.setReg flagRegister (if set then 1 else 0)

def skipIf (m : Machine) (condition : Bool) : Machine :=
  if condition then m.advance else m

/-- Whether the key that register `x` names is down; only its low digit counts. -/
def keyHeld (m : Machine) (x : Digit) : Bool :=
  m.keypad[(m.reg x).toNat % 16]

/-- The lowest key that is down. -/
def firstKey (m : Machine) : Option Digit :=
  (List.finRange 16).find? fun key => m.keypad[key]

/-- The columns of the lit pixels in a sprite row, from the left. -/
def litColumns (data : UInt8) : List Nat :=
  (List.range 8).filter fun column => data.toNat.testBit (7 - column)

/-- The registers from `0` to `x`. -/
def upTo (x : Digit) : List Digit :=
  (List.finRange 16).filter (· ≤ x)

/-- Prints the trace line when tracing. -/
def traced (m : Machine) (instruction : String) : Machine :=
  if m.trace then m.output instruction else m

end Machine

namespace MachineM

/-! ### Sprites -/

/-- Toggles the lit pixels of one sprite row; `hit` grows if a lit pixel of the screen goes out. -/
def drawRow (data : UInt8) (left top : Int) (hit : Bool) : FramebufferM Bool :=
  (Machine.litColumns data).foldlM (fun hit (column : Nat) => do
    let erased ← FramebufferM.xorPixel (left + column) top
    return hit || erased) hit

/-- Draws the rows of a sprite kept at the index register; the answer tells whether a lit pixel
went out. Both axes wrap for every pixel. -/
def drawSprite (left top : Int) (height : Nat) : MachineM Bool :=
  (List.range height).foldlM (fun hit (row : Nat) => do
    let m ← get
    let data ← ofExcept (m.ram.read (wrapAddress (m.index + row)))
    onScreen (drawRow data left (top + row) hit)) false

/-! ### Blocks of registers -/

/-- Writes register `k` to its place behind the index register. -/
def saveRegister (k : Digit) : MachineM Unit := do
  let m ← get
  onRam (RamM.write (wrapAddress (m.index + k.val)) (m.reg k).toNat)

def saveRegisters (x : Digit) : MachineM Unit := forM (Machine.upTo x) saveRegister

/-- Reads register `k` from its place behind the index register. -/
def restoreRegister (k : Digit) : MachineM Unit := do
  let m ← get
  let value ← ofExcept (m.ram.read (wrapAddress (m.index + k.val)))
  set (m.setReg k value)

def restoreRegisters (x : Digit) : MachineM Unit := forM (Machine.upTo x) restoreRegister

/-- Writes the three decimal digits of a byte from the index register on. -/
def storeDecimal (value : Nat) : MachineM Unit := do
  let m ← get
  onRam (RamM.write (wrapAddress m.index) (value / 100 : Nat))
  onRam (RamM.write (wrapAddress (m.index + 1)) (value / 10 % 10 : Nat))
  onRam (RamM.write (wrapAddress (m.index + 2)) (value % 10 : Nat))

/-! ### Instructions -/

variable {α : Type}

/-- Halts while `instruction` is being run. -/
def halt (instruction reason : String) : MachineM α := do
  let m ← get
  throw (.halted (m.haltReport instruction reason))

/-- Halts at an instruction that the stack has no place for. -/
def refuse (instruction : Instruction) (fault : Fault) : MachineM α := do
  let m ← get
  halt instruction.mnemonic (fault.message ++ " at address " ++ m.originText ++ ".")

/-- Register `x` takes an integer, which has to be a byte. -/
def loadReg (x : Digit) (value : Int) : MachineM Unit :=
  if 0 ≤ value ∧ value < 256 then modify fun m => m.setReg x (UInt8.ofNat value.toNat)
  else throw .notAByte

/-- What an instruction does. The flag is written before the result, so where both go to the same
register the result stays. -/
def execute (instruction : Instruction) : MachineM Unit := do
  let m ← get
  match instruction with
  | .cls => onScreen FramebufferM.clear
  | .ret =>
      let pc ← tryCatch (onStack StackM.pop) (refuse instruction)
      modify fun m => { m with pc }
  | .jp addr => set { m with pc := addr }
  | .call addr =>
      tryCatch (onStack (StackM.push m.pc)) (refuse instruction)
      modify fun m => { m with pc := addr }
  | .seByte x byte => set (m.skipIf (m.reg x == byte))
  | .sneByte x byte => set (m.skipIf (m.reg x != byte))
  | .se x y => set (m.skipIf (m.reg x == m.reg y))
  | .sne x y => set (m.skipIf (m.reg x != m.reg y))
  | .ldByte x byte => set (m.setReg x byte)
  | .addByte x byte => set (m.setReg x (m.reg x + byte))
  | .ld x y => set (m.setReg x (m.reg y))
  | .or x y => set (m.setReg x (m.reg x ||| m.reg y))
  | .and x y => set (m.setReg x (m.reg x &&& m.reg y))
  | .xor x y => set (m.setReg x (m.reg x ^^^ m.reg y))
  | .add x y =>
      set ((m.setFlag (255 < (m.reg x).toNat + (m.reg y).toNat)).setReg x (m.reg x + m.reg y))
  | .sub x y => set ((m.setFlag (m.reg y ≤ m.reg x)).setReg x (m.reg x - m.reg y))
  | .subn x y => set ((m.setFlag (m.reg x ≤ m.reg y)).setReg x (m.reg y - m.reg x))
  | .shr x => set ((m.setFlag ((m.reg x).toNat.testBit 0)).setReg x (m.reg x >>> 1))
  | .shl x => set ((m.setFlag ((m.reg x).toNat.testBit 7)).setReg x (m.reg x <<< 1))
  | .ldIndex addr => set { m with index := addr }
  | .rnd x byte =>
      let (drawn, random) := m.random.draw 0 0xFF
      set ({ m with random }.setReg x (UInt8.ofNat drawn.toNat &&& byte))
  | .drw x y height =>
      let hit ← drawSprite (m.reg x).toNat (m.reg y).toNat height
      modify fun m => m.setFlag hit
  | .skp x => set (m.skipIf (m.keyHeld x))
  | .sknp x => set (m.skipIf (!m.keyHeld x))
  | .readDelay x => loadReg x m.delay
  | .waitKey x =>
      match m.firstKey with
      | some key => set (m.setReg x (UInt8.ofNat key.val))
      | none => set m.rewind
  | .setDelay x => set { m with delay := (m.reg x).toNat }
  | .setSound x => set { m with sound := (m.reg x).toNat }
  | .addIndex x => set { m with index := (m.index + (m.reg x).toNat) % 0x10000 }
  | .glyph x => set { m with index := fontStart + glyphSize * ((m.reg x).toNat % 16 : Nat) }
  | .bcd x => storeDecimal (m.reg x).toNat
  | .save x => saveRegisters x
  | .restore x => restoreRegisters x

/-- A word that is no instruction is reported; a strict machine then halts, another goes on. -/
def unsupported : MachineM Unit := do
  modify fun m => m.traced Instruction.unknownText
  modify fun m => m.report m.unsupportedText
  let m ← get
  if m.strict then halt Instruction.unknownText m.unsupportedText

/-- Runs the current word. -/
def runWord : MachineM Unit := do
  let m ← get
  match Decoding.decode m.word with
  | none => unsupported
  | some instruction =>
      modify fun m => m.traced instruction.mnemonic
      execute instruction

/-- Fetches and runs one instruction. The program counter moves on before the instruction runs, so
jumps are absolute. -/
def step : MachineM Unit := do
  modify fun m => { m with origin := m.pc }
  let m ← get
  let word ← ofExcept m.fetch
  modify fun m => { m with word }
  modify Machine.advance
  runWord

/-- What a computation leaves behind. -/
def outcome (computation : MachineM Unit) (m : Machine) : Outcome :=
  match computation.run m with
  | .ok _ m => ⟨m, none⟩
  | .error fault m => ⟨m, some fault⟩

end MachineM

namespace Machine

def unsupported (m : Machine) : Outcome := MachineM.unsupported.outcome m

def run (m : Machine) : Outcome := MachineM.runWord.outcome m

def step (m : Machine) : Outcome := MachineM.step.outcome m

variable {m : Machine}

theorem run_eq_unsupported (missing : Decoding.decode m.word = none) : m.run = m.unsupported := by
  have ran : MachineM.runWord.run m = MachineM.unsupported.run m := by
    simp only [MachineM.runWord, EStateM.run_bind, EStateM.run_get, missing]
  rw [run, unsupported, MachineM.outcome, ran, MachineM.outcome]

/-- The current word is traced before it is run. -/
theorem run_eq_execute {i : Instruction} (decoded : Decoding.decode m.word = some i) :
    m.run = (MachineM.execute i).outcome (m.traced i.mnemonic) := by
  have ran : MachineM.runWord.run m = (MachineM.execute i).run (m.traced i.mnemonic) := by
    simp only [MachineM.runWord, EStateM.run_bind, EStateM.run_get, decoded, EStateM.run_modify]
  rw [run, MachineM.outcome, ran, MachineM.outcome]

end Machine

end Chip8
