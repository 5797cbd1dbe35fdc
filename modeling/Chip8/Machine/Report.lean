import Chip8.Machine
import Chip8.Text.Hex

/-!
What the machine tells about itself: a line before each instruction when tracing, a full dump when
it is halted, and a line for each word that is no instruction.
-/

namespace Chip8.Machine

private def field (name : String) (width : Nat) (n : Int) : String :=
  name ++ ": 0x" ++ Hex.padded width n ++ " "

/-- One line: where the word came from, the word, the first four registers and `instruction`. -/
def traceLine (m : Machine) (instruction : String) : String :=
  field "PC" 3 m.origin ++ field "OP" 4 m.word
    ++ "V0-V3: 0x" ++ Hex.byte m.registers[0] ++ " 0x" ++ Hex.byte m.registers[1]
    ++ " 0x" ++ Hex.byte m.registers[2] ++ " 0x" ++ Hex.byte m.registers[3]
    ++ " IN: " ++ instruction

/-- The trace line, piece by piece. -/
theorem traceLine_eq (m : Machine) (instruction : String) :
    m.traceLine instruction =
      "PC: 0x" ++ Hex.padded 3 m.origin ++ " OP: 0x" ++ Hex.padded 4 m.word
        ++ " V0-V3: 0x" ++ Hex.byte m.registers[0] ++ " 0x" ++ Hex.byte m.registers[1]
        ++ " 0x" ++ Hex.byte m.registers[2] ++ " 0x" ++ Hex.byte m.registers[3]
        ++ " IN: " ++ instruction := by
  have origin : "PC: 0x" = "PC" ++ ": 0x" := rfl
  have word : " OP: 0x" = " " ++ ("OP" ++ ": 0x") := rfl
  have registers : " V0-V3: 0x" = " " ++ "V0-V3: 0x" := rfl
  simp only [traceLine, field, origin, word, registers, String.append_assoc]

theorem oneLine_traceLine (m : Machine) {instruction : String} (shown : Text.OneLine instruction) :
    Text.OneLine (m.traceLine instruction) := by
  simp only [traceLine_eq, Text.oneLine_append, Hex.oneLine_padded, Hex.oneLine_byte, shown, and_true]
  decide

/-- All registers from the last to the first, the other registers and `instruction`. -/
def dump (m : Machine) (instruction : String) : String :=
  "V: 0x" ++ Hex.bytes m.registers.toList.reverse ++ " "
    ++ field "I" 4 m.index ++ field "DT" 2 m.delay ++ field "ST" 2 m.sound
    ++ field "PC" 3 m.origin ++ field "OP" 4 m.word ++ "IN: " ++ instruction

/-- The dump, piece by piece. -/
theorem dump_eq (m : Machine) (instruction : String) :
    m.dump instruction =
      "V: 0x" ++ Hex.bytes m.registers.toList.reverse ++ " I: 0x" ++ Hex.padded 4 m.index
        ++ " DT: 0x" ++ Hex.padded 2 m.delay ++ " ST: 0x" ++ Hex.padded 2 m.sound
        ++ " PC: 0x" ++ Hex.padded 3 m.origin ++ " OP: 0x" ++ Hex.padded 4 m.word
        ++ " IN: " ++ instruction := by
  have index : " I: 0x" = " " ++ ("I" ++ ": 0x") := rfl
  have delay : " DT: 0x" = " " ++ ("DT" ++ ": 0x") := rfl
  have sound : " ST: 0x" = " " ++ ("ST" ++ ": 0x") := rfl
  have origin : " PC: 0x" = " " ++ ("PC" ++ ": 0x") := rfl
  have word : " OP: 0x" = " " ++ ("OP" ++ ": 0x") := rfl
  have shown : " IN: " = " " ++ "IN: " := rfl
  simp only [dump, field, index, delay, sound, origin, word, shown, String.append_assoc]

/-- The stack entries, oldest first. -/
def stackLine (m : Machine) : String :=
  match m.stack.items with
  | [] => "Stack: (Empty)"
  | items => "Stack:" ++ String.join (items.map fun item => " 0x" ++ Hex.padded 3 item)

def dumpWithStack (m : Machine) (instruction : String) : String :=
  m.dump instruction ++ "\n" ++ m.stackLine

/-- The text of a halt while `instruction` was being run. -/
def haltReport (m : Machine) (instruction reason : String) : String :=
  "Emulation halted.\n\n" ++ appIntro ++ "Debug info:\n" ++ m.dumpWithStack instruction
    ++ "\n\n" ++ reason

/-- The text of a halt, piece by piece. -/
theorem haltReport_eq (m : Machine) (instruction reason : String) :
    m.haltReport instruction reason =
      "Emulation halted.\n\n" ++ appIntro
        ++ "Debug info:\nV: 0x" ++ Hex.bytes m.registers.toList.reverse
        ++ " I: 0x" ++ Hex.padded 4 m.index ++ " DT: 0x" ++ Hex.padded 2 m.delay
        ++ " ST: 0x" ++ Hex.padded 2 m.sound ++ " PC: 0x" ++ Hex.padded 3 m.origin
        ++ " OP: 0x" ++ Hex.padded 4 m.word ++ " IN: " ++ instruction
        ++ "\nStack:" ++ (if m.stack.items = [] then " (Empty)"
          else String.join (m.stack.items.map fun item => " 0x" ++ Hex.padded 3 item))
        ++ "\n\n" ++ reason := by
  have stack : m.stackLine = "Stack:" ++ (if m.stack.items = [] then " (Empty)"
      else String.join (m.stack.items.map fun item => " 0x" ++ Hex.padded 3 item)) := by
    unfold stackLine
    split
    · next none =>
        rw [none, if_pos rfl]
        rfl
    · next some => rw [if_neg some]
  have registers : "Debug info:\nV: 0x" = "Debug info:\n" ++ "V: 0x" := rfl
  have line : "\nStack:" = "\n" ++ "Stack:" := rfl
  unfold haltReport
  simp only [dumpWithStack, dump_eq, stack, registers, line, String.append_assoc]

/-- The address of the current word, as messages show it. -/
def originText (m : Machine) : String := "0x" ++ Hex.padded 3 m.origin

def unsupportedText (m : Machine) : String :=
  "Opcode 0x" ++ Hex.padded 4 m.word ++ " at address " ++ m.originText ++ " is not emulated."

/-- Prints the trace line of `instruction`. -/
def output (m : Machine) (instruction : String) : Machine :=
  { m with console := m.console.print (m.traceLine instruction) }

/-- Writes a line to standard error. -/
def report (m : Machine) (line : String) : Machine :=
  { m with console := m.console.report line }

end Chip8.Machine
