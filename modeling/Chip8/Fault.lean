/-!
What can stop an operation of the emulator. Each cause has one constructor and its wording is in
`Fault.message` alone.
-/

namespace Chip8

inductive Fault where
  /-- A write would run past the end of memory. -/
  | memoryOverflow
  | stackOverflow
  | stackUnderflow
  /-- A keypad state that does not have one entry per key. -/
  | keypadSize
  /-- Emulation was halted; the report holds the state of the machine. -/
  | halted (report : String)
  | screenSize
  | scaleNotPositive
  /-- A position outside a sequence, counted from either end. -/
  | outOfRange
  /-- A value that does not fit in a byte. -/
  | notAByte
  /-- A block was assigned to a stretch of another length. -/
  | blockSize
  | negativeSize
  /-- A size beyond what any sequence can have. -/
  | sizeTooLarge
  | outOfMemory
  /-- An integer beyond the range of the numbers that times are kept in. -/
  | numberTooLarge
  | infiniteNumber
  | notANumber
  | divisionByZero
  /-- A number that is reckoned with was struck out. -/
  | blankNumber
  /-- A pixel was drawn on a display that has been shut down. -/
  | displayClosed
  /-- A key code too large to be looked at as a character. -/
  | codeTooLarge
  | notACharacter
  /-- A character whose lowercase form has more than one character. -/
  | longLowercase
  deriving DecidableEq, Repr

def Fault.message : Fault → String
  | .memoryOverflow => "Memory overflow"
  | .stackOverflow => "Stack overflow"
  | .stackUnderflow => "Stack underflow"
  | .keypadSize => "Keypad state must contain exactly 16 keys"
  | .halted report => report
  | .screenSize => "Screen dimensions must be positive"
  | .scaleNotPositive => "Scale must be a positive number."
  | .outOfRange => "position out of range"
  | .notAByte => "value does not fit in a byte"
  | .blockSize => "block and target differ in length"
  | .negativeSize => "negative size"
  | .sizeTooLarge => "size too large"
  | .outOfMemory => "out of memory"
  | .numberTooLarge => "integer too large"
  | .infiniteNumber => "number is infinite"
  | .notANumber => "not a number"
  | .divisionByZero => "division by zero"
  | .blankNumber => "a number is left blank"
  | .displayClosed => "display is closed"
  | .codeTooLarge => "character code too large"
  | .notACharacter => "not a character code"
  | .longLowercase => "lowercase form is longer than one character"

end Chip8
