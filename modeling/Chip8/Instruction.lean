import Chip8.Layout
import Chip8.Text.Hex

/-!
The instructions, the operands a word holds for them, and their assembly text.
-/

namespace Chip8

/-! ### Operands

Every operand has a fixed place in the word. The fields of a word that is negative or wider than
sixteen bits are those of its low sixteen bits. -/

namespace Word

/-- The digit that counts `weight`, a power of sixteen. -/
def digit (word weight : Int) : Digit :=
  ⟨(word / weight % 16).toNat, by omega⟩

/-- The digit that tells the instruction families apart. -/
def family (word : Int) : Digit := digit word 0x1000

def x (word : Int) : Digit := digit word 0x100

def y (word : Int) : Digit := digit word 0x10

def nibble (word : Int) : Nat := (digit word 1).val

def address (word : Int) : Int := word % 0x1000

def byte (word : Int) : UInt8 := UInt8.ofNat (word % 0x100).toNat

/-- The bits of `mask` in a word; `mask` has at most sixteen. -/
def masked (word : Int) (mask : Nat) : Int := Int.ofNat ((word % 0x10000).toNat &&& mask)

end Word

inductive Instruction where
  /-- Clear the screen. -/
  | cls
  /-- Return from a subroutine. -/
  | ret
  | jp (addr : Int)
  | call (addr : Int)
  /-- Skip the next instruction if a register holds a byte. -/
  | seByte (x : Digit) (byte : UInt8)
  | sneByte (x : Digit) (byte : UInt8)
  | se (x y : Digit)
  | ldByte (x : Digit) (byte : UInt8)
  | addByte (x : Digit) (byte : UInt8)
  | ld (x y : Digit)
  | or (x y : Digit)
  | and (x y : Digit)
  | xor (x y : Digit)
  | add (x y : Digit)
  | sub (x y : Digit)
  | shr (x : Digit)
  | subn (x y : Digit)
  | shl (x : Digit)
  | sne (x y : Digit)
  | ldIndex (addr : Int)
  | rnd (x : Digit) (byte : UInt8)
  /-- Draw a sprite of `height` rows. -/
  | drw (x y : Digit) (height : Nat)
  /-- Skip the next instruction if a key is down. -/
  | skp (x : Digit)
  | sknp (x : Digit)
  | readDelay (x : Digit)
  /-- Wait for a key. -/
  | waitKey (x : Digit)
  | setDelay (x : Digit)
  | setSound (x : Digit)
  | addIndex (x : Digit)
  /-- Point the index register at the glyph of a digit. -/
  | glyph (x : Digit)
  /-- Store three decimal digits. -/
  | bcd (x : Digit)
  /-- Store the registers up to `x` in memory. -/
  | save (x : Digit)
  | restore (x : Digit)
  deriving DecidableEq, Repr

namespace Instruction

private def reg (d : Digit) : String := "V" ++ Hex.digit d

private def imm (b : UInt8) : String := "0x" ++ Hex.byte b

private def addr (a : Int) : String := "0x" ++ Hex.padded 3 a

/-- The assembly text, as traces and crash reports show it. -/
def mnemonic : Instruction → String
  | .cls => "CLS"
  | .ret => "RET"
  | .jp a => "JP " ++ addr a
  | .call a => "CALL " ++ addr a
  | .seByte x b => "SE " ++ reg x ++ ", " ++ imm b
  | .sneByte x b => "SNE " ++ reg x ++ ", " ++ imm b
  | .se x y => "SE " ++ reg x ++ ", " ++ reg y
  | .ldByte x b => "LD " ++ reg x ++ ", " ++ imm b
  | .addByte x b => "ADD " ++ reg x ++ ", " ++ imm b
  | .ld x y => "LD " ++ reg x ++ ", " ++ reg y
  | .or x y => "OR " ++ reg x ++ ", " ++ reg y
  | .and x y => "AND " ++ reg x ++ ", " ++ reg y
  | .xor x y => "XOR " ++ reg x ++ ", " ++ reg y
  | .add x y => "ADD " ++ reg x ++ ", " ++ reg y
  | .sub x y => "SUB " ++ reg x ++ ", " ++ reg y
  | .shr x => "SHR " ++ reg x
  | .subn x y => "SUBN " ++ reg x ++ ", " ++ reg y
  | .shl x => "SHL " ++ reg x
  | .sne x y => "SNE " ++ reg x ++ ", " ++ reg y
  | .ldIndex a => "LD I, " ++ addr a
  | .rnd x b => "RND " ++ reg x ++ ", " ++ imm b
  | .drw x y n => "DRW " ++ reg x ++ ", " ++ reg y ++ ", 0x" ++ Hex.padded 1 n
  | .skp x => "SKP " ++ reg x
  | .sknp x => "SKNP " ++ reg x
  | .readDelay x => "LD " ++ reg x ++ ", DT"
  | .waitKey x => "LD " ++ reg x ++ ", K"
  | .setDelay x => "LD DT, " ++ reg x
  | .setSound x => "LD ST, " ++ reg x
  | .addIndex x => "ADD I, " ++ reg x
  | .glyph x => "LD F, " ++ reg x
  | .bcd x => "LD B, " ++ reg x
  | .save x => "LD [I], " ++ reg x
  | .restore x => "LD " ++ reg x ++ ", [I]"

theorem mnemonic_call (a : Int) : (call a).mnemonic = "CALL " ++ ("0x" ++ Hex.padded 3 a) := rfl

/-- What traces and crash reports show for a word that is no instruction. -/
def unknownText : String := "???"

theorem oneLine_mnemonic (i : Instruction) : Text.OneLine i.mnemonic := by
  cases i <;>
    simp only [mnemonic, reg, imm, addr, Text.oneLine_append, Hex.oneLine_digit, Hex.oneLine_byte,
      Hex.oneLine_padded, and_true] <;>
    decide

end Instruction

end Chip8
