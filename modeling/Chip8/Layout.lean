/-!
The fixed facts of the machine: how large its memory, stack, keypad and screen are, where programs
and the built-in font live, and how the emulator names itself.
-/

namespace Chip8

/-! ### Identification -/

def appName : String := "TinyChip Emulator"

def appVersion : String := "1.0.0"

def appCopyright : String :=
  "Copyright (C) 2022 Gregory Maynard-Hoare, licensed under GNU Affero General Public License v3.0"

/-- Opens both the start banner and a crash report. -/
def appIntro : String := appName ++ " V" ++ appVersion ++ " -- "

def banner : String := appIntro ++ appCopyright

/-! ### Memory -/

def memorySize : Int := 0x1000

/-- The last address; every computed address is taken modulo `memorySize`. -/
def addressMask : Int := memorySize - 1

/-- Everything below is reserved for the interpreter. -/
def programStart : Int := 0x200

def fontStart : Int := 0x50

def glyphSize : Int := 5

/-- Memory wraps around: an address keeps its low twelve bits. -/
def wrapAddress (address : Int) : Int := address % memorySize

theorem wrapAddress_nonneg (a : Int) : 0 ≤ wrapAddress a :=
  Int.emod_nonneg a (by decide)

theorem wrapAddress_lt (a : Int) : wrapAddress a < memorySize :=
  Int.emod_lt_of_pos a (by decide)

/-! ### Stack, registers, keypad and screen -/

def stackSize : Int := 16

def registerCount : Nat := 16

def keyCount : Nat := 16

def screenWidth : Int := 64

def screenHeight : Int := 32

/-- A register or a keypad slot, named by one hexadecimal digit. -/
abbrev Digit := Fin 16

namespace Digit

theorem below (digit : Digit) : digit.val < 16 := digit.isLt

/-- The last digit of a number. -/
def ofNat (n : Nat) : Digit := Fin.ofNat 16 n

theorem get_set {α : Type} (values : Vector α 16) (other digit : Digit) (value : α) :
    (values.set other.val value other.below).get digit =
      if other = digit then value else values.get digit := by
  change (values.set other.val value other.below)[digit.val] =
    if other = digit then value else values[digit.val]
  rw [Vector.getElem_set]
  simp only [Fin.val_inj]

end Digit

/-- The last register doubles as the flag. -/
def flagRegister : Digit := Digit.ofNat 0xF

/-! ### Font -/

/-- Sixteen hexadecimal digits of five rows each; a row is four pixels, left-aligned in its byte. -/
def systemFont : List UInt8 := [
  0xF0, 0x90, 0x90, 0x90, 0xF0,  -- 0
  0x20, 0x60, 0x20, 0x20, 0x70,  -- 1
  0xF0, 0x10, 0xF0, 0x80, 0xF0,  -- 2
  0xF0, 0x10, 0xF0, 0x10, 0xF0,  -- 3
  0x90, 0x90, 0xF0, 0x10, 0x10,  -- 4
  0xF0, 0x80, 0xF0, 0x10, 0xF0,  -- 5
  0xF0, 0x80, 0xF0, 0x90, 0xF0,  -- 6
  0xF0, 0x10, 0x20, 0x40, 0x40,  -- 7
  0xF0, 0x90, 0xF0, 0x90, 0xF0,  -- 8
  0xF0, 0x90, 0xF0, 0x10, 0xF0,  -- 9
  0xF0, 0x90, 0xF0, 0x90, 0x90,  -- A
  0xE0, 0x90, 0xE0, 0x90, 0xE0,  -- B
  0xF0, 0x80, 0x80, 0x80, 0xF0,  -- C
  0xE0, 0x90, 0x90, 0x90, 0xE0,  -- D
  0xF0, 0x80, 0xF0, 0x80, 0xF0,  -- E
  0xF0, 0x80, 0xF0, 0x80, 0x80]  -- F

/-! ### Speed -/

/-- Instructions per second when none is asked for. -/
def defaultClockSpeed : Int := 700

/-- The delay and sound timers count down this often per second. -/
def timerFrequency : Nat := 60

/-- The display is refreshed and the inputs are polled this often per second. -/
def displayFrequency : Nat := 60

end Chip8
