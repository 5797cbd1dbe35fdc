import Chip8.Bytes
import Chip8.Scalar

/-!
The tone of the buzzer: a pattern of bits, played back at a given number of bits per second, is
stretched into samples of one byte each, all on or all off.
-/

namespace Chip8.Waveform

variable {τ : Type} [Scalar τ]

/-- Samples per second. -/
def playbackFrequency : Nat := 44100

/-- Eight cycles of a square wave. -/
def defaultPattern : List UInt8 :=
  [0x00, 0xFF, 0x00, 0xFF, 0x00, 0xFF, 0x00, 0xFF,
   0x00, 0xFF, 0x00, 0xFF, 0x00, 0xFF, 0x00, 0xFF]

def defaultPatternFrequency : Nat := 4000

/-- The sample at `position`: the bit of the pattern that it falls into, the most significant bit
of each byte first. -/
def sample (pattern : Array UInt8) (stretch : τ) (position : Nat) : Except Fault UInt8 := do
  let bitPosition := (← Scalar.ofInt position) / stretch
  let index ← Scalar.truncate (bitPosition / Scalar.ofNat 8)
  let bit ← Scalar.truncate (Scalar.modEight bitPosition)
  match pattern[index.toNat]? with
  | some byte => return if byte.toNat.testBit (7 - bit).toNat then 0xFF else 0x00
  | none => .error .outOfRange

/-- All samples of a pattern that is played at `frequency` bits per second. -/
def resample (pattern : Array UInt8) (frequency : τ) : Except Fault (List UInt8) := do
  if Scalar.isZero frequency then .error .divisionByZero
  let stretch : τ := Scalar.ofNat playbackFrequency / frequency
  let size ← Scalar.truncate ((← Scalar.ofInt (pattern.size * 8)) * stretch)
  (List.range (← Bytes.length size)).mapM (sample pattern stretch)

end Chip8.Waveform
