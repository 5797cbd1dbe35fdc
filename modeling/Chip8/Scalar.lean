import Chip8.Fault

/-!
The numbers in which times and frequencies are reckoned.

What the emulator computes with them is written once, over any type with the operations of
`Scalar`. It runs on doubles. Over the rationals the same definitions have no rounding, and that is
where their laws are stated.
-/

namespace Chip8

class Scalar (τ : Type) extends Add τ, Mul τ, Div τ where
  /-- The number nearest to an integer. -/
  ofInt : Int → Except Fault τ
  /-- A small constant. -/
  ofNat : Nat → τ
  isZero : τ → Bool
  less : τ → τ → Bool
  atMost : τ → τ → Bool
  /-- The integer that is left when the part behind the point is dropped. -/
  truncate : τ → Except Fault Int
  /-- The remainder of a number that is not negative by eight. -/
  modEight : τ → τ

/-! ### Doubles -/

namespace Binary64

/-- The bits behind the binary point. -/
def fraction (x : Float) : Nat := x.toBits.toNat % (1 <<< 52)

def exponent (x : Float) : Nat := (x.toBits.toNat >>> 52) % 0x800

def isNegative (x : Float) : Bool := (1 <<< 63) ≤ x.toBits.toNat

/-- The magnitude, cut down to an integer: `mantissa * 2 ^ (exponent - 1075)` without the part
behind the point. Numbers too small to have the leading bit are below one. -/
def magnitude (x : Float) : Nat :=
  let mantissa := fraction x + (1 <<< 52)
  if exponent x < 1023 then 0
  else if exponent x < 1075 then mantissa >>> (1075 - exponent x)
  else mantissa <<< (exponent x - 1075)

def truncate (x : Float) : Except Fault Int :=
  if exponent x = 0x7FF then
    .error (if fraction x = 0 then .infiniteNumber else .notANumber)
  else .ok (if isNegative x then -(magnitude x : Int) else magnitude x)

/-- Integers from half a unit above the largest double on have no nearest double. -/
def overflow : Nat := (1 <<< 1024) - (1 <<< 970)

def ofInt (n : Int) : Except Fault Float :=
  if overflow ≤ n.natAbs then .error .numberTooLarge else .ok (Float.ofInt n)

/-- Dividing by eight, rounding down, multiplying back and subtracting are exact here. -/
def modEight (x : Float) : Float := x - 8.0 * (x / 8.0).floor

end Binary64

instance : Scalar Float where
  ofInt := Binary64.ofInt
  ofNat := Float.ofNat
  isZero x := x == 0.0
  less x y := x < y
  atMost x y := x ≤ y
  truncate := Binary64.truncate
  modEight := Binary64.modEight

/-! ### Rationals -/

instance : Scalar Rat where
  ofInt n := .ok n
  ofNat n := n
  isZero x := x == 0
  less x y := x < y
  atMost x y := x ≤ y
  truncate x := .ok (if x < 0 then -(-x).floor else x.floor)
  modEight x := x - 8 * (x / 8).floor

end Chip8
