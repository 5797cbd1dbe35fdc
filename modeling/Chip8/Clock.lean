/-!
A clock that is read a bounded number of times. What each reading shows is settled beforehand, and
nothing is known about it: readings may stall, jump or go back.
-/

namespace Chip8

structure Clock (τ : Type) where
  reading : Nat → τ
  /-- How often the clock has been read. -/
  reads : Nat := 0
  /-- How often it can still be read. -/
  remaining : Nat

namespace Clock

variable {τ : Type}

def read (clock : Clock τ) : Option (τ × Clock τ) :=
  match clock.remaining with
  | 0 => none
  | n + 1 => some (clock.reading clock.reads,
      { clock with reads := clock.reads + 1, remaining := n })

end Clock

end Chip8
