/-!
Where random bytes come from: an endless sequence of integers and a mark of how far it was used.
-/

namespace Chip8

structure RandomSource where
  value : Nat → Int
  drawn : Nat := 0

namespace RandomSource

/-- The next number from `low` to `high`. -/
def draw (source : RandomSource) (low high : Int) : Int × RandomSource :=
  (low + source.value source.drawn % (high - low + 1), { source with drawn := source.drawn + 1 })

/-- The values of a list over and over; zeros if it is empty. -/
def cycle (values : Array Int) : RandomSource where
  value k := values.getD (k % values.size) 0

theorem draw_nonneg (source : RandomSource) : 0 ≤ (source.draw 0 0xFF).1 := by
  simp only [draw]
  omega

theorem draw_lt (source : RandomSource) : (source.draw 0 0xFF).1 < 256 := by
  simp only [draw]
  omega

end RandomSource

end Chip8
