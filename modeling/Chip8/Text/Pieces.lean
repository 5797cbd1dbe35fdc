/-!
Cutting text at a separator.
-/

namespace Chip8.Text

/-- The pieces between separators, at least one; two separators in a row have an empty piece
between them. -/
def pieces (separator : Char) : List Char → List (List Char)
  | [] => [[]]
  | c :: rest =>
      if c = separator then [] :: pieces separator rest
      else match pieces separator rest with
        | [] => [[c]]
        | piece :: others => (c :: piece) :: others

theorem pieces_ne_nil (separator : Char) (text : List Char) : pieces separator text ≠ [] := by
  cases text with
  | nil => simp [pieces]
  | cons c rest =>
      rw [pieces]
      split
      · simp
      · split <;> simp

end Chip8.Text
