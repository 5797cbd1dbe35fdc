/-!
Text that stays on one line.
-/

namespace Chip8.Text

def OneLine (text : String) : Prop := '\n' ∉ text.toList

instance (text : String) : Decidable (OneLine text) := by
  unfold OneLine; infer_instance

theorem oneLine_append {a b : String} : OneLine (a ++ b) ↔ OneLine a ∧ OneLine b := by
  simp [OneLine, String.toList_append]

theorem oneLine_ofList {chars : List Char} : OneLine (String.ofList chars) ↔ '\n' ∉ chars := by
  rw [OneLine, String.toList_ofList]

end Chip8.Text
