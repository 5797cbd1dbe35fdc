/-!
What is said about an option that has a default: nothing, a value, or that it has none.

An option can be given with its value struck out. Nothing stands in for such a value, so the default
is not used either.
-/

namespace Chip8

inductive Choice (α : Type) where
  /-- Nothing is said, so the default is used. -/
  | unset
  /-- The option is given, but its value is struck out. -/
  | blank
  | value (a : α)
  deriving DecidableEq, Repr

namespace Choice

def map {α β : Type} (f : α → β) : Choice α → Choice β
  | .unset => .unset
  | .blank => .blank
  | .value a => .value (f a)

/-- The value or the default; none if the value is struck out. -/
def resolve? {α : Type} (default : α) : Choice α → Option α
  | .unset => some default
  | .blank => none
  | .value a => some a

@[simp] theorem resolve?_unset {α : Type} (a : α) : unset.resolve? a = some a := rfl

@[simp] theorem resolve?_blank {α : Type} (a : α) : blank.resolve? a = none := rfl

@[simp] theorem resolve?_value {α : Type} (a b : α) : (value b).resolve? a = some b := rfl

end Choice

end Chip8
