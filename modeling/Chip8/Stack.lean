import Chip8.FaultM

/-!
The call stack: return addresses, kept apart from memory. It neither wraps nor clamps: a call with
a full stack and a return with an empty one fail and leave it as it was.
-/

namespace Chip8

structure Stack where
  /-- The newest entry comes first. -/
  entries : List Int
  capacity : Int

/-- A computation on a stack. -/
abbrev StackM := FaultM Stack

namespace StackM

def push (item : Int) : StackM Unit := do
  let stack ← get
  if stack.capacity ≤ stack.entries.length then throw .stackOverflow
  set { stack with entries := item :: stack.entries }

def pop : StackM Int := do
  let stack ← get
  match stack.entries with
  | [] => throw .stackUnderflow
  | item :: rest =>
      set { stack with entries := rest }
      return item

/-- A push that fails has changed nothing. -/
theorem run_push (item : Int) (stack : Stack) :
    (push item).run stack =
      if stack.capacity ≤ stack.entries.length then .error .stackOverflow stack
      else .ok () { stack with entries := item :: stack.entries } := by
  simp only [push, EStateM.run_bind, EStateM.run_get]
  split <;> rfl

/-- A pop that fails has changed nothing. -/
theorem run_pop (stack : Stack) :
    pop.run stack = match stack.entries with
      | [] => .error .stackUnderflow stack
      | item :: rest => .ok item { stack with entries := rest } := by
  simp only [pop, EStateM.run_bind, EStateM.run_get]
  split <;> rfl

end StackM

namespace Stack

def empty (capacity : Int) : Stack := { entries := [], capacity }

def push (stack : Stack) (item : Int) : Except Fault Stack := (StackM.push item).final stack

def pop (stack : Stack) : Except Fault (Int × Stack) := StackM.pop.result stack

/-- The number of entries held. -/
def pointer (stack : Stack) : Nat := stack.entries.length

/-- The entries, oldest first. -/
def items (stack : Stack) : List Int := stack.entries.reverse

@[simp] theorem items_empty (capacity : Int) : (empty capacity).items = [] := rfl

theorem push_eq (stack : Stack) (item : Int) :
    stack.push item =
      if stack.capacity ≤ stack.entries.length then .error .stackOverflow
      else .ok { stack with entries := item :: stack.entries } := by
  by_cases full : stack.capacity ≤ stack.entries.length <;>
    simp [push, FaultM.final, StackM.run_push, full]

theorem pop_eq (stack : Stack) :
    stack.pop = match stack.entries with
      | [] => .error .stackUnderflow
      | item :: rest => .ok (item, { stack with entries := rest }) := by
  rw [pop, FaultM.result, StackM.run_pop]
  cases stack.entries <;> rfl

/-- A push succeeds below the capacity, and the new entry is the last. -/
theorem items_push {stack after : Stack} {item : Int} (pushed : stack.push item = .ok after) :
    after.items = stack.items ++ [item] := by
  rw [push_eq] at pushed
  split at pushed
  · cases pushed
  · cases pushed
    simp [items]

/-- A pop undoes a push. -/
theorem pop_push {stack after : Stack} {item : Int} (pushed : stack.push item = .ok after) :
    after.pop = .ok (item, stack) := by
  rw [push_eq] at pushed
  split at pushed
  · cases pushed
  · cases pushed
    rw [pop_eq]

end Stack

end Chip8
