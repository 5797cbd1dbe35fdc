import Chip8.Proofs.Operation

/-!
Runs, as whoever drives a machine sees them: what each operation answers (`replies`), and which words
the steps among them fetch (`steps`).
-/

namespace Chip8

/-- What an operation tells whoever drives the machine. -/
structure Reply where
  /-- Whether the buzzer sounds; only ticks tell. -/
  buzzer : Option Bool := none
  fault : Option Fault := none

namespace Machine

def reply (m : Machine) (operation : Operation) : Reply where
  buzzer := match operation with
    | .tick => some m.advanceTimers.1
    | _ => none
  fault := (m.perform operation).fault

/-- What each of the operations tells, in order. -/
def replies (m : Machine) : List Operation → List Reply
  | [] => []
  | operation :: rest => m.reply operation :: (m.perform operation).machine.replies rest

/-- The steps among the operations, in order: the word that each has fetched and the fault that
stopped it, if one did. -/
def steps (m : Machine) : List Operation → List (Int × Option Fault)
  | [] => []
  | operation :: rest =>
      let later := (m.perform operation).machine.steps rest
      match operation with
      | .step => (m.nextWord, m.step.fault) :: later
      | _ => later

variable {m : Machine} {operation : Operation}

theorem performAll_cons (m : Machine) (operation : Operation) (rest : List Operation) :
    m.performAll (operation :: rest) = (m.perform operation).machine.performAll rest := rfl

theorem steps_cons_step (m : Machine) (rest : List Operation) :
    m.steps (.step :: rest) = (m.nextWord, m.step.fault) :: m.step.machine.steps rest := rfl

theorem steps_cons_of_ne (notStep : operation ≠ .step) (rest : List Operation) :
    m.steps (operation :: rest) = (m.perform operation).machine.steps rest := by
  cases operation with
  | step => exact absurd rfl notStep
  | _ => rfl

end Machine

end Chip8
