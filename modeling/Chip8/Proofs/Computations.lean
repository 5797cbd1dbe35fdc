import Chip8.Host.Run
import Chip8.Proofs.Stage

/-!
Computations on a host, and the host that each of them leaves behind, whether it ends well or breaks
off.
-/

namespace Chip8.Host

variable {τ α β : Type}

/-- The host that a computation leaves behind, however it ends. -/
def after (computation : HostM τ α) (h : Host τ) : Host τ :=
  match computation.run h with
  | .ok _ h => h
  | .error _ h => h

theorem after_of_ok {computation : HostM τ α} {h h' : Host τ} {a : α}
    (ends : computation.run h = .ok a h') : after computation h = h' := by
  rw [after, ends]

/-- What follows is left out if the first computation breaks off. -/
theorem after_bind (first : HostM τ α) (next : α → HostM τ β) (h : Host τ) :
    after (first >>= next) h = match first.run h with
      | .ok a h => after (next a) h
      | .error _ h => h := by
  rw [after, EStateM.run_bind]
  cases first.run h <;> rfl

theorem after_bind_of_ok {first : HostM τ α} {next : α → HostM τ β} {h between : Host τ} {a : α}
    (ends : first.run h = .ok a between) : after (first >>= next) h = after (next a) between := by
  rw [after_bind, ends]

/-- An answer says that the computation ended well. -/
theorem run_of_run' {computation : HostM τ α} {h : Host τ} {a : α}
    (answers : computation.run' h = some a) : computation.run h = .ok a (after computation h) := by
  delta EStateM.run' at answers
  rw [after]
  cases ends : computation.run h with
  | ok a' h' =>
      rw [ends] at answers
      cases answers
      rfl
  | error stop h' =>
      rw [ends] at answers
      cases answers

theorem after_get_bind (next : Host τ → HostM τ α) (h : Host τ) :
    after (get >>= next) h = after (next h) h := rfl

theorem after_set_bind (next : PUnit → HostM τ α) (h h' : Host τ) :
    after (set h' >>= next) h = after (next ⟨⟩) h' := rfl

theorem after_modify_bind (next : PUnit → HostM τ α) (f : Host τ → Host τ) (h : Host τ) :
    after (modify f >>= next) h = after (next ⟨⟩) (f h) := rfl

/-! ### The machine of a host -/

theorem run_onMachine [Scalar τ] (computation : MachineM α) (h : Host τ) :
    (onMachine computation).run h = match computation.run h.machine with
      | .ok a machine => .ok a { h with machine }
      | .error fault machine => .error (.fault fault) { h with machine } := rfl

/-- Keys that are refused leave the host as it was. -/
theorem run_setKeys [Scalar τ] (states : List Bool) (h : Host τ) :
    (onMachine (MachineM.setKeys states)).run h = match h.machine.setKeys states with
      | .ok machine => .ok () { h with machine }
      | .error fault => .error (.fault fault) h := by
  rw [run_onMachine, Machine.setKeys, FaultM.final, Machine.run_setKeys]
  by_cases fits : states.length = 16 <;> simp only [fits, dite_true, dite_false]

/-- A step that fails leaves to the host what it has made of the machine by then. -/
theorem run_step [Scalar τ] (h : Host τ) :
    (onMachine MachineM.step).run h = match h.machine.step.fault with
      | none => .ok () { h with machine := h.machine.step.machine }
      | some fault => .error (.fault fault) { h with machine := h.machine.step.machine } := by
  rw [run_onMachine, Machine.step, MachineM.outcome]
  cases MachineM.step.run h.machine <;> rfl

/-- A host on a stage that hears nothing, never waits and notes every call down. -/
def idle (s : Stage) (readings : Nat) : Host Rat where
  machine := s.machine
  display := s.display
  inputs := .silent
  sound := { kind := .silent }
  interval := none
  nextDisplay := 0
  nextTimer := 0
  nextReport := 0
  clock := { reading := fun k => k, remaining := readings }
  timeOfDay := 0
  notes := fun _ => true

end Chip8.Host
