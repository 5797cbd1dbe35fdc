import Chip8.Proofs.Halting
import Chip8.Proofs.Preservation

/-!
Driving a machine: loading programs, setting keys, stepping and ticking, in any order, and going on
after an operation that failed.

Every operation keeps a machine well formed (`perform_wellFormed`), so whatever was done to a fresh
machine before, only three things can still go wrong: a program that is too long, a keypad state of
another size, and a halt.
-/

namespace Chip8

/-! ### Loading -/

namespace Ram

variable {ram : Ram} {size : Nat} {location : Int} {block : List UInt8}

/-- A block that fits replaces as many bytes as it has. -/
theorem writeBlock_eq (sized : ram.Sized size) (nonneg : 0 ≤ location)
    (room : location + block.length ≤ size) :
    ram.writeBlock location block =
      .ok { ram with cells := Bytes.splice ram.cells location.toNat block } := by
  have start : Bytes.cut size location = location.toNat := cut_inside nonneg (by omega)
  have stop : Bytes.cut size (location + block.length) = (location + block.length).toNat :=
    cut_inside (by omega) room
  have length : (location + block.length).toNat - location.toNat = block.length := by omega
  have within : ram.checkOverflow (location + block.length - 1) = .ok () :=
    checkOverflow_eq sized (by omega)
  have assigned : Bytes.assign ram.cells location (location + block.length) block =
      .ok (Bytes.splice ram.cells location.toNat block) := by
    simp only [Bytes.assign, Bytes.fits, sized.cells, start, stop, length, beq_self_eq_true, if_true]
  rw [writeBlock, FaultM.final_eq_ok_iff]
  simp only [RamM.writeBlock, EStateM.run_bind, RamM.run_checkOverflow, within, RamM.run_assign,
    assigned]

/-- The end of a block is looked at before anything is written. -/
theorem run_writeBlock_overflow (sized : ram.Sized size) (long : size < location + block.length) :
    (RamM.writeBlock location block).run ram = .error .memoryOverflow ram := by
  have beyond : ram.checkOverflow (location + block.length - 1) = .error .memoryOverflow :=
    checkOverflow_of_le sized (by omega)
  simp only [RamM.writeBlock, EStateM.run_bind, RamM.run_checkOverflow, beyond]

theorem writeBlock_overflow (sized : ram.Sized size) (long : size < location + block.length) :
    ram.writeBlock location block = .error .memoryOverflow :=
  FaultM.final_of_error (run_writeBlock_overflow sized long)

end Ram

/-- What whoever drives a machine can do to it. -/
inductive Operation where
  | load (program : List UInt8)
  | setKeys (keys : List Bool)
  | step
  /-- Count the timers down. -/
  | tick

namespace Machine

variable {m : Machine}

/-- Each timer counts down to zero by itself, and the buzzer sounds as long as its timer runs. -/
theorem advanceTimers_eq (m : Machine) :
    m.advanceTimers = (decide (0 < m.sound), { m with
      delay := if 0 < m.delay then m.delay - 1 else m.delay
      sound := if 0 < m.sound then m.sound - 1 else m.sound }) := by
  unfold advanceTimers
  by_cases delayed : 0 < m.delay <;> by_cases buzzing : 0 < m.sound <;> simp [delayed, buzzing]

/-! ### Operations -/

def perform (m : Machine) : Operation → Outcome
  | .load program => (MachineM.loadProgram program).outcome m
  | .setKeys keys => (MachineM.setKeys keys).outcome m
  | .step => m.step
  | .tick => ⟨m.advanceTimers.2, none⟩

/-- Loading a program is writing a block to memory. -/
theorem perform_load (m : Machine) (program : List UInt8) :
    m.perform (.load program) =
      match (RamM.writeBlock programStart program).run m.ram with
      | .ok _ ram => ⟨{ m with ram }, none⟩
      | .error fault ram => ⟨{ m with ram }, some fault⟩ := by
  rw [perform, MachineM.outcome, MachineM.loadProgram, MachineM.onRam, FaultM.run_onPart]
  cases (RamM.writeBlock programStart program).run m.ram <;> rfl

/-- A machine that refuses a program is left as it was. -/
theorem perform_load_of_sized (sized : m.ram.Sized 0x1000) (program : List UInt8) :
    m.perform (.load program) =
      if 0xE00 < program.length then ⟨m, some .memoryOverflow⟩
      else ⟨{ m with
        ram := { m.ram with cells := Bytes.splice m.ram.cells 0x200 program } }, none⟩ := by
  rw [perform_load]
  by_cases tooLong : 0xE00 < program.length
  · have long : ((0x1000 : Nat) : Int) < programStart + program.length := by
      simp only [programStart]
      omega
    rw [if_pos tooLong, Ram.run_writeBlock_overflow sized long]
  · have room : programStart + program.length ≤ ((0x1000 : Nat) : Int) := by
      simp only [programStart]
      omega
    rw [if_neg tooLong, FaultM.final_eq_ok_iff.mp (Ram.writeBlock_eq sized (by decide) room)]
    rfl

/-- The number of keys is looked at before they are taken over. -/
theorem run_setKeys (m : Machine) (keys : List Bool) :
    (MachineM.setKeys keys).run m =
      if fits : keys.length = 16 then .ok () { m with keypad := ⟨keys.toArray, fits⟩ }
      else .error .keypadSize m := by
  unfold MachineM.setKeys
  split <;> rfl

theorem perform_setKeys (m : Machine) (keys : List Bool) :
    m.perform (.setKeys keys) =
      if fits : keys.length = 16 then ⟨{ m with keypad := ⟨keys.toArray, fits⟩ }, none⟩
      else ⟨m, some .keypadSize⟩ := by
  rw [perform, MachineM.outcome, run_setKeys]
  by_cases fits : keys.length = 16 <;> simp only [fits, dite_true, dite_false]

theorem perform_setKeys_of_ok {keys : List Bool} {after : Machine}
    (set : m.setKeys keys = .ok after) : m.perform (.setKeys keys) = ⟨after, none⟩ :=
  outcome_of_ok (FaultM.final_eq_ok_iff.mp set)

/-- Keys that are taken over go to the keypad. -/
theorem setKeys_eq_ok_iff {keys : List Bool} {after : Machine} :
    m.setKeys keys = .ok after ↔
      ∃ fits : keys.length = 16, after = { m with keypad := ⟨keys.toArray, fits⟩ } := by
  rw [setKeys, FaultM.final_eq_ok_iff, run_setKeys]
  by_cases fits : keys.length = 16 <;> simp [fits, eq_comm]

theorem load_fault (formed : m.WellFormed) (program : List UInt8) :
    (m.perform (.load program)).fault =
      if 0xE00 < program.length then some .memoryOverflow else none := by
  rw [perform_load_of_sized formed.ram]
  split <;> rfl

theorem setKeys_fault (m : Machine) (keys : List Bool) :
    (m.perform (.setKeys keys)).fault = if keys.length = 16 then none else some .keypadSize := by
  rw [perform_setKeys]
  split <;> rfl

/-- Performs operations one after the other, whether or not they fail. -/
def performAll (m : Machine) (operations : List Operation) : Machine :=
  operations.foldl (fun m operation => (m.perform operation).machine) m

theorem perform_wellFormed (formed : m.WellFormed) (operation : Operation) :
    (m.perform operation).machine.WellFormed := by
  cases operation with
  | load program =>
      rw [perform_load_of_sized formed.ram]
      split
      · exact formed
      · exact { formed with
          ram := formed.ram.of_cells (by rw [Bytes.size_splice]; exact formed.ram.cells) }
  | setKeys keys =>
      rw [perform_setKeys]
      split
      · exact { formed with }
      · exact formed
  | step => exact step_wellFormed formed
  | tick =>
      have delay := formed.delay
      have sound := formed.sound
      rw [perform, advanceTimers_eq]
      exact { formed with
        delay := by dsimp only; split <;> omega
        sound := by dsimp only; split <;> omega }

theorem setKeys_wellFormed (formed : m.WellFormed) {keys : List Bool} {m' : Machine}
    (set : m.setKeys keys = .ok m') : m'.WellFormed := by
  obtain ⟨_, rfl⟩ := setKeys_eq_ok_iff.mp set
  exact { formed with }

theorem advanceTimers_wellFormed (formed : m.WellFormed) : m.advanceTimers.2.WellFormed :=
  perform_wellFormed formed .tick

theorem performAll_wellFormed (formed : m.WellFormed) (operations : List Operation) :
    (m.performAll operations).WellFormed := by
  induction operations generalizing m with
  | nil => exact formed
  | cons operation rest ih => exact ih (perform_wellFormed formed operation)

/-- Whatever was done to a fresh machine, it is well formed, and the next operation fails only as it
should: a load of a program that is too long, a keypad state of another size, a step that halts. No
word sends the decoder on for more look-ups than it has. -/
theorem performAll_create_safe (trace strict : Bool) (random : RandomSource)
    (operations : List Operation) :
    let m := (create trace strict random).performAll operations
    m.WellFormed ∧
    (∀ program, (m.perform (.load program)).fault =
      if 0xE00 < program.length then some .memoryOverflow else none) ∧
    (∀ keys, (m.perform (.setKeys keys)).fault =
      if keys.length = 16 then none else some .keypadSize) ∧
    (∀ fault, (m.perform .step).fault = some fault → ∃ report, fault = .halted report) ∧
    (m.perform .tick).fault = none ∧
    (Decoding.dispatch m.nextWord).verdict ≠ .unfinished := by
  intro m
  have formed : m.WellFormed :=
    performAll_wellFormed (create_wellFormed trace strict random) operations
  refine ⟨formed, load_fault formed, setKeys_fault m, fun fault halted => ?_, rfl,
    Decoding.dispatch_finishes _⟩
  obtain ⟨⟨shown, reason, _, rfl⟩, _⟩ := step_halted formed halted
  exact ⟨_, rfl⟩

end Machine

end Chip8
