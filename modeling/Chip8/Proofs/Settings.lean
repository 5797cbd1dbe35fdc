import Chip8.Proofs.Run

/-!
What the settings of a machine, tracing and strictness, have to do with what it does.

The console after an operation is known in advance (`consoleAfter`): steps announce what they run if
the machine traces, and report a word that is no instruction. Apart from that, an operation leaves
behind the same machine whatever the settings are (`perform_withSettings`), and it tells the same
unless a word is no instruction (`reply_withSettings`). So runs with other settings go through the same
states (`performAll_withSettings`).
-/

namespace Chip8.Machine

variable {m : Machine}

/-- The console after an operation: only steps write. -/
def consoleAfter (m : Machine) : Operation → Console
  | .step =>
      match Decoding.decode m.nextWord with
      | some i => m.fetched.announced i.mnemonic
      | none =>
          (m.fetched.announced Instruction.unknownText).report m.fetched.unsupportedText
  | _ => m.console

theorem consoleAfter_of_ne (m : Machine) {operation : Operation} (notStep : operation ≠ .step) :
    m.consoleAfter operation = m.console := by
  cases operation with
  | step => exact absurd rfl notStep
  | _ => rfl

/-- A step announces the instruction that it fetched, whether or not it refuses it. -/
theorem consoleAfter_encoded {i : Instruction} (encoded : i.EncodedAs m.nextWord) :
    m.consoleAfter .step = m.fetched.announced i.mnemonic := by
  simp only [consoleAfter, Decoding.decode_of_encodedAs encoded]

/-- A word that is no instruction is announced as unknown and then reported. -/
theorem consoleAfter_missing (missing : ∀ i : Instruction, ¬ i.EncodedAs m.nextWord) :
    m.consoleAfter .step =
      (m.fetched.announced Instruction.unknownText).report m.fetched.unsupportedText := by
  simp only [consoleAfter, (Decoding.decode_eq_none_iff m.nextWord_inWord).mpr missing]

/-! ### Steps -/

theorem step_console (formed : m.WellFormed) : m.step.machine.console = m.consoleAfter .step := by
  have ended := step_stepsTo formed
  generalize m.step = outcome at ended ⊢
  cases ended with
  | runs encoded goes => exact (consoleAfter_encoded encoded).symm
  | refuses encoded refused => exact (consoleAfter_encoded encoded).symm
  | unsupported missing => exact (consoleAfter_missing missing).symm

theorem WellFormed.withSettings (formed : m.WellFormed) (trace strict : Bool) (console : Console) :
    (m.withSettings trace strict console).WellFormed :=
  { formed with }

/-- A step leaves the same machine behind whatever the settings are, but for the lines it writes. -/
theorem step_withSettings (formed : m.WellFormed) (trace strict : Bool) (console : Console) :
    (m.withSettings trace strict console).step.machine =
      m.step.machine.withSettings trace strict
        ((m.withSettings trace strict console).consoleAfter .step) := by
  have ended := step_stepsTo formed
  have ended' := step_stepsTo (formed.withSettings trace strict console)
  rw [← step_console (formed.withSettings trace strict console)]
  generalize m.step = outcome at ended ⊢
  cases ended with
  | @runs i encoded goes =>
      have effect := effect_withSettings m.fetched i trace strict console
      rw [ended'.unique (.runs encoded goes)]
      exact congrArg (Machine.withConsole · _) effect
  | refuses encoded refused =>
      rw [ended'.unique (.refuses encoded refused)]
      rfl
  | unsupported missing =>
      rw [ended'.unique (.unsupported missing)]
      rfl

/-- Strictness decides about the fault of a step only if the word is no instruction. -/
theorem step_fault_withSettings (formed : m.WellFormed) (trace : Bool) {strict : Bool}
    (console : Console) (same : strict = m.strict ∨ ∃ i : Instruction, i.EncodedAs m.nextWord) :
    (m.withSettings trace strict console).step.fault = m.step.fault := by
  have ended := step_stepsTo formed
  have ended' := step_stepsTo (formed.withSettings trace strict console)
  generalize m.step = outcome at ended ⊢
  cases ended with
  | runs encoded goes => rw [ended'.unique (.runs encoded goes)]
  | refuses encoded refused =>
      rw [ended'.unique (.refuses encoded refused)]
      rfl
  | unsupported missing =>
      rw [ended'.unique (.unsupported missing)]
      obtain rfl | ⟨i, encoded⟩ := same
      · rfl
      · exact absurd encoded (missing i)

/-! ### Operations -/

/-- Loading, setting keys and ticking neither look at the settings nor touch the console. -/
theorem perform_withSettings_of_ne (m : Machine) {operation : Operation}
    (notStep : operation ≠ .step) (trace strict : Bool) (console : Console) :
    (m.withSettings trace strict console).perform operation =
      ⟨(m.perform operation).machine.withSettings trace strict console,
        (m.perform operation).fault⟩ := by
  cases operation with
  | load program =>
      have ram : (m.withSettings trace strict console).ram = m.ram := rfl
      rw [perform_load, perform_load, ram]
      cases (RamM.writeBlock programStart program).run m.ram <;> rfl
  | setKeys keys =>
      rw [perform_setKeys, perform_setKeys]
      split <;> rfl
  | step => exact absurd rfl notStep
  | tick =>
      rw [perform, perform, advanceTimers_eq, advanceTimers_eq]
      rfl

/-- The settings are kept, and they show in nothing but the console. -/
theorem perform_withSettings (formed : m.WellFormed) (operation : Operation) (trace strict : Bool)
    (console : Console) :
    ((m.withSettings trace strict console).perform operation).machine =
      (m.perform operation).machine.withSettings trace strict
        ((m.withSettings trace strict console).consoleAfter operation) := by
  by_cases stepped : operation = .step
  · subst stepped
    exact step_withSettings formed trace strict console
  · rw [perform_withSettings_of_ne m stepped, consoleAfter_of_ne _ stepped]
    rfl

/-- What an operation tells depends on strictness only if a step meets a word that is no instruction. -/
theorem reply_withSettings (formed : m.WellFormed) {operation : Operation} (trace : Bool)
    {strict : Bool} (console : Console)
    (same : strict = m.strict ∨ operation ≠ .step ∨ ∃ i : Instruction, i.EncodedAs m.nextWord) :
    (m.withSettings trace strict console).reply operation = m.reply operation := by
  have fault : ((m.withSettings trace strict console).perform operation).fault =
      (m.perform operation).fault := by
    by_cases stepped : operation = .step
    · subst stepped
      exact step_fault_withSettings formed trace console (same.imp_right (·.resolve_left (· rfl)))
    · rw [perform_withSettings_of_ne m stepped]
  simp only [reply, fault, advanceTimers_eq]
  rfl

/-- An operation keeps the settings, and the console after it is the one known in advance. -/
theorem perform_settings (formed : m.WellFormed) (operation : Operation) :
    (m.perform operation).machine =
      (m.perform operation).machine.withSettings m.trace m.strict (m.consoleAfter operation) :=
  perform_withSettings formed operation m.trace m.strict m.console

theorem perform_console (formed : m.WellFormed) (operation : Operation) :
    (m.perform operation).machine.console = m.consoleAfter operation := by
  rw [perform_settings formed]
  rfl

theorem perform_trace (formed : m.WellFormed) (operation : Operation) :
    (m.perform operation).machine.trace = m.trace := by
  rw [perform_settings formed]
  rfl

/-! ### Runs -/

/-- Runs with other settings go through the same states. -/
theorem performAll_withSettings (formed : m.WellFormed) (trace strict : Bool) (console : Console)
    (operations : List Operation) :
    (m.withSettings trace strict console).performAll operations =
      (m.performAll operations).withSettings trace strict
        ((m.withSettings trace strict console).performAll operations).console := by
  induction operations generalizing m console with
  | nil => rfl
  | cons operation rest ih =>
      rw [performAll_cons, performAll_cons, perform_withSettings formed]
      exact ih (perform_wellFormed formed operation) _

theorem performAll_settings (formed : m.WellFormed) (operations : List Operation) :
    m.performAll operations =
      (m.performAll operations).withSettings m.trace m.strict (m.performAll operations).console :=
  performAll_withSettings formed m.trace m.strict m.console operations

theorem performAll_trace (formed : m.WellFormed) (operations : List Operation) :
    (m.performAll operations).trace = m.trace := by
  rw [performAll_settings formed]
  rfl

theorem performAll_strict (formed : m.WellFormed) (operations : List Operation) :
    (m.performAll operations).strict = m.strict := by
  rw [performAll_settings formed]
  rfl

end Chip8.Machine
