import Chip8.Proofs.Settings

/-!
Strictness only decides whether a word that is no instruction halts the machine. A strict machine and
a lenient one go through the same states, whatever words they meet (`performAll_withStrict`), and tell
the same as long as every word is an instruction (`replies_withStrict`). Whether a word is one depends
on the word alone, so the two meet the first that is not at the same step.
-/

namespace Chip8.Machine

variable {m : Machine}

def withStrict (m : Machine) (strict : Bool) : Machine := { m with strict }

theorem WellFormed.withStrict (formed : m.WellFormed) (strict : Bool) :
    (m.withStrict strict).WellFormed :=
  { formed with }

theorem perform_withStrict (formed : m.WellFormed) (operation : Operation) (strict : Bool) :
    ((m.withStrict strict).perform operation).machine =
      (m.perform operation).machine.withStrict strict := by
  have console : (m.withStrict strict).consoleAfter operation = m.consoleAfter operation := by
    cases operation <;> rfl
  calc ((m.withStrict strict).perform operation).machine
    _ = (m.perform operation).machine.withSettings m.trace strict
          ((m.withStrict strict).consoleAfter operation) :=
        perform_withSettings formed operation m.trace strict m.console
    _ = (m.perform operation).machine.withSettings (m.perform operation).machine.trace strict
          (m.perform operation).machine.console := by
        rw [console, perform_trace formed, perform_console formed]
    _ = (m.perform operation).machine.withStrict strict := rfl

theorem performAll_withStrict (formed : m.WellFormed) (strict : Bool)
    (operations : List Operation) :
    (m.withStrict strict).performAll operations = (m.performAll operations).withStrict strict := by
  induction operations generalizing m with
  | nil => rfl
  | cons operation rest ih =>
      rw [performAll_cons, performAll_cons, perform_withStrict formed]
      exact ih (perform_wellFormed formed operation)

theorem reply_withStrict (formed : m.WellFormed) {operation : Operation} (strict : Bool)
    (supported : operation ≠ .step ∨ ∃ i : Instruction, i.EncodedAs m.nextWord) :
    (m.withStrict strict).reply operation = m.reply operation :=
  reply_withSettings formed m.trace m.console (.inr supported)

/-- Where all words are instructions, strictness makes no difference to what a run tells. -/
theorem replies_withStrict (formed : m.WellFormed) (strict : Bool) {operations : List Operation}
    (supported : ∀ step ∈ (m.withStrict strict).steps operations,
      ∃ i : Instruction, i.EncodedAs step.1) :
    (m.withStrict strict).replies operations = m.replies operations := by
  induction operations generalizing m with
  | nil => rfl
  | cons operation rest ih =>
      have told : (m.withStrict strict).reply operation = m.reply operation ∧
          ∀ step ∈ ((m.perform operation).machine.withStrict strict).steps rest,
            ∃ i : Instruction, i.EncodedAs step.1 := by
        rw [← perform_withStrict formed]
        by_cases stepped : operation = .step
        · subst stepped
          rw [steps_cons_step, List.forall_mem_cons] at supported
          exact ⟨reply_withStrict formed strict (.inr supported.1), supported.2⟩
        · rw [steps_cons_of_ne stepped] at supported
          exact ⟨reply_withStrict formed strict (.inl stepped), supported⟩
      rw [replies, replies, told.1, perform_withStrict formed,
        ih (perform_wellFormed formed operation) told.2]

/-- Take a strict machine and one that is lenient, and drive both in the same way. They stay in the
same state, apart from the setting. Each operation tells the same, unless it is a step that meets a
word that is no instruction: then the strict machine halts and the lenient one does not, both report
the word in the same line, and their states are still the same. So a run in which the strict machine
meets instructions only goes the same way on the lenient one. -/
theorem strictness_halts_only (formed : m.WellFormed) (operations : List Operation) :
    let strict := { m with strict := true }
    let lenient := { m with strict := false }
    let strict' := strict.performAll operations
    let lenient' := lenient.performAll operations
    strict' = { lenient' with strict := true } ∧
    (∀ operation, (operation ≠ .step ∨ ∃ i : Instruction, i.EncodedAs strict'.nextWord) →
      strict'.reply operation = lenient'.reply operation) ∧
    ((∀ i : Instruction, ¬ i.EncodedAs strict'.nextWord) →
      (∃ report, strict'.step.fault = some (.halted report)) ∧
      lenient'.step.fault = none ∧
      strict'.step.machine = { lenient'.step.machine with strict := true } ∧
      ∃ line, strict'.step.machine.console.reported = line :: strict'.console.reported ∧
        lenient'.step.machine.console.reported = line :: lenient'.console.reported) ∧
    ((∀ step ∈ strict.steps operations, ∃ i : Instruction, i.EncodedAs step.1) →
      strict.replies operations = lenient.replies operations) := by
  intro strict lenient strict' lenient'
  have formedStrict : strict.WellFormed := { formed with }
  have formedLenient : lenient.WellFormed := { formed with }
  have formed' : lenient'.WellFormed := performAll_wellFormed formedLenient operations
  have alike : strict' = lenient'.withStrict true :=
    performAll_withStrict formedLenient true operations
  refine ⟨alike, fun operation supported => ?_, fun missing => ?_, fun supported => ?_⟩
  · rw [alike] at supported ⊢
    exact reply_withStrict formed' true supported
  · rw [alike] at missing ⊢
    have lax : lenient'.strict = false := performAll_strict formedLenient operations
    have strictEnd := (step_stepsTo (formed'.withStrict true)).unique (.unsupported missing)
    have lenientEnd := (step_stepsTo formed').unique (.unsupported missing)
    refine ⟨?_, ?_, perform_withStrict formed' .step true, lenient'.fetched.unsupportedText,
      (step_reported (formed'.withStrict true)).2 missing, (step_reported formed').2 missing⟩
    · rw [strictEnd]
      exact ⟨_, rfl⟩
    · rw [lenientEnd, lax]
      rfl
  · exact replies_withStrict formedLenient true supported

/-- After a supported word comes one of family `0xB`, at address `0x202`. -/
theorem strictness_halts_only_family_b :
    let m := create false false (.cycle #[])
    let operations : List Operation := [.load [0x60, 0x05, 0xB0, 0x00], .step]
    let strict' := { m with strict := true }.performAll operations
    let lenient' := { m with strict := false }.performAll operations
    m.WellFormed ∧ strict'.nextWord = 0xB000 ∧ (∀ i : Instruction, ¬ i.EncodedAs strict'.nextWord) ∧
      (∃ report, strict'.step.fault = some (.halted report)) ∧ lenient'.step.fault = none := by
  intro m operations strict' lenient'
  have formed : m.WellFormed := create_wellFormed false false (.cycle #[])
  have word : strict'.nextWord = 0xB000 := by decide +kernel
  have missing : ∀ i : Instruction, ¬ i.EncodedAs strict'.nextWord := by
    rw [word]
    exact (Decoding.decode_eq_none_iff (by decide)).mp (by decide)
  obtain ⟨_, _, differ, _⟩ := strictness_halts_only formed operations
  obtain ⟨halts, goes, _⟩ := differ missing
  exact ⟨formed, word, missing, halts, goes⟩

end Chip8.Machine
