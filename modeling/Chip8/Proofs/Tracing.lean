import Chip8.Proofs.Settings

/-!
Tracing is transparent: a machine that traces goes through the same states as one that does not, and
tells the same. All that it adds are lines on standard output, one for each step, which show the
machine before the instruction has done anything (`tracing_transparent`).

What is on standard error does not depend on tracing (`performAll_reported`). A step announces what it
is about to run before it runs it (`step_printed`), so the line is there however the step ends.
-/

namespace Chip8.Machine

variable {m : Machine}

theorem consoleAfter_reported (m : Machine) (operation : Operation) (trace strict : Bool)
    {console : Console} (same : console.reported = m.console.reported) :
    ((m.withSettings trace strict console).consoleAfter operation).reported =
      (m.consoleAfter operation).reported := by
  by_cases stepped : operation = .step
  · subst stepped
    have word : (m.withSettings trace strict console).nextWord = m.nextWord := rfl
    have announced : ∀ text,
        ((m.withSettings trace strict console).fetched.announced text).reported =
          (m.fetched.announced text).reported := fun text => by
      rw [announced_reported, announced_reported]
      exact same
    simp only [consoleAfter, word]
    cases Decoding.decode m.nextWord with
    | some i => exact announced i.mnemonic
    | none => exact congrArg (m.fetched.unsupportedText :: ·) (announced _)
  · rw [consoleAfter_of_ne _ stepped, consoleAfter_of_ne _ stepped]
    exact same

theorem performAll_reported (formed : m.WellFormed) (trace strict : Bool) {console : Console}
    (same : console.reported = m.console.reported) (operations : List Operation) :
    ((m.withSettings trace strict console).performAll operations).console.reported =
      (m.performAll operations).console.reported := by
  induction operations generalizing m console with
  | nil => exact same
  | cons operation rest ih =>
      rw [performAll_cons, performAll_cons, perform_withSettings formed]
      refine ih (perform_wellFormed formed operation) ?_
      rw [perform_console formed]
      exact consoleAfter_reported m operation trace strict same

/-! ### The lines of a trace -/

/-- A step announces what it is about to run: the instruction, or that there is none. -/
theorem step_printed (formed : m.WellFormed) :
    ∃ shown, Text.OneLine shown ∧ (∀ i : Instruction, i.EncodedAs m.nextWord → shown = i.mnemonic) ∧
      m.step.machine.console.printed = (m.fetched.announced shown).printed := by
  rw [step_console formed]
  by_cases encoded : ∃ i : Instruction, i.EncodedAs m.nextWord
  · obtain ⟨i, encoded⟩ := encoded
    rw [consoleAfter_encoded encoded]
    exact ⟨i.mnemonic, i.oneLine_mnemonic, fun j encoded' => by rw [encoded.unique encoded'], rfl⟩
  · have missing := not_exists.mp encoded
    rw [consoleAfter_missing missing]
    exact ⟨Instruction.unknownText, by decide, fun j encoded' => absurd encoded' (missing j), rfl⟩

theorem performAll_printed (formed : m.WellFormed) (untraced : m.trace = false)
    (operations : List Operation) :
    (m.performAll operations).console.printed = m.console.printed := by
  induction operations generalizing m with
  | nil => rfl
  | cons operation rest ih =>
      have silent : (m.consoleAfter operation).printed = m.console.printed := by
        by_cases stepped : operation = .step
        · subst stepped
          obtain ⟨shown, _, _, printed⟩ := step_printed formed
          rw [← step_console formed, printed, announced, show m.fetched.trace = false from untraced]
          rfl
        · rw [consoleAfter_of_ne m stepped]
      rw [performAll_cons, ih (perform_wellFormed formed operation), perform_console formed, silent]
      rw [perform_trace formed, untraced]

/-- Take a machine that traces and one that does not, and drive both in the same way. They stay in
the same state, apart from the setting and what is on standard output, and each operation tells the
same, down to the text of a fault. Nothing is printed without tracing. A machine that traces prints
one line for each step and none otherwise. The line shows where the word came from, the word and the
first registers as they were before the step, however the step ends. -/
theorem tracing_transparent (formed : m.WellFormed) (operations : List Operation) :
    let untraced := { m with trace := false }.performAll operations
    let traced := { m with trace := true }.performAll operations
    traced = { untraced with
      trace := true
      console := { untraced.console with printed := traced.console.printed } } ∧
    (∀ operation, traced.reply operation = untraced.reply operation) ∧
    untraced.console.printed = m.console.printed ∧
    (∀ operation, operation ≠ .step →
      (traced.perform operation).machine.console.printed = traced.console.printed) ∧
    (∃ shown line, traced.step.machine.console.printed = line :: traced.console.printed ∧
      Text.OneLine line ∧
      line = "PC: 0x" ++ Hex.padded 3 traced.pc ++ " OP: 0x" ++ Hex.padded 4 traced.nextWord
        ++ " V0-V3: 0x" ++ Hex.byte (traced.reg 0) ++ " 0x" ++ Hex.byte (traced.reg 1)
        ++ " 0x" ++ Hex.byte (traced.reg 2) ++ " 0x" ++ Hex.byte (traced.reg 3)
        ++ " IN: " ++ shown ∧
      ∀ i : Instruction, i.EncodedAs traced.nextWord → shown = i.mnemonic) := by
  intro untraced traced
  have quiet : WellFormed { m with trace := false } := { formed with }
  have loud : WellFormed { m with trace := true } := { formed with }
  have quiet' : untraced.WellFormed := performAll_wellFormed quiet operations
  have loud' : traced.WellFormed := performAll_wellFormed loud operations
  have tracing : traced.trace = true := performAll_trace loud operations
  have strict : untraced.strict = m.strict := performAll_strict quiet operations
  have alike : traced = untraced.withSettings true m.strict traced.console :=
    performAll_withSettings quiet true m.strict m.console operations
  have reported : traced.console.reported = untraced.console.reported :=
    performAll_reported quiet true m.strict rfl operations
  refine ⟨?_, fun operation => ?_, performAll_printed quiet rfl operations, fun operation other => ?_, ?_⟩
  · have console : traced.console = ⟨traced.console.printed, untraced.console.reported⟩ := by
      rw [← reported]
    rw [← strict, console] at alike
    exact alike
  · rw [alike]
    exact reply_withSettings quiet' true _ (.inl strict.symm)
  · rw [perform_console loud', consoleAfter_of_ne _ other]
  · obtain ⟨shown, short, mnemonic, printed⟩ := step_printed loud'
    refine ⟨shown, traced.fetched.traceLine shown, ?_, oneLine_traceLine _ short, traceLine_eq _ _,
      mnemonic⟩
    rw [printed, announced, show traced.fetched.trace = true from tracing]
    rfl

/-- The second of two steps, with the register that the first one has loaded. -/
theorem tracing_transparent_second_step :
    let m := create false false (.cycle #[])
    let operations : List Operation := [.load [0x60, 0x05, 0x70, 0x0A], .step]
    let traced := { m with trace := true }.performAll operations
    m.WellFormed ∧ traced.step.machine.console.printed =
      "PC: 0x202 OP: 0x700a V0-V3: 0x05 0x00 0x00 0x00 IN: ADD V0, 0x0a" ::
        traced.console.printed := by
  intro m operations traced
  have formed : m.WellFormed := create_wellFormed false false (.cycle #[])
  obtain ⟨_, _, _, _, shown, line, printed, _, pieces, mnemonic⟩ :=
    tracing_transparent formed operations
  have word : traced.nextWord = 0x700A := by decide +kernel
  have encoded : (Instruction.addByte 0 0x0A).EncodedAs traced.nextWord := by
    rw [word]
    rfl
  have text : line = "PC: 0x202 OP: 0x700a V0-V3: 0x05 0x00 0x00 0x00 IN: ADD V0, 0x0a" := by
    rw [pieces, mnemonic _ encoded]
    decide +kernel
  subst text traced
  exact ⟨formed, printed⟩

end Chip8.Machine
