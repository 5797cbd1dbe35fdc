import Chip8.Proofs.Execution

/-!
One step, whatever the word at the program counter is.

`step_stepsTo` says everything that a step of a well-formed machine can do: run the instruction that
the word encodes, halt because that instruction has no place on the stack to go to or to return to,
or report a word that is no instruction. The laws of steps follow from it by cases.
-/

namespace Chip8.Machine

variable {m : Machine}

/-! ### Fetching -/

/-- The word at the program counter, the high byte first. -/
def nextWord (m : Machine) : Int :=
  (m.memory m.pc).toNat * 256 + (m.memory (m.pc + 1)).toNat

theorem nextWord_inWord (m : Machine) : 0 ≤ m.nextWord ∧ m.nextWord < 0x10000 := by
  have high := (m.memory m.pc).toNat_lt
  have low := (m.memory (m.pc + 1)).toNat_lt
  unfold nextWord
  omega

/-- The machine that has fetched a word and moved on. -/
def fetched (m : Machine) : Machine :=
  { m with origin := m.pc, word := m.nextWord, pc := (m.pc + 2) % 0x1000 }

theorem fetch_eq (formed : m.WellFormed) : m.fetch = .ok m.nextWord := by
  have wrapped : wrapAddress m.pc = m.pc := Int.emod_eq_of_lt formed.pc.1 formed.pc.2
  have high := read_wrapped formed.ram m.pc
  have low := read_wrapped formed.ram (m.pc + 1)
  rw [wrapped] at high
  rw [fetch, high, ok_bind, low, ok_bind]
  rfl

theorem outcome_of_ok {computation : MachineM Unit} {after : Machine}
    (ends : computation.run m = .ok () after) : computation.outcome m = ⟨after, none⟩ := by
  rw [MachineM.outcome, ends]

theorem outcome_of_error {computation : MachineM Unit} {after : Machine} {fault : Fault}
    (fails : computation.run m = .error fault after) :
    computation.outcome m = ⟨after, some fault⟩ := by
  rw [MachineM.outcome, fails]

theorem step_eq_run (formed : m.WellFormed) : m.step = m.fetched.run := by
  have same : fetch { m with origin := m.pc } = m.fetch := rfl
  have fetched := same.trans (fetch_eq formed)
  have stepped : MachineM.step.run m = MachineM.runWord.run m.fetched := by
    simp only [MachineM.step, EStateM.run_bind, EStateM.run_modify, EStateM.run_get, fetched,
      FaultM.run_ofExcept_ok]
    rfl
  rw [step, run, MachineM.outcome, stepped, MachineM.outcome]

theorem fetched_wellFormed (formed : m.WellFormed) : m.fetched.WellFormed :=
  { formed with pc := ⟨Int.emod_nonneg _ (by decide), Int.emod_lt_of_pos _ (by decide)⟩ }

/-! ### The console -/

/-- The same machine with other lines on its console. -/
def withConsole (m : Machine) (console : Console) : Machine := { m with console }

theorem WellFormed.withConsole (formed : m.WellFormed) (console : Console) :
    (m.withConsole console).WellFormed :=
  { formed with }

/-- The console of a machine that is about to run something shown as `text`. -/
def announced (m : Machine) (text : String) : Console :=
  if m.trace then m.console.print (m.traceLine text) else m.console

theorem traced_eq (m : Machine) (text : String) :
    m.traced text = m.withConsole (m.announced text) := by
  unfold traced announced
  split <;> rfl

theorem announced_reported (m : Machine) (text : String) :
    (m.announced text).reported = m.console.reported := by
  unfold announced
  split <;> rfl

/-- The same machine with other settings and other lines on its console. -/
def withSettings (m : Machine) (trace strict : Bool) (console : Console) : Machine :=
  { m with trace, strict, console }

/-- No instruction looks at the settings or at the console, and none changes them. -/
theorem effect_withSettings (m : Machine) (i : Instruction) (trace strict : Bool)
    (console : Console) :
    (m.withSettings trace strict console).effect i =
      (m.effect i).withSettings trace strict console := by
  cases i with
  | ret =>
      cases entries : m.stack.entries <;> simp only [effect, withSettings, entries]
  | waitKey x =>
      have keypad : (m.withSettings trace strict console).keypad = m.keypad := rfl
      simp only [effect, keypad]
      cases (List.finRange 16).find? fun key => m.keypad[key] <;> rfl
  | _ => rfl

theorem effect_settings (m : Machine) (i : Instruction) :
    (m.effect i).withSettings m.trace m.strict m.console = m.effect i :=
  (effect_withSettings m i m.trace m.strict m.console).symm

theorem effect_withConsole (m : Machine) (i : Instruction) (console : Console) :
    (m.withConsole console).effect i = (m.effect i).withConsole console := by
  have written := effect_withSettings m i m.trace m.strict console
  rw [← effect_settings m i]
  exact written

/-! ### Ends of a step -/

/-- Why an instruction is refused. -/
def refusalText (m : Machine) (i : Instruction) : String :=
  let fault : Fault := if i = .ret then .stackUnderflow else .stackOverflow
  fault.message ++ " at address " ++ m.originText ++ "."

/-- The ends that a step can have. -/
inductive StepsTo (m : Machine) : Outcome → Prop
  | runs {i : Instruction} (encoded : i.EncodedAs m.nextWord) (goes : ¬ m.Refuses i) :
      StepsTo m ⟨(m.fetched.effect i).withConsole (m.fetched.announced i.mnemonic), none⟩
  | refuses {i : Instruction} (encoded : i.EncodedAs m.nextWord) (refused : m.Refuses i) :
      StepsTo m ⟨m.fetched.withConsole (m.fetched.announced i.mnemonic),
        some (.halted (m.fetched.haltReport i.mnemonic (m.fetched.refusalText i)))⟩
  | unsupported (missing : ∀ i : Instruction, ¬ i.EncodedAs m.nextWord) :
      StepsTo m ⟨m.fetched.withConsole
          ((m.fetched.announced Instruction.unknownText).report m.fetched.unsupportedText),
        if m.strict then
          some (.halted (m.fetched.haltReport Instruction.unknownText m.fetched.unsupportedText))
        else none⟩

/-- An instruction that is refused has changed nothing when it halts. -/
theorem execute_refused (capacity : m.stack.capacity = 16) {i : Instruction}
    (refused : m.Refuses i) :
    (MachineM.execute i).run m =
      .error (.halted (m.haltReport i.mnemonic (m.refusalText i))) m := by
  cases i with
  | ret =>
      have empty : m.stack.entries = [] := refused
      simp only [MachineM.execute, MachineM.onStack, MachineM.refuse, MachineM.halt,
        EStateM.run_bind, EStateM.run_get, FaultM.run_tryCatch, FaultM.run_onPart, StackM.run_pop,
        empty, FaultM.run_throw, refusalText, if_true]
  | call a =>
      have full : m.stack.capacity ≤ m.stack.entries.length := by
        rw [capacity, show m.stack.entries.length = 16 from refused]
        decide
      simp only [MachineM.execute, MachineM.onStack, MachineM.refuse, MachineM.halt,
        EStateM.run_bind, EStateM.run_get, FaultM.run_tryCatch, FaultM.run_onPart, StackM.run_push,
        full, if_true, FaultM.run_throw, refusalText, reduceCtorEq, if_false]
  | _ => exact refused.elim

/-- A word that is no instruction leaves the machine as it was, but for the line about it. -/
theorem unsupported_eq (m : Machine) :
    m.unsupported =
      ⟨m.withConsole ((m.announced Instruction.unknownText).report m.unsupportedText),
        if m.strict then some (.halted (m.haltReport Instruction.unknownText m.unsupportedText))
        else none⟩ := by
  unfold unsupported MachineM.outcome MachineM.unsupported
  simp only [EStateM.run_bind, EStateM.run_modify, EStateM.run_get, traced_eq]
  cases strict : m.strict <;> simp only [report, withConsole, strict] <;> rfl

theorem step_stepsTo (formed : m.WellFormed) : m.StepsTo m.step := by
  rw [step_eq_run formed]
  cases decoded : Decoding.decode m.nextWord with
  | none =>
      have missing := (Decoding.decode_eq_none_iff m.nextWord_inWord).mp decoded
      rw [run_eq_unsupported (m := m.fetched) decoded, unsupported_eq]
      exact .unsupported missing
  | some i =>
      have encoded := Decoding.encodedAs_of_decode m.nextWord_inWord decoded
      have formed' := (fetched_wellFormed formed).withConsole (m.fetched.announced i.mnemonic)
      rw [run_eq_execute (m := m.fetched) decoded, traced_eq]
      by_cases refused : m.Refuses i
      · rw [outcome_of_error (execute_refused formed'.capacity refused)]
        exact .refuses encoded refused
      · rw [outcome_of_ok (execute_eq formed' encoded refused), effect_withConsole]
        exact .runs encoded refused

/-- A step has one end only. -/
theorem StepsTo.unique {outcome outcome' : Outcome} (ended : m.StepsTo outcome)
    (ended' : m.StepsTo outcome') : outcome = outcome' := by
  cases ended with
  | runs encoded goes =>
      cases ended' with
      | runs encoded' goes' => rw [encoded.unique encoded']
      | refuses encoded' refused => exact absurd (encoded.unique encoded' ▸ refused) goes
      | unsupported missing => exact absurd encoded (missing _)
  | refuses encoded refused =>
      cases ended' with
      | runs encoded' goes => exact absurd (encoded'.unique encoded ▸ refused) goes
      | refuses encoded' refused' => rw [encoded.unique encoded']
      | unsupported missing => exact absurd encoded (missing _)
  | unsupported missing =>
      cases ended' with
      | runs encoded goes => exact absurd encoded (missing _)
      | refuses encoded refused => exact absurd encoded (missing _)
      | unsupported missing' => rfl

/-- A step that does not halt follows the one row of the instruction table that the word belongs to.
A word of no row changes nothing but the place in the program, on a machine that is not strict. -/
theorem step_follows_table (formed : m.WellFormed) (went : m.step.fault = none) :
    (∃ i : Instruction, i.EncodedAs m.nextWord ∧
      (∀ j : Instruction, j.EncodedAs m.nextWord → j = i) ∧
      m.step.machine = (m.fetched.effect i).withConsole (m.fetched.announced i.mnemonic)) ∨
    ((∀ i : Instruction, ¬ i.EncodedAs m.nextWord) ∧ m.strict = false ∧
      m.step.machine = m.fetched.withConsole
        ((m.fetched.announced Instruction.unknownText).report m.fetched.unsupportedText)) := by
  have ended := step_stepsTo formed
  generalize m.step = outcome at ended went
  cases ended with
  | @runs i encoded goes =>
      exact .inl ⟨i, encoded, fun j encoded' => encoded'.unique encoded, rfl⟩
  | refuses encoded refused => cases went
  | unsupported missing =>
      cases strict : m.strict with
      | false => exact .inr ⟨missing, rfl, rfl⟩
      | true => simp [strict] at went

/-- The font read as code: in the middle of the second glyph, a register is loaded. -/
theorem step_follows_table_glyph :
    let m : Machine := { create false false (.cycle #[]) with pc := 0x56 }
    m.WellFormed ∧ m.nextWord = 0x6020 ∧ m.step.fault = none ∧ m.step.machine.value 0 = 0x20 := by
  intro m
  have formed : m.WellFormed := { create_wellFormed false false (.cycle #[]) with pc := by decide }
  have word : m.nextWord = 0x6020 := by decide +kernel
  have went : m.step.fault = none := by decide +kernel
  have encoded : (Instruction.ldByte 0 0x20).EncodedAs m.nextWord := by
    rw [word]
    rfl
  refine ⟨formed, word, went, ?_⟩
  rcases step_follows_table formed went with ⟨i, _, unique, after⟩ | ⟨missing, _⟩
  · obtain rfl := unique _ encoded
    have loaded : (m.fetched.assign 0 0x20).value 0 = 0x20 := by
      rw [assign, value_withValues, if_pos rfl]
    rwa [after]
  · exact absurd encoded (missing _)

end Chip8.Machine
