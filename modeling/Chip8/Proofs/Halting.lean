import Chip8.Proofs.Step

/-!
When a step halts, and what it leaves behind.

A step halts on a call with a full stack, on a return with an empty one and, on a strict machine, on
a word that is no instruction; nothing else stops it. The machine has then fetched the word, and done
nothing more than that. A line about it goes to standard error if the word is no instruction, whether
or not the machine is strict.
-/

namespace Chip8.Machine

variable {m : Machine}

/-- The words that are refused, for want of room on the stack or of an entry. -/
theorem exists_refused_iff :
    (∃ i : Instruction, i.EncodedAs m.nextWord ∧ m.Refuses i) ↔
      (0x2000 ≤ m.nextWord ∧ m.nextWord < 0x3000 ∧ m.stack.entries.length = 16) ∨
      (m.nextWord = 0x00EE ∧ m.stack.entries = []) := by
  constructor
  · rintro ⟨i, encoded, refused⟩
    cases i with
    | ret => exact .inr ⟨encoded, refused⟩
    | call a =>
        obtain ⟨above, below⟩ := Instruction.exists_call_encodedAs.mp ⟨a, encoded⟩
        exact .inl ⟨above, below, refused⟩
    | _ => exact refused.elim
  · rintro (⟨above, below, full⟩ | ⟨word, empty⟩)
    · obtain ⟨a, encoded⟩ := Instruction.exists_call_encodedAs.mpr ⟨above, below⟩
      exact ⟨.call a, encoded, full⟩
    · exact ⟨.ret, word, empty⟩

theorem step_fault_isSome_iff (formed : m.WellFormed) :
    m.step.fault.isSome ↔
      (∃ i : Instruction, i.EncodedAs m.nextWord ∧ m.Refuses i) ∨
      ((∀ i : Instruction, ¬ i.EncodedAs m.nextWord) ∧ m.strict) := by
  have ended := step_stepsTo formed
  generalize m.step = outcome at ended
  cases ended with
  | @runs i encoded goes =>
      refine iff_of_false Bool.false_ne_true ?_
      rintro (⟨j, encoded', refused⟩ | ⟨missing, _⟩)
      · exact goes (encoded'.unique encoded ▸ refused)
      · exact missing i encoded
  | @refuses i encoded refused => exact iff_of_true rfl (.inl ⟨i, encoded, refused⟩)
  | unsupported missing =>
      have unrefused : ¬ ∃ i : Instruction, i.EncodedAs m.nextWord ∧ m.Refuses i :=
        fun ⟨i, encoded, _⟩ => missing i encoded
      rw [or_iff_right unrefused, and_iff_right missing]
      cases m.strict <;> rfl

/-- What the report of a halt in the next step names as being run, and the reason that it gives. -/
structure Blames (m : Machine) (shown reason : String) : Prop where
  call : 0x2000 ≤ m.nextWord → m.nextWord < 0x3000 →
    shown = "CALL 0x" ++ Hex.padded 3 (m.nextWord % 0x1000) ∧
      reason = "Stack overflow at address 0x" ++ Hex.padded 3 m.pc ++ "."
  ret : m.nextWord = 0x00EE →
    shown = "RET" ∧ reason = "Stack underflow at address 0x" ++ Hex.padded 3 m.pc ++ "."
  missing : (∀ i : Instruction, ¬ i.EncodedAs m.nextWord) →
    shown = "???" ∧ reason = "Opcode 0x" ++ Hex.padded 4 m.nextWord ++ " at address 0x"
      ++ Hex.padded 3 m.pc ++ " is not emulated."

theorem originText_fetched (m : Machine) : m.fetched.originText = "0x" ++ Hex.padded 3 m.pc := rfl

/-- An instruction that is refused is named, with the fault of the stack. -/
theorem blames_refused {i : Instruction} (encoded : i.EncodedAs m.nextWord) (refused : m.Refuses i) :
    m.Blames i.mnemonic (m.fetched.refusalText i) := by
  cases i with
  | ret =>
      have word : m.nextWord = 0x00EE := encoded
      refine ⟨fun above _ => by omega, fun _ => ⟨rfl, ?_⟩, fun missing => absurd encoded (missing _)⟩
      have reason : "Stack underflow at address 0x" =
          Fault.message .stackUnderflow ++ " at address " ++ "0x" := rfl
      simp only [refusalText, originText_fetched, reason, if_true, String.append_assoc]
  | call a =>
      obtain ⟨nonneg, below, word⟩ := encoded
      have target : m.nextWord % 0x1000 = a := by omega
      have encoded : (Instruction.call a).EncodedAs m.nextWord := ⟨nonneg, below, word⟩
      refine ⟨fun _ _ => ⟨?_, ?_⟩, fun word => by omega, fun missing => absurd encoded (missing _)⟩
      · have shown : "CALL 0x" = "CALL " ++ "0x" := rfl
        rw [target, Instruction.mnemonic_call, shown, String.append_assoc]
      · have reason : "Stack overflow at address 0x" =
            Fault.message .stackOverflow ++ " at address " ++ "0x" := rfl
        simp only [refusalText, originText_fetched, reason, reduceCtorEq, if_false,
          String.append_assoc]
  | _ => exact refused.elim

/-- A word that is no instruction is named by its digits. -/
theorem blames_missing (missing : ∀ i : Instruction, ¬ i.EncodedAs m.nextWord) :
    m.Blames Instruction.unknownText m.fetched.unsupportedText where
  call above below := by
    obtain ⟨a, encoded⟩ := Instruction.exists_call_encodedAs.mpr ⟨above, below⟩
    exact absurd encoded (missing _)
  ret word := absurd word (missing .ret)
  missing _ := by
    have place : " at address 0x" = " at address " ++ "0x" := rfl
    refine ⟨rfl, ?_⟩
    simp only [unsupportedText, originText_fetched, place, String.append_assoc]
    rfl

/-- A fault of a step is a halt. It reports the machine that the step leaves behind, which has
fetched the word and is otherwise as before. -/
theorem step_halted (formed : m.WellFormed) {fault : Fault} (halted : m.step.fault = some fault) :
    (∃ shown reason, m.Blames shown reason ∧
        fault = .halted (m.step.machine.haltReport shown reason)) ∧
      m.step.machine = m.fetched.withConsole m.step.machine.console := by
  have ended := step_stepsTo formed
  generalize m.step = outcome at ended halted ⊢
  cases ended with
  | runs encoded goes => cases halted
  | refuses encoded refused =>
      cases halted
      exact ⟨⟨_, _, blames_refused encoded refused, rfl⟩, rfl⟩
  | unsupported missing =>
      cases strict : m.strict with
      | false => simp [strict] at halted
      | true =>
          simp only [strict, if_true, Option.some.injEq] at halted
          exact ⟨⟨_, _, blames_missing missing, halted.symm⟩, rfl⟩

theorem step_reported (formed : m.WellFormed) :
    ((∃ i : Instruction, i.EncodedAs m.nextWord) →
      m.step.machine.console.reported = m.console.reported) ∧
    ((∀ i : Instruction, ¬ i.EncodedAs m.nextWord) →
      m.step.machine.console.reported = m.fetched.unsupportedText :: m.console.reported) := by
  have ended := step_stepsTo formed
  generalize m.step = outcome at ended
  cases ended with
  | @runs i encoded goes =>
      exact ⟨fun _ => announced_reported _ _, fun missing => absurd encoded (missing i)⟩
  | @refuses i encoded refused =>
      exact ⟨fun _ => announced_reported _ _, fun missing => absurd encoded (missing i)⟩
  | unsupported missing =>
      refine ⟨fun ⟨i, encoded⟩ => absurd encoded (missing i), fun _ => ?_⟩
      exact congrArg (m.fetched.unsupportedText :: ·) (announced_reported _ _)

/-- Steps halt exactly on a call with a full stack, a return with an empty one and, on a strict
machine, a word that is no instruction. A halted step has fetched the word and changed nothing else.
Its report shows that very machine, all registers and the stack from its oldest entry on, and names
what was being run. Standard error gets a line exactly if the word is no instruction. -/
theorem step_halts_atomically (formed : m.WellFormed) :
    let after := m.step.machine
    (m.step.fault.isSome ↔
      (0x2000 ≤ m.nextWord ∧ m.nextWord < 0x3000 ∧ m.stack.entries.length = 16) ∨
      (m.nextWord = 0x00EE ∧ m.stack.entries = []) ∨
      ((∀ i : Instruction, ¬ i.EncodedAs m.nextWord) ∧ m.strict)) ∧
    (∀ fault, m.step.fault = some fault →
      (∃ shown reason, m.Blames shown reason ∧
        fault = .halted ("Emulation halted.\n\n" ++ appIntro
          ++ "Debug info:\nV: 0x" ++ Hex.bytes after.registers.toList.reverse
          ++ " I: 0x" ++ Hex.padded 4 after.index ++ " DT: 0x" ++ Hex.padded 2 after.delay
          ++ " ST: 0x" ++ Hex.padded 2 after.sound ++ " PC: 0x" ++ Hex.padded 3 after.origin
          ++ " OP: 0x" ++ Hex.padded 4 after.word ++ " IN: " ++ shown
          ++ "\nStack:" ++ (if after.stack.items = [] then " (Empty)"
            else String.join (after.stack.items.map fun item => " 0x" ++ Hex.padded 3 item))
          ++ "\n\n" ++ reason)) ∧
      after = { m with
        origin := m.pc
        word := m.nextWord
        pc := (m.pc + 2) % 0x1000
        console := after.console }) ∧
    ((∃ i : Instruction, i.EncodedAs m.nextWord) →
      after.console.reported = m.console.reported) ∧
    ((∀ i : Instruction, ¬ i.EncodedAs m.nextWord) →
      after.console.reported = ("Opcode 0x" ++ Hex.padded 4 m.nextWord ++ " at address 0x"
        ++ Hex.padded 3 m.pc ++ " is not emulated.") :: m.console.reported) := by
  intro after
  obtain ⟨silent, told⟩ := step_reported formed
  refine ⟨?_, fun fault halted => ?_, silent, fun missing => ?_⟩
  · rw [step_fault_isSome_iff formed, exists_refused_iff, or_assoc]
  · obtain ⟨⟨shown, reason, blames, rfl⟩, left⟩ := step_halted formed halted
    exact ⟨⟨shown, reason, blames, congrArg Fault.halted (haltReport_eq _ _ _)⟩, left⟩
  · rw [← ((blames_missing missing).missing missing).2]
    exact told missing

/-- The font read as code: at the end of the first glyph, a call. With a full stack it does not jump,
and the report shows the registers from the last one on and the stack from its oldest entry on. -/
theorem step_halts_atomically_call :
    let m : Machine := { create false false (.cycle #[]) with
      registers := Vector.ofFn fun r => UInt8.ofNat (0xA0 + r.val)
      index := 0x123
      delay := 4
      pc := 0x55
      stack := ⟨(List.range 16).map fun (k : Nat) => 0x21E - 2 * (k : Int), 16⟩ }
    m.WellFormed ∧ m.nextWord = 0x2060 ∧ m.step.machine.pc = 0x57 ∧
      m.step.fault = some (.halted ("Emulation halted.\n\nTinyChip Emulator V1.0.0 -- Debug info:\n"
        ++ "V: 0xafaeadacabaaa9a8a7a6a5a4a3a2a1a0 I: 0x0123 DT: 0x04 ST: 0x00 PC: 0x055 OP: 0x2060 "
        ++ "IN: CALL 0x060\n"
        ++ "Stack: 0x200 0x202 0x204 0x206 0x208 0x20a 0x20c 0x20e 0x210 0x212 0x214 0x216 0x218 "
        ++ "0x21a 0x21c 0x21e\n\n"
        ++ "Stack overflow at address 0x055.")) := by
  intro m
  have formed : m.WellFormed := { create_wellFormed false false (.cycle #[]) with
    index := by decide
    delay := by decide
    pc := by decide
    returns := by decide
    depth := by decide
    capacity := by decide }
  have word : m.nextWord = 0x2060 := by decide +kernel
  obtain ⟨halts, left, _⟩ := step_halts_atomically formed
  have halted := halts.mpr (.inl ⟨by omega, by omega, rfl⟩)
  obtain ⟨fault, caused⟩ := Option.isSome_iff_exists.mp halted
  obtain ⟨⟨shown, reason, blames, rfl⟩, after⟩ := left fault caused
  obtain ⟨rfl, rfl⟩ := blames.call (by omega) (by omega)
  refine ⟨formed, word, ?_, caused.trans (congrArg (fun text => some (Fault.halted text)) ?_)⟩
  · rw [after]
    rfl
  · rw [after, word]
    decide +kernel

end Chip8.Machine
