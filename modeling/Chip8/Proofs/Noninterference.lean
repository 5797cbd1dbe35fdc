import Chip8.Proofs.Run

/-!
Keys and timers reach a program only through the four instructions that read them.

Two machines are alike if they differ in the keypad and the timers at most. Setting keys and ticking
keep them alike, whatever is done to either (`Alike.perform`); so does a step of both, unless its word is
one of the four (`Alike.step`). Hence runs with different keys and ticks between the steps are alike
until a word reads what differs (`unread_inputs_have_no_effect`).
-/

namespace Chip8

/-- The words of the instructions that read the keypad or the delay timer. -/
def Word.ReadsInputs (w : Int) : Prop :=
  ∃ x : Digit, (Instruction.skp x).EncodedAs w ∨ (Instruction.sknp x).EncodedAs w ∨
    (Instruction.readDelay x).EncodedAs w ∨ (Instruction.waitKey x).EncodedAs w

namespace Machine

/-- Two machines that differ in the keypad and the timers at most. -/
def Alike (m m' : Machine) : Prop :=
  m' = { m with keypad := m'.keypad, delay := m'.delay, sound := m'.sound }

variable {m m' : Machine}

theorem alike_iff : Alike m m' ↔
    ∃ keypad delay sound, m' = { m with keypad, delay, sound } := by
  constructor
  · intro alike
    exact ⟨_, _, _, alike⟩
  · rintro ⟨keypad, delay, sound, rfl⟩
    rfl

theorem Alike.symm (alike : Alike m m') : Alike m' m := by
  obtain ⟨keypad, delay, sound, rfl⟩ := alike_iff.mp alike
  rfl

theorem Alike.trans {m'' : Machine} (first : Alike m m') (second : Alike m' m'') : Alike m m'' := by
  obtain ⟨_, _, _, rfl⟩ := alike_iff.mp first
  exact second

/-! ### Between steps -/

/-- Setting keys and ticking change nothing else. -/
theorem alike_perform (m : Machine) {operation : Operation} (notStep : operation ≠ .step)
    (notLoad : ∀ program, operation ≠ .load program) :
    Alike m (m.perform operation).machine := by
  cases operation with
  | load program => exact absurd rfl (notLoad program)
  | setKeys keys =>
      rw [perform_setKeys]
      split <;> rfl
  | step => exact absurd rfl notStep
  | tick =>
      rw [perform, advanceTimers_eq]
      rfl

/-- A run without a step leaves an alike machine behind. -/
theorem alike_of_steps_nil {operations : List Operation}
    (noLoad : ∀ program, .load program ∉ operations) (noStep : m.steps operations = []) :
    Alike m (m.performAll operations) := by
  induction operations generalizing m with
  | nil => rfl
  | cons operation rest ih =>
      have notStep : operation ≠ .step := by
        rintro rfl
        cases noStep
      rw [steps_cons_of_ne notStep] at noStep
      have first := alike_perform m notStep fun program same =>
        noLoad program (same ▸ List.mem_cons_self)
      exact first.trans (ih (fun program member => noLoad program (.tail _ member)) noStep)

/-- A run with a step reaches an alike machine, which takes that step. -/
theorem exists_first_step (formed : m.WellFormed) {operations : List Operation}
    (noLoad : ∀ program, .load program ∉ operations) {step : Int × Option Fault}
    {later : List (Int × Option Fault)} (steps : m.steps operations = step :: later) :
    ∃ reached rest, Alike m reached ∧ reached.WellFormed ∧ (∀ program, .load program ∉ rest) ∧
      step = (reached.nextWord, reached.step.fault) ∧ later = reached.step.machine.steps rest ∧
      m.performAll operations = reached.step.machine.performAll rest := by
  induction operations generalizing m with
  | nil => cases steps
  | cons operation rest ih =>
      have noLoadRest := fun program member => noLoad program (.tail operation member)
      by_cases stepped : operation = .step
      · subst stepped
        rw [steps_cons_step, List.cons.injEq] at steps
        exact ⟨m, rest, rfl, formed, noLoadRest, steps.1.symm, steps.2.symm, rfl⟩
      · have first := alike_perform m stepped fun program same =>
          noLoad program (same ▸ List.mem_cons_self)
        rw [steps_cons_of_ne stepped] at steps
        obtain ⟨reached, later, alike, others⟩ :=
          ih (perform_wellFormed formed operation) noLoadRest steps
        exact ⟨reached, later, first.trans alike, others⟩

/-! ### Steps -/

theorem Alike.effect {i : Instruction} {w : Int} (encoded : i.EncodedAs w)
    (unread : ¬ Word.ReadsInputs w) (alike : Alike m m') : Alike (m.effect i) (m'.effect i) := by
  obtain ⟨keypad, delay, sound, rfl⟩ := alike_iff.mp alike
  cases i with
  | skp x => exact absurd ⟨x, .inl encoded⟩ unread
  | sknp x => exact absurd ⟨x, .inr (.inl encoded)⟩ unread
  | readDelay x => exact absurd ⟨x, .inr (.inr (.inl encoded))⟩ unread
  | waitKey x => exact absurd ⟨x, .inr (.inr (.inr encoded))⟩ unread
  | ret =>
      simp only [Machine.effect]
      cases m.stack.entries <;> rfl
  | _ => rfl

theorem Alike.withConsole (alike : Alike m m') (console : Console) :
    Alike (m.withConsole console) (m'.withConsole console) := by
  obtain ⟨keypad, delay, sound, rfl⟩ := alike_iff.mp alike
  rfl

theorem Alike.nextWord (alike : Alike m m') : m'.nextWord = m.nextWord := by
  obtain ⟨keypad, delay, sound, rfl⟩ := alike_iff.mp alike
  rfl

/-- Alike machines halt together. A halt reports the timers, so its text may differ. -/
theorem Alike.halts (formed : m.WellFormed) (formed' : m'.WellFormed) (alike : Alike m m') :
    m'.step.fault.isSome = m.step.fault.isSome := by
  obtain ⟨keypad, delay, sound, rfl⟩ := alike_iff.mp alike
  rw [Bool.eq_iff_iff, step_fault_isSome_iff formed, step_fault_isSome_iff formed']
  rfl

theorem Alike.step (formed : m.WellFormed) (formed' : m'.WellFormed) (alike : Alike m m')
    (unread : ¬ Word.ReadsInputs m.nextWord) : Alike m.step.machine m'.step.machine := by
  obtain ⟨keypad, delay, sound, rfl⟩ := alike_iff.mp alike
  have fetched : Alike m.fetched { m.fetched with keypad, delay, sound } := rfl
  have ended := step_stepsTo formed
  have ended' := step_stepsTo formed'
  generalize m.step = outcome at ended ⊢
  cases ended with
  | runs encoded goes =>
      rw [ended'.unique (.runs encoded goes)]
      exact (fetched.effect encoded unread).withConsole _
  | refuses encoded refused =>
      rw [ended'.unique (.refuses encoded refused)]
      exact fetched.withConsole _
  | unsupported missing =>
      rw [ended'.unique (.unsupported missing)]
      exact fetched.withConsole _

/-! ### Runs -/

/-- What is seen of a step: its word and whether it halted. -/
def seen (step : Int × Option Fault) : Int × Bool := (step.1, step.2.isSome)

/-- Drive two machines that are alike, each with keys and ticks of its own, for the same number of
steps. If no word of the first run reads the keys or the delay timer, the second run meets the same
words, its steps halt where those of the first do, and the machines are still alike: memory, registers,
stack, screen, random numbers and all the rest are the same. -/
theorem unread_inputs_have_no_effect (formed : m.WellFormed) (formed' : m'.WellFormed)
    (alike : Alike m m') {operations operations' : List Operation}
    (noLoad : ∀ program, .load program ∉ operations)
    (noLoad' : ∀ program, .load program ∉ operations')
    (paired : (m'.steps operations').length = (m.steps operations).length)
    (unread : ∀ step ∈ m.steps operations, ¬ Word.ReadsInputs step.1) :
    Alike (m.performAll operations) (m'.performAll operations') ∧
      (m'.steps operations').map seen = (m.steps operations).map seen := by
  -- The induction is on the steps of the first run; what lies between them keeps machines alike.
  induction steps : m.steps operations generalizing m m' operations operations' with
  | nil =>
      have noStep' : m'.steps operations' = [] :=
        List.eq_nil_of_length_eq_zero (by rw [paired, steps, List.length_nil])
      have after := alike_of_steps_nil noLoad steps
      have after' := alike_of_steps_nil noLoad' noStep'
      exact ⟨after.symm.trans (alike.trans after'), by rw [noStep']⟩
  | cons step later ih =>
      rw [steps] at paired unread
      obtain ⟨step', later', steps'⟩ := List.exists_cons_of_length_eq_add_one paired
      obtain ⟨reached, rest, before, formed₁, noLoad₁, rfl, rfl, result⟩ :=
        exists_first_step formed noLoad steps
      obtain ⟨reached', rest', before', formed₂, noLoad₂, rfl, rfl, result'⟩ :=
        exists_first_step formed' noLoad' steps'
      obtain ⟨unreadFirst, unreadLater⟩ := List.forall_mem_cons.mp unread
      have alike' : Alike reached reached' := before.symm.trans (alike.trans before')
      have stepped := alike'.step formed₁ formed₂ unreadFirst
      rw [steps', List.length_cons, List.length_cons, Nat.add_right_cancel_iff] at paired
      obtain ⟨machines, trails⟩ := ih (step_wellFormed formed₁) (step_wellFormed formed₂) stepped
        noLoad₁ noLoad₂ paired unreadLater rfl
      rw [result, result', steps', List.map_cons, List.map_cons, trails]
      refine ⟨machines, ?_⟩
      rw [seen, seen, alike'.nextWord, alike'.halts formed₁ formed₂]

/-- Two steps that set the delay timer, on machines with different keys and timers. The second run has
a tick and a change of keys between its steps. -/
theorem unread_inputs_have_no_effect_set_delay :
    let m := ((create false false (.cycle #[])).perform (.load [0x60, 0x05, 0xF0, 0x15])).machine
    let m' := { m with keypad := .replicate 16 true, delay := 7, sound := 9 }
    let operations : List Operation := [.step, .step]
    let operations' : List Operation := [.step, .tick, .setKeys (.replicate 16 false), .step]
    m.WellFormed ∧ m'.WellFormed ∧ Alike m m' ∧
      (m'.steps operations').map seen = [(0x6005, false), (0xF015, false)] ∧
      Alike (m.performAll operations) (m'.performAll operations') := by
  intro m m' operations operations'
  have formed : m.WellFormed := perform_wellFormed (create_wellFormed _ _ _) _
  have inRange : ∀ m : Machine, m.WellFormed →
      WellFormed { m with keypad := .replicate 16 true, delay := 7, sound := 9 } :=
    fun m formed => { formed with delay := by simp, sound := by simp }
  have formed' : m'.WellFormed := inRange m formed
  have trail : (m.steps operations).map seen = [(0x6005, false), (0xF015, false)] := by
    decide +kernel
  have paired : (m'.steps operations').length = (m.steps operations).length := by
    decide +kernel
  have unread : ∀ step ∈ m.steps operations, ¬ Word.ReadsInputs step.1 := by
    intro step member
    have word : seen step ∈ (m.steps operations).map seen := List.mem_map_of_mem member
    simp only [trail, seen, List.mem_cons, Prod.mk.injEq, List.not_mem_nil, or_false] at word
    rintro ⟨x, read⟩
    simp only [Instruction.EncodedAs] at read
    omega
  have alike : Alike m m' := rfl
  obtain ⟨machines, trails⟩ :=
    unread_inputs_have_no_effect formed formed' alike (by simp [operations]) (by simp [operations'])
      paired unread
  exact ⟨formed, formed', alike, trails.trans trail, machines⟩

end Machine

end Chip8
