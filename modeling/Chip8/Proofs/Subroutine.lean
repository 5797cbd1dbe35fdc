import Chip8.Proofs.Operation

/-!
Subroutines: every return goes back to its call.

Only calls and returns touch the stack (`step_stack`). As long as more entries stand on it than at
the time of a call, those of that time lie untouched below the return address (`Above.base`), so the
step that takes the stack back to its old depth is the return from that call.
-/

namespace Chip8.Machine

variable {m : Machine}

/-! ### The stack in one step -/

theorem effect_stack (m : Machine) {i : Instruction} (notRet : i ≠ .ret)
    (notCall : ∀ a, i ≠ .call a) : (m.effect i).stack = m.stack := by
  cases i with
  | ret => exact absurd rfl notRet
  | call a => exact absurd rfl (notCall a)
  | waitKey x =>
      simp only [effect]
      split <;> rfl
  | _ => rfl

/-- What a step from `m` to `after` can do to the stack. -/
inductive StackStep (m after : Machine) : Prop
  | call (word : 0x2000 ≤ m.nextWord ∧ m.nextWord < 0x3000)
      (pushed : after.stack.entries = (m.pc + 2) % 0x1000 :: m.stack.entries)
  | ret (word : m.nextWord = 0x00EE) (popped : m.stack.entries = after.pc :: after.stack.entries)
  | other (notCall : ¬ (0x2000 ≤ m.nextWord ∧ m.nextWord < 0x3000))
      (kept : after.stack.entries = m.stack.entries)

theorem step_stack (formed : m.WellFormed) (went : m.step.fault = none) :
    StackStep m m.step.machine := by
  have ended := step_stepsTo formed
  generalize m.step = outcome at ended went ⊢
  cases ended with
  | @runs i encoded goes =>
      by_cases called : 0x2000 ≤ m.nextWord ∧ m.nextWord < 0x3000
      · obtain ⟨a, isCall⟩ := Instruction.exists_call_encodedAs.mpr called
        obtain rfl := encoded.unique isCall
        exact .call called rfl
      · by_cases returned : i = .ret
        · subst returned
          cases entries : m.stack.entries with
          | nil => exact absurd entries goes
          | cons a rest =>
              have after := effect_ret (m := m.fetched) entries
              exact .ret encoded (by rw [after]; exact entries)
        · have notCall : ∀ a, i ≠ .call a := by
            rintro a rfl
            exact called (Instruction.exists_call_encodedAs.mp ⟨a, encoded⟩)
          exact .other called
            (congrArg Stack.entries (effect_stack m.fetched returned notCall))
  | refuses encoded refused => cases went
  | unsupported missing =>
      refine .other (fun called => ?_) rfl
      obtain ⟨a, isCall⟩ := Instruction.exists_call_encodedAs.mpr called
      exact missing _ isCall

/-- Only steps touch the stack. -/
theorem perform_stack (m : Machine) {operation : Operation} (notStep : operation ≠ .step) :
    (m.perform operation).machine.stack = m.stack := by
  cases operation with
  | load program =>
      rw [perform_load]
      split <;> rfl
  | setKeys keys =>
      rw [perform_setKeys]
      split <;> rfl
  | step => exact absurd rfl notStep
  | tick => rw [perform, advanceTimers_eq]

/-! ### Runs inside a subroutine -/

/-- Operations lead from `m` to the second machine, with more than `depth` entries on the stack after
each of them, and no step among them fails. -/
inductive Above (depth : Nat) (m : Machine) : Machine → Prop
  | start : Above depth m m
  | next {m' : Machine} (before : Above depth m m') (operation : Operation)
      (went : operation = .step → m'.step.fault = none)
      (above : depth < (m'.perform operation).machine.stack.entries.length) :
      Above depth m (m'.perform operation).machine

variable {m' : Machine}

theorem Above.wellFormed {depth : Nat} (formed : m.WellFormed) (run : Above depth m m') :
    m'.WellFormed := by
  induction run with
  | start => exact formed
  | next before operation went above ih => exact perform_wellFormed ih operation

/-- The entries that were there at first stay at the bottom of the stack. -/
theorem Above.base {address : Int} {entries : List Int} (formed : m.WellFormed)
    (first : m.stack.entries = address :: entries) (run : Above entries.length m m') :
    ∃ newer, m'.stack.entries = newer ++ address :: entries := by
  induction run with
  | start => exact ⟨[], first⟩
  | @next m' before operation went above ih =>
      obtain ⟨newer, stacked⟩ := ih
      by_cases stepped : operation = .step
      · subst stepped
        cases step_stack (before.wellFormed formed) (went rfl) with
        | call word pushed => exact ⟨_ :: newer, pushed.trans (congrArg _ stacked)⟩
        | other notCall kept => exact ⟨newer, kept.trans stacked⟩
        | ret word popped =>
            rw [stacked] at popped
            cases newer with
            | nil =>
                -- This return would leave no entry above the first ones.
                obtain ⟨_, rest⟩ := List.cons.inj popped
                exact absurd above (by rw [perform, ← rest]; exact Nat.lt_irrefl _)
            | cons a newer => exact ⟨newer, (List.cons.inj popped).2.symm⟩
      · exact ⟨newer, (congrArg Stack.entries (perform_stack m' stepped)).trans stacked⟩

/-- A step that brings the stack back to the entries below the return address is the return. -/
theorem returns_of_base {address : Int} {newer entries : List Int} (formed : m'.WellFormed)
    (stacked : m'.stack.entries = newer ++ address :: entries) (went : m'.step.fault = none)
    (depth : m'.step.machine.stack.entries.length = entries.length) :
    m'.nextWord = 0x00EE ∧ m'.step.machine.pc = address ∧
      m'.step.machine.stack.entries = entries := by
  have deep : m'.stack.entries.length = newer.length + (entries.length + 1) := by
    rw [stacked, List.length_append, List.length_cons]
  cases step_stack formed went with
  | call word pushed =>
      rw [pushed, List.length_cons] at depth
      omega
  | other notCall kept =>
      rw [kept] at depth
      omega
  | ret word popped =>
      rw [popped, List.length_cons] at deep
      obtain rfl : newer = [] := List.eq_nil_of_length_eq_zero (by omega)
      rw [stacked] at popped
      obtain ⟨target, rest⟩ := List.cons.inj popped
      exact ⟨word, target.symm, rest.symm⟩

theorem step_call (formed : m.WellFormed) (called : 0x2000 ≤ m.nextWord ∧ m.nextWord < 0x3000)
    (went : m.step.fault = none) :
    m.step.machine.stack.entries = (m.pc + 2) % 0x1000 :: m.stack.entries := by
  cases step_stack formed went with
  | call word pushed => exact pushed
  | ret word popped => omega
  | other notCall kept => exact absurd called notCall

/-- As long as a subroutine runs, the stack of its caller lies below the return address; the step
that ends it is a return to right behind the call, with the stack of the caller. -/
theorem call_returns (formed : m.WellFormed)
    (called : 0x2000 ≤ m.nextWord ∧ m.nextWord < 0x3000) (went : m.step.fault = none)
    (run : Above m.stack.entries.length m.step.machine m') :
    m'.stack.items.take (m.stack.entries.length + 1) =
      m.stack.items ++ [(m.pc + 2) % 0x1000] ∧
    (m'.step.fault = none → m'.step.machine.stack.entries.length = m.stack.entries.length →
      m'.nextWord = 0x00EE ∧ m'.step.machine.pc = (m.pc + 2) % 0x1000 ∧
      m'.step.machine.stack = m.stack) := by
  have pushed := step_call formed called went
  have formed' := run.wellFormed (step_wellFormed formed)
  obtain ⟨newer, stacked⟩ := run.base (step_wellFormed formed) pushed
  constructor
  · have bottom : m'.stack.items =
        (m.stack.items ++ [(m.pc + 2) % 0x1000]) ++ newer.reverse := by
      rw [Stack.items, stacked, List.reverse_append, List.reverse_cons]
      rfl
    rw [bottom]
    exact List.take_left' (by simp [Stack.items])
  · intro went' depth
    obtain ⟨word, target, entries⟩ := returns_of_base formed' stacked went' depth
    have capacity := (step_wellFormed formed').capacity.trans formed.capacity.symm
    refine ⟨word, target, ?_⟩
    cases left : m'.step.machine.stack
    cases first : m.stack
    simp_all only

/-- A subroutine that returns at once, with a tick of the timers while it runs. -/
theorem call_returns_at_once :
    let program := [0x22, 0x04, 0x00, 0x00, 0x00, 0xEE]
    let m := ((create false false (.cycle #[])).perform (.load program)).machine
    let m' := (m.step.machine.perform .tick).machine
    m.WellFormed ∧ m.nextWord = 0x2204 ∧ m.step.fault = none ∧ m'.step.fault = none ∧
      m'.step.machine.pc = 0x202 ∧ m'.step.machine.stack = m.stack := by
  intro program m m'
  have formed : m.WellFormed := perform_wellFormed (create_wellFormed _ _ _) _
  obtain ⟨word, start, went, above, went', depth⟩ : m.nextWord = 0x2204 ∧ m.pc = 0x200 ∧
      m.step.fault = none ∧ m.stack.entries.length < m'.stack.entries.length ∧
      m'.step.fault = none ∧
      m'.step.machine.stack.entries.length = m.stack.entries.length := by decide +kernel
  have ticked : m' = (m.step.machine.perform .tick).machine := rfl
  -- From here on only these facts count, not what the machines are.
  clear_value m' m
  subst ticked
  have run : Above m.stack.entries.length m.step.machine (m.step.machine.perform .tick).machine :=
    .next .start .tick (fun impossible => nomatch impossible) above
  obtain ⟨_, target, stack⟩ := (call_returns formed (by omega) went run).2 went' depth
  exact ⟨formed, word, went, went', by rw [target, start]; rfl, stack⟩

end Chip8.Machine
