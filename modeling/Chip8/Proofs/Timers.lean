import Chip8.Proofs.Run

/-!
Timers: when a timer was set and when it ticked decides what it shows.

`Timer.history` lists what has happened to a timer in a run, newest first. Only the instruction that
sets a timer and the ticks are in it (`Timer.count_perform`), so a timer shows the value it was set to
last, less one for each tick since, and never less than zero (`timers_follow_history`). The two timers
do not interfere. A tick sounds the buzzer as long as the sound timer it finds has not run out.
-/

namespace Chip8

inductive Timer where
  | delay
  | sound
  deriving DecidableEq, Repr

namespace Timer

/-- What can happen to a timer. -/
inductive Change where
  | set (value : Nat)
  | tick
  deriving DecidableEq, Repr

/-! ### What a timer shows -/

/-- What a timer that shows `n` shows after a change. -/
def Change.apply : Change → Int → Int
  | .set value, _ => value
  | .tick, n => if 0 < n then n - 1 else n

def Change.value? : Change → Option Nat
  | .set value => some value
  | .tick => none

/-- The value that a timer was set to last; zero if it never was. Histories are newest first. -/
def lastSet (history : List Change) : Nat := (history.findSome? Change.value?).getD 0

/-- The ticks since a timer was set last. -/
def ticksSince (history : List Change) : Nat := (history.takeWhile (· = .tick)).length

/-- A timer that shows zero at first counts down from the value it was set to last. -/
theorem foldr_apply (history : List Change) :
    history.foldr Change.apply 0 = max 0 ((lastSet history : Int) - ticksSince history) := by
  induction history with
  | nil => rfl
  | cons change earlier ih =>
      rw [List.foldr_cons, ih]
      cases change with
      | set value =>
          have since : ticksSince (.set value :: earlier) = 0 := rfl
          have last : lastSet (.set value :: earlier) = value := rfl
          rw [Change.apply, since, last]
          omega
      | tick =>
          have since : ticksSince (.tick :: earlier) = ticksSince earlier + 1 := rfl
          have last : lastSet (.tick :: earlier) = lastSet earlier := rfl
          rw [Change.apply, since, last]
          split <;> omega

/-! ### What happens to a timer -/

variable (t : Timer)

def count (m : Machine) : Int :=
  match t with
  | .delay => m.delay
  | .sound => m.sound

/-- The instruction that sets the timer to the value of a register. -/
def setter : Digit → Instruction :=
  match t with
  | .delay => .setDelay
  | .sound => .setSound

/-- The word that sets the timer to the first register. -/
def setWord : Int :=
  match t with
  | .delay => 0xF015
  | .sound => 0xF018

/-- The register that a word sets the timer to, if it sets it. -/
def source? (w : Int) : Option Digit :=
  (List.finRange 16).find? fun x => w = t.setWord + 0x100 * x.val

theorem setter_encodedAs_iff {w : Int} {x : Digit} :
    (t.setter x).EncodedAs w ↔ w = t.setWord + 0x100 * x.val := by
  cases t <;> exact Iff.rfl

theorem source?_eq_some_iff {w : Int} {x : Digit} :
    t.source? w = some x ↔ (t.setter x).EncodedAs w := by
  have reads {y : Digit} (found : t.source? w = some y) : w = t.setWord + 0x100 * y.val := by
    rw [source?] at found
    have held := List.find?_some found
    exact of_decide_eq_true held
  rw [setter_encodedAs_iff]
  refine ⟨reads, fun word => ?_⟩
  cases found : t.source? w with
  | none =>
      rw [source?, List.find?_eq_none] at found
      exact absurd (decide_eq_true word) (found x (List.mem_finRange x))
  | some y =>
      have word' := reads found
      exact congrArg some (Fin.ext (by omega))

/-- What an operation does to the timer: a step may set it, a tick counts it down. -/
def changes (m : Machine) : Operation → List Change
  | .step => (t.source? m.nextWord).toList.map fun x => .set (m.value x)
  | .tick => [.tick]
  | _ => []

/-- What happens to the timer in a run, newest first. -/
def history (m : Machine) : List Operation → List Change
  | [] => []
  | operation :: rest => history (m.perform operation).machine rest ++ t.changes m operation

variable {m : Machine}

/-- An instruction that is not for the timer leaves it alone. -/
theorem count_effect (m : Machine) {i : Instruction} (other : ∀ x, i ≠ t.setter x) :
    t.count (m.effect i) = t.count m := by
  cases i with
  | ret =>
      simp only [Machine.effect]
      cases m.stack.entries <;> rfl
  | waitKey x =>
      simp only [Machine.effect]
      split <;> rfl
  | setDelay x =>
      cases t with
      | delay => exact absurd rfl (other x)
      | sound => rfl
  | setSound x =>
      cases t with
      | delay => rfl
      | sound => exact absurd rfl (other x)
  | _ => cases t <;> rfl

theorem count_setter (m : Machine) (x : Digit) :
    t.count (m.effect (t.setter x)) = m.value x := by
  cases t <;> rfl

/-- The number in a register does not change when the next word is fetched. -/
theorem count_step (formed : m.WellFormed) :
    t.count m.step.machine = (t.changes m .step).foldr Change.apply (t.count m) := by
  have ended := Machine.step_stepsTo formed
  generalize m.step = outcome at ended ⊢
  cases found : t.source? m.nextWord with
  | some x =>
      have encoded := t.source?_eq_some_iff.mp found
      have set : t.changes m .step = [.set (m.value x)] := by
        rw [changes, found]
        rfl
      have goes : ¬ m.Refuses (t.setter x) := by cases t <;> exact id
      rw [ended.unique (.runs encoded goes), set]
      exact t.count_setter m.fetched x
  | none =>
      have unset : t.changes m .step = [] := by
        rw [changes, found]
        rfl
      have other {i : Instruction} (encoded : i.EncodedAs m.nextWord) : ∀ x, i ≠ t.setter x := by
        rintro x rfl
        rw [t.source?_eq_some_iff.mpr encoded] at found
        cases found
      rw [unset, List.foldr_nil]
      cases ended with
      | runs encoded goes => exact t.count_effect m.fetched (other encoded)
      | refuses encoded refused => cases t <;> rfl
      | unsupported missing => cases t <;> rfl

theorem count_perform (formed : m.WellFormed) (operation : Operation) :
    t.count (m.perform operation).machine =
      (t.changes m operation).foldr Change.apply (t.count m) := by
  cases operation with
  | load program =>
      rw [Machine.perform_load_of_sized formed.ram]
      split <;> cases t <;> rfl
  | setKeys keys =>
      rw [Machine.perform_setKeys]
      split <;> cases t <;> rfl
  | step => exact t.count_step formed
  | tick =>
      rw [Machine.perform, Machine.advanceTimers_eq]
      cases t <;> rfl

theorem count_performAll (formed : m.WellFormed) (operations : List Operation) :
    t.count (m.performAll operations) =
      (t.history m operations).foldr Change.apply (t.count m) := by
  induction operations generalizing m with
  | nil => rfl
  | cons operation rest ih =>
      rw [Machine.performAll_cons, ih (Machine.perform_wellFormed formed operation),
        t.count_perform formed, history, List.foldr_append]

end Timer

/-! ### The buzzer -/

namespace Machine

variable {m : Machine}

/-- What the ticks among the operations answer, in order. -/
def buzzes (m : Machine) (operations : List Operation) : List Bool :=
  (m.replies operations).filterMap (·.buzzer)

theorem buzzes_cons_tick (m : Machine) (rest : List Operation) :
    m.buzzes (.tick :: rest) = decide (0 < m.sound) :: m.advanceTimers.2.buzzes rest := by
  have sounds : m.advanceTimers.1 = decide (0 < m.sound) := by rw [advanceTimers_eq]
  rw [← sounds]
  rfl

theorem buzzes_cons_of_ne (m : Machine) {operation : Operation} (notTick : operation ≠ .tick)
    (rest : List Operation) :
    m.buzzes (operation :: rest) = (m.perform operation).machine.buzzes rest := by
  cases operation with
  | tick => exact absurd rfl notTick
  | _ => rfl

/-- As long as the sound timer is not set again, as many ticks sound the buzzer as it shows. -/
theorem buzzes_eq (formed : m.WellFormed) {operations : List Operation}
    (unset : ∀ value, .set value ∉ Timer.sound.history m operations) :
    m.buzzes operations =
      (List.range (m.buzzes operations).length).map fun j : Nat => decide ((j : Int) < m.sound) := by
  induction operations generalizing m with
  | nil => rfl
  | cons operation rest ih =>
      have formed' := perform_wellFormed formed operation
      have unsetNow value (member : .set value ∈ Timer.sound.changes m operation) :=
        unset value (List.mem_append_right _ member)
      have later := ih formed' fun value member => unset value (List.mem_append_left _ member)
      have shows := Timer.sound.count_perform formed operation
      by_cases ticked : operation = .tick
      · subst ticked
        have nonneg := formed.sound.1
        have counted : (m.perform .tick).machine.sound =
            if 0 < m.sound then m.sound - 1 else m.sound := shows
        rw [buzzes_cons_tick, List.length_cons, List.range_succ_eq_map, List.map_cons, List.map_map]
        refine congrArg _ (later.trans (List.map_congr_left fun j _ => ?_))
        rw [counted, Function.comp_apply, decide_eq_decide]
        split <;> omega
      · have unchanged : Timer.sound.changes m operation = [] := by
          cases operation with
          | tick => exact absurd rfl ticked
          | step =>
              cases found : Timer.sound.source? m.nextWord with
              | none => rw [Timer.changes, found, Option.toList_none, List.map_nil]
              | some x =>
                  refine absurd ?_ (unsetNow (m.value x))
                  rw [Timer.changes, found]
                  exact List.mem_singleton.mpr rfl
          | _ => rfl
        have same : (m.perform operation).machine.sound = m.sound := by
          rw [unchanged] at shows
          exact shows
        rw [buzzes_cons_of_ne m ticked, ← same]
        exact later

/-- Drive a fresh machine in any way. Each timer shows the value it was set to last, less one for each
tick since, down to zero. A tick sounds the buzzer exactly if it finds the sound timer running: once
that timer is set to a value, and until it is set again, the first ticks do, as many as the value, and
no tick after them, whatever else is done in between. -/
theorem timers_follow_history (trace strict : Bool) (random : RandomSource)
    (operations : List Operation) :
    let start := create trace strict random
    let m := start.performAll operations
    (∀ t : Timer, t.count m = max 0 ((Timer.lastSet (t.history start operations) : Int) -
      Timer.ticksSince (t.history start operations))) ∧
    (m.advanceTimers.1 = true ↔ m.sound ≠ 0) ∧
    ∀ (x : Digit) (later : List Operation), (Instruction.setSound x).EncodedAs m.nextWord →
      (∀ value, .set value ∉ Timer.sound.history m.step.machine later) →
      m.step.machine.buzzes later =
        (List.range (m.step.machine.buzzes later).length).map fun j : Nat => decide (j < m.value x) := by
  intro start m
  have fresh : start.WellFormed := create_wellFormed trace strict random
  have formed : m.WellFormed := performAll_wellFormed fresh operations
  refine ⟨fun t => ?_, ?_, fun x later encoded unset => ?_⟩
  · have zero : t.count start = 0 := by cases t <;> rfl
    rw [t.count_performAll fresh, zero, Timer.foldr_apply]
  · have nonneg := formed.sound.1
    rw [advanceTimers_eq, decide_eq_true_iff]
    omega
  · have set : m.step.machine.sound = m.value x := by
      have shows := Timer.sound.count_step formed
      have found : Timer.sound.source? m.nextWord = some x :=
        Timer.sound.source?_eq_some_iff.mpr encoded
      rw [Timer.changes, found] at shows
      exact shows
    refine (buzzes_eq (step_wellFormed formed) unset).trans (List.map_congr_left fun j _ => ?_)
    rw [set, decide_eq_decide, Int.ofNat_lt]

/-- The sound timer is set to 2. Of the four ticks after that, with steps in between that set the delay
timer, two sound the buzzer. -/
theorem timers_follow_history_beep :
    let m := (create false false (.cycle #[])).performAll
      [.load [0x60, 0x02, 0xF0, 0x18, 0xF0, 0x15, 0x12, 0x04], .step]
    let later : List Operation := [.step, .tick, .step, .tick, .step, .tick, .tick]
    (Instruction.setSound 0).EncodedAs m.nextWord ∧
      m.step.machine.buzzes later = [true, true, false, false] ∧
      (m.step.machine.performAll later).delay = 0 := by
  intro m later
  obtain ⟨word, unset, value, ticks, delay⟩ : m.nextWord = 0xF018 ∧
      (∀ change ∈ Timer.sound.history m.step.machine later, change = .tick) ∧ m.value 0 = 2 ∧
      (m.step.machine.buzzes later).length = 4 ∧
      (m.step.machine.performAll later).delay = 0 := by decide +kernel
  have encoded : (Instruction.setSound 0).EncodedAs m.nextWord := by
    rw [word]
    rfl
  obtain ⟨_, _, beeps⟩ := timers_follow_history false false (.cycle #[])
    [.load [0x60, 0x02, 0xF0, 0x18, 0xF0, 0x15, 0x12, 0x04], .step]
  have answers := beeps 0 later encoded fun v member => nomatch unset _ member
  refine ⟨encoded, answers.trans ?_, delay⟩
  rw [ticks, value]
  rfl

end Machine

end Chip8
