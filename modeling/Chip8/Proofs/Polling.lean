import Chip8.Proofs.Exchange
import Mathlib.Data.List.Induction

/-!
The polls of an exchange, and what the keyboard does at once.

All slots that one poll takes out share one look at the clock, and nothing comes behind the wish to
quit in what it takes (`Exchange.PollsRegular`).

The operations of the keyboard are runs of small steps: `Exchange.readBy_feeding` for what it is
fed, and `Exchange.polledByTakes` for a poll that nothing comes in between. So what holds of all
runs holds of whatever is done with a keyboard, one operation after the other.
-/

namespace Chip8.Exchange

variable {τ : Type}

/-! ### One look at the clock for each poll -/

/-- The poll under way finds nothing more. -/
theorem polls_emptied (log : List (Event τ)) :
    polls (log ++ [.answered false]) =
      ⟨{}, { (polls log).current with answer := some false } :: (polls log).past⟩ :=
  polls_append ..

theorem polls_quitOut (log : List (Event τ)) :
    polls (log ++ [.took .quit, .answered true]) =
      ⟨{}, ⟨(polls log).current.took ++ [.quit], (polls log).current.looks, some true⟩ ::
        (polls log).past⟩ :=
  polls_append ..

/-- Polls know of nothing but what they take out themselves. -/
theorem Step.unpolled [Scalar τ] {x y : Exchange τ} {act : Act τ} (step : Step x act y)
    (other : act ≠ .take) : polls y.log = polls x.log ∧ y.deadline = x.deadline ∧
      y.keystrokes.expiry = x.keystrokes.expiry := by
  cases step with
  | idle => exact ⟨rfl, rfl, rfl⟩
  | checked => exact ⟨rfl, rfl, rfl⟩
  | restarted => exact ⟨rfl, rfl, rfl⟩
  | ticked => exact ⟨rfl, rfl, rfl⟩
  | wanted => exact ⟨polls_append .., rfl, rfl⟩
  | ignored => exact ⟨polls_append .., rfl, rfl⟩
  | failed => exact ⟨polls_append .., rfl, rfl⟩
  | queued => exact ⟨polls_append .., rfl, rfl⟩
  | dropped => exact ⟨polls_append .., rfl, rfl⟩
  | stopped => exact ⟨polls_append .., rfl, rfl⟩
  | emptied => exact absurd rfl other
  | quitOut => exact absurd rfl other
  | slotOut => exact absurd rfl other

/-- What polls take out, one after the other, is what is taken out. -/
theorem flatMap_took (log : List (Event τ)) :
    (polls log).all.reverse.flatMap (·.took) = taken log := by
  induction log using List.reverseRecOn with
  | nil => rfl
  | append_singleton log event ih =>
      rw [polls_append, taken_append, ← ih]
      cases event <;> simp [Polls.note, Polls.all, taken, Event.took?]

/-- A poll took slots out, and the wish to quit behind them if that is its answer. It looked at the
clock once if there were any slots, and not at all otherwise. -/
structure Poll.Regular (poll : Poll τ) : Prop where
  took : poll.took = (QueueEntry.slots poll.took).map .slot ++
    if poll.answer = some true then [.quit] else []
  looks : poll.looks.length = if QueueEntry.slots poll.took = [] then 0 else 1

theorem Poll.Regular.quitIsLast {poll : Poll τ} (regular : poll.Regular) :
    QueueEntry.QuitIsLast poll.took := by
  refine ⟨QueueEntry.slots poll.took, ?_⟩
  have took := regular.took
  split at took
  · exact .inr took
  · exact .inl (took.trans (List.append_nil _))

/-- A poll that took a slot out looked at the clock. -/
theorem Poll.Regular.looked {poll : Poll τ} (regular : poll.Regular) {slot : Digit}
    (took : .slot slot ∈ poll.took) : ∃ time, poll.looks = [time] := by
  have some : QueueEntry.slots poll.took ≠ [] :=
    List.ne_nil_of_mem (List.mem_filterMap.mpr ⟨_, took, rfl⟩)
  have once := regular.looks
  rw [if_neg some] at once
  exact List.length_eq_one_iff.mp once

/-- A poll that is over answers whether it took the wish to quit. -/
theorem Poll.Regular.answer {poll : Poll τ} (regular : poll.Regular) (finished : poll.answer ≠ none) :
    poll.answer = some (decide (.quit ∈ poll.took)) := by
  cases answered : poll.answer with
  | none => exact absurd answered finished
  | some quit =>
      rw [regular.took, answered]
      cases quit <;> simp

/-- A poll that has taken nothing out. -/
theorem Poll.regular_new : ({} : Poll τ).Regular := ⟨rfl, rfl⟩

structure PollsRegular [Scalar τ] (x : Exchange τ) : Prop where
  regular : ∀ poll ∈ (polls x.log).all, poll.Regular
  underWay : (polls x.log).current.answer = none
  finished : ∀ poll ∈ (polls x.log).past, poll.answer ≠ none
  deadline : x.deadline = (polls x.log).current.looks.head?.map (· + Keystrokes.holdTime)

namespace PollsRegular

variable [Scalar τ] {x y : Exchange τ} {act : Act τ}

theorem start (keymap : Keymap) (now : τ) : PollsRegular (start keymap now) where
  regular poll member := by
    rcases List.mem_singleton.mp member with rfl
    exact Poll.regular_new
  underWay := rfl
  finished poll member := nomatch member
  deadline := rfl

/-- Events that no poll is told of. -/
theorem still (fair : PollsRegular x) (same : polls y.log = polls x.log)
    (deadline : y.deadline = x.deadline) : PollsRegular y := by
  refine ⟨?_, ?_, ?_, ?_⟩
  · rw [same]
    exact fair.regular
  · rw [same]
    exact fair.underWay
  · rw [same]
    exact fair.finished
  · rw [same, deadline]
    exact fair.deadline

theorem slots_current (fair : PollsRegular x) :
    (polls x.log).current.took = (QueueEntry.slots (polls x.log).current.took).map .slot := by
  have took := (fair.regular _ List.mem_cons_self).took
  rwa [fair.underWay, if_neg (by simp), List.append_nil] at took

/-- The time that a slot goes by which comes out now. -/
def look (x : Exchange τ) : τ := (polls x.log).current.looks.head?.getD x.now

theorem deadline_look (fair : PollsRegular x) :
    x.deadline.getD (x.now + Keystrokes.holdTime) = look x + Keystrokes.holdTime := by
  rw [fair.deadline, look]
  cases (polls x.log).current.looks.head? <;> rfl

theorem polls_slotOut (fair : PollsRegular x) (slot : Digit) :
    polls (x.log ++ .took (.slot slot) :: looking x.deadline x.now) =
      ⟨⟨(polls x.log).current.took ++ [.slot slot], [look x], none⟩, (polls x.log).past⟩ := by
  have once : (polls x.log).current.looks.length ≤ 1 := by
    rw [(fair.regular _ List.mem_cons_self).looks]
    split <;> decide
  rw [polls_append, fair.deadline, look, ← fair.underWay]
  cases looks : (polls x.log).current.looks with
  | nil => simp [looking, Polls.note, looks]
  | cons first rest =>
      rw [looks, List.length_cons] at once
      have alone : rest = [] := List.eq_nil_of_length_eq_zero (by omega)
      simp [looking, Polls.note, looks, alone]

/-- A poll goes on to its next slot. -/
theorem hold (fair : PollsRegular x) {slot : Digit}
    (log : y.log = x.log ++ .took (.slot slot) :: looking x.deadline x.now)
    (deadline : y.deadline = some (x.deadline.getD (x.now + Keystrokes.holdTime))) :
    PollsRegular y := by
  have slots : QueueEntry.slots ((polls x.log).current.took ++ [.slot slot]) =
      QueueEntry.slots (polls x.log).current.took ++ [slot] := QueueEntry.slots_append ..
  have log := (congrArg polls log).trans (fair.polls_slotOut slot)
  refine ⟨?_, ?_, ?_, ?_⟩
  · rw [log]
    intro poll member
    rcases List.mem_cons.mp member with rfl | member
    · constructor
      · rw [slots, List.map_append, ← fair.slots_current]
        exact (List.append_nil _).symm
      · rw [slots, if_neg (by simp)]
        rfl
    · exact fair.regular _ (List.mem_cons_of_mem _ member)
  · rw [log]
  · rw [log]
    exact fair.finished
  · rw [log, deadline, fair.deadline_look]
    rfl

/-- The poll under way ends. -/
theorem answer (fair : PollsRegular x) {poll : Poll τ} (ended : poll.answer ≠ none)
    (regular : poll.Regular) (log : polls y.log = ⟨{}, poll :: (polls x.log).past⟩)
    (deadline : y.deadline = none) : PollsRegular y := by
  refine ⟨?_, ?_, ?_, ?_⟩
  · rw [log]
    intro other member
    rcases List.mem_cons.mp member with rfl | member
    · exact Poll.regular_new
    rcases List.mem_cons.mp member with rfl | member
    · exact regular
    · exact fair.regular _ (List.mem_cons_of_mem _ member)
  · rw [log]
  · rw [log]
    intro other member
    rcases List.mem_cons.mp member with rfl | member
    · exact ended
    · exact fair.finished _ member
  · rw [log, deadline]
    rfl

theorem step (step : Step x act y) (fair : PollsRegular x) : PollsRegular y := by
  by_cases takes : act = .take
  · subst takes
    have current := fair.regular _ List.mem_cons_self
    cases step with
    | idle => exact fair
    | emptied nothing =>
        refine fair.answer ?_ ⟨?_, ?_⟩ (polls_emptied x.log) rfl
        · nofun
        · exact fair.slots_current.trans (List.append_nil _).symm
        · exact current.looks
    | quitOut next =>
        have slots : QueueEntry.slots ((polls x.log).current.took ++ [.quit]) =
            QueueEntry.slots (polls x.log).current.took :=
          (QueueEntry.slots_append ..).trans (List.append_nil _)
        refine fair.answer ?_ ⟨?_, ?_⟩ (polls_quitOut x.log) rfl
        · nofun
        · rw [slots, if_pos rfl, ← fair.slots_current]
        · rw [slots]
          exact current.looks
    | slotOut next => exact fair.hold rfl rfl
  · obtain ⟨same, deadline, _⟩ := step.unpolled takes
    exact fair.still same deadline

end PollsRegular

/-! ### What is done at once -/

variable {x : Exchange τ} {k : Keystrokes τ}

/-- Where nothing is put, a put leaves everything as it is. -/
theorem put_of_offering_eq_nil (settled : offering k = []) : k.put = k := by
  unfold offering at settled
  cases turn : k.reader with
  | offering entry =>
      rw [turn] at settled
      dsimp only at settled
      split at settled
      · next waits =>
          rw [waits.1] at turn
          rw [Keystrokes.put, turn]
          exact if_neg waits.2
      · cases settled
  | _ => rw [Keystrokes.put, turn]

/-- After a put there is nothing left to put. -/
theorem offering_put (k : Keystrokes τ) : offering k.put = [] := by
  cases turn : k.reader with
  | offering entry =>
      cases entry with
      | slot slot =>
          rw [Keystrokes.put, turn]
          rfl
      | quit =>
          rw [Keystrokes.put, turn]
          by_cases room : k.hasRoom
          · rw [if_pos room]
            rfl
          · rw [if_neg room, offering, turn]
            exact if_pos ⟨rfl, room⟩
  | checking => rw [Keystrokes.put, turn, offering, turn]
  | receiving => rw [Keystrokes.put, turn, offering, turn]
  | ended => rw [Keystrokes.put, turn, offering, turn]

theorem check_of_ne (turn : k.reader ≠ .checking) : k.check = k := by
  cases reader : k.reader with
  | checking => exact absurd reader turn
  | _ => rw [Keystrokes.check, reader]

theorem reader_check (k : Keystrokes τ) : k.check.reader ≠ .checking := by
  cases turn : k.reader with
  | checking =>
      rw [Keystrokes.check, turn]
      cases k.stopped <;> simp
  | _ => simp [Keystrokes.check, turn]

theorem offering_check (settled : offering k = []) : offering k.check = [] := by
  cases turn : k.reader with
  | checking =>
      rw [Keystrokes.check, turn]
      cases k.stopped <;> rfl
  | _ => rwa [Keystrokes.check, turn]

theorem received_offering (k : Keystrokes τ) : received (offering k) = [] := by
  unfold offering
  cases k.reader with
  | offering entry =>
      dsimp only
      split <;> rfl
  | _ => rfl

theorem readAll_cons (k : Keystrokes τ) (char : Int) (rest : List Int) :
    k.readAll (char :: rest) =
      if k.check.reader = .receiving then
        match k.check.receive char with
        | .error fault => ⟨1, { k.check with reader := .ended }, some fault⟩
        | .ok after =>
            { after.put.readAll rest with count := (after.put.readAll rest).count + 1 }
      else ⟨0, k.check, none⟩ := by
  rw [Keystrokes.readAll]
  cases turn : k.check.reader <;> rfl

section Feeding

variable [Scalar τ]

theorem perform_put (settled : offering x.keystrokes = []) : x.perform .put = x := by
  rw [perform, settled, put_of_offering_eq_nil settled, List.append_nil]

/-- What a reader does with some characters. -/
def reading (chars : List Int) : List (Act τ) :=
  chars.flatMap fun char => [.check, .receive char, .put]

/-- A reader that has ended, or waits for room, reads nothing. -/
theorem performAll_reading_idle (idle : x.keystrokes.check = x.keystrokes)
    (turn : x.keystrokes.reader ≠ .receiving) (settled : offering x.keystrokes = [])
    (chars : List Int) : x.performAll (reading chars) = x := by
  induction chars with
  | nil => rfl
  | cons char rest ih =>
      have checks : x.perform .check = x := by rw [perform, idle]
      have receives : x.perform (.receive char) = x := by rw [perform, if_neg turn]
      calc x.performAll (reading (char :: rest))
          = (((x.perform .check).perform (.receive char)).perform .put).performAll
              (reading rest) := rfl
        _ = x := by rw [checks, receives, perform_put settled, ih]

/-- Some acts do what is read at once: those characters are received that the reader counts. -/
def ReadBy (acts : List (Act τ)) (x : Exchange τ) (chars : List Int) (after : Reading τ) : Prop :=
  ∃ events, x.performAll acts =
      { x with keystrokes := after.keystrokes, log := x.log ++ events } ∧
    received events = chars.take after.count

/-- **Reading is a run** of a reader that has nothing to put. -/
theorem readBy_reading (x : Exchange τ) (settled : offering x.keystrokes = []) (chars : List Int) :
    ReadBy (reading chars) x chars (x.keystrokes.readAll chars) := by
  induction chars generalizing x with
  | nil => exact ⟨[], by simp [reading, performAll, Keystrokes.readAll], rfl⟩
  | cons char rest ih =>
      have first : x.performAll (reading (char :: rest)) =
          ((({ x with keystrokes := x.keystrokes.check } : Exchange τ).perform
            (.receive char)).perform .put).performAll (reading rest) := rfl
      by_cases turn : x.keystrokes.check.reader = .receiving
      · cases got : x.keystrokes.check.receive char with
        | error fault =>
            refine ⟨[.received char], ?_, ?_⟩
            · rw [first, perform, if_pos turn, readAll_cons, if_pos turn]
              simp only [got]
              rw [perform_put rfl, performAll_reading_idle rfl (by simp) rfl]
            · rw [readAll_cons, if_pos turn]
              simp only [got]
              rfl
        | ok after =>
            obtain ⟨events, run, chars⟩ :=
              ih { x with
                keystrokes := after.put
                log := x.log ++ [.received char] ++ offering after } (offering_put after)
            refine ⟨.received char :: offering after ++ events, ?_, ?_⟩
            · rw [first, perform, if_pos turn, readAll_cons, if_pos turn]
              simp only [got]
              rw [perform, run]
              simp only [List.append_assoc, List.nil_append, List.cons_append]
            · rw [readAll_cons, if_pos turn]
              rw [← List.singleton_append, received_append, received_append, received_offering, chars]
              simp only [got]
              rfl
      · refine ⟨[], ?_, ?_⟩
        · have rests := performAll_reading_idle
            (x := { x with keystrokes := x.keystrokes.check })
            (check_of_ne (reader_check x.keystrokes)) turn (offering_check settled) rest
          rw [first, perform, if_neg turn, perform_put (offering_check settled), rests,
            readAll_cons, if_neg turn, List.append_nil]
        · rw [readAll_cons, if_neg turn]
          rfl

/-- What a reader does that is fed: one that waits for room tries again, another starts anew. -/
def feeding (chars : List Int) : List (Act τ) := .restart :: .put :: reading chars

/-- **Feeding is a run.** -/
theorem readBy_feeding (x : Exchange τ) (chars : List Int) :
    ReadBy (feeding chars) x chars (x.keystrokes.feed chars) := by
  have resumes : ∃ events, received events = [] ∧ (x.perform .restart).perform .put =
      { x with keystrokes := x.keystrokes.resume, log := x.log ++ events } := by
    cases turn : x.keystrokes.reader with
    | offering entry =>
        refine ⟨offering x.keystrokes, received_offering _, ?_⟩
        simp only [perform, turn, Keystrokes.resume]
    | _ =>
        refine ⟨[], rfl, ?_⟩
        simp [perform, turn, Keystrokes.resume, Keystrokes.put, offering]
  have settled : offering x.keystrokes.resume = [] := by
    cases turn : x.keystrokes.reader with
    | offering entry =>
        rw [Keystrokes.resume, turn]
        exact offering_put x.keystrokes
    | _ =>
        rw [Keystrokes.resume, turn]
        rfl
  obtain ⟨first, silent, resumed⟩ := resumes
  obtain ⟨events, run, chars'⟩ := readBy_reading
    { x with keystrokes := x.keystrokes.resume, log := x.log ++ first } settled chars
  refine ⟨first ++ events, ?_, ?_⟩
  · calc x.performAll (feeding chars)
        = ((x.perform .restart).perform .put).performAll (reading chars) := rfl
      _ = _ := by rw [resumed, run, ← List.append_assoc]; rfl
  · rw [received_append, silent, chars']
    rfl

end Feeding

section Polling

variable [Scalar τ]

/-- A poll holds the slot that comes out and goes on with the rest. -/
theorem drain_slot {slot : Digit} {rest : List QueueEntry} (next : k.queue = .slot slot :: rest)
    (now : τ) (entries : Nat) (deadline : Option τ) :
    Keystrokes.drain now (entries + 1) deadline k =
      Keystrokes.drain now entries (some (deadline.getD (now + Keystrokes.holdTime)))
        { k with
          queue := rest
          expiry := k.expiry.set slot.val (deadline.getD (now + Keystrokes.holdTime)) slot.below } := by
  rw [Keystrokes.drain, Keystrokes.take, next]

theorem drain_quit {rest : List QueueEntry} (next : k.queue = .quit :: rest) (now : τ)
    (entries : Nat) (deadline : Option τ) :
    Keystrokes.drain now (entries + 1) deadline k = (true, { k with queue := rest }) := by
  rw [Keystrokes.drain, Keystrokes.take, next]

/-- The poll under way runs to its end. -/
theorem performAll_drain (x : Exchange τ) {entries : Nat}
    (sized : x.keystrokes.queue.length = entries) :
    ∃ takes events poll, x.performAll (List.replicate takes .take) =
        { x with
          keystrokes := (Keystrokes.drain x.now entries x.deadline x.keystrokes).2
          deadline := none
          log := x.log ++ events } ∧
      polls (x.log ++ events) = ⟨{}, poll :: (polls x.log).past⟩ ∧
      poll.answer = some (Keystrokes.drain x.now entries x.deadline x.keystrokes).1 := by
  induction entries generalizing x with
  | zero =>
      have nothing := List.eq_nil_of_length_eq_zero sized
      exact ⟨1, [.answered false], _, take_nil nothing, polls_append .., rfl⟩
  | succ entries ih =>
      cases next : x.keystrokes.queue with
      | nil =>
          rw [next] at sized
          nomatch sized
      | cons entry rest =>
          rw [next] at sized
          have shorter : rest.length = entries := Nat.succ.inj sized
          cases entry with
          | quit =>
              refine ⟨1, [.took .quit, .answered true], _, ?_, polls_append .., ?_⟩
              · rw [drain_quit next]
                exact take_quit next
              · rw [drain_quit next]
          | slot slot =>
              obtain ⟨takes, events, poll, run, told, answer⟩ := ih (x.perform .take)
                (by rw [take_slot next]; exact shorter)
              have past : (polls (x.log ++ .took (.slot slot) :: looking x.deadline x.now)).past =
                  (polls x.log).past := by
                rw [polls_append]
                cases x.deadline <;> rfl
              rw [take_slot next] at run told answer
              dsimp only at run told answer
              refine ⟨takes + 1, .took (.slot slot) :: looking x.deadline x.now ++ events,
                poll, ?_, ?_, ?_⟩
              · calc x.performAll (List.replicate (takes + 1) .take)
                    = (x.perform .take).performAll (List.replicate takes .take) := rfl
                  _ = _ := by rw [take_slot next, run, drain_slot next, List.append_assoc]
              · rw [← List.append_assoc, told, past]
              · rw [drain_slot next, answer]

/-- Takes do what a poll does at once, and the log tells of one poll more, which answers what it
returns. -/
def PolledByTakes (x : Exchange τ) : Prop :=
  ∃ takes events poll, x.performAll (List.replicate takes .take) =
      { x with keystrokes := (x.keystrokes.poll x.now).2, log := x.log ++ events } ∧
    polls (x.log ++ events) = ⟨{}, poll :: (polls x.log).past⟩ ∧
    poll.answer = some (x.keystrokes.poll x.now).1

/-- **A poll is a run** if no other is under way. -/
theorem polledByTakes (x : Exchange τ) (fresh : x.deadline = none) : PolledByTakes x := by
  obtain ⟨takes, events, poll, run⟩ := performAll_drain x rfl
  rw [fresh] at run
  exact ⟨takes, events, poll, fresh ▸ run⟩

end Polling

end Chip8.Exchange
