import Chip8.Proofs.Polling
import Mathlib.Data.Rat.Defs
import Mathlib.Tactic.NormNum

/-!
Which keys of a terminal are down.

A terminal does not tell of releases, so a slot stays down for a fifth of a second. What counts is
not when its character arrived but when the last poll that took the slot out looked at the clock
(`Exchange.Expires`), and that it did once for all the slots that it took out. Slots behind the wish
to quit wait for a later poll (`Exchange.poll_slots`).

Over the rationals this says exactly when a slot is down, however the clock is set, back as well
(`Exchange.keys_held_since_last_poll`).
-/

namespace Chip8.Exchange

open QueueEntry

variable {τ : Type}

/-! ### The last poll that took a slot out -/

/-- The last poll, of those given with the last one first, that took a slot out. -/
def lastPoll (slot : Digit) (polls : List (Poll τ)) : Option (Poll τ) :=
  polls.find? fun poll => .slot slot ∈ poll.took

theorem of_lastPoll_eq_some {slot : Digit} {polls : List (Poll τ)} {poll : Poll τ}
    (last : lastPoll slot polls = some poll) : poll ∈ polls ∧ .slot slot ∈ poll.took := by
  refine ⟨List.mem_of_find?_eq_some last, ?_⟩
  have took := List.find?_some last
  exact of_decide_eq_true took

/-- When that poll looked at the clock. -/
def lastLook (slot : Digit) (polls : List (Poll τ)) : Option τ :=
  (lastPoll slot polls).bind (·.looks.head?)

theorem lastLook_cons (slot : Digit) (poll : Poll τ) (earlier : List (Poll τ)) :
    lastLook slot (poll :: earlier) =
      if .slot slot ∈ poll.took then poll.looks.head? else lastLook slot earlier := by
  rw [lastLook, lastPoll, List.find?_cons]
  by_cases took : QueueEntry.slot slot ∈ poll.took
  · rw [if_pos took, decide_eq_true took]
    rfl
  · rw [if_neg took, decide_eq_false took]
    rfl

/-- When the poll under way ends, it stays the one that took what it took. -/
theorem lastLook_answered {slot : Digit} {polls : Polls τ} {poll : Poll τ}
    (looks : poll.looks = polls.current.looks)
    (took : .slot slot ∈ poll.took ↔ .slot slot ∈ polls.current.took) :
    lastLook slot (Polls.all ⟨{}, poll :: polls.past⟩) = lastLook slot polls.all := by
  rw [Polls.all, Polls.all, lastLook_cons, if_neg (by simp), lastLook_cons, lastLook_cons, looks]
  simp only [took]

variable [Scalar τ]

/-- Every slot stays down for a fixed time after the last poll that took it out has looked at the
clock. One that never came out is down before the beginning of time only. -/
def Expires (x : Exchange τ) : Prop :=
  ∀ slot, x.keystrokes.expiry.get slot =
    (lastLook slot (polls x.log).all).elim (Scalar.ofNat 0) (· + Keystrokes.holdTime)

namespace Expires

variable {x y : Exchange τ} {act : Act τ}

theorem start (keymap : Keymap) (now : τ) : Expires (start keymap now) :=
  fun _ => Vector.getElem_replicate _

theorem still (expires : Expires x) (same : y.keystrokes.expiry = x.keystrokes.expiry)
    (looks : ∀ slot, lastLook slot (polls y.log).all = lastLook slot (polls x.log).all) :
    Expires y := fun slot => by rw [same, looks, expires slot]

theorem last (expires : Expires x) {slot : Digit} {poll : Poll τ} {time : τ}
    (last : lastPoll slot (polls x.log).all = some poll) (looks : poll.looks = [time]) :
    x.keystrokes.expiry.get slot = time + Keystrokes.holdTime := by
  rw [expires slot, lastLook, last, Option.bind_some, looks]
  rfl

/-- A slot comes out. -/
theorem slotOut (fair : PollsRegular x) (expires : Expires x) {out : Digit}
    (log : y.log = x.log ++ .took (.slot out) :: looking x.deadline x.now)
    (expiry : y.keystrokes.expiry = x.keystrokes.expiry.set out.val
      (x.deadline.getD (x.now + Keystrokes.holdTime)) out.below) : Expires y := by
  intro slot
  rw [log, fair.polls_slotOut out, Polls.all, lastLook_cons, expiry, Digit.get_set,
    fair.deadline_look]
  by_cases same : out = slot
  · rw [if_pos same, if_pos (by simp [same])]
    rfl
  rw [if_neg same, expires slot, Polls.all, lastLook_cons]
  by_cases took : QueueEntry.slot slot ∈ (polls x.log).current.took
  · -- The poll has taken this slot out before, so it has looked at the clock.
    obtain ⟨time, looks⟩ := (fair.regular _ List.mem_cons_self).looked took
    have looked : (polls x.log).current.looks.head? = some (PollsRegular.look x) := by
      rw [PollsRegular.look, looks]
      rfl
    rw [if_pos took, if_pos (List.mem_append_left _ took), looked]
    rfl
  · have untook : QueueEntry.slot slot ∉ (polls x.log).current.took ++ [.slot out] := by
      simpa [took] using Ne.symm same
    rw [if_neg took, if_neg untook]

theorem step (step : Step x act y) (fair : PollsRegular x) (expires : Expires x) : Expires y := by
  by_cases takes : act = .take
  · subst takes
    cases step with
    | idle => exact expires
    | emptied =>
        exact expires.still rfl fun slot => by
          rw [polls_emptied]
          exact lastLook_answered rfl Iff.rfl
    | quitOut =>
        exact expires.still rfl fun slot => by
          rw [polls_quitOut]
          exact lastLook_answered rfl (by simp)
    | slotOut => exact slotOut fair expires rfl rfl
  · obtain ⟨same, _, expiry⟩ := step.unpolled takes
    exact expires.still expiry fun slot => by rw [same]

end Expires

/-! ### A poll that nothing comes in between -/

/-- Nothing, or the wish to quit and what is behind it. -/
def EndsPoll (tail : List QueueEntry) : Prop := tail = [] ∨ ∃ rest, tail = .quit :: rest

/-- Some slots expire at a deadline, and the others when they did before. -/
def Holds (keys : List Digit) (deadline : τ) (before after : Vector τ 16) : Prop :=
  ∀ slot, (slot ∈ keys → after.get slot = deadline) ∧
    (slot ∉ keys → after.get slot = before.get slot)

omit [Scalar τ] in
/-- A slot more is held. -/
theorem Holds.cons {key : Digit} {keys : List Digit} {deadline : τ} {before after : Vector τ 16}
    (holds : Holds keys deadline (before.set key.val deadline key.below) after) :
    Holds (key :: keys) deadline before after := by
  intro slot
  obtain ⟨held, others⟩ := holds slot
  rw [Digit.get_set] at others
  constructor
  · intro member
    by_cases later : slot ∈ keys
    · exact held later
    · rw [others later, if_pos ((List.mem_cons.mp member).resolve_right later).symm]
  · intro other
    obtain ⟨differs, notLater⟩ := not_or.mp (mt List.mem_cons.mpr other)
    rw [others notLater, if_neg (Ne.symm differs)]

/-- The slots before the wish to quit are held up to the deadline, and the rest stays. -/
theorem drain_slots {now : τ} {keys : List Digit} {tail : List QueueEntry} (ends : EndsPoll tail)
    {k : Keystrokes τ} (deadline : Option τ) (queue : k.queue = keys.map .slot ++ tail) :
    let after := Keystrokes.drain now k.queue.length deadline k
    (after.1 = true ↔ tail ≠ []) ∧ after.2.queue = tail.tail ∧
      Holds keys (deadline.getD (now + Keystrokes.holdTime)) k.expiry after.2.expiry := by
  induction keys generalizing k deadline with
  | nil =>
      have none {deadline : τ} : Holds [] deadline k.expiry k.expiry :=
        fun slot => ⟨fun member => absurd member List.not_mem_nil, fun _ => rfl⟩
      rcases ends with rfl | ⟨rest, rfl⟩
      · rw [queue]
        exact ⟨by simp [Keystrokes.drain], queue, none⟩
      · rw [queue, List.map_nil, List.nil_append, List.length_cons, drain_quit queue]
        exact ⟨by simp, rfl, none⟩
  | cons key keys ih =>
      have next : k.queue = .slot key :: (keys.map .slot ++ tail) := queue
      have size : k.queue.length = (keys.map QueueEntry.slot ++ tail).length + 1 := by rw [next]; rfl
      obtain ⟨answer, left, holds⟩ := ih (some (deadline.getD (now + Keystrokes.holdTime)))
        (k := { k with
          queue := keys.map .slot ++ tail
          expiry := k.expiry.set key.val (deadline.getD (now + Keystrokes.holdTime)) key.below }) rfl
      rw [size, drain_slot next]
      exact ⟨answer, left, holds.cons⟩

/-- A poll at once. -/
theorem poll_slots {k : Keystrokes τ} {keys : List Digit} {tail : List QueueEntry}
    (ends : EndsPoll tail) (queue : k.queue = keys.map .slot ++ tail) (now : τ) :
    ((k.poll now).1 = true ↔ tail ≠ []) ∧ (k.poll now).2.queue = tail.tail ∧
      Holds keys (now + Keystrokes.holdTime) k.expiry (k.poll now).2.expiry :=
  drain_slots ends none queue

/-! ### The clock -/

/-- Only a poll's first slot makes it look at the clock. -/
theorem take_timeless {x : Exchange τ}
    (needless : x.deadline ≠ none ∨ ∀ slot rest, x.keystrokes.queue ≠ .slot slot :: rest)
    (now : τ) :
    (({ x with now } : Exchange τ).perform .take).keystrokes = (x.perform .take).keystrokes := by
  cases next : x.keystrokes.queue with
  | nil => rw [take_nil (x := { x with now }) next, take_nil next]
  | cons entry rest =>
      cases entry with
      | quit => rw [take_quit (x := { x with now }) next, take_quit next]
      | slot slot =>
          have under := needless.resolve_right fun none => none slot rest next
          obtain ⟨deadline, due⟩ := Option.ne_none_iff_exists'.mp under
          rw [take_slot (x := { x with now }) next, take_slot next]
          simp only [due, Option.getD_some]

/-! ### Keys that are down -/

theorem getElem?_keyStates (k : Keystrokes τ) (now : τ) (slot : Digit) :
    (k.keyStates now)[slot.val]? = some (Scalar.less now (k.expiry.get slot)) := by
  have sized : slot.val < k.expiry.toList.length := by simp
  rw [Keystrokes.keyStates, List.getElem?_map, List.getElem?_eq_getElem sized]
  rfl

theorem holdTime_eq : (Keystrokes.holdTime : Rat) = 1 / 5 := by
  norm_num [Keystrokes.holdTime, Scalar.ofNat]

/-- Which keys are held, and how polls come to it. -/
structure HoldsKeys (x : Exchange Rat) : Prop where
  /-- A slot is down for a fifth of a second after the last poll that took it out has looked at
  the clock. -/
  down : ∀ slot, (x.keystrokes.keyStates x.now)[slot.val]? = some true ↔
    (∃ poll time, lastPoll slot (polls x.log).all = some poll ∧ poll.looks = [time] ∧
      x.now < time + 1 / 5) ∨
    (lastPoll slot (polls x.log).all = none ∧ x.now < 0)
  /-- A poll looks at the clock once, if it takes out any slot. -/
  looks : ∀ poll ∈ (polls x.log).all,
    (slots poll.took = [] → poll.looks = []) ∧ (slots poll.took ≠ [] → ∃ time, poll.looks = [time])
  /-- So all slots that it takes out expire together. -/
  together : ∀ slot poll time, lastPoll slot (polls x.log).all = some poll → poll.looks = [time] →
    x.keystrokes.expiry.get slot = time + 1 / 5
  /-- Without that look, what is taken out next does not depend on the clock. -/
  timeless : x.deadline ≠ none ∨ (∀ slot rest, x.keystrokes.queue ≠ .slot slot :: rest) → ∀ now,
    (({ x with now } : Exchange Rat).perform .take).keystrokes = (x.perform .take).keystrokes
  /-- Entries come out in the order in which they were put, and no poll takes any behind the wish to
  quit. -/
  behind : (polls x.log).all.reverse.flatMap (·.took) ++ x.keystrokes.queue = accepted x.log ∧
    ∀ poll ∈ (polls x.log).all, QuitIsLast poll.took
  /-- A poll at once. -/
  atOnce : ∀ (keys : List Digit) tail, EndsPoll tail → x.keystrokes.queue = keys.map .slot ++ tail →
    ((x.keystrokes.poll x.now).1 = true ↔ tail ≠ []) ∧
      (x.keystrokes.poll x.now).2.queue = tail.tail ∧
        Holds keys (x.now + 1 / 5) x.keystrokes.expiry (x.keystrokes.poll x.now).2.expiry
  /-- What is fed or polled at once is such a run. -/
  fed : ∀ chars, ReadBy (feeding chars) x chars (x.keystrokes.feed chars)
  polled : x.deadline = none → PolledByTakes x

/-- **Keys are held since the last poll that saw them.** This holds after any acts, also if the
reader starts anew and the clock goes back. -/
theorem keys_held_since_last_poll (keymap : Keymap) (now : Rat) (acts : List (Act Rat)) :
    HoldsKeys ((start keymap now).performAll acts) := by
  have held : PollsRegular ((start keymap now).performAll acts) ∧
      Expires ((start keymap now).performAll acts) := by
    refine performAll_keeps (P := fun x => PollsRegular x ∧ Expires x) ?_
      ⟨PollsRegular.start keymap now, Expires.start keymap now⟩
    rintro x act y _ step ⟨fair, expires⟩
    exact ⟨fair.step step, expires.step step fair⟩
  have inOrder : FirstInFirstOut ((start keymap now).performAll acts) :=
    performAll_keeps (fun _ => FirstInFirstOut.step) (firstInFirstOut_start keymap now)
  generalize (start keymap now).performAll acts = x at *
  obtain ⟨fair, expires⟩ := held
  refine
    { down := fun slot => ?_
      looks := fun poll member => ?_
      together := fun slot poll time last looks => ?_
      timeless := take_timeless
      behind := ⟨?_, fun poll member => (fair.regular poll member).quitIsLast⟩
      atOnce := fun keys tail ends queue => ?_
      fed := readBy_feeding x
      polled := polledByTakes x }
  · rw [getElem?_keyStates, Option.some.injEq]
    change decide (x.now < _) = true ↔ _
    rw [decide_eq_true_eq]
    cases last : lastPoll slot (polls x.log).all with
    | none =>
        have never : x.keystrokes.expiry.get slot = 0 := by
          rw [expires slot, lastLook, last]
          rfl
        simp [never]
    | some poll =>
        obtain ⟨member, took⟩ := of_lastPoll_eq_some last
        obtain ⟨time, looks⟩ := (fair.regular poll member).looked took
        rw [expires.last last looks, holdTime_eq]
        simp [looks]
  · have looks := (fair.regular poll member).looks
    constructor
    · intro none
      rw [if_pos none] at looks
      exact List.eq_nil_of_length_eq_zero looks
    · intro some
      rw [if_neg some] at looks
      exact List.length_eq_one_iff.mp looks
  · rw [← holdTime_eq]
    exact expires.last last looks
  · rw [flatMap_took, inOrder.ordered]
  · rw [← holdTime_eq]
    exact poll_slots ends queue x.now

/-- A key is held until a fifth of a second has gone by, and again if the clock is set back. -/
example :
    let pressed := (start { bindings := [(49, 1)] } (0 : Rat)).performAll (reading [49] ++ [.take])
    [1 / 10, 1 / 5, 0].map (fun now => (pressed.keystrokes.keyStates now)[1]?) =
      [some true, some false, some true] := by
  decide +kernel

end Chip8.Exchange
