import Chip8.Proofs.Protocol

/-!
How fast the timers run.

A tick is due a sixtieth of a second after the pass that made the last one began, and a pass makes one
tick at most (`Host.RoundTo.timer`). So the timers never run faster than at sixty ticks per second, but
what a tick is late by is not made up for: they run slower the longer the passes are
(`Host.Rounds.timer_rate`). On a clock that is read 64 times a second, they miss the third tick
(`Host.late_tick_is_lost`).
-/

namespace Chip8

variable {τ : Type}

/-! ### Times of rounds -/

theorem Clock.Awaits.reading [Scalar τ] {deadline : τ} {clock after : Clock τ}
    (awaits : Clock.Awaits deadline clock after) :
    after.reading = clock.reading ∧ clock.reads < after.reads := by
  induction awaits with
  | reached read late =>
      obtain ⟨_, reading, reads, _⟩ := Clock.reading_of_read read
      exact ⟨reading, by omega⟩
  | again read early rest ih =>
      obtain ⟨_, reading, reads, _⟩ := Clock.reading_of_read read
      exact ⟨ih.1.trans reading, by omega⟩

namespace Host

theorem RoundTo.reading [Scalar τ] {h h' : Host τ} {round : Round τ} (goes : RoundTo h round h') :
    round.now = h.clock.reading h.clock.reads ∧ h'.clock.reading = h.clock.reading ∧
      h.clock.reads < h'.clock.reads := by
  obtain ⟨clock, read, waited⟩ := goes.clock
  obtain ⟨now, reading, reads, _⟩ := Clock.reading_of_read read
  rcases waited with ⟨_, same⟩ | ⟨_, _, awaits⟩
  · rw [same]
    exact ⟨now, reading, by omega⟩
  · obtain ⟨reading', reads'⟩ := awaits.reading
    exact ⟨now, reading'.trans reading, by omega⟩

/-- Rounds begin at times that the clock shows, one after the other. -/
theorem Rounds.reading [Scalar τ] {h h' : Host τ} {rounds : List (Round τ)}
    (goes : Rounds h rounds h') {round : Round τ} (member : round ∈ rounds) :
    ∃ k, h.clock.reads ≤ k ∧ round.now = h.clock.reading k := by
  induction goes with
  | nil h => cases member
  | cons first later ih =>
      obtain ⟨now, reading, reads⟩ := first.reading
      rcases List.mem_cons.mp member with rfl | member
      · exact ⟨_, Nat.le_refl _, now⟩
      · obtain ⟨k, further, now⟩ := ih member
        exact ⟨k, by omega, reading ▸ now⟩

/-- On a clock that does not go back, no round begins before an earlier one. -/
theorem Rounds.ordered {h h' : Host Rat} {rounds : List (Round Rat)} (goes : Rounds h rounds h')
    (forward : ∀ i j, i ≤ j → h.clock.reading i ≤ h.clock.reading j) :
    rounds.Pairwise fun earlier later => earlier.now ≤ later.now := by
  induction goes with
  | nil h => exact .nil
  | cons first later ih =>
      obtain ⟨now, reading, reads⟩ := first.reading
      refine .cons (fun round member => ?_) (ih fun i j below => reading ▸ forward i j below)
      obtain ⟨k, further, now'⟩ := later.reading member
      rw [now, now', reading]
      exact forward _ _ (by omega)

/-- Rounds in order begin no later than the last of them. -/
theorem latest_of_ordered {rounds : List (Round Rat)} {last : Round Rat}
    (ordered : rounds.Pairwise fun earlier later => earlier.now ≤ later.now)
    (stops : rounds.getLast? = some last) : ∀ round ∈ rounds, round.now ≤ last.now := by
  obtain ⟨before, rfl⟩ := List.getLast?_eq_some_iff.mp stops
  intro round member
  rcases List.mem_append.mp member with inside | final
  · exact (List.pairwise_append.mp ordered).2.2 round inside last (List.mem_singleton.mpr rfl)
  · obtain rfl := List.mem_singleton.mp final
    exact Rat.le_refl

/-! ### Ticks -/

/-- The number of ticks in rounds. -/
def ticks (rounds : List (Round τ)) : Nat := rounds.countP (·.buzzer.isSome)

theorem ticks_nil : ticks ([] : List (Round τ)) = 0 := rfl

theorem ticks_cons (round : Round τ) (rest : List (Round τ)) :
    ticks (round :: rest) = ticks rest + if round.buzzer.isSome then 1 else 0 :=
  List.countP_cons

/-! ### What the journal tells -/

/-- The time that a pass begins at. -/
def beginning? : Event τ → Option τ
  | .began now => some now
  | _ => none

def isTick : Event τ → Bool
  | .buzzer _ => true
  | _ => false

theorem filterMap_beginning? (rounds : List (Round τ)) :
    (rounds.flatMap Round.events).filterMap beginning? = rounds.map (·.now) := by
  induction rounds with
  | nil => rfl
  | cons round rest ih =>
      have now : round.events.filterMap beginning? = [round.now] := by
        obtain ⟨now, title, drew, keys, buzzer⟩ := round
        cases title <;> cases drew <;> cases buzzer <;> rfl
      rw [List.flatMap_cons, List.filterMap_append, now, ih]
      rfl

theorem countP_isTick (rounds : List (Round τ)) :
    (rounds.flatMap Round.events).countP isTick = ticks rounds := by
  induction rounds with
  | nil => rfl
  | cons round rest ih =>
      have tick : round.events.countP isTick = if round.buzzer.isSome then 1 else 0 := by
        obtain ⟨now, title, drew, keys, buzzer⟩ := round
        cases title <;> cases drew <;> cases buzzer <;> rfl
      rw [List.flatMap_cons, List.countP_append, tick, ih, ticks_cons, Nat.add_comm]

variable {h h' : Host Rat} {round : Round Rat} {rounds : List (Round Rat)}

theorem nextTimer_ticked (now : Rat) (h : Host Rat) : (h.ticked now).nextTimer = now + 1 / 60 := by
  have interval : (timerInterval : Rat) = 1 / 60 := by decide +kernel
  exact congrArg (now + ·) interval

/-- A round makes a tick if that is due when it begins. The next one is due a sixtieth of a second
after that. -/
theorem RoundTo.timer (goes : RoundTo h round h') :
    (h.nextTimer ≤ round.now ∧ round.buzzer.isSome = true ∧ h'.nextTimer = round.now + 1 / 60) ∨
      (round.now < h.nextTimer ∧ round.buzzer.isSome = false ∧ h'.nextTimer = h.nextTimer) := by
  cases goes with
  | @round now _ _ _ _ _ _ _ stepped ticked waited read reports polls steps ticks waits =>
      have before : stepped.nextTimer = h.nextTimer := by
        cases reports <;> cases polls <;> cases steps <;> rfl
      have after : waited.nextTimer = ticked.nextTimer := by cases waits <;> rfl
      cases ticks with
      | early early =>
          have late : ¬ stepped.nextTimer ≤ now := of_decide_eq_false early
          rw [before] at late
          exact .inr ⟨Rat.not_le.mp late, rfl, after.trans before⟩
      | due due =>
          have late : stepped.nextTimer ≤ now := of_decide_eq_true due
          rw [before] at late
          exact .inl ⟨late, rfl, after.trans (nextTimer_ticked now stepped)⟩

/-- Each tick puts the next one off by a sixtieth of a second at least. -/
theorem Rounds.nextTimer_ge (goes : Rounds h rounds h') :
    h.nextTimer + (ticks rounds : Rat) / 60 ≤ h'.nextTimer := by
  induction goes with
  | nil h =>
      rw [ticks_nil]
      grind
  | cons first later ih =>
      rw [ticks_cons]
      rcases first.timer with ⟨due, ticks, next⟩ | ⟨_, none, same⟩
      · rw [ticks, if_pos rfl]
        grind
      · rw [none, if_neg (by simp), Nat.add_zero, ← same]
        exact ih

/-- No tick is put off beyond a sixtieth of a second from the last round. -/
theorem Rounds.nextTimer_le (goes : Rounds h rounds h') {latest : Rat}
    (before : ∀ round ∈ rounds, round.now ≤ latest) (next : h.nextTimer ≤ latest + 1 / 60) :
    h'.nextTimer ≤ latest + 1 / 60 := by
  induction goes with
  | nil h => exact next
  | @cons h between h' round rest first later ih =>
      have now := before round (List.mem_cons_self ..)
      refine ih (fun round member => before round (List.mem_cons_of_mem _ member)) ?_
      rcases first.timer with ⟨_, _, next'⟩ | ⟨_, _, same⟩
      · rw [next']
        grind
      · rw [same]
        exact next

/-- If rounds begin within `pace` of one another, a tick is put off by less than that more than it has
to be. -/
theorem Rounds.lt_nextTimer (goes : Rounds h rounds h') {pace earlier : Rat}
    (paced : (earlier :: rounds.map (·.now)).IsChain fun t t' => t' ≤ t + pace)
    (waits : earlier < h.nextTimer) :
    (rounds.map (·.now)).getLastD earlier < h'.nextTimer ∧
      h'.nextTimer ≤ h.nextTimer + ticks rounds * (1 / 60 + pace) := by
  induction goes generalizing earlier with
  | nil h =>
      rw [ticks_nil]
      exact ⟨waits, by grind⟩
  | @cons h between h' round rest first later ih =>
      rw [List.map_cons, List.isChain_cons_cons] at paced
      rw [List.map_cons, List.getLastD_cons, ticks_cons]
      rcases first.timer with ⟨due, ticked, next⟩ | ⟨early, none, same⟩
      · obtain ⟨last, bound⟩ := ih paced.2 (by grind)
        rw [ticked, if_pos rfl]
        refine ⟨last, ?_⟩
        grind
      · obtain ⟨last, bound⟩ := ih paced.2 (by grind)
        rw [none, if_neg (by simp), Nat.add_zero, ← same]
        exact ⟨last, bound⟩

/-- **The timers run at sixty ticks per second at most.** The first round from a fresh host on makes a
tick, and all rounds together make no more ticks after that than sixty per second, from the beginning of
the first to that of the last. They make fewer the longer they take: if they begin within `pace` of one
another, each tick is less than `pace` late, and the next one is due a sixtieth of a second after it. -/
theorem Rounds.timer_rate {first last : Round Rat} (goes : Rounds h rounds h')
    (fresh : h.nextTimer = 0) (nonneg : ∀ k, 0 ≤ h.clock.reading k)
    (forward : ∀ i j, i ≤ j → h.clock.reading i ≤ h.clock.reading j)
    (starts : rounds.head? = some first) (stops : rounds.getLast? = some last) :
    (ticks rounds : Int) ≤ 1 + (60 * (last.now - first.now)).floor ∧
      ∀ pace : Rat, (rounds.map (·.now)).IsChain (fun t t' => t' ≤ t + pace) →
        last.now - first.now < 1 / 60 + (ticks rounds - 1) * (1 / 60 + pace) := by
  have latest := latest_of_ordered (goes.ordered forward) stops
  cases goes with
  | nil => cases starts
  | @cons _ between _ _ rest first' later =>
      cases starts
      have now : 0 ≤ first.now := first'.reading.1 ▸ nonneg _
      have starts : first.now ≤ last.now := latest first (List.mem_cons_self ..)
      rcases first'.timer with ⟨_, ticked, next⟩ | ⟨early, _, _⟩
      · rw [ticks_cons, ticked, if_pos rfl]
        constructor
        · have least := later.nextTimer_ge
          have before : ∀ round ∈ rest, round.now ≤ last.now := fun round member =>
            latest round (List.mem_cons_of_mem _ member)
          have most := later.nextTimer_le before (by grind)
          have within : ((ticks rest : Int) : Rat) ≤ 60 * (last.now - first.now) := by
            rw [Rat.intCast_natCast]
            grind
          have := Rat.le_floor_iff.mpr within
          omega
        · intro pace paced
          have final : (rest.map (·.now)).getLastD first.now = last.now := by
            have final := congrArg (Option.map (·.now)) stops
            rw [← List.getLast?_map, List.map_cons, List.getLast?_cons,
              ← List.getLastD_eq_getLast?] at final
            exact Option.some.inj final
          obtain ⟨least, most⟩ := later.lt_nextTimer paced (by grind)
          rw [final] at least
          grind
      · grind

/-- Four rounds begin a sixty-fourth of a second after one another. Sixty times the time that they take
is more than two, but only the third one makes a tick after the first: that tick is late, and the next
one is late as well. -/
theorem late_tick_is_lost :
    ∃ (h h' : Host Rat) (rounds : List (Round Rat)) (first last : Round Rat), Rounds h rounds h' ∧
      h.nextTimer = 0 ∧ (∀ k, h.clock.reading k = k / 64) ∧
      rounds.head? = some first ∧ rounds.getLast? = some last ∧
      ticks rounds = 2 ∧ 1 + (60 * (last.now - first.now)).floor = 3 ∧
      last.now - first.now < 1 / 60 + (1 / 60 + 1 / 64) := by
  let machine := (Machine.create false false (.cycle #[])).performAll
    [.load [0x60, 0x0A, 0xF0, 0x15, 0x12, 0x04]]
  let blank := { machine with screen := { machine.screen with changed := false } }
  let host : Host Rat :=
    { idle ⟨blank, { scale := 1, surface := .headless }, []⟩ 4 with
      clock := { reading := fun k => k / 64, remaining := 4 } }
  obtain ⟨h', ends, times, ticked⟩ : ∃ h' : Host Rat, (run (some 4)).run host = .ok 4 h' ∧
      h'.journal.filterMap beginning? = [3 / 64, 2 / 64, 1 / 64, 0] ∧
      h'.journal.countP isTick = 2 := by
    have told : (run (some 4)).run' host = some 4 ∧
        (after (run (some 4)) host).journal.filterMap beginning? = [3 / 64, 2 / 64, 1 / 64, 0] ∧
        (after (run (some 4)) host).journal.countP isTick = 2 := by decide +kernel
    exact ⟨_, run_of_run' told.1, told.2⟩
  obtain ⟨rounds, between, farewell, left, goes, leaves, total, getsTo, faultless, rfl⟩ :=
    run_ok_iff.mp ends
  cases leaves with
  | quit quits => exact absurd getsTo (Int.lt_irrefl 4)
  | done =>
      have told : between.journal = (rounds.flatMap Round.events).reverse :=
        goes.did.journal.trans (List.append_nil _)
      rw [drawn_journal, told, List.filterMap_cons_none rfl, List.filterMap_reverse,
        filterMap_beginning?, List.reverse_eq_iff] at times
      rw [drawn_journal, told, List.countP_cons_of_neg (by simp [isTick]), List.countP_reverse,
        countP_isTick] at ticked
      have nonneg (k : Nat) : (0 : Rat) ≤ k / 64 := by
        have : (0 : Rat) ≤ k := Rat.natCast_nonneg
        grind
      have forward (i j : Nat) (below : i ≤ j) : (i : Rat) / 64 ≤ j / 64 := by
        have : (i : Rat) ≤ j := Rat.natCast_le_natCast.mpr below
        grind
      obtain ⟨first, second, third, last, rfl⟩ :
          ∃ first second third last, rounds = [first, second, third, last] := by
        obtain ⟨first, _, rfl, _, times⟩ := List.map_eq_cons_iff.mp times
        obtain ⟨second, _, rfl, _, times⟩ := List.map_eq_cons_iff.mp times
        obtain ⟨third, _, rfl, _, times⟩ := List.map_eq_cons_iff.mp times
        obtain ⟨last, _, rfl, _, times⟩ := List.map_eq_cons_iff.mp times
        exact ⟨first, second, third, last, by rw [List.map_eq_nil_iff.mp times]⟩
      obtain ⟨_, least⟩ := goes.timer_rate rfl nonneg forward rfl rfl
      have paced := least (1 / 64) (by rw [times]; decide +kernel)
      rw [ticked] at paced
      obtain ⟨begins, _, _, ends'⟩ : first.now = 0 ∧ second.now = 1 / 64 ∧ third.now = 2 / 64 ∧
          last.now = 3 / 64 := by simpa using times
      refine ⟨host, between, _, first, last, goes, rfl, fun _ => rfl, rfl, rfl, ticked, ?_, ?_⟩
      · rw [begins, ends']
        decide +kernel
      · grind

end Host
end Chip8
