import Chip8.Proofs.Moves
import Chip8.Proofs.TimerRate

/-!
How close passes come to one another.

A host keeps two deadlines: no tick is made, and no poll after one that did not ask to quit, before
a sixtieth of a second has passed since the pass of the last one began (`Host.Paced`). This holds
for all passes of all runs on a host, whatever the clock shows and however the runs end, because
each move keeps it (`Host.Paced.move`). The wait at the end of a pass is another matter: a clock
that goes back ends it too early for the next pass, and nobody waits between two runs. But within
one run, on a clock that does not go back, passes begin at least as far apart as the speed says
(`Host.Strides`), so there is a limit to the instructions in any stretch of time
(`Host.runs_keep_rate_limits`).
-/

namespace Chip8

variable {τ : Type}

/-! ### Times that are far enough apart -/

section Spacing

variable {gap start length : Rat} {time : Rat} {times : List Rat}

/-- Behind the earliest of some times there is a gap for each of the others. -/
theorem add_length_mul_le
    (apart : (time :: times).Pairwise fun later earlier => earlier + gap ≤ later)
    (within : ∀ time' ∈ time :: times, start ≤ time') : start + times.length * gap ≤ time := by
  induction times generalizing time with
  | nil =>
      have least := within time List.mem_cons_self
      rw [List.length_nil]
      grind
  | cons next rest ih =>
      obtain ⟨first, apart'⟩ := List.pairwise_cons.mp apart
      have wait := first next List.mem_cons_self
      have least := ih apart' fun time' member => within time' (List.mem_cons_of_mem _ member)
      rw [List.length_cons]
      grind

theorem le_mul_of_mul_one_div_le {frequency count : Rat} (positive : 0 < frequency)
    (gaps : count * (1 / frequency) ≤ length) : count ≤ frequency * length := by
  have scaled := Rat.mul_le_mul_of_nonneg_left gaps (Rat.le_of_lt positive)
  have whole : frequency * (count * (1 / frequency)) = count := by grind
  rwa [whole] at scaled

/-- Of times that are a period apart, a stretch holds one more than it has periods. -/
theorem countP_le_of_pairwise {frequency : Rat} (positive : 0 < frequency) (lasts : 0 ≤ length)
    (apart : times.Pairwise fun later earlier => earlier + 1 / frequency ≤ later) :
    (times.countP (fun time => start ≤ time ∧ time ≤ start + length) : Int) ≤
      1 + (frequency * length).floor := by
  rw [List.countP_eq_length_filter]
  have within : ∀ time ∈ times.filter (fun time => start ≤ time ∧ time ≤ start + length),
      start ≤ time ∧ time ≤ start + length :=
    fun time member => of_decide_eq_true (List.mem_filter.mp member).2
  have apart' := apart.filter fun time => decide (start ≤ time ∧ time ≤ start + length)
  cases inside : times.filter fun time => start ≤ time ∧ time ≤ start + length with
  | nil =>
      have nonneg : ((0 : Int) : Rat) ≤ frequency * length :=
        Rat.mul_nonneg (Rat.le_of_lt positive) lasts
      have := Rat.le_floor_iff.mpr nonneg
      simp only [List.length_nil]
      omega
  | cons time rest =>
      rw [inside] at within apart'
      have least := add_length_mul_le apart' fun time' member => (within time' member).1
      have most := (within time List.mem_cons_self).2
      have periods : ((rest.length : Int) : Rat) ≤ frequency * length := by
        rw [Rat.intCast_natCast]
        exact le_mul_of_mul_one_div_le positive (by grind)
      have := Rat.le_floor_iff.mpr periods
      rw [List.length_cons]
      omega

end Spacing

/-! ### Journals with times -/

/-- The time at which the last pass of a journal began; the newest event comes first. -/
def latest? (journal : List (Event τ)) : Option τ := journal.findSome? Host.beginning?

/-- Each event of a journal with the time at which its pass began; `outside` stands in for that of
events outside any pass. -/
def timed (outside : τ) : List (Event τ) → List (τ × Event τ)
  | [] => []
  | event :: older => ((latest? (event :: older)).getD outside, event) :: timed outside older

/-- The beginnings of the passes of a journal. -/
def beginnings (journal : List (Event τ)) : List τ := journal.filterMap Host.beginning?

def Event.isPoll : Event τ → Bool
  | .polled _ => true
  | _ => false

/-- Two entries of which one must be a sixtieth of a second before the other are: two ticks, and
a poll that does not ask to quit and any other. -/
def Apart (earlier later : Rat × Event Rat) : Prop :=
  (Host.isTick earlier.2 = true → Host.isTick later.2 = true → earlier.1 + 1 / 60 ≤ later.1) ∧
  (earlier.2 = .polled false → later.2.isPoll = true → earlier.1 + 1 / 60 ≤ later.1)

theorem latest?_append {newer older : List (Event τ)} (inside : ∀ now, .began now ∉ newer) :
    latest? (newer ++ older) = latest? older := by
  have none : newer.findSome? Host.beginning? = none := by
    refine List.findSome?_eq_none_iff.mpr fun event member => ?_
    cases event with
    | began now => exact absurd member (inside now)
    | _ => rfl
  rw [latest?, List.findSome?_append, none, Option.none_or, latest?]

/-- The events of a pass all have its time. -/
theorem timed_pass (outside now : τ) {newer older : List (Event τ)}
    (inside : ∀ now, .began now ∉ newer) :
    timed outside (newer ++ .began now :: older) =
      newer.map (now, ·) ++ (now, .began now) :: timed outside older := by
  induction newer with
  | nil => rfl
  | cons event rest ih =>
      have inside' : ∀ now, .began now ∉ rest := fun now member =>
        inside now (List.mem_cons_of_mem _ member)
      have known : latest? (event :: (rest ++ .began now :: older)) = some now :=
        latest?_append inside
      rw [List.cons_append, timed, ih inside', known]
      rfl

namespace Host

/-! ### Ticks and polls -/

/-- What every move of a pass keeps: entries are as far apart as they must be, and the deadlines
are a sixtieth of a second behind the last of them. -/
structure Paced (outside : Rat) (h : Host Rat) : Prop where
  apart : (timed outside h.journal).Pairwise fun later earlier => Apart earlier later
  ticked : ∀ entry ∈ timed outside h.journal, isTick entry.2 = true → entry.1 + 1 / 60 ≤ h.nextTimer
  polled : ∀ entry ∈ timed outside h.journal, entry.2 = .polled false →
    entry.1 + 1 / 60 ≤ h.nextDisplay

namespace Paced

variable {outside now : Rat} {h h' : Host Rat} {events : List (Event Rat)}

/-- Nothing goes into the journal, and the deadlines stay. -/
theorem keep (paced : Paced outside h) (journal : h'.journal = h.journal)
    (timer : h'.nextTimer = h.nextTimer) (display : h'.nextDisplay = h.nextDisplay) :
    Paced outside h' where
  apart := journal ▸ paced.apart
  ticked := by
    rw [journal, timer]
    exact paced.ticked
  polled := by
    rw [journal, display]
    exact paced.polled

/-- An event goes into the journal. If it is a tick or a poll, that is due, and deadlines are
only put off. -/
theorem note (paced : Paced outside h) {event : Event Rat}
    (journal : h'.journal = event :: h.journal)
    (timer : h.nextTimer ≤ h'.nextTimer) (display : h.nextDisplay ≤ h'.nextDisplay)
    (ticks : isTick event = true → ∃ now, latest? (event :: h.journal) = some now ∧
      h.nextTimer ≤ now ∧ now + 1 / 60 ≤ h'.nextTimer)
    (polls : event.isPoll = true → ∃ now, latest? (event :: h.journal) = some now ∧
      h.nextDisplay ≤ now ∧ (event = .polled false → now + 1 / 60 ≤ h'.nextDisplay)) :
    Paced outside h' := by
  have grown : timed outside h'.journal =
      ((latest? (event :: h.journal)).getD outside, event) :: timed outside h.journal := by
    rw [journal, timed]
  refine ⟨?_, ?_, ?_⟩
  · rw [grown, List.pairwise_cons]
    refine ⟨fun entry member => ⟨fun tick tick' => ?_, fun poll poll' => ?_⟩, paced.apart⟩
    · obtain ⟨now, known, due, _⟩ := ticks tick'
      rw [known]
      exact Rat.le_trans (paced.ticked entry member tick) due
    · obtain ⟨now, known, due, _⟩ := polls poll'
      rw [known]
      exact Rat.le_trans (paced.polled entry member poll) due
  · rw [grown]
    intro entry member tick
    rcases List.mem_cons.mp member with rfl | earlier
    · obtain ⟨now, known, _, next⟩ := ticks tick
      rw [known]
      exact next
    · exact Rat.le_trans (paced.ticked entry earlier tick) timer
  · rw [grown]
    intro entry member poll
    rcases List.mem_cons.mp member with rfl | earlier
    · obtain ⟨now, known, _, next⟩ := polls (congrArg Event.isPoll poll)
      rw [known]
      exact next poll
    · exact Rat.le_trans (paced.polled entry earlier poll) display

/-- An event that is neither a tick nor a poll leaves the deadlines as they are. -/
theorem noteOther (paced : Paced outside h) {event : Event Rat}
    (journal : h'.journal = event :: h.journal) (timer : h'.nextTimer = h.nextTimer)
    (display : h'.nextDisplay = h.nextDisplay) (noTick : isTick event = false)
    (noPoll : event.isPoll = false) : Paced outside h' := by
  refine paced.note journal (timer ▸ Rat.le_refl) (display ▸ Rat.le_refl) (fun tick => ?_)
    (fun poll => ?_)
  · rw [noTick] at tick
    cases tick
  · rw [noPoll] at poll
    cases poll

theorem move (paced : Paced outside h) (within : latest? h.journal = some now)
    (move : Move now h events h') : Paced outside h' := by
  cases move with
  | wait | schedule | count | paint | halt => exact paced.keep rfl rfl rfl
  | title | draw | keys | step => exact paced.noteOther rfl rfl rfl rfl rfl
  | poll due stays =>
      have due : h.nextDisplay ≤ now := of_decide_eq_true due
      have interval : (displayInterval : Rat) = 1 / 60 := by decide +kernel
      have next : now + 1 / 60 ≤ now + (displayInterval : Rat) := interval ▸ Rat.le_refl
      exact paced.note rfl Rat.le_refl (by grind) nofun fun _ => ⟨now, within, due, fun _ => next⟩
  | quit due quits =>
      have due : h.nextDisplay ≤ now := of_decide_eq_true due
      exact paced.note rfl Rat.le_refl Rat.le_refl nofun fun _ => ⟨now, within, due, nofun⟩
  | tick due =>
      have due : h.nextTimer ≤ now := of_decide_eq_true due
      have next := nextTimer_ticked now h
      exact paced.note rfl (by grind) Rat.le_refl (fun _ => ⟨now, within, due, by grind⟩) nofun

/-- A pass that cannot read the clock does nothing; any other begins with an event of its own and
goes on with moves. -/
theorem pass (paced : Paced outside h) : Paced outside (after pass h) := by
  rcases leads_pass h with same | ⟨now, clock, _, events, moves, _⟩
  · rwa [same]
  · -- Ticks and polls are labelled with `now` only because no later pass begins among the moves.
    have begun : Paced outside (({ h with clock } : Host Rat).record (.began now)) :=
      paced.noteOther rfl rfl rfl rfl rfl
    refine (moves.keep (P := fun h => Paced outside h ∧ latest? h.journal = some now)
      (fun move ⟨paced, within⟩ => ⟨paced.move within move, ?_⟩) ⟨begun, rfl⟩).1
    obtain ⟨journal, inside⟩ := move.journal
    rw [journal, latest?_append fun now member => inside now (List.mem_reverse.mp member)]
    exact within

theorem draw (paced : Paced outside h) : Paced outside (after draw h) := by
  rcases after_draw h with ⟨_, drawn⟩ | painted
  · rw [drawn]
    exact paced.noteOther rfl rfl rfl rfl rfl
  · rw [painted]
    exact paced.keep rfl rfl rfl

end Paced

end Host

/-! ### Clocks that do not go back -/

namespace Clock

variable {clock after : Clock Rat}

/-- The clock can still show this reading. -/
def Ahead (clock : Clock Rat) (k : Nat) : Prop :=
  clock.reads ≤ k ∧ k < clock.reads + clock.remaining

/-- No reading to come is less than one before it. -/
def Forward (clock : Clock Rat) : Prop :=
  ∀ i j, clock.Ahead i → clock.Ahead j → i ≤ j → clock.reading i ≤ clock.reading j

/-- No reading to come is less than this time. -/
def Reached (clock : Clock Rat) (time : Rat) : Prop := ∀ k, clock.Ahead k → time ≤ clock.reading k

theorem ahead_of_read {now : Rat} (read : clock.read = some (now, after)) :
    clock.Ahead clock.reads ∧ ∀ k, after.Ahead k → clock.Ahead k := by
  obtain ⟨_, _, reads, remaining⟩ := reading_of_read read
  refine ⟨?_, fun k => ?_⟩
  · unfold Ahead
    omega
  · unfold Ahead
    omega

theorem Reached.read {now time : Rat} (reached : clock.Reached time)
    (read : clock.read = some (now, after)) : time ≤ now ∧ after.Reached time := by
  obtain ⟨shown, reading, _⟩ := reading_of_read read
  obtain ⟨next, later⟩ := ahead_of_read read
  refine ⟨shown ▸ reached _ next, fun k ahead => ?_⟩
  rw [reading]
  exact reached k (later k ahead)

theorem Forward.read {now : Rat} (forward : clock.Forward)
    (read : clock.read = some (now, after)) : after.Forward ∧ after.Reached now := by
  obtain ⟨shown, reading, reads, _⟩ := reading_of_read read
  obtain ⟨next, later⟩ := ahead_of_read read
  refine ⟨fun i j ahead ahead' below => ?_, fun k ahead => ?_⟩
  · rw [reading]
    exact forward i j (later i ahead) (later j ahead') below
  · rw [reading, shown]
    exact forward _ k next (later k ahead) (later k ahead).1

/-- What was waited for stays reached. -/
theorem Awaits.met {deadline : Rat} (awaits : Awaits deadline clock after)
    (forward : clock.Forward) : after.Forward ∧ after.Reached deadline ∧
      ∀ time, clock.Reached time → after.Reached time := by
  induction awaits with
  | reached read late =>
      have late := Rat.not_lt.mp (of_decide_eq_false late)
      obtain ⟨forward', shown⟩ := forward.read read
      exact ⟨forward', fun k ahead => Rat.le_trans late (shown k ahead),
        fun time reached => (reached.read read).2⟩
  | again read _ _ ih =>
      obtain ⟨forward', met, kept⟩ := ih (forward.read read).1
      exact ⟨forward', met, fun time reached => kept time (reached.read read).2⟩

end Clock

/-! ### Passes of one run -/

/-- For each instruction in a journal, the time at which its pass began. -/
def stepTimes (outside : τ) (journal : List (Event τ)) : List τ :=
  ((timed outside journal).filter (·.2.isStep)).map (·.1)

theorem beginnings_pass (now : τ) {newer older : List (Event τ)}
    (inside : ∀ now, .began now ∉ newer) :
    beginnings (newer ++ .began now :: older) = now :: beginnings older := by
  have none : newer.filterMap Host.beginning? = [] := by
    refine List.filterMap_eq_nil_iff.mpr fun event member => ?_
    cases event with
    | began now => exact absurd member (inside now)
    | _ => rfl
  rw [beginnings, List.filterMap_append, none]
  rfl

theorem stepTimes_pass (outside now : τ) {newer older : List (Event τ)}
    (inside : ∀ now, .began now ∉ newer) :
    stepTimes outside (newer ++ .began now :: older) =
      List.replicate (newer.countP Event.isStep) now ++ stepTimes outside older := by
  have steps : ((newer.map (now, ·)).filter (·.2.isStep)).map (·.1) =
      List.replicate (newer.countP Event.isStep) now := by
    rw [List.filter_map, List.map_map, List.countP_eq_length_filter]
    exact List.map_const' ..
  rw [stepTimes, timed_pass outside now inside, List.filter_append, List.map_append, steps]
  rfl

namespace Host

/-- A host that waits for `gap` after each pass, on a clock that does not go back. -/
structure Capped (gap : Rat) (h : Host Rat) : Prop where
  interval : h.interval = some gap
  forward : h.clock.Forward

namespace Capped

variable {gap now : Rat} {h h' : Host Rat} {events : List (Event Rat)}

theorem move (capped : Capped gap h) (move : Move now h events h') : Capped gap h' := by
  cases move with
  | wait read => exact ⟨capped.interval, (capped.forward.read read).1⟩
  | _ => exact ⟨capped.interval, capped.forward⟩

theorem pass (capped : Capped gap h) : Capped gap (after pass h) :=
  pass_keeps (fun read capped => ⟨capped.interval, (capped.forward.read read).1⟩)
    (fun move capped => capped.move move) capped

theorem draw (capped : Capped gap h) : Capped gap (after draw h) :=
  draw_keeps (fun move capped => capped.move move) capped

end Capped

/-- A round ends when the gap behind its beginning is over. -/
theorem RoundTo.met {gap : Rat} {h h' : Host Rat} {round : Round Rat} (goes : RoundTo h round h')
    (capped : Capped gap h) : h'.clock.Reached (round.now + gap) ∧
      ∀ time, h.clock.Reached time → h'.clock.Reached time := by
  obtain ⟨clock, read, waited⟩ := goes.clock
  rcases waited with ⟨uncapped, _⟩ | ⟨interval, capped', awaits⟩
  · rw [capped.interval] at uncapped
    cases uncapped
  · obtain rfl : gap = interval := Option.some.inj (capped.interval.symm.trans capped')
    obtain ⟨_, met, kept⟩ := awaits.met (capped.forward.read read).1
    exact ⟨met, fun time reached => kept time (reached.read read).2⟩

/-- What a run has done so far: `news` is what it has put in front of the journal `base`. Its passes
begin at least `gap` apart, and each of them has run one instruction at most. -/
structure Strides (gap : Rat) (base news : List (Event Rat)) (h : Host Rat) : Prop where
  journal : h.journal = news ++ base
  apart : (beginnings news).Pairwise fun later earlier => earlier + gap ≤ later
  single : ∀ outside, (stepTimes outside news).Sublist (beginnings news)

namespace Strides

variable {gap : Rat} {base news : List (Event Rat)} {h h' : Host Rat}

theorem start (gap : Rat) (h : Host Rat) : Strides gap h.journal [] h :=
  ⟨rfl, .nil, fun _ => List.nil_sublist _⟩

/-- One more pass, if the clock has reached the end of the gap behind each pass before it. -/
theorem pass (strides : Strides gap base news h)
    (due : ∀ time ∈ beginnings news, h.clock.Reached (time + gap)) :
    ∃ news', Strides gap base news' (after pass h) ∧
      ∀ time ∈ beginnings news', time ∈ beginnings news ∨ time = h.clock.reading h.clock.reads := by
  rcases leads_pass h with same | ⟨now, clock, read, events, moves, few⟩
  · rw [same]
    exact ⟨news, strides, fun time member => .inl member⟩
  · obtain ⟨journal, inside⟩ := moves.journal
    have inside' : ∀ now, .began now ∉ events.reverse := fun now member =>
      inside now (List.mem_reverse.mp member)
    have begun : beginnings (events.reverse ++ .began now :: news) = now :: beginnings news :=
      beginnings_pass now inside'
    refine ⟨events.reverse ++ .began now :: news, ⟨?_, ?_, fun outside => ?_⟩, ?_⟩
    · rw [journal, List.append_assoc, List.cons_append, ← strides.journal]
      rfl
    · rw [begun]
      refine List.pairwise_cons.mpr ⟨fun time member => ?_, strides.apart⟩
      exact ((due time member).read read).1
    · rw [begun, stepTimes_pass outside now inside', List.countP_reverse]
      have once := (List.replicate_sublist_replicate now).mpr few
      exact once.append (strides.single outside)
    · intro time member
      rw [begun] at member
      have shown := (Clock.reading_of_read read).1
      exact (List.mem_cons.mp member).symm.imp_right fun same => same.trans shown

/-- Rounds, each of which waits for the next one to be due. -/
theorem rounds {rounds : List (Round Rat)} (goes : Rounds h rounds h') (capped : Capped gap h)
    (strides : Strides gap base news h)
    (due : ∀ time ∈ beginnings news, h.clock.Reached (time + gap)) :
    ∃ news', Strides gap base news' h' ∧
      ∀ time ∈ beginnings news', h'.clock.Reached (time + gap) := by
  induction goes generalizing news with
  | nil => exact ⟨news, strides, due⟩
  | cons first _ ih =>
      -- The wait of the round is what makes the next pass due; earlier passes are due already.
      obtain ⟨met, kept⟩ := first.met capped
      obtain ⟨news', strides', known⟩ := strides.pass due
      rw [first.after_pass] at strides'
      refine ih (first.after_pass ▸ capped.pass) strides' fun time member => ?_
      rcases known time member with earlier | rfl
      · exact kept _ (due time earlier)
      · rw [← first.reading.1]
        exact met

theorem draw (strides : Strides gap base news h) :
    ∃ news', Strides gap base news' (after draw h) := by
  rcases after_draw h with ⟨_, drawn⟩ | painted
  · rw [drawn]
    exact ⟨.drew h.machine.screen.changed :: news, congrArg _ strides.journal, strides.apart,
      strides.single⟩
  · rw [painted]
    exact ⟨news, strides.journal, strides.apart, strides.single⟩

/-- The passes of a run begin at least as far apart as the host waits, however the run ends. -/
theorem run (capped : Capped gap h) (limit : Option Int) :
    ∃ news, Strides gap h.journal news (after (run limit) h) := by
  obtain ⟨rounds, between, last, goes, passed, ends⟩ := run_course limit h
  obtain ⟨news, strides, due⟩ := (start gap h).rounds goes capped nofun
  have finished : ∃ news, Strides gap h.journal news last := by
    rcases passed with rfl | rfl
    · exact ⟨news, strides⟩
    · obtain ⟨news', strides', _⟩ := strides.pass due
      exact ⟨news', strides'⟩
  obtain ⟨news', strides'⟩ := finished
  rcases ends with same | drawn
  · exact ⟨news', same ▸ strides'⟩
  · exact drawn ▸ strides'.draw

end Strides

/-! ### Whole runs -/

section Created

variable {machine : Machine} {display : Display} {inputs : Inputs Rat} {sound : Sound}
  {speed : Choice Int} {clock : Clock Rat} {timeOfDay : Rat} {h : Host Rat}

/-- **Rate limits of the host loop.** However the clock goes and however the runs on a host end,
ticks of the timers belong to passes that begin a sixtieth of a second or more after one another,
and so does a poll after one that did not ask to quit. If moreover the clock does not go back and
the speed is `c` instructions per second, any two passes of one run begin `1 / c` or more after
one another, each has one instruction at most, and so a run has no more than one instruction more
in a stretch of time than `c` times its length. -/
theorem runs_keep_rate_limits
    (created : create machine display inputs sound speed clock timeOfDay = .ok h)
    (limits : List (Option Int)) :
    (∀ outside, (timed outside (runAll limits h).journal).Pairwise
      fun later earlier => Apart earlier later) ∧
    ∀ c : Int, speed.resolve? defaultClockSpeed = some c → 0 < c → clock.Forward → ∀ limit,
      ∃ news, (after (run limit) (runAll limits h)).journal = news ++ (runAll limits h).journal ∧
        (beginnings news).Pairwise (fun later earlier => earlier + 1 / (c : Rat) ≤ later) ∧
        ∀ outside start length, 0 ≤ length →
          (stepTimes outside news).countP (fun time => start ≤ time ∧ time ≤ start + length) ≤
            (beginnings news).countP (fun time => start ≤ time ∧ time ≤ start + length) ∧
          ((beginnings news).countP (fun time => start ≤ time ∧ time ≤ start + length) : Int) ≤
            1 + (c * length).floor := by
  obtain ⟨interval, waits, _, rfl⟩ := create_ok_iff.mp created
  refine ⟨fun outside => ?_, fun c said positive forward limit => ?_⟩
  · have empty : Paced outside (fresh machine display inputs sound interval clock timeOfDay) :=
      ⟨.nil, nofun, nofun⟩
    have paced : Paced outside
        ((fresh machine display inputs sound interval clock timeOfDay).titled 0 0) :=
      empty.noteOther rfl rfl rfl rfl rfl
    exact (runAll_keeps (P := Paced outside) (fun _ => .pass) (fun _ => .draw) limits paced).apart
  · rw [intervalOf, said] at waits
    dsimp only at waits
    rw [if_neg (Int.not_le.mpr positive)] at waits
    cases waits
    have capped : Capped (1 / c) ((fresh machine display inputs sound (some (1 / (c : Rat))) clock
        timeOfDay).titled 0 0) := ⟨rfl, forward⟩
    have capped' :=
      runAll_keeps (P := Capped (1 / c)) (fun _ => .pass) (fun _ => .draw) limits capped
    obtain ⟨news, strides⟩ := Strides.run capped' limit
    refine ⟨news, strides.journal, strides.apart, fun outside start length lasts => ⟨?_, ?_⟩⟩
    · exact (strides.single outside).countP_le
    · exact countP_le_of_pairwise (Rat.intCast_pos.mpr positive) lasts strides.apart

end Created

/-- A program jumps to itself at 700 instructions per second, the default, and the clock shows
what each wait waits for at once. Three instructions run within two seven-hundredths of a second,
which is as many as the limit allows. -/
theorem rate_limit_is_reached :
    ∃ (machine : Machine) (display : Display) (clock : Clock Rat) (h : Host Rat)
      (news : List (Event Rat)),
      create machine display .silent { kind := .silent } .unset clock 0 = .ok h ∧ clock.Forward ∧
      (after (run (some 3)) h).journal = news ++ h.journal ∧
      (beginnings news).Pairwise (fun later earlier => earlier + 1 / 700 ≤ later) ∧
      (timed 0 (after (run (some 3)) h).journal).Pairwise
        (fun later earlier => Apart earlier later) ∧
      (stepTimes 0 news).countP (fun time => 0 ≤ time ∧ time ≤ 0 + 2 / 700) = 3 ∧
      (beginnings news).countP (fun time => 0 ≤ time ∧ time ≤ 0 + 2 / 700) ≤ 3 := by
  let machine := (Machine.create false false (.cycle #[])).performAll [.load [0x12, 0x00]]
  let blank := { machine with screen := { machine.screen with changed := false } }
  let clock : Clock Rat := { reading := fun k => ((k + 1) / 2 : Nat) / 700, remaining := 6 }
  have forward : clock.Forward := fun i j _ _ below => by
    have half : (((i + 1) / 2 : Nat) : Rat) ≤ ((j + 1) / 2 : Nat) :=
      Rat.natCast_le_natCast.mpr (by omega)
    show (((i + 1) / 2 : Nat) : Rat) / 700 ≤ ((j + 1) / 2 : Nat) / 700
    grind
  obtain ⟨h, created, title, steps⟩ : ∃ h : Host Rat,
      create blank { scale := 1, surface := .headless } .silent { kind := .silent } .unset clock 0 =
        .ok h ∧ h.journal = [.title 0 0] ∧
      (stepTimes 0 (after (run (some 3)) h).journal.dropLast).countP
        (fun time => 0 ≤ time ∧ time ≤ 0 + 2 / 700) = 3 :=
    ⟨_, rfl, rfl, by decide +kernel⟩
  obtain ⟨_, capped⟩ := runs_keep_rate_limits created []
  obtain ⟨apart, _⟩ := runs_keep_rate_limits created [some 3]
  obtain ⟨news, journal, spaced, counts⟩ := capped 700 rfl (by decide) forward (some 3)
  refine ⟨_, _, clock, h, news, created, forward, journal, spaced, apart 0, ?_, ?_⟩
  · have parts : (after (run (some 3)) h).journal = news ++ h.journal := journal
    rw [parts, title, List.dropLast_concat] at steps
    exact steps
  · obtain ⟨_, most⟩ := counts 0 0 (2 / 700) (by decide +kernel)
    have limit : 1 + (((700 : Int) : Rat) * (2 / 700)).floor = 3 := by decide +kernel
    omega

end Host

end Chip8
