import Chip8.Proofs.Moves
import Chip8.Proofs.Resampling
import Chip8.Proofs.Showing

/-!
The buzzer follows the sound timer.

Three things say whether the buzzer is on: the sound timer of the machine, what the sound remembers, and
whether the device plays. The device only gets calls, and it plays if the last of these started it
(`playing`). A wave is started and stopped in turn, never twice in a row (`InTurn`), whatever it is told
(`InTurn.buzz`). Only ticks tell it something, so on every path of a host the device plays from one tick
to the next if the first of the two has found the timer running (`Host.buzzer_follows_timer`).
-/

namespace Chip8

/-! ### Calls on a sound -/

namespace DeviceCall

/-- Starts or stops a sound. -/
def sounds : DeviceCall → Bool
  | .play _ | .stop => true
  | _ => false

theorem sounds_of_shows {call : DeviceCall} (shows : call.shows = true) : call.sounds = false := by
  cases call <;> first | rfl | cases shows

end DeviceCall

/-- The calls that start or stop a sound. -/
def soundCalls (calls : List DeviceCall) : List DeviceCall := calls.filter DeviceCall.sounds

/-- Whether a sound plays after these calls, newest first: the last one that started or stopped it
tells. -/
def playing : List DeviceCall → Bool
  | [] => false
  | .play _ :: _ => true
  | .stop :: _ => false
  | _ :: earlier => playing earlier

/-- A sound is started and stopped in turn, with `n` calls in all. -/
def alternation (n : Nat) : List DeviceCall :=
  (List.range n).map fun k => if k % 2 = 0 then .play (-1) else .stop

theorem alternation_succ (n : Nat) :
    alternation (n + 1) = alternation n ++ [if n % 2 = 0 then .play (-1) else .stop] := by
  rw [alternation, List.range_succ, List.map_append]
  rfl

theorem soundCalls_append (calls calls' : List DeviceCall) :
    soundCalls (calls ++ calls') = soundCalls calls ++ soundCalls calls' := List.filter_append ..

theorem soundCalls_showing {calls : List DeviceCall} (showing : Showing calls) :
    soundCalls calls = [] :=
  List.filter_eq_nil_iff.mpr fun call member => by
    simp [DeviceCall.sounds_of_shows (showing call member)]

theorem playing_soundCalls (calls : List DeviceCall) : playing (soundCalls calls) = playing calls := by
  induction calls with
  | nil => rfl
  | cons call earlier ih => cases call <;> first | rfl | exact ih

theorem playing_alternation (n : Nat) : playing (alternation n).reverse = decide (n % 2 = 1) := by
  cases n with
  | zero => rfl
  | succ n =>
      rw [alternation_succ, List.reverse_append, List.reverse_singleton, List.singleton_append]
      rcases Nat.mod_two_eq_zero_or_one n with even | odd
      · rw [if_pos even, playing]
        exact (decide_eq_true (by omega)).symm
      · rw [if_neg (by omega), playing]
        exact (decide_eq_false (by omega)).symm

/-- A sound was started and stopped in turn, and was started last if it is on. Calls are newest
first. -/
def InTurn (calls : List DeviceCall) (on : Bool) : Prop :=
  ∃ n, soundCalls calls = (alternation n).reverse ∧ on = decide (n % 2 = 1)

namespace InTurn

variable {calls : List DeviceCall} {on : Bool}

theorem silent {calls : List DeviceCall} (showing : Showing calls) : InTurn calls false :=
  ⟨0, soundCalls_showing showing, rfl⟩

theorem playing_eq (inTurn : InTurn calls on) : playing calls = on := by
  obtain ⟨n, turns, rfl⟩ := inTurn
  rw [← playing_soundCalls, turns, playing_alternation]

/-- What displays are told makes no sound. -/
theorem showing {shown : List DeviceCall} (showing : Showing shown) (inTurn : InTurn calls on) :
    InTurn (shown ++ calls) on := by
  rw [InTurn, soundCalls_append, soundCalls_showing showing]
  exact inTurn

/-- A wave makes a call if it is told something new, and none if it is not. -/
theorem buzz {sound : Sound} (wave : sound.kind = .wave) (inTurn : InTurn calls sound.enabled)
    (on : Bool) : InTurn ((sound.buzzerCalls on).reverse ++ calls) on := by
  obtain ⟨n, turns, enabled⟩ := inTurn
  have next (call : DeviceCall) (sounds : call.sounds = true) :
      soundCalls ([call].reverse ++ calls) = call :: (alternation n).reverse := by
    rw [soundCalls_append, turns]
    simp [soundCalls, sounds]
  rw [Sound.buzzerCalls, wave]
  cases on with
  | true =>
      cases before : sound.enabled with
      | true => exact ⟨n, turns, before ▸ enabled⟩
      | false =>
          have even : n % 2 ≠ 1 := of_decide_eq_false (enabled.symm.trans before)
          refine ⟨n + 1, (next (.play (-1)) rfl).trans ?_, (decide_eq_true (by omega)).symm⟩
          rw [alternation_succ, if_pos (by omega), List.reverse_append]
          rfl
  | false =>
      cases before : sound.enabled with
      | false => exact ⟨n, turns, before ▸ enabled⟩
      | true =>
          have odd : n % 2 = 1 := of_decide_eq_true (enabled.symm.trans before)
          refine ⟨n + 1, (next .stop rfl).trans ?_, (decide_eq_false (by omega)).symm⟩
          rw [alternation_succ, if_neg (by omega), List.reverse_append]
          rfl

end InTurn

/-! ### Waves -/

namespace Sound

/-- A wave that could be made is off. -/
theorem create_wave {τ : Type} [Scalar τ] {sound : Sound}
    (made : (create τ .wave).sound = .ok sound) : sound = { kind := .wave } := by
  unfold create at made
  dsimp only at made
  split at made
  · cases made
  · exact (Except.ok.inj made).symm

/-- Tells a sound one thing after the other. The calls that it makes are in order. -/
def buzzAll (sound : Sound) : List Bool → Sound × List DeviceCall
  | [] => (sound, [])
  | on :: rest =>
      let (between, calls) := sound.enableBuzzer on
      let (last, later) := between.buzzAll rest
      (last, calls ++ later)

theorem inTurn_buzzAll (sound : Sound) {calls : List DeviceCall} (wave : sound.kind = .wave)
    (inTurn : InTurn calls sound.enabled) (values : List Bool) :
    InTurn ((sound.buzzAll values).2.reverse ++ calls) (values.getLast?.getD sound.enabled) := by
  induction values generalizing sound calls with
  | nil => exact inTurn
  | cons on rest ih =>
      have later := ih (sound.enableBuzzer on).1 wave (inTurn.buzz wave on)
      rw [buzzAll, List.reverse_append, List.append_assoc, List.getLast?_cons]
      exact later

end Sound

/-! ### Hosts -/

namespace Host

variable {τ : Type} {h h' : Host τ} {now : τ} {events : List (Event τ)}

/-- A tick finds the sound timer running or run out. -/
theorem buzzes_iff (formed : h.machine.WellFormed) :
    h.machine.advanceTimers.1 = true ↔ h.machine.sound ≠ 0 := by
  have nonneg := formed.sound.1
  rw [Machine.advanceTimers_eq, decide_eq_true_iff]
  omega

/-- A host whose sound is a wave. What it remembers is what its calls have come to. -/
structure Tuned (h : Host τ) : Prop where
  wave : h.sound.kind = .wave
  noted : h.notes = DeviceCall.reachesDevice
  formed : h.machine.WellFormed
  inTurn : InTurn h.calls h.sound.enabled

theorem showing_noted {shown : List DeviceCall} (showing : Showing shown) (h : Host τ) :
    Showing (shown.filter h.notes).reverse :=
  fun call member => showing call (List.mem_of_mem_filter (List.mem_reverse.mp member))

namespace Tuned

theorem playing_eq (tuned : Tuned h) : playing h.calls = h.sound.enabled := tuned.inTurn.playing_eq

theorem titled (tuned : Tuned h) (frames operations : Nat) : Tuned (h.titled frames operations) where
  wave := tuned.wave
  noted := tuned.noted
  formed := tuned.formed
  inTurn := tuned.inTurn.showing (showing_noted (Display.shows_setTitle _) _)

theorem painted (tuned : Tuned h) : Tuned h.painted where
  wave := tuned.wave
  noted := tuned.noted
  formed := by
    have formed : Machine.WellFormed
        { h.machine with screen := { h.machine.screen with changed := false } } :=
      { tuned.formed with screen := { tuned.formed.screen with } }
    rwa [← Display.draw_fst h.display] at formed
  inTurn := tuned.inTurn.showing (showing_noted (Display.shows_draw _) _)

variable [Scalar τ]

theorem ticked (tuned : Tuned h) (now : τ) : Tuned (h.ticked now) where
  wave := tuned.wave
  noted := tuned.noted
  formed := Machine.advanceTimers_wellFormed tuned.formed
  inTurn := by
    have heard : (h.sound.buzzerCalls h.machine.advanceTimers.1).filter h.notes =
        h.sound.buzzerCalls h.machine.advanceTimers.1 := by
      refine List.filter_eq_self.mpr fun call member => ?_
      rw [tuned.noted]
      rcases Sound.mem_buzzerCalls member with rfl | rfl | rfl <;> rfl
    show InTurn (((h.sound.buzzerCalls _).filter h.notes).reverse ++ h.calls) _
    rw [heard]
    exact tuned.inTurn.buzz tuned.wave _

theorem move (move : Move now h events h') (tuned : Tuned h) : Tuned h' := by
  cases move with
  | wait | schedule | count | poll | quit | keys => exact { tuned with }
  | title => exact tuned.titled _ _
  | draw => exact { tuned.painted with }
  | paint => exact tuned.painted
  | step set =>
      exact { tuned with
        formed := Machine.step_wellFormed (Machine.setKeys_wellFormed tuned.formed set) }
  | halt set =>
      exact { tuned with
        formed := Machine.step_wellFormed (Machine.setKeys_wellFormed tuned.formed set) }
  | tick => exact tuned.ticked _

theorem path (tuned : Tuned h) (path : Path h events h') : Tuned h' :=
  path.keep (P := Tuned) (fun _ tuned => { tuned with }) Tuned.move tuned

/-- A new host is tuned if its sound is a new wave. -/
theorem created {machine : Machine} {display : Display} {inputs : Inputs τ} {speed : Choice Int}
    {clock : Clock τ} {timeOfDay : τ} (formed : machine.WellFormed)
    (created : create machine display inputs { kind := .wave } speed clock timeOfDay = .ok h) :
    Tuned h := by
  obtain ⟨interval, _, _, rfl⟩ := create_ok_iff.mp created
  have fresh : Tuned (fresh machine display inputs { kind := .wave } interval clock timeOfDay) :=
    { wave := rfl, noted := rfl, formed, inTurn := .silent .nil }
  exact fresh.titled 0 0

end Tuned

variable [Scalar τ]

/-- Nobody but a tick tells the sound anything. -/
theorem Move.enabled (move : Move now h events h') (quiet : ∀ on, .buzzer on ∉ events) :
    h'.sound.enabled = h.sound.enabled := by
  cases move with
  | tick => exact absurd List.mem_cons_self (quiet _)
  | _ => rfl

theorem Path.enabled (path : Path h events h') (quiet : ∀ on, .buzzer on ∉ events) :
    h'.sound.enabled = h.sound.enabled := by
  induction path with
  | nil => rfl
  | begin _ _ ih => exact ih fun on member => quiet on (List.mem_cons_of_mem _ member)
  | move move _ ih =>
      rw [ih fun on member => quiet on (List.mem_append_right _ member)]
      exact move.enabled fun on member => quiet on (List.mem_append_left _ member)

/-- **The buzzer follows the sound timer.** Whatever a new wave is told, it starts and stops in turn and
plays if it was told so last. A host with such a wave was made for a machine that has been driven in some
way. However its runs end, they are a path, and wherever a path has come to, the sound was started and
stopped in turn. Each tick on the way, that is, each that the journal tells of, leaves the sound playing if
it has found the sound timer running, and silent if not. Nothing on the way changes that before the next
tick. -/
theorem buzzer_follows_timer {trace strict : Bool} {random : RandomSource}
    {operations : List Operation} {display : Display} {inputs : Inputs τ} {sound : Sound}
    {speed : Choice Int} {clock : Clock τ} {timeOfDay : τ}
    (made : (Sound.create τ .wave).sound = .ok sound)
    (created : create ((Machine.create trace strict random).performAll operations) display inputs
      sound speed clock timeOfDay = .ok h) :
    (∀ values : List Bool, ∃ n, soundCalls (sound.buzzAll values).2 = alternation n ∧
      playing (sound.buzzAll values).2.reverse = values.getLast?.getD false) ∧
    (∀ limits, ∃ events, Path h events (runAll limits h)) ∧
    ∀ events h', Path h events h' →
      h'.journal = events.reverse ++ h.journal ∧
      (∃ n, soundCalls h'.calls = (alternation n).reverse) ∧
      (∀ before on after, events = before ++ .buzzer on :: after →
        ∃ found ticked now, Path h before found ∧
          (tickIfDue now).run found = .ok () ticked ∧
          ticked.journal = .buzzer on :: found.journal ∧ Path ticked after h' ∧
          (on = true ↔ found.machine.sound ≠ 0) ∧
          (playing ticked.calls = true ↔ found.machine.sound ≠ 0)) ∧
      ∀ rest later, Path h' rest later → (∀ on, .buzzer on ∉ rest) →
        playing later.calls = playing h'.calls := by
  obtain rfl := Sound.create_wave made
  have formed := Machine.performAll_wellFormed (Machine.create_wellFormed trace strict random) operations
  have tuned := Tuned.created formed created
  refine ⟨fun values => ?_, fun limits => path_runAll limits h, fun events h' path => ?_⟩
  · have told := Sound.inTurn_buzzAll { kind := .wave } rfl (.silent .nil) values
    rw [List.append_nil] at told
    have plays := told.playing_eq
    obtain ⟨n, turns, _⟩ := told
    refine ⟨n, ?_, plays⟩
    rw [soundCalls, List.filter_reverse] at turns
    exact List.reverse_injective turns
  · have there := tuned.path path
    obtain ⟨n, turns, _⟩ := there.inTurn
    refine ⟨path.journal, ⟨n, turns⟩, ?_, fun rest later further quiet => ?_⟩
    · rintro before on after rfl
      obtain ⟨found, now, reached, due, rfl, rest⟩ := path.at_tick
      have buzzes := buzzes_iff (tuned.path reached).formed
      have ticks : (tickIfDue now).run found = .ok () (found.ticked now) :=
        tickIfDue_ok_iff.mpr ⟨_, .due due⟩
      have plays := ((tuned.path reached).ticked now).playing_eq
      exact ⟨found, _, now, reached, ticks, rfl, rest, buzzes, plays ▸ buzzes⟩
    · rw [(there.path further).playing_eq, there.playing_eq, further.enabled quiet]

/-- A program sets the sound timer to two. Of the four ticks in two runs, the second is the first that finds
it running, and the last finds that it has run out. -/
theorem buzzer_follows_timer_beep :
    ∃ (sound : Sound) (clock : Clock Rat) (h : Host Rat) (events : List (Event Rat)),
      (Sound.create Rat .wave).sound = .ok sound ∧
      create ((Machine.create false false (.cycle #[])).performAll
          [.load [0x60, 0x02, 0xF0, 0x18, 0x12, 0x04]])
        { scale := 1, surface := .headless } .silent sound (.value 0) clock 0 = .ok h ∧
      Path h events (runAll [some 2, some 2] h) ∧
      soundCalls (runAll [some 2, some 2] h).calls = (alternation 2).reverse ∧
      ∃ (before after : List (Event Rat)) (found ticked : Host Rat) (now : Rat),
        events = before ++ .buzzer true :: after ∧ (tickIfDue now).run found = .ok () ticked ∧
        found.machine.sound ≠ 0 ∧ playing ticked.calls = true := by
  obtain ⟨sound, made⟩ := Sound.tone_rat
  obtain rfl := Sound.create_wave made
  let clock : Clock Rat := { reading := fun k => k, remaining := 9 }
  obtain ⟨start, created, silent, turns, buzzes⟩ : ∃ start : Host Rat,
      create ((Machine.create false false (.cycle #[])).performAll
          [.load [0x60, 0x02, 0xF0, 0x18, 0x12, 0x04]])
        { scale := 1, surface := .headless } .silent { kind := .wave } (.value 0) clock 0 = .ok start ∧
      start.journal = [.title 0 0] ∧
      soundCalls (runAll [some 2, some 2] start).calls = (alternation 2).reverse ∧
      (runAll [some 2, some 2] start).journal.any (fun | .buzzer on => on | _ => false) = true :=
    ⟨_, rfl, rfl, by decide +kernel⟩
  obtain ⟨-, runs, paths⟩ := buzzer_follows_timer made created
  obtain ⟨events, path⟩ := runs [some 2, some 2]
  obtain ⟨journal, -, ticks, -⟩ := paths events _ path
  obtain ⟨event, member, on⟩ := List.any_eq_true.mp buzzes
  cases event with
  | buzzer on' =>
      obtain rfl : on' = true := on
      have member : .buzzer true ∈ events := by simpa [journal, silent] using member
      obtain ⟨before, after, parts⟩ := List.append_of_mem member
      obtain ⟨found, ticked, now, _, tick, _, _, runs, plays⟩ := ticks before true after parts
      have running := runs.mp rfl
      exact ⟨_, clock, start, events, made, created, path, turns, before, after, found, ticked, now, parts,
        tick, running, plays.mpr running⟩
  | _ => cases on

end Host

end Chip8
