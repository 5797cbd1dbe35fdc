import Chip8.Proofs.Computations

/-!
Rounds: the host loop as a relation, without a bound on its passes.

A pass goes through five phases: report, poll, step, tick and wait. Each of them is a relation here
(`Reports`, `Polls`, `Steps`, `Ticks`, `Waits`) with one constructor for each way in which it can go well.
A pass that runs an instruction makes a round of them (`RoundTo`), one that quits stops after the poll
(`QuitTo`). What a run that ends well has done is a list of rounds and perhaps a farewell
(`run_ok_iff`), so laws of runs are proved by induction on its rounds.
-/

namespace Chip8

/-- What a pass that runs an instruction does, as far as the devices and the machine notice it. -/
structure Round (τ : Type) where
  now : τ
  /-- The frames and instructions that the title shows, if a report was due. -/
  title : Option (Nat × Nat)
  /-- If a poll was due, whether there was anything new to draw after it. -/
  drew : Option Bool
  keys : List Bool
  /-- If a tick was due, whether the buzzer sounds. -/
  buzzer : Option Bool

/-- What a pass that quits does. -/
structure Farewell (τ : Type) where
  now : τ
  title : Option (Nat × Nat)

variable {τ α β : Type}

/-! ### Clocks -/

namespace Clock

theorem reading_of_read {clock after : Clock τ} {now : τ} (read : clock.read = some (now, after)) :
    now = clock.reading clock.reads ∧ after.reading = clock.reading ∧
      after.reads = clock.reads + 1 ∧ clock.remaining = after.remaining + 1 := by
  unfold Clock.read at read
  cases left : clock.remaining with
  | zero =>
      rw [left] at read
      cases read
  | succ n =>
      rw [left] at read
      cases read
      exact ⟨rfl, rfl, rfl, rfl⟩

variable [Scalar τ]

/-- A clock is read until it shows a deadline. -/
inductive Awaits (deadline : τ) : Clock τ → Clock τ → Prop
  | reached {clock after : Clock τ} {now : τ} (read : clock.read = some (now, after))
      (late : Scalar.less now deadline = false) : Awaits deadline clock after
  | again {clock between after : Clock τ} {now : τ} (read : clock.read = some (now, between))
      (early : Scalar.less now deadline = true) (rest : Awaits deadline between after) :
      Awaits deadline clock after

theorem Awaits.remaining_lt {deadline : τ} {clock after : Clock τ}
    (awaits : Awaits deadline clock after) : after.remaining < clock.remaining := by
  induction awaits with
  | reached read late =>
      have left := (reading_of_read read).2.2.2
      omega
  | again read early rest ih =>
      have left := (reading_of_read read).2.2.2
      omega

end Clock

namespace Host

/-! ### Computations that end well -/

theorem bind_ok_iff {first : HostM τ α} {next : α → HostM τ β} {h h' : Host τ} {b : β} :
    (first >>= next).run h = .ok b h' ↔
      ∃ a between, first.run h = .ok a between ∧ (next a).run between = .ok b h' := by
  refine ⟨exists_of_run_bind, fun ⟨a, between, ends, ends'⟩ => ?_⟩
  rw [EStateM.run_bind, ends]
  exact ends'

theorem pure_ok_iff {h h' : Host τ} {a b : α} :
    (pure a : HostM τ α).run h = .ok b h' ↔ b = a ∧ h' = h := by
  rw [EStateM.run_pure, EStateM.Result.ok.injEq, eq_comm, @eq_comm _ h]

theorem ofExcept_ok_iff {h h' : Host τ} {result : Except Fault α} {a : α} :
    (ofExcept result : HostM τ α).run h = .ok a h' ↔ result = .ok a ∧ h' = h := by
  cases result with
  | ok b =>
      rw [Except.ok.injEq, @eq_comm _ b]
      exact pure_ok_iff
  | error fault => exact ⟨nofun, nofun⟩

theorem get_bind_run {next : Host τ → HostM τ α} {h : Host τ} :
    (get >>= next).run h = (next h).run h := rfl

theorem set_bind_run {next : PUnit → HostM τ α} {h h' : Host τ} :
    (set h' >>= next).run h = (next ⟨⟩).run h' := rfl

theorem modify_bind_run {next : PUnit → HostM τ α} {f : Host τ → Host τ} {h : Host τ} :
    (modify f >>= next).run h = (next ⟨⟩).run (f h) := rfl

theorem set_ok_iff {h h' h'' : Host τ} {a : PUnit} :
    (set h' : HostM τ PUnit).run h = .ok a h'' ↔ h'' = h' := by
  rw [EStateM.run_set, EStateM.Result.ok.injEq, @eq_comm _ h', and_iff_right rfl]

theorem modify_ok_iff {f : Host τ → Host τ} {h h' : Host τ} {a : PUnit} :
    (modify f : HostM τ PUnit).run h = .ok a h' ↔ h' = f h := set_ok_iff (h := h)

/-! ### Phases -/

theorem readClock_ok_iff {h h' : Host τ} {now : τ} :
    (readClock : HostM τ τ).run h = .ok now h' ↔
      ∃ clock, h.clock.read = some (now, clock) ∧ h' = { h with clock } := by
  rw [readClock, get_bind_run]
  cases read : h.clock.read with
  | none => exact ⟨nofun, nofun⟩
  | some result =>
      obtain ⟨now', clock'⟩ := result
      simp only [set_bind_run, pure_ok_iff, Option.some.injEq, Prod.mk.injEq]
      constructor
      · rintro ⟨rfl, rfl⟩
        exact ⟨clock', ⟨rfl, rfl⟩, rfl⟩
      · rintro ⟨clock, ⟨rfl, rfl⟩, rfl⟩
        exact ⟨rfl, rfl⟩

/-- The host after a draw. -/
def drawn (h : Host τ) : Host τ :=
  let drawing := h.display.draw h.machine.screen
  ({ h with
      machine := { h.machine with screen := drawing.1 }
      display := drawing.2.display }.log drawing.2.calls).record (.drew h.machine.screen.changed)

theorem drawn_journal (h : Host τ) :
    h.drawn.journal = .drew h.machine.screen.changed :: h.journal := rfl

theorem draw_ok_iff {h h' : Host τ} {u : Unit} :
    (draw : HostM τ Unit).run h = .ok u h' ↔
      (h.display.draw h.machine.screen).2.fault = none ∧ h' = h.drawn := by
  rw [draw, get_bind_run]
  simp only [set_bind_run]
  cases faulty : (h.display.draw h.machine.screen).2.fault with
  | none => exact modify_ok_iff.trans (and_iff_right rfl).symm
  | some fault => exact ⟨nofun, nofun⟩

variable [Scalar τ]

/-- The host after a report. -/
def titled (h : Host τ) (frames operations : Nat) : Host τ :=
  let shown := h.display.setTitle (titleText frames operations)
  ({ h with display := shown.display }.log shown.calls).record (.title frames operations)

omit [Scalar τ] in
/-- A report that fails leaves the host as it was. -/
theorem reportPerformance_eq (h : Host τ) (frames operations : Nat) :
    h.reportPerformance frames operations =
      match (h.display.setTitle (titleText frames operations)).fault with
      | some fault => (h, some fault)
      | none => (h.titled frames operations, none) := by
  unfold reportPerformance titled
  cases failed : (h.display.setTitle (titleText frames operations)).fault with
  | none => simp only [failed]
  | some fault =>
      obtain ⟨display, calls⟩ := Display.setTitle_of_fault failed
      simp only [failed, display, calls]
      rfl

/-- Shows the performance and starts counting anew, if that is due. -/
inductive Reports (now : τ) (h : Host τ) : Option (Nat × Nat) → Host τ → Prop
  | early (early : Scalar.atMost h.nextReport now = false) : Reports now h none h
  | due (due : Scalar.atMost h.nextReport now = true) {whole : Int} {second : τ}
      (truncated : Scalar.truncate now = .ok whole) (number : Scalar.ofInt whole = .ok second)
      (faultless : (h.display.setTitle (titleText h.frames h.operations)).fault = none) :
      Reports now h (some (h.frames, h.operations))
        { titled { h with nextReport := second + Scalar.ofNat 1 } h.frames h.operations with
          frames := 0
          operations := 0 }

theorem reportIfDue_ok_iff {now : τ} {h h' : Host τ} {u : Unit} :
    (reportIfDue now).run h = .ok u h' ↔ ∃ title, Reports now h title h' := by
  rw [reportIfDue, get_bind_run]
  cases due : Scalar.atMost h.nextReport now with
  | false =>
      rw [if_neg (by simp), pure_ok_iff, and_iff_right rfl]
      constructor
      · rintro rfl
        exact ⟨none, .early due⟩
      · rintro ⟨title, early | late⟩
        · rfl
        · rw [due] at late
          cases late
  | true =>
      simp only [if_true, bind_ok_iff, ofExcept_ok_iff, set_bind_run, reportPerformance_eq]
      constructor
      · rintro ⟨whole, _, ⟨truncated, rfl⟩, second, h, ⟨number, rfl⟩, ends⟩
        cases faulty : (h.display.setTitle (titleText h.frames h.operations)).fault with
        | some fault =>
            rw [faulty] at ends
            cases ends
        | none =>
            rw [faulty] at ends
            obtain rfl := modify_ok_iff.mp ends
            exact ⟨_, .due due truncated number faulty⟩
      · rintro ⟨title, early | ⟨late, truncated, number, faultless⟩⟩
        · rw [due] at early
          cases early
        · refine ⟨_, _, ⟨truncated, rfl⟩, _, _, ⟨number, rfl⟩, ?_⟩
          rw [faultless]
          rfl

/-- Polls the inputs, which do not ask to quit, and draws, if that is due. -/
inductive Polls (now : τ) (h : Host τ) : Option Bool → Host τ → Prop
  | early (early : Scalar.atMost h.nextDisplay now = false) : Polls now h none h
  | due (due : Scalar.atMost h.nextDisplay now = true) {inputs : Inputs τ}
      (stays : h.inputs.poll h.timeOfDay = (false, inputs))
      (faultless : (h.display.draw h.machine.screen).2.fault = none) :
      Polls now h (some h.machine.screen.changed)
        { drawn { ({ h with inputs }.record (.polled false)) with
            nextDisplay := now + displayInterval } with
          frames := h.frames + 1 }

/-- Polls the inputs, which ask to quit. -/
inductive Quits (now : τ) (h : Host τ) : Host τ → Prop
  | due (due : Scalar.atMost h.nextDisplay now = true) {inputs : Inputs τ}
      (quits : h.inputs.poll h.timeOfDay = (true, inputs)) :
      Quits now h ({ h with inputs }.record (.polled true))

theorem poll_ok_iff {h h' : Host τ} {quit : Bool} :
    (poll : HostM τ Bool).run h = .ok quit h' ↔
      ∃ inputs, h.inputs.poll h.timeOfDay = (quit, inputs) ∧
        h' = { h with inputs }.record (.polled quit) := by
  rw [poll, get_bind_run]
  cases polled : h.inputs.poll h.timeOfDay with
  | mk quit' inputs' =>
      simp only [set_bind_run, pure_ok_iff, Prod.mk.injEq]
      constructor
      · rintro ⟨rfl, rfl⟩
        exact ⟨inputs', ⟨rfl, rfl⟩, rfl⟩
      · rintro ⟨inputs, ⟨rfl, rfl⟩, rfl⟩
        exact ⟨rfl, rfl⟩

theorem pollIfDue_ok_iff {now : τ} {h h' : Host τ} {quit : Bool} :
    (pollIfDue now).run h = .ok quit h' ↔
      (quit = false ∧ ∃ drew, Polls now h drew h') ∨ (quit = true ∧ Quits now h h') := by
  rw [pollIfDue, get_bind_run]
  cases due : Scalar.atMost h.nextDisplay now with
  | false =>
      rw [if_neg (by simp), pure_ok_iff]
      constructor
      · rintro ⟨rfl, rfl⟩
        exact .inl ⟨rfl, none, .early due⟩
      · rintro (⟨rfl, drew, early | ⟨late, _, _⟩⟩ | ⟨rfl, late, _⟩)
        · exact ⟨rfl, rfl⟩
        · rw [due] at late
          cases late
        · rw [due] at late
          cases late
  | true =>
      simp only [if_true, bind_ok_iff, poll_ok_iff]
      constructor
      · rintro ⟨quit', _, ⟨inputs, polled, rfl⟩, ends⟩
        cases quit' with
        | true =>
            obtain ⟨rfl, rfl⟩ := pure_ok_iff.mp ends
            exact .inr ⟨rfl, .due due polled⟩
        | false =>
            simp only [Bool.false_eq_true, if_false, modify_bind_run, bind_ok_iff, draw_ok_iff,
              pure_ok_iff] at ends
            obtain ⟨_, _, ⟨faultless, rfl⟩, rfl, rfl⟩ := ends
            exact .inl ⟨rfl, _, .due due polled faultless⟩
      · rintro (⟨rfl, drew, early | ⟨_, stays, faultless⟩⟩ | ⟨rfl, _, quits⟩)
        · rw [due] at early
          cases early
        · refine ⟨false, _, ⟨_, stays, rfl⟩, ?_⟩
          simp only [Bool.false_eq_true, if_false, modify_bind_run, bind_ok_iff, draw_ok_iff,
            pure_ok_iff]
          exact ⟨⟨⟩, _, ⟨faultless, rfl⟩, trivial, rfl⟩
        · exact ⟨true, _, ⟨_, quits, rfl⟩, rfl⟩

theorem setKeys_ok_iff {states : List Bool} {h h' : Host τ} {u : Unit} :
    (onMachine (MachineM.setKeys states)).run h = .ok u h' ↔
      ∃ machine, h.machine.setKeys states = .ok machine ∧ h' = { h with machine } := by
  rw [run_setKeys]
  cases h.machine.setKeys states <;> simp [eq_comm]

theorem step_ok_iff {h h' : Host τ} {u : Unit} :
    (onMachine MachineM.step).run h = .ok u h' ↔
      h.machine.step.fault = none ∧ h' = { h with machine := h.machine.step.machine } := by
  rw [run_step]
  cases h.machine.step.fault <;> simp [eq_comm]

/-- Hands the keys to the machine and runs one instruction. -/
inductive Steps (h : Host τ) : List Bool → Host τ → Prop
  | step {states : List Bool} {inputs : Inputs τ} {machine : Machine}
      (asked : h.inputs.keyStates h.timeOfDay = (states, inputs))
      (set : h.machine.setKeys states = .ok machine) (went : machine.step.fault = none) :
      Steps h states
        { h with
          inputs
          machine := machine.step.machine
          journal := .stepped :: .keys states :: h.journal }

theorem stepMachine_ok_iff {h h' : Host τ} {u : Unit} :
    (stepMachine : HostM τ Unit).run h = .ok u h' ↔ ∃ keys, Steps h keys h' := by
  rw [stepMachine, get_bind_run]
  cases asked : h.inputs.keyStates h.timeOfDay with
  | mk states inputs =>
      simp only [set_bind_run, bind_ok_iff, setKeys_ok_iff, step_ok_iff, modify_ok_iff]
      constructor
      · rintro ⟨_, _, ⟨machine, set, rfl⟩, _, _, ⟨went, rfl⟩, rfl⟩
        exact ⟨states, .step asked set went⟩
      · rintro ⟨keys, ⟨asked', set, went⟩⟩
        rw [asked] at asked'
        cases asked'
        exact ⟨⟨⟩, _, ⟨_, set, rfl⟩, ⟨⟩, _, ⟨went, rfl⟩, rfl⟩

/-- The host after a tick. -/
def ticked (now : τ) (h : Host τ) : Host τ :=
  let tick := h.machine.advanceTimers
  let buzz := h.sound.enableBuzzer tick.1
  ({ h with
      machine := tick.2
      sound := buzz.1
      nextTimer := now + timerInterval }.log buzz.2).record (.buzzer tick.1)

/-- Ticks the timers and tells the sound, if that is due. -/
inductive Ticks (now : τ) (h : Host τ) : Option Bool → Host τ → Prop
  | early (early : Scalar.atMost h.nextTimer now = false) : Ticks now h none h
  | due (due : Scalar.atMost h.nextTimer now = true) :
      Ticks now h (some h.machine.advanceTimers.1) (h.ticked now)

theorem tickIfDue_ok_iff {now : τ} {h h' : Host τ} {u : Unit} :
    (tickIfDue now).run h = .ok u h' ↔ ∃ buzzer, Ticks now h buzzer h' := by
  rw [tickIfDue, get_bind_run]
  cases due : Scalar.atMost h.nextTimer now with
  | false =>
      rw [if_neg (by simp), pure_ok_iff, and_iff_right rfl]
      constructor
      · rintro rfl
        exact ⟨none, .early due⟩
      · rintro ⟨buzzer, early | late⟩
        · rfl
        · rw [due] at late
          cases late
  | true =>
      rw [if_pos rfl]
      refine (set_ok_iff (h := h)).trans ⟨?_, ?_⟩
      · rintro rfl
        exact ⟨_, .due due⟩
      · rintro ⟨buzzer, early | late⟩
        · rw [due] at early
          cases early
        · rfl

/-- Waits until the next instruction is due, if the speed is capped. -/
inductive Waits (now : τ) (h : Host τ) : Host τ → Prop
  | uncapped (uncapped : h.interval = none) : Waits now h h
  | capped {interval : τ} (capped : h.interval = some interval) {clock : Clock τ}
      (awaits : Clock.Awaits (now + interval) h.clock clock) : Waits now h { h with clock }

/-- A wait that may read the clock more often than it can be read is bounded by the clock alone. -/
theorem waitUntil_ok_iff {deadline : τ} {bound : Nat} {h h' : Host τ} {u : Unit}
    (enough : h.clock.remaining < bound) :
    (waitUntil deadline bound).run h = .ok u h' ↔
      ∃ clock, Clock.Awaits deadline h.clock clock ∧ h' = { h with clock } := by
  induction bound generalizing h with
  | zero => exact absurd enough (Nat.not_lt_zero _)
  | succ bound ih =>
      rw [waitUntil, bind_ok_iff]
      simp only [readClock_ok_iff]
      constructor
      · rintro ⟨now, _, ⟨clock, read, rfl⟩, ends⟩
        cases early : Scalar.less now deadline with
        | false =>
            rw [early, if_neg (by simp), pure_ok_iff] at ends
            exact ⟨clock, .reached read early, ends.2⟩
        | true =>
            have left := (Clock.reading_of_read read).2.2.2
            rw [early, if_pos rfl, ih (show clock.remaining < bound by omega)] at ends
            obtain ⟨after, rest, rfl⟩ := ends
            exact ⟨after, .again read early rest, rfl⟩
      · rintro ⟨after, awaits, rfl⟩
        cases awaits with
        | @reached _ _ now read late =>
            exact ⟨now, _, ⟨after, read, rfl⟩, by rw [late]; rfl⟩
        | @again _ between _ now read early rest =>
            have left := (Clock.reading_of_read read).2.2.2
            refine ⟨now, _, ⟨between, read, rfl⟩, ?_⟩
            rw [early, if_pos rfl, ih (show between.remaining < bound by omega)]
            exact ⟨after, rest, rfl⟩

theorem awaitNext_ok_iff {now : τ} {h h' : Host τ} {u : Unit} :
    (awaitNext now).run h = .ok u h' ↔ Waits now h h' := by
  rw [awaitNext, get_bind_run]
  cases interval : h.interval with
  | none =>
      simp only [pure_ok_iff]
      constructor
      · rintro ⟨_, rfl⟩
        exact .uncapped interval
      · rintro (_ | ⟨capped, _⟩)
        · exact ⟨trivial, rfl⟩
        · rw [interval] at capped
          cases capped
  | some span =>
      simp only [waitUntil_ok_iff (Nat.lt_succ_self h.clock.remaining)]
      constructor
      · rintro ⟨clock, awaits, rfl⟩
        exact .capped interval awaits
      · rintro (uncapped | ⟨capped, awaits⟩)
        · rw [interval] at uncapped
          cases uncapped
        · rw [interval] at capped
          cases capped
          exact ⟨_, awaits, rfl⟩

/-! ### Passes -/

/-- A pass that runs an instruction. -/
inductive RoundTo (h : Host τ) : Round τ → Host τ → Prop
  | round {now : τ} {clock : Clock τ} {title : Option (Nat × Nat)} {drew buzzer : Option Bool}
      {keys : List Bool} {reported polled stepped ticked waited : Host τ}
      (read : h.clock.read = some (now, clock))
      (reports : Reports now ({ h with clock }.record (.began now)) title reported)
      (polls : Polls now reported drew polled) (steps : Steps polled keys stepped)
      (ticks : Ticks now stepped buzzer ticked) (waits : Waits now ticked waited) :
      RoundTo h ⟨now, title, drew, keys, buzzer⟩
        { waited with operations := waited.operations + 1 }

/-- A pass that quits. -/
inductive QuitTo (h : Host τ) : Farewell τ → Host τ → Prop
  | quit {now : τ} {clock : Clock τ} {title : Option (Nat × Nat)} {reported h' : Host τ}
      (read : h.clock.read = some (now, clock))
      (reports : Reports now ({ h with clock }.record (.began now)) title reported)
      (quits : Quits now reported h') : QuitTo h ⟨now, title⟩ h'

theorem begin_ok_iff {now : τ} {h h' : Host τ} {through : Bool} :
    (begin now).run h = .ok through h' ↔
      ∃ title reported, Reports now (h.record (.began now)) title reported ∧
        ((through = true ∧ ∃ drew polled keys stepped buzzer,
            Polls now reported drew polled ∧ Steps polled keys stepped ∧
              Ticks now stepped buzzer h') ∨
          (through = false ∧ Quits now reported h')) := by
  rw [begin, modify_bind_run]
  simp only [bind_ok_iff, reportIfDue_ok_iff, pollIfDue_ok_iff]
  constructor
  · rintro ⟨_, reported, ⟨title, reports⟩, quit, polled, asked, ends⟩
    refine ⟨title, reported, reports, ?_⟩
    rcases asked with ⟨rfl, drew, polls⟩ | ⟨rfl, quits⟩
    · simp only [Bool.false_eq_true, if_false, bind_ok_iff, stepMachine_ok_iff, tickIfDue_ok_iff,
        pure_ok_iff] at ends
      obtain ⟨_, stepped, ⟨keys, steps⟩, _, _, ⟨buzzer, ticks⟩, rfl, rfl⟩ := ends
      exact .inl ⟨rfl, drew, polled, keys, stepped, buzzer, polls, steps, ticks⟩
    · obtain ⟨rfl, rfl⟩ := pure_ok_iff.mp ends
      exact .inr ⟨rfl, quits⟩
  · rintro ⟨title, reported, reports,
      ⟨rfl, drew, polled, keys, stepped, buzzer, polls, steps, ticks⟩ | ⟨rfl, quits⟩⟩
    · refine ⟨⟨⟩, reported, ⟨title, reports⟩, false, polled, .inl ⟨rfl, drew, polls⟩, ?_⟩
      simp only [Bool.false_eq_true, if_false, bind_ok_iff, stepMachine_ok_iff, tickIfDue_ok_iff,
        pure_ok_iff]
      exact ⟨⟨⟩, stepped, ⟨keys, steps⟩, ⟨⟩, h', ⟨buzzer, ticks⟩, trivial, rfl⟩
    · exact ⟨⟨⟩, reported, ⟨title, reports⟩, true, h', .inr ⟨rfl, quits⟩, rfl⟩

theorem pass_ok_iff {h h' : Host τ} {through : Bool} :
    (pass : HostM τ Bool).run h = .ok through h' ↔
      (through = true ∧ ∃ round, RoundTo h round h') ∨
      (through = false ∧ ∃ farewell, QuitTo h farewell h') := by
  rw [pass, bind_ok_iff]
  simp only [bind_ok_iff, readClock_ok_iff, begin_ok_iff]
  constructor
  · rintro ⟨now, _, ⟨clock, read, rfl⟩, _, _, ⟨title, reported, reports, begun⟩, ends⟩
    rcases begun with ⟨rfl, drew, polled, keys, stepped, buzzer, polls, steps, ticks⟩ |
      ⟨rfl, quits⟩
    · simp only [if_true, bind_ok_iff, awaitNext_ok_iff, finish, modify_ok_iff,
        pure_ok_iff] at ends
      obtain ⟨_, waited, waits, _, _, rfl, rfl, rfl⟩ := ends
      exact .inl ⟨rfl, _, .round read reports polls steps ticks waits⟩
    · obtain ⟨rfl, rfl⟩ := pure_ok_iff.mp ends
      exact .inr ⟨rfl, _, .quit read reports quits⟩
  · rintro (⟨rfl, _, ⟨read, reports, polls, steps, ticks, waits⟩⟩ |
      ⟨rfl, _, ⟨read, reports, quits⟩⟩)
    · refine ⟨_, _, ⟨_, read, rfl⟩, true, _, ⟨_, _, reports,
        .inl ⟨rfl, _, _, _, _, _, polls, steps, ticks⟩⟩, ?_⟩
      simp only [if_true, bind_ok_iff, awaitNext_ok_iff, finish, modify_ok_iff, pure_ok_iff]
      exact ⟨⟨⟩, _, waits, ⟨⟩, _, rfl, trivial, rfl⟩
    · exact ⟨_, _, ⟨_, read, rfl⟩, false, _, ⟨_, _, reports, .inr ⟨rfl, quits⟩⟩, rfl⟩

/-- A round reads the clock once and then waits. -/
theorem RoundTo.clock {h h' : Host τ} {round : Round τ} (goes : RoundTo h round h') :
    ∃ clock, h.clock.read = some (round.now, clock) ∧
      ((h.interval = none ∧ h'.clock = clock) ∨
        ∃ interval, h.interval = some interval ∧
          Clock.Awaits (round.now + interval) clock h'.clock) := by
  obtain ⟨read, reports, polls, steps, ticks, waits⟩ := goes
  refine ⟨_, read, ?_⟩
  obtain ⟨⟩ := steps
  cases reports <;> cases polls <;> cases ticks <;> cases waits with
  | uncapped uncapped => exact .inl ⟨uncapped, rfl⟩
  | capped capped awaits => exact .inr ⟨_, capped, awaits⟩

theorem RoundTo.remaining_lt {h h' : Host τ} {round : Round τ} (goes : RoundTo h round h') :
    h'.clock.remaining < h.clock.remaining := by
  obtain ⟨clock, read, waited⟩ := goes.clock
  have left := (Clock.reading_of_read read).2.2.2
  rcases waited with ⟨_, same⟩ | ⟨_, _, awaits⟩
  · rw [same]
    omega
  · have := awaits.remaining_lt
    omega

/-! ### Runs -/

/-- Rounds, one after the other. -/
inductive Rounds : Host τ → List (Round τ) → Host τ → Prop
  | nil (h : Host τ) : Rounds h [] h
  | cons {h between h' : Host τ} {round : Round τ} {rest : List (Round τ)}
      (first : RoundTo h round between) (later : Rounds between rest h') :
      Rounds h (round :: rest) h'

/-- Rounds can be parted anywhere. -/
theorem Rounds.split {h h' : Host τ} {rounds rounds' : List (Round τ)}
    (goes : Rounds h (rounds ++ rounds') h') :
    ∃ between, Rounds h rounds between ∧ Rounds between rounds' h' := by
  induction rounds generalizing h with
  | nil => exact ⟨h, .nil h, goes⟩
  | cons round rest ih =>
      cases goes with
      | cons first later =>
          obtain ⟨between, earlier, later⟩ := ih later
          exact ⟨between, .cons first earlier, later⟩

/-- What comes after the rounds of a run: a farewell if the user quits, and nothing if not. -/
inductive Leaves (h : Host τ) : Option (Farewell τ) → Host τ → Prop
  | done : Leaves h none h
  | quit {farewell : Farewell τ} {h' : Host τ} (quits : QuitTo h farewell h') :
      Leaves h (some farewell) h'

/-- How far a run gets that has run `cycles` instructions already: up to the limit, unless the user
quits before it. -/
def GetsTo (limit : Option Int) (cycles total : Int) (quit : Bool) : Prop :=
  match limit with
  | none => quit = true
  | some limit => if quit then total < limit else total = max cycles limit

theorem getsTo_self_iff {limit : Option Int} {cycles : Int} {quit : Bool} :
    GetsTo limit cycles cycles quit ↔ reached limit cycles = !quit := by
  cases limit with
  | none => cases quit <;> simp [GetsTo, reached]
  | some limit =>
      cases quit <;> simp only [GetsTo, reached, if_true, if_false, Bool.false_eq_true,
        decide_eq_true_eq, decide_eq_false_iff_not, Bool.not_true, Bool.not_false] <;> omega

theorem getsTo_succ_iff {limit : Option Int} {cycles total : Int} {quit : Bool}
    (further : cycles < total) :
    GetsTo limit cycles total quit ↔
      reached limit cycles = false ∧ GetsTo limit (cycles + 1) total quit := by
  cases limit with
  | none => simp [GetsTo, reached]
  | some limit =>
      cases quit <;> simp only [GetsTo, reached, if_true, if_false, Bool.false_eq_true,
        decide_eq_false_iff_not] <;> omega

namespace GetsTo

variable {limit : Option Int} {total : Int} {quit : Bool}

theorem le_max (getsTo : GetsTo limit 0 total quit) {most : Int} (limited : limit = some most) :
    total ≤ max most 0 := by
  subst limited
  cases quit <;> simp only [GetsTo, if_true, if_false, Bool.false_eq_true] at getsTo <;> omega

theorem quit_of_lt {cycles : Int} (getsTo : GetsTo limit cycles total quit)
    (below : ∀ most, limit = some most → total < most) : quit = true := by
  cases quit with
  | true => rfl
  | false =>
      cases limit with
      | none => exact getsTo
      | some most =>
          have full : total = max cycles most := getsTo
          have := below most rfl
          omega

end GetsTo

theorem passes_ok_iff {limit : Option Int} {bound : Nat} {h h' : Host τ} {cycles total : Int}
    (enough : h.clock.remaining < bound) :
    (passes limit bound cycles : HostM τ Int).run h = .ok total h' ↔
      ∃ rounds between farewell, Rounds h rounds between ∧ Leaves between farewell h' ∧
        total = cycles + (rounds.length : Int) ∧ GetsTo limit cycles total farewell.isSome := by
  induction bound generalizing h cycles with
  | zero => exact absurd enough (Nat.not_lt_zero _)
  | succ bound ih =>
      rw [passes]
      constructor
      · intro ends
        cases full : reached limit cycles with
        | true =>
            rw [full, if_pos rfl, pure_ok_iff] at ends
            obtain ⟨rfl, rfl⟩ := ends
            exact ⟨[], h', none, .nil h', .done, by simp, getsTo_self_iff.mpr full⟩
        | false =>
            rw [full, if_neg (by simp), bind_ok_iff] at ends
            obtain ⟨through, between, passed, ends⟩ := ends
            rcases pass_ok_iff.mp passed with ⟨rfl, round, first⟩ | ⟨rfl, farewell, quits⟩
            · have fewer := first.remaining_lt
              rw [if_pos rfl, ih (by omega)] at ends
              obtain ⟨rest, last, farewell, later, leaves, total_eq, getsTo⟩ := ends
              have longer : total = cycles + ((round :: rest).length : Int) := by
                rw [List.length_cons]
                omega
              have further : cycles < total := by
                rw [List.length_cons] at longer
                omega
              exact ⟨round :: rest, last, farewell, .cons first later, leaves, longer,
                (getsTo_succ_iff further).mpr ⟨full, getsTo⟩⟩
            · obtain ⟨rfl, rfl⟩ := pure_ok_iff.mp ends
              exact ⟨[], h, some farewell, .nil h, .quit quits, by simp, getsTo_self_iff.mpr full⟩
      · rintro ⟨rounds, between, farewell, goes, leaves, total_eq, getsTo⟩
        cases goes with
        | nil =>
            obtain rfl : total = cycles := by simpa using total_eq
            have full := getsTo_self_iff.mp getsTo
            cases leaves with
            | done => rw [full, if_pos (by rfl), pure_ok_iff]; exact ⟨rfl, rfl⟩
            | quit quits =>
                rw [full, if_neg (by simp), bind_ok_iff]
                exact ⟨false, h', pass_ok_iff.mpr (.inr ⟨rfl, _, quits⟩), rfl⟩
        | @cons _ next _ round rest first later =>
            rw [List.length_cons] at total_eq
            obtain ⟨full, getsTo⟩ := (getsTo_succ_iff (by omega)).mp getsTo
            have fewer := first.remaining_lt
            rw [full, if_neg (by simp), bind_ok_iff]
            refine ⟨true, next, pass_ok_iff.mpr (.inl ⟨rfl, round, first⟩), ?_⟩
            rw [if_pos rfl, ih (by omega)]
            exact ⟨rest, between, farewell, later, leaves, by omega, getsTo⟩

/-- What a run that ends well has done: rounds, perhaps a farewell, and a last draw. -/
theorem run_ok_iff {limit : Option Int} {h h' : Host τ} {total : Int} :
    (run limit : HostM τ Int).run h = .ok total h' ↔
      ∃ rounds between farewell left, Rounds h rounds between ∧ Leaves between farewell left ∧
        total = rounds.length ∧ GetsTo limit 0 total farewell.isSome ∧
        (left.display.draw left.machine.screen).2.fault = none ∧ h' = left.drawn := by
  rw [run, get_bind_run, bind_ok_iff]
  simp only [passes_ok_iff (Nat.lt_succ_self h.clock.remaining), bind_ok_iff, draw_ok_iff,
    pure_ok_iff, Int.zero_add]
  constructor
  · rintro ⟨_, left, ⟨rounds, between, farewell, goes, leaves, rfl, getsTo⟩, _, _,
      ⟨faultless, rfl⟩, rfl, rfl⟩
    exact ⟨rounds, between, farewell, left, goes, leaves, rfl, getsTo, faultless, rfl⟩
  · rintro ⟨rounds, between, farewell, left, goes, leaves, rfl, getsTo, faultless, rfl⟩
    exact ⟨_, left, ⟨rounds, between, farewell, goes, leaves, rfl, getsTo⟩, ⟨⟩, _,
      ⟨faultless, rfl⟩, rfl, rfl⟩

end Host
end Chip8
