import Chip8.Proofs.Rounds

/-!
The protocol of the host loop: what a run does, in which order, and what comes of it.

The journal of a host is a list of events, and each event does one thing to what the host works with,
its `Scene` (`Scene.Happens`). A round always does the same things in the same order (`Round.events`),
some of them only when they are due, and so does a pass that quits (`Farewell.events`). A run that ends
well has done nothing else (`Host.run_keeps_protocol`).
-/

namespace Chip8

variable {τ : Type}

/-! ### The events of a pass -/

/-- A title shows what was counted. -/
def titleEvents (title : Option (Nat × Nat)) : List (Event τ) :=
  title.toList.map fun (frames, operations) => .title frames operations

/-- A poll that does not ask to quit is followed by a draw. -/
def drawEvents (drew : Option Bool) : List (Event τ) :=
  drew.toList.flatMap fun changed => [.polled false, .drew changed]

def buzzerEvents (buzzer : Option Bool) : List (Event τ) := buzzer.toList.map .buzzer

namespace Round

/-- What a round does before its instruction runs, oldest first. -/
def lead (round : Round τ) : List (Event τ) :=
  .began round.now :: titleEvents round.title ++ drawEvents round.drew ++ [.keys round.keys]

/-- What a round does, oldest first. -/
def events (round : Round τ) : List (Event τ) :=
  round.lead ++ .stepped :: buzzerEvents round.buzzer

end Round

namespace Farewell

/-- What a pass does before the poll that asks to quit, oldest first. -/
def lead (farewell : Farewell τ) : List (Event τ) :=
  .began farewell.now :: titleEvents farewell.title

/-- What a pass that quits does, oldest first. -/
def events (farewell : Farewell τ) : List (Event τ) := farewell.lead ++ [.polled true]

end Farewell

/-! ### The events of a run -/

/-- What a run does that ends well, oldest first: rounds, perhaps a pass that quits, and a draw. -/
def runEvents (rounds : List (Round τ)) (farewell : Option (Farewell τ)) (changed : Bool) :
    List (Event τ) :=
  rounds.flatMap Round.events ++ farewell.elim [] Farewell.events ++ [.drew changed]

def Event.isStep : Event τ → Bool
  | .stepped => true
  | _ => false

/-- A round runs one instruction. -/
theorem Round.countP_events (round : Round τ) : round.events.countP Event.isStep = 1 := by
  obtain ⟨now, title, drew, keys, buzzer⟩ := round
  cases title <;> cases drew <;> cases buzzer <;> rfl

theorem Farewell.countP_events (farewell : Farewell τ) :
    farewell.events.countP Event.isStep = 0 := by
  obtain ⟨now, title⟩ := farewell
  cases title <;> rfl

theorem countP_flatMap_events (rounds : List (Round τ)) :
    (rounds.flatMap Round.events).countP Event.isStep = rounds.length := by
  induction rounds with
  | nil => rfl
  | cons round rest ih =>
      rw [List.flatMap_cons, List.countP_append, round.countP_events, ih, List.length_cons,
        Nat.add_comm]

theorem countP_runEvents (rounds : List (Round τ)) (farewell : Option (Farewell τ))
    (changed : Bool) : (runEvents rounds farewell changed).countP Event.isStep = rounds.length := by
  have last : (farewell.elim [] Farewell.events).countP Event.isStep = 0 := by
    cases farewell with
    | none => rfl
    | some farewell => exact farewell.countP_events
  rw [runEvents, List.countP_append, List.countP_append, countP_flatMap_events, last]
  rfl

/-- No poll of a round asks to quit. -/
theorem Round.polled_notMem_events (round : Round τ) : .polled true ∉ round.events := by
  simp [events, lead, titleEvents, drawEvents, buzzerEvents]

theorem polled_notMem_flatMap_events (rounds : List (Round τ)) :
    .polled true ∉ rounds.flatMap Round.events := by
  intro member
  obtain ⟨round, _, member⟩ := List.mem_flatMap.mp member
  exact round.polled_notMem_events member

theorem runEvents_some (rounds : List (Round τ)) (farewell : Farewell τ) (changed : Bool) :
    runEvents rounds (some farewell) changed =
      rounds.flatMap Round.events ++ farewell.lead ++ [.polled true, .drew changed] := by
  simp [runEvents, Farewell.events]

/-- Nothing but the last draw comes after a poll that asks to quit. -/
theorem eq_drew_of_runEvents {rounds : List (Round τ)} {farewell : Option (Farewell τ)}
    {changed : Bool} {before after : List (Event τ)}
    (parts : runEvents rounds farewell changed = before ++ .polled true :: after) :
    after = [.drew changed] := by
  have stays := polled_notMem_flatMap_events rounds
  cases farewell with
  | none =>
      have member : Event.polled true ∈ before ++ .polled true :: after := by simp
      rw [← parts] at member
      exact absurd member (by simp [runEvents, stays])
  | some farewell =>
      have unasked : Event.polled true ∉ rounds.flatMap Round.events ++ farewell.lead := by
        simp [stays, Farewell.lead, titleEvents]
      rw [runEvents_some, List.append_cons_inj_of_notMem unasked (by simp)] at parts
      exact parts.2.2.symm

/-! ### Scenes -/

/-- What a host works with, and the calls noted down, newest first. -/
structure Scene (τ : Type) where
  machine : Machine
  display : Display
  inputs : Inputs τ
  sound : Sound
  timeOfDay : τ
  notes : DeviceCall → Bool
  calls : List DeviceCall

namespace Scene

def log (s : Scene τ) (calls : List DeviceCall) : Scene τ :=
  { s with calls := (calls.filter s.notes).reverse ++ s.calls }

variable [Scalar τ]

/-- What each event does. -/
inductive Happens (s : Scene τ) : Event τ → Scene τ → Prop
  | began (now : τ) : Happens s (.began now) s
  | title {frames operations : Nat} {shown : Shown}
      (shows : s.display.setTitle (Host.titleText frames operations) = shown)
      (faultless : shown.fault = none) :
      Happens s (.title frames operations) ({ s with display := shown.display }.log shown.calls)
  | polled {quit : Bool} {inputs : Inputs τ} (answers : s.inputs.poll s.timeOfDay = (quit, inputs)) :
      Happens s (.polled quit) { s with inputs }
  /-- The display draws the screen of the machine, and takes its mark away. -/
  | drew {screen : Framebuffer} {shown : Shown}
      (shows : s.display.draw s.machine.screen = (screen, shown)) (faultless : shown.fault = none) :
      Happens s (.drew s.machine.screen.changed)
        ({ s with machine := { s.machine with screen }, display := shown.display }.log shown.calls)
  /-- The machine takes over which keys the inputs say are down. -/
  | keys {states : List Bool} {inputs : Inputs τ} {machine : Machine}
      (answers : s.inputs.keyStates s.timeOfDay = (states, inputs))
      (set : s.machine.setKeys states = .ok machine) :
      Happens s (.keys states) { s with inputs, machine }
  | stepped (went : s.machine.step.fault = none) :
      Happens s .stepped { s with machine := s.machine.step.machine }
  /-- The timers count down, and the sound is told what comes of it. -/
  | buzzer {on : Bool} {machine : Machine} {sound : Sound} {calls : List DeviceCall}
      (ticks : s.machine.advanceTimers = (on, machine))
      (buzzes : s.sound.enableBuzzer on = (sound, calls)) :
      Happens s (.buzzer on) ({ s with machine, sound }.log calls)

/-- Events, one after the other. -/
inductive Goes : Scene τ → List (Event τ) → Scene τ → Prop
  | nil (s : Scene τ) : Goes s [] s
  | cons {s between s' : Scene τ} {event : Event τ} {rest : List (Event τ)}
      (first : Happens s event between) (later : Goes between rest s') : Goes s (event :: rest) s'

namespace Goes

variable {s between s' : Scene τ} {event : Event τ} {events events' : List (Event τ)}

theorem single (happens : Happens s event s') : Goes s [event] s' := .cons happens (.nil s')

theorem append (first : Goes s events between) (later : Goes between events' s') :
    Goes s (events ++ events') s' := by
  induction first with
  | nil s => exact later
  | cons happens _ ih => exact .cons happens (ih later)

theorem split (goes : Goes s (events ++ events') s') :
    ∃ between, Goes s events between ∧ Goes between events' s' := by
  induction events generalizing s with
  | nil => exact ⟨s, .nil s, goes⟩
  | cons event rest ih =>
      cases goes with
      | cons happens later =>
          obtain ⟨between, first, later⟩ := ih later
          exact ⟨between, .cons happens first, later⟩

/-- After keys were handed over, the keypad of the machine is what the inputs said. -/
theorem keypad {states : List Bool} (goes : Goes s (events ++ [.keys states]) s') :
    s'.machine.keypad.toList = states := by
  obtain ⟨between, _, last⟩ := goes.split
  cases last with
  | cons happens rest =>
      cases rest
      cases happens with
      | keys answers set =>
          obtain ⟨_, rfl⟩ := Machine.setKeys_eq_ok_iff.mp set
          rfl

/-- On the way through the events of a run, each round comes to its instruction with the keys that were
asked for in that round. -/
theorem through_round {earlier later : List (Round τ)} {round : Round τ}
    {farewell : Option (Farewell τ)} {changed : Bool}
    (goes : Goes s (runEvents (earlier ++ round :: later) farewell changed) s') :
    ∃ ready stepped rest,
      runEvents (earlier ++ round :: later) farewell changed =
        earlier.flatMap Round.events ++ round.lead ++ .stepped :: rest ∧
      Goes s (earlier.flatMap Round.events ++ round.lead) ready ∧
      ready.machine.keypad.toList = round.keys ∧ Happens ready .stepped stepped ∧
      Goes stepped rest s' := by
  rw [runEvents, List.flatMap_append, List.flatMap_cons, Round.events] at goes ⊢
  simp only [List.append_assoc, List.cons_append] at goes ⊢
  obtain ⟨between, first, rest⟩ := goes.split
  obtain ⟨ready, lead, rest⟩ := rest.split
  cases rest with
  | cons happens rest => exact ⟨ready, _, _, rfl, first.append lead, lead.keypad, happens, rest⟩

end Goes

end Scene

namespace Host

/-! ### What the phases do -/

def scene (h : Host τ) : Scene τ where
  machine := h.machine
  display := h.display
  inputs := h.inputs
  sound := h.sound
  timeOfDay := h.timeOfDay
  notes := h.notes
  calls := h.calls

variable [Scalar τ]

/-- The way from one host to another consists of events, all of which are in the journal. -/
structure Did (h : Host τ) (events : List (Event τ)) (h' : Host τ) : Prop where
  journal : h'.journal = events.reverse ++ h.journal
  goes : h.scene.Goes events h'.scene

variable {h between h' : Host τ} {now : τ}

namespace Did

variable {events events' : List (Event τ)}

/-- The times, the counts and the clock are no part of the scene. -/
theorem offScene (journal : h'.journal = h.journal) (scene : h'.scene = h.scene) : Did h [] h' :=
  ⟨journal, scene ▸ .nil h.scene⟩

theorem trans (first : Did h events between) (later : Did between events' h') :
    Did h (events ++ events') h' where
  journal := by rw [later.journal, first.journal, List.reverse_append, List.append_assoc]
  goes := first.goes.append later.goes

end Did

theorem did_drawn (faultless : (h.display.draw h.machine.screen).2.fault = none) :
    Did h [.drew h.machine.screen.changed] h.drawn :=
  ⟨rfl, .single (.drew rfl faultless)⟩

theorem Reports.did {title : Option (Nat × Nat)} (reports : Reports now h title h') :
    Did h (titleEvents title) h' := by
  cases reports with
  | early => exact .offScene rfl rfl
  | due _ _ _ faultless => exact ⟨rfl, .single (.title rfl faultless)⟩

theorem Polls.did {drew : Option Bool} (polls : Polls now h drew h') :
    Did h (drawEvents drew) h' := by
  cases polls with
  | early => exact .offScene rfl rfl
  | due _ stays faultless =>
      exact ⟨rfl, .cons (.polled stays) (.single (.drew rfl faultless))⟩

theorem Quits.did (quits : Quits now h h') : Did h [.polled true] h' := by
  cases quits with
  | due _ answers => exact ⟨rfl, .single (.polled answers)⟩

theorem Steps.did {keys : List Bool} (steps : Steps h keys h') : Did h [.keys keys, .stepped] h' := by
  cases steps with
  | step asked set went => exact ⟨rfl, .cons (.keys asked set) (.single (.stepped went))⟩

theorem Ticks.did {buzzer : Option Bool} (ticks : Ticks now h buzzer h') :
    Did h (buzzerEvents buzzer) h' := by
  cases ticks with
  | early => exact .offScene rfl rfl
  | due => exact ⟨rfl, .single (.buzzer rfl rfl)⟩

theorem Waits.did (waits : Waits now h h') : Did h [] h' := by
  cases waits <;> exact .offScene rfl rfl

/-! ### What passes and runs do -/

theorem did_began {clock : Clock τ} :
    Did h [.began now] (({ h with clock } : Host τ).record (.began now)) :=
  ⟨rfl, .single (.began now)⟩

theorem RoundTo.did {round : Round τ} (goes : RoundTo h round h') : Did h round.events h' := by
  cases goes with
  | @round now _ title drew buzzer keys _ _ _ _ waited read reports polls steps ticks waits =>
      have lead := (did_began.trans reports.did).trans polls.did
      have ran := (lead.trans steps.did).trans (ticks.did.trans waits.did)
      have counted : Did waited [] { waited with operations := waited.operations + 1 } :=
        .offScene rfl rfl
      have done := ran.trans counted
      simpa [Round.events, Round.lead] using done

theorem QuitTo.did {farewell : Farewell τ} (goes : QuitTo h farewell h') :
    Did h farewell.events h' := by
  cases goes with
  | quit read reports quits => exact (did_began.trans reports.did).trans quits.did

theorem Rounds.did {rounds : List (Round τ)} (goes : Rounds h rounds h') :
    Did h (rounds.flatMap Round.events) h' := by
  induction goes with
  | nil h => exact .offScene rfl rfl
  | cons first _ ih => exact first.did.trans ih

theorem Leaves.did {farewell : Option (Farewell τ)} (leaves : Leaves h farewell h') :
    Did h (farewell.elim [] Farewell.events) h' := by
  cases leaves with
  | done => exact .offScene rfl rfl
  | quit quits => exact quits.did

/-- A run that ends well has done its rounds, its farewell if there was one, and a draw. -/
theorem did_of_run {limit : Option Int} {cycles : Int} (ends : (run limit).run h = .ok cycles h') :
    ∃ (rounds : List (Round τ)) (farewell : Option (Farewell τ)) (changed : Bool),
      Did h (runEvents rounds farewell changed) h' ∧ cycles = rounds.length ∧
      GetsTo limit 0 cycles farewell.isSome := by
  obtain ⟨rounds, between, farewell, left, goes, leaves, total, getsTo, faultless, rfl⟩ :=
    run_ok_iff.mp ends
  exact ⟨rounds, farewell, _, (goes.did.trans leaves.did).trans (did_drawn faultless), total, getsTo⟩

/-- **The host loop keeps to its protocol.** A run that ends well consists of rounds, perhaps of a last
pass in which the user quits, and of a draw, and it does nothing but the events of these. No event
but that draw comes after a poll that asks to quit. The run answers how many instructions it ran, which
are as many as asked for unless there was such a poll. Each instruction runs with the keys that the
inputs were asked for in its round. -/
theorem run_keeps_protocol {limit : Option Int} {cycles : Int}
    (ends : (run limit).run h = .ok cycles h') :
    ∃ (rounds : List (Round τ)) (farewell : Option (Farewell τ)) (changed : Bool),
      let events := runEvents rounds farewell changed
      h'.journal = events.reverse ++ h.journal ∧ h.scene.Goes events h'.scene ∧
      (∀ before after, events = before ++ .polled true :: after → after = [.drew changed]) ∧
      cycles = rounds.length ∧ cycles = events.countP Event.isStep ∧
      (∀ most, limit = some most → cycles ≤ max most 0) ∧
      ((∀ most, limit = some most → cycles < most) →
        ∃ before, events = before ++ [.polled true, .drew changed]) ∧
      ∀ earlier round later, rounds = earlier ++ round :: later →
        ∃ ready stepped rest,
          events = earlier.flatMap Round.events ++ round.lead ++ .stepped :: rest ∧
          h.scene.Goes (earlier.flatMap Round.events ++ round.lead) ready ∧
          ready.machine.keypad.toList = round.keys ∧ ready.Happens .stepped stepped ∧
          stepped.Goes rest h'.scene := by
  obtain ⟨rounds, farewell, changed, did, total, getsTo⟩ := did_of_run ends
  refine ⟨rounds, farewell, changed, did.journal, did.goes, fun _ _ => eq_drew_of_runEvents, total,
    ?_, fun _ => getsTo.le_max, ?_, ?_⟩
  · rw [total, countP_runEvents]
  · intro below
    obtain ⟨farewell, rfl⟩ := Option.isSome_iff_exists.mp (getsTo.quit_of_lt below)
    exact ⟨_, runEvents_some rounds farewell changed⟩
  · rintro earlier round later rfl
    exact did.goes.through_round

/-- The user quits at the second poll, before the second of five instructions. -/
theorem run_keeps_protocol_quit :
    ∃ (h h' : Host Rat) (events : List (Event Rat)), (run (some 5)).run h = .ok 1 h' ∧
      h'.journal = events.reverse ++ h.journal ∧ events.countP Event.isStep = 1 ∧
      ∃ before changed, events = before ++ [.polled true, .drew changed] := by
  let opened : Display := { scale := 1, surface := .headless }
  let machine := (Machine.create false false (.cycle #[])).performAll [.load [0x12, 0x00]]
  let blank := { machine with screen := { machine.screen with changed := false } }
  let host : Host Rat :=
    { idle ⟨blank, opened, []⟩ 5 with
      inputs := .playback
        { quitAt := fun k => k = 1
          keysAt := fun _ => List.replicate 16 false } }
  have answers : (run (some 5)).run' host = some 1 := by decide +kernel
  have ends := run_of_run' answers
  obtain ⟨rounds, farewell, changed, journal, _, _, _, counted, _, quits, _⟩ :=
    run_keeps_protocol ends
  refine ⟨host, _, _, ends, journal, Int.ofNat_inj.mp counted.symm, ?_⟩
  obtain ⟨before, parts⟩ := quits fun most limited => by
    cases limited
    decide
  exact ⟨before, changed, parts⟩

end Host

end Chip8
