import Chip8.Proofs.Protocol

/-!
Moves: what a host does one thing at a time, also when a run breaks off.

Rounds tell what a run has done that ends well. A pass can break off at any place, and then it has
done only part of a round. Here each thing that a pass does is a move (`Move`), labelled with the
events that it puts into the journal, and however a computation ends, moves lead to the host that
it leaves behind (`Leads`). A pass makes one instruction at most (`leads_pass`), and a run is
rounds, perhaps a last pass that ends in any way, and perhaps a draw (`run_course`). So what passes
and draws keep, every run keeps (`run_keeps`), and every series of runs as well (`runAll_keeps`).
-/

namespace Chip8.Host

variable {τ α β : Type}

/-- The host after a draw that is not in the journal yet. -/
def painted (h : Host τ) : Host τ :=
  let drawing := h.display.draw h.machine.screen
  { h with
    machine := { h.machine with screen := drawing.1 }
    display := drawing.2.display }.log drawing.2.calls

/-- A draw that fails is not told of. -/
theorem after_draw (h : Host τ) :
    ((h.display.draw h.machine.screen).2.fault = none ∧ after draw h = h.drawn) ∨
      after draw h = h.painted := by
  unfold draw
  rw [after_get_bind, after_set_bind]
  cases (h.display.draw h.machine.screen).2.fault with
  | none => exact .inl ⟨rfl, rfl⟩
  | some fault => exact .inr rfl

variable [Scalar τ]

/-! ### Moves -/

/-- What a pass that began at `now` can do next, and the events of it. -/
inductive Move (now : τ) (h : Host τ) : List (Event τ) → Host τ → Prop
  /-- The clock is read while waiting. -/
  | wait {shown : τ} {clock : Clock τ} (read : h.clock.read = some (shown, clock)) :
      Move now h [] { h with clock }
  | schedule (nextReport : τ) : Move now h [] { h with nextReport }
  | title {frames operations : Nat}
      (faultless : (h.display.setTitle (titleText frames operations)).fault = none) :
      Move now h [.title frames operations] (h.titled frames operations)
  | count (frames operations : Nat) : Move now h [] { h with frames, operations }
  /-- A poll that does not ask to quit puts the next one off. -/
  | poll {inputs : Inputs τ} (due : Scalar.atMost h.nextDisplay now = true)
      (stays : h.inputs.poll h.timeOfDay = (false, inputs)) :
      Move now h [.polled false]
        { ({ h with inputs }.record (.polled false)) with nextDisplay := now + displayInterval }
  | quit {inputs : Inputs τ} (due : Scalar.atMost h.nextDisplay now = true)
      (quits : h.inputs.poll h.timeOfDay = (true, inputs)) :
      Move now h [.polled true] ({ h with inputs }.record (.polled true))
  | draw (faultless : (h.display.draw h.machine.screen).2.fault = none) :
      Move now h [.drew h.machine.screen.changed] h.drawn
  | paint : Move now h [] h.painted
  | keys {states : List Bool} {inputs : Inputs τ}
      (asked : h.inputs.keyStates h.timeOfDay = (states, inputs)) :
      Move now h [.keys states] ({ h with inputs }.record (.keys states))
  | step {states : List Bool} {machine : Machine} (set : h.machine.setKeys states = .ok machine)
      (went : machine.step.fault = none) :
      Move now h [.stepped] ({ h with machine := machine.step.machine }.record .stepped)
  /-- An instruction that fails is not told of. -/
  | halt {states : List Bool} {machine : Machine} (set : h.machine.setKeys states = .ok machine) :
      Move now h [] { h with machine := machine.step.machine }
  /-- A tick puts the next one off. -/
  | tick (due : Scalar.atMost h.nextTimer now = true) :
      Move now h [.buzzer h.machine.advanceTimers.1] (h.ticked now)

/-- Moves, one after the other. -/
inductive Moves (now : τ) : Host τ → List (Event τ) → Host τ → Prop
  | nil (h : Host τ) : Moves now h [] h
  | cons {h between h' : Host τ} {events events' : List (Event τ)}
      (first : Move now h events between) (later : Moves now between events' h') :
      Moves now h (events ++ events') h'

variable {now : τ} {h between h' : Host τ} {events events' : List (Event τ)}

/-- The journal grows by the events of a move, none of which is the beginning of a pass. -/
theorem Move.journal (move : Move now h events h') :
    h'.journal = events.reverse ++ h.journal ∧ ∀ now', .began now' ∉ events := by
  cases move <;> exact ⟨rfl, fun _ => by simp⟩

namespace Moves

theorem single (move : Move now h events h') : Moves now h events h' := by
  have moves : Moves now h (events ++ []) h' := .cons move (.nil h')
  rwa [List.append_nil] at moves

theorem trans (first : Moves now h events between) (later : Moves now between events' h') :
    Moves now h (events ++ events') h' := by
  induction first with
  | nil => exact later
  | cons move _ ih =>
      rw [List.append_assoc]
      exact .cons move (ih later)

theorem journal (moves : Moves now h events h') :
    h'.journal = events.reverse ++ h.journal ∧ ∀ now', .began now' ∉ events := by
  induction moves with
  | nil h => exact ⟨rfl, fun _ => List.not_mem_nil⟩
  | cons move _ ih =>
      obtain ⟨earlier, inside⟩ := move.journal
      obtain ⟨later, inside'⟩ := ih
      refine ⟨?_, fun now' member => ?_⟩
      · rw [later, earlier, List.reverse_append, List.append_assoc]
      · exact (List.mem_append.mp member).elim (inside now') (inside' now')

/-- What every move keeps, moves keep. -/
theorem keep {P : Host τ → Prop} (step : ∀ {h events h'}, Move now h events h' → P h → P h')
    (moves : Moves now h events h') (start : P h) : P h' := by
  induction moves with
  | nil => exact start
  | cons move _ ih => exact ih (step move start)

end Moves

/-- Moves lead from one host to another, and at most `most` of them run an instruction. -/
def Leads (now : τ) (most : Nat) (h h' : Host τ) : Prop :=
  ∃ events, Moves now h events h' ∧ events.countP Event.isStep ≤ most

namespace Leads

variable {most most' : Nat}

theorem refl (h : Host τ) : Leads now most h h := ⟨[], .nil h, Nat.zero_le _⟩

theorem trans (first : Leads now most h between) (later : Leads now most' between h') :
    Leads now (most + most') h h' := by
  obtain ⟨events, moves, few⟩ := first
  obtain ⟨events', moves', few'⟩ := later
  refine ⟨events ++ events', moves.trans moves', ?_⟩
  rw [List.countP_append]
  exact Nat.add_le_add few few'

/-- Moves of which none runs an instruction come before others. -/
theorem trans_zero (first : Leads now 0 h between) (later : Leads now most between h') :
    Leads now most h h' := by
  have leads := first.trans later
  rwa [Nat.zero_add] at leads

/-- No move runs an instruction but the one that tells of it. -/
theorem idle (move : Move now h events h') (idle : .stepped ∉ events) : Leads now 0 h h' := by
  refine ⟨events, .single move, Nat.le_of_eq (List.countP_eq_zero.mpr ?_)⟩
  intro event member isStep
  cases event with
  | stepped => exact idle member
  | _ => cases isStep

theorem step (move : Move now h [.stepped] h') : Leads now 1 h h' :=
  ⟨[.stepped], .single move, Nat.le_refl 1⟩

theorem mono (leads : Leads now most h h') (more : most ≤ most') : Leads now most' h h' := by
  obtain ⟨events, moves, few⟩ := leads
  exact ⟨events, moves, Nat.le_trans few more⟩

/-- Two computations, the second of which is made only if the first ends well. -/
theorem bind {first : HostM τ α} {next : α → HostM τ β} {source : Host τ}
    (start : Leads now most source (after first h))
    (rest : ∀ a between, first.run h = .ok a between →
      Leads now most' between (after (next a) between)) :
    Leads now (most + most') source (after (first >>= next) h) := by
  rw [after_bind]
  rw [after] at start
  cases ends : first.run h with
  | ok a between =>
      rw [ends] at start
      exact start.trans (rest a between ends)
  | error stop between =>
      rw [ends] at start
      exact start.mono (Nat.le_add_right most most')

theorem bind_zero {first : HostM τ α} {next : α → HostM τ β}
    (start : Leads now 0 h (after first h))
    (rest : ∀ a between, first.run h = .ok a between →
      Leads now most between (after (next a) between)) :
    Leads now most h (after (first >>= next) h) := by
  have leads := start.bind rest
  rwa [Nat.zero_add] at leads

/-- A result that is not there ends a computation. -/
theorem ofExcept_bind {result : Except Fault α} {next : α → HostM τ β}
    (rest : ∀ a, result = .ok a → Leads now most h (after (next a) h)) :
    Leads now most h (after (ofExcept result >>= next) h) := by
  cases result with
  | ok a => exact rest a rfl
  | error fault => exact .refl h

end Leads

/-! ### Phases -/

theorem leads_readClock : Leads now 0 h (after readClock h) := by
  unfold readClock
  rw [after_get_bind]
  split
  · exact .refl h
  · next read => exact .idle (.wait read) List.not_mem_nil

theorem leads_draw : Leads now 0 h (after draw h) := by
  rcases after_draw h with ⟨faultless, drawn⟩ | painted
  · rw [drawn]
    exact .idle (.draw faultless) (by simp)
  · rw [painted]
    exact .idle .paint List.not_mem_nil

theorem leads_reportIfDue : Leads now 0 h (after (reportIfDue now) h) := by
  unfold reportIfDue
  rw [after_get_bind]
  split
  · refine .ofExcept_bind fun whole _ => .ofExcept_bind fun second _ => ?_
    rw [after_set_bind]
    refine .trans_zero (.idle (.schedule (second + Scalar.ofNat 1)) List.not_mem_nil) ?_
    rw [reportPerformance_eq]
    dsimp only
    cases faulty : (h.display.setTitle (titleText h.frames h.operations)).fault with
    | some fault => exact .refl _
    | none =>
        exact .trans_zero (.idle (.title faulty) (by simp)) (.idle (.count 0 0) List.not_mem_nil)
  · exact .refl h

theorem leads_pollIfDue : Leads now 0 h (after (pollIfDue now) h) := by
  unfold pollIfDue
  rw [after_get_bind]
  split
  · next due =>
      cases polled : h.inputs.poll h.timeOfDay with
      | mk quit inputs =>
          have ends := poll_ok_iff.mpr ⟨inputs, polled, rfl⟩
          cases quit with
          | true =>
              rw [after_bind_of_ok ends]
              exact .idle (.quit due polled) (by simp)
          | false =>
              rw [after_bind_of_ok ends]
              refine .trans_zero (.idle (.poll due polled) (by simp)) ?_
              exact .bind_zero leads_draw fun _ _ _ => .idle (.count _ _) List.not_mem_nil
  · exact .refl h

theorem leads_stepMachine : Leads now 1 h (after stepMachine h) := by
  unfold stepMachine
  rw [after_get_bind]
  cases asked : h.inputs.keyStates h.timeOfDay with
  | mk states inputs =>
      dsimp only
      rw [after_set_bind]
      refine .trans_zero (.idle (.keys asked) (by simp)) ?_
      rw [after_bind, run_setKeys]
      cases set : (({ h with inputs }.record (.keys states)).machine.setKeys states) with
      | error fault => exact .mono (.refl _) (Nat.zero_le 1)
      | ok machine =>
          dsimp only
          rw [after_bind, run_step]
          cases went : machine.step.fault with
          | some fault =>
              dsimp only
              exact .mono (.idle (.halt set) List.not_mem_nil) (Nat.zero_le 1)
          | none =>
              dsimp only
              exact .step (.step set went)

theorem leads_tickIfDue : Leads now 0 h (after (tickIfDue now) h) := by
  unfold tickIfDue
  rw [after_get_bind]
  split
  · next due => exact .idle (.tick due) (by simp)
  · exact .refl h

theorem leads_waitUntil (deadline : τ) (bound : Nat) :
    Leads now 0 h (after (waitUntil deadline bound) h) := by
  induction bound generalizing h with
  | zero => exact .refl h
  | succ bound ih =>
      refine .bind_zero leads_readClock fun shown between _ => ?_
      split
      · exact ih
      · exact .refl between

theorem leads_awaitNext : Leads now 0 h (after (awaitNext now) h) := by
  unfold awaitNext
  rw [after_get_bind]
  split
  · exact .refl h
  · exact leads_waitUntil _ _

/-! ### Passes and runs -/

/-- A host that has done nothing yet. -/
def fresh (machine : Machine) (display : Display) (inputs : Inputs τ) (sound : Sound)
    (interval : Option τ) (clock : Clock τ) (timeOfDay : τ) : Host τ :=
  { machine, display, inputs, sound, interval, clock, timeOfDay
    nextDisplay := Scalar.ofNat 0
    nextTimer := Scalar.ofNat 0
    nextReport := Scalar.ofNat 0 }

/-- A new host has shown its first title and done nothing else. -/
theorem create_ok_iff {machine : Machine} {display : Display} {inputs : Inputs τ} {sound : Sound}
    {speed : Choice Int} {clock : Clock τ} {timeOfDay : τ} :
    create machine display inputs sound speed clock timeOfDay = .ok h ↔
      ∃ interval, intervalOf speed = .ok interval ∧
        (display.setTitle (titleText 0 0)).fault = none ∧
        h = (fresh machine display inputs sound interval clock timeOfDay).titled 0 0 := by
  unfold create
  cases (intervalOf speed : Except Fault (Option τ)) with
  | error fault => exact ⟨nofun, nofun⟩
  | ok interval =>
      cases faulty : (display.setTitle (titleText 0 0)).fault with
      | some fault =>
          simp only [ok_bind, reportPerformance_eq, faulty]
          exact ⟨nofun, fun ⟨_, _, faultless, _⟩ => by cases faultless⟩
      | none =>
          simp only [ok_bind, reportPerformance_eq, faulty]
          constructor
          · rintro ⟨⟩
            exact ⟨interval, rfl, trivial, rfl⟩
          · rintro ⟨_, ⟨⟩, _, rfl⟩
            rfl

/-- Once it has begun, a pass runs one instruction at most. -/
theorem leads_begin : Leads now 1 (h.record (.began now)) (after (begin now) h) := by
  unfold begin
  rw [after_modify_bind]
  refine .bind_zero leads_reportIfDue fun _ _ _ => .bind_zero leads_pollIfDue fun quit _ _ => ?_
  split
  · exact .refl _
  · show Leads now (1 + 0) _ _
    refine .bind leads_stepMachine fun _ _ _ => ?_
    exact .bind_zero leads_tickIfDue fun _ _ _ => .refl _

/-- A pass that cannot read the clock does nothing. Any other begins at the time that the clock
shows and goes on with moves, one instruction among them at most. -/
theorem leads_pass (h : Host τ) :
    after pass h = h ∨ ∃ now clock, h.clock.read = some (now, clock) ∧
      Leads now 1 (({ h with clock } : Host τ).record (.began now)) (after pass h) := by
  cases read : h.clock.read with
  | none =>
      left
      rw [pass, after_bind, readClock, get_bind_run, read]
      rfl
  | some result =>
      obtain ⟨now, clock⟩ := result
      refine .inr ⟨now, clock, rfl, ?_⟩
      rw [pass, after_bind_of_ok (readClock_ok_iff.mpr ⟨clock, read, rfl⟩)]
      show Leads now (1 + 0) _ _
      refine .bind leads_begin fun through _ _ => ?_
      split
      · refine .bind_zero leads_awaitNext fun _ _ _ => ?_
        exact .bind_zero (.idle (.count _ _) List.not_mem_nil) fun _ _ _ => .refl _
      · exact .refl _

/-- A round is a pass. -/
theorem RoundTo.after_pass {round : Round τ} (goes : RoundTo h round h') : after pass h = h' :=
  after_of_ok (pass_ok_iff.mpr (.inl ⟨rfl, round, goes⟩))

/-- Passes are rounds, and perhaps one more pass: any pass that does not go through is the last
one. -/
theorem passes_course (limit : Option Int) (bound : Nat) (cycles : Int) (h : Host τ) :
    ∃ rounds between, Rounds h rounds between ∧
      (after (passes limit bound cycles) h = between ∨
        after (passes limit bound cycles) h = after pass between) := by
  have here (h : Host τ) :
      ∃ rounds between, Rounds h rounds between ∧ (h = between ∨ h = after pass between) :=
    ⟨[], h, .nil h, .inl rfl⟩
  induction bound generalizing h cycles with
  | zero =>
      unfold passes
      split <;> exact here h
  | succ bound ih =>
      unfold passes
      split
      · exact here h
      · rw [after_bind]
        cases passed : pass.run h with
        | error stop h' =>
            refine ⟨[], h, .nil h, .inr ?_⟩
            rw [after, passed]
        | ok through h' =>
            rcases pass_ok_iff.mp passed with ⟨rfl, round, first⟩ | ⟨rfl, _⟩
            · obtain ⟨rounds, between, later, ends⟩ := ih (cycles + 1) h'
              exact ⟨round :: rounds, between, .cons first later, ends⟩
            · refine ⟨[], h, .nil h, .inr ?_⟩
              rw [after_of_ok passed]
              rfl

/-- However a run ends, it is rounds, perhaps one more pass that ends in any way, and perhaps a
draw. -/
theorem run_course (limit : Option Int) (h : Host τ) :
    ∃ rounds between last, Rounds h rounds between ∧
      (last = between ∨ last = after pass between) ∧
      (after (run limit) h = last ∨ after (run limit) h = after draw last) := by
  obtain ⟨rounds, between, goes, ends⟩ := passes_course limit (h.clock.remaining + 1) 0 h
  refine ⟨rounds, between, _, goes, ends, ?_⟩
  rw [run, after_get_bind, after_bind, after]
  cases (passes limit (h.clock.remaining + 1) 0).run h with
  | error stop h' => exact .inl rfl
  | ok cycles h' =>
      right
      dsimp only
      rw [after_bind, after]
      cases draw.run h' <;> rfl

/-- What the beginning of a pass and every move keep, passes keep. -/
theorem pass_keeps {P : Host τ → Prop}
    (begins : ∀ {h : Host τ} {now clock}, h.clock.read = some (now, clock) → P h →
      P (({ h with clock } : Host τ).record (.began now)))
    (moves : ∀ {now h events h'}, Move now h events h' → P h → P h') (start : P h) :
    P (after pass h) := by
  rcases leads_pass h with same | ⟨now, clock, read, events, went, _⟩
  · rwa [same]
  · exact went.keep moves (begins read start)

theorem draw_keeps {P : Host τ → Prop}
    (moves : ∀ {now h events h'}, Move now h events h' → P h → P h') (start : P h) :
    P (after draw h) := by
  rcases after_draw h with ⟨faultless, same⟩ | same
  · have drawn : Move (Scalar.ofNat 0) h _ h.drawn := .draw faultless
    rw [same]
    exact moves drawn start
  · have painted : Move (Scalar.ofNat 0) h _ h.painted := .paint
    rw [same]
    exact moves painted start

theorem Rounds.keep {P : Host τ → Prop} (passes : ∀ h, P h → P (after pass h))
    {rounds : List (Round τ)} (goes : Rounds h rounds h') (start : P h) : P h' := by
  induction goes with
  | nil => exact start
  | cons first _ ih => exact ih (first.after_pass ▸ passes _ start)

theorem passes_keeps {P : Host τ → Prop} (kept : ∀ h, P h → P (after pass h)) (limit : Option Int)
    (bound : Nat) (cycles : Int) (start : P h) : P (after (passes limit bound cycles) h) := by
  obtain ⟨rounds, between, goes, ends | ends⟩ := passes_course limit bound cycles h
  · rw [ends]
    exact goes.keep kept start
  · rw [ends]
    exact kept between (goes.keep kept start)

/-- What passes and draws keep, runs keep. -/
theorem run_keeps {P : Host τ → Prop} (passes : ∀ h, P h → P (after pass h))
    (draws : ∀ h, P h → P (after draw h)) (limit : Option Int) (start : P h) :
    P (after (run limit) h) := by
  obtain ⟨rounds, between, last, goes, passed, ends⟩ := run_course limit h
  have kept : P last := by
    rcases passed with rfl | rfl
    · exact goes.keep passes start
    · exact passes between (goes.keep passes start)
  rcases ends with same | drawn
  · exact same ▸ kept
  · exact drawn ▸ draws last kept

/-- Runs one after the other on one host, each with its own limit. A run that breaks off is
followed by the next one all the same. -/
def runAll (limits : List (Option Int)) (h : Host τ) : Host τ :=
  limits.foldl (fun h limit => after (run limit) h) h

theorem runAll_keeps {P : Host τ → Prop} (passes : ∀ h, P h → P (after pass h))
    (draws : ∀ h, P h → P (after draw h)) (limits : List (Option Int)) (start : P h) :
    P (runAll limits h) := by
  induction limits generalizing h with
  | nil => exact start
  | cons limit rest ih => exact ih (run_keeps passes draws limit start)

/-! ### Paths -/

/-- What passes and draws do, however they end: a pass begins, and hosts move. -/
inductive Path : Host τ → List (Event τ) → Host τ → Prop
  | nil (h : Host τ) : Path h [] h
  | begin {h h' : Host τ} {now : τ} {clock : Clock τ} {events : List (Event τ)}
      (read : h.clock.read = some (now, clock))
      (later : Path (({ h with clock } : Host τ).record (.began now)) events h') :
      Path h (.began now :: events) h'
  | move {h between h' : Host τ} {now : τ} {events events' : List (Event τ)}
      (first : Move now h events between) (later : Path between events' h') :
      Path h (events ++ events') h'

/-- A move makes one event at most. -/
theorem Move.events_cases (move : Move now h events h') : events = [] ∨ ∃ event, events = [event] := by
  cases move with
  | wait | schedule | count | paint | halt => exact .inl rfl
  | title | poll | quit | draw | keys | step | tick => exact .inr ⟨_, rfl⟩

namespace Path

theorem single (move : Move now h events h') : Path h events h' := by
  have path : Path h (events ++ []) h' := .move move (.nil h')
  rwa [List.append_nil] at path

theorem trans (first : Path h events between) (later : Path between events' h') :
    Path h (events ++ events') h' := by
  induction first with
  | nil => exact later
  | begin read _ ih => exact .begin read (ih later)
  | move move _ ih =>
      rw [List.append_assoc]
      exact .move move (ih later)

theorem journal (path : Path h events h') : h'.journal = events.reverse ++ h.journal := by
  induction path with
  | nil h => rfl
  | begin read _ ih =>
      rw [ih, List.reverse_cons, List.append_assoc]
      rfl
  | move move _ ih => rw [ih, move.journal.1, List.reverse_append, List.append_assoc]

/-- What the beginning of a pass and every move keep, paths keep. -/
theorem keep {P : Host τ → Prop}
    (begins : ∀ {h : Host τ} {now clock}, h.clock.read = some (now, clock) → P h →
      P (({ h with clock } : Host τ).record (.began now)))
    (moves : ∀ {now h events h'}, Move now h events h' → P h → P h') (path : Path h events h')
    (start : P h) : P h' := by
  induction path with
  | nil => exact start
  | begin read _ ih => exact ih (begins read start)
  | move move _ ih => exact ih (moves move start)

/-- A path comes to each event of it, other than the beginning of a pass, by a move, and goes on behind
that. -/
theorem at_event {before after : List (Event τ)} {event : Event τ}
    (inside : ∀ now, .began now ≠ event) (path : Path h (before ++ event :: after) h') :
    ∃ found now next, Path h before found ∧ Move now found [event] next ∧ Path next after h' := by
  generalize whole : before ++ event :: after = events at path
  induction path generalizing before with
  | nil => exact absurd whole (by simp)
  | begin read later ih =>
      cases before with
      | nil => exact absurd (List.cons.inj whole).1.symm (inside _)
      | cons event' before =>
          obtain ⟨rfl, rest⟩ := List.cons.inj whole
          obtain ⟨found, now, next, reached, move⟩ := ih rest
          exact ⟨found, now, next, .begin read reached, move⟩
  | @move _ _ _ now events _ move later ih =>
      rcases move.events_cases with rfl | ⟨event', rfl⟩
      · obtain ⟨found, now, next, reached, move'⟩ := ih whole
        exact ⟨found, now, next, .move move reached, move'⟩
      · cases before with
        | nil =>
            obtain ⟨rfl, rfl⟩ := List.cons.inj whole
            exact ⟨_, now, _, .nil _, move, later⟩
        | cons event'' before =>
            obtain ⟨rfl, rest⟩ := List.cons.inj whole
            obtain ⟨found, now, next, reached, move'⟩ := ih rest
            exact ⟨found, now, next, .move move reached, move'⟩

/-- A path comes to each tick of it, and goes on behind it. -/
theorem at_tick {before after : List (Event τ)} {on : Bool}
    (path : Path h (before ++ .buzzer on :: after) h') :
    ∃ found now, Path h before found ∧ Scalar.atMost found.nextTimer now = true ∧
      on = found.machine.advanceTimers.1 ∧ Path (found.ticked now) after h' := by
  obtain ⟨found, now, next, reached, move, later⟩ := path.at_event nofun
  cases move with
  | tick due => exact ⟨found, now, reached, due, rfl, later⟩

/-- A path comes to each title of it, which is set on the display without a fault, and goes on
behind it. -/
theorem at_title {before after : List (Event τ)} {frames operations : Nat}
    (path : Path h (before ++ .title frames operations :: after) h') :
    ∃ found, Path h before found ∧
      (found.display.setTitle (titleText frames operations)).fault = none ∧
      Path (found.titled frames operations) after h' := by
  obtain ⟨found, now, next, reached, move, later⟩ := path.at_event nofun
  cases move with
  | title faultless => exact ⟨found, reached, faultless, later⟩

end Path

/-- However its runs end, a series of runs is a path. -/
theorem path_runAll (limits : List (Option Int)) (h : Host τ) :
    ∃ events, Path h events (runAll limits h) := by
  refine runAll_keeps (P := fun h' => ∃ events, Path h events h') (fun between reached => ?_)
    (fun between reached => ?_) limits ⟨[], .nil h⟩
  · refine pass_keeps (P := fun h' => ∃ events, Path h events h') ?_ ?_ reached
    · rintro h now clock read ⟨events, path⟩
      exact ⟨_, path.trans (.begin read (.nil _))⟩
    · rintro now h events h' move ⟨events', path⟩
      exact ⟨_, path.trans (.single move)⟩
  · refine draw_keeps (P := fun h' => ∃ events, Path h events h') ?_ reached
    rintro now h events h' move ⟨events', path⟩
    exact ⟨_, path.trans (.single move)⟩

end Chip8.Host
