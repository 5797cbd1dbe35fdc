import Chip8.Proofs.Loop

/-!
Runs in parts: a run of the host loop can be stopped after any number of instructions and gone on with.

All that the loop remembers is in the host, so the rounds of a long run are those of two short ones
(`Host.Rounds.split`). The first of these draws once more at its end, though. What that changes,
`Host.Redrawn` says: the mark of the screen, the display, and what was noted down. No phase of the loop
but the drawing itself looks at any of them, so the rounds that follow are the same, except for whether
there is anything new to draw (`Host.RoundTo.redrawn`).
-/

namespace Chip8

/-! ### The mark of the screen -/

namespace Machine

variable {m : Machine}

/-- The same machine, with or without a mark on its screen. -/
def withMark (m : Machine) (changed : Bool) : Machine :=
  { m with screen := { m.screen with changed } }

theorem WellFormed.withMark (formed : m.WellFormed) (changed : Bool) :
    (m.withMark changed).WellFormed :=
  { formed with screen := { formed.screen with } }

/-- No instruction looks at the mark but to put it back. -/
theorem effect_withMark (m : Machine) (i : Instruction) (changed : Bool) :
    ∃ changed', (m.withMark changed).effect i = (m.effect i).withMark changed' := by
  cases i with
  | cls => exact ⟨true, rfl⟩
  | drw x y height => exact ⟨changed || m.SpriteLit height, rfl⟩
  | ret =>
      refine ⟨changed, ?_⟩
      cases entries : m.stack.entries <;> simp only [effect, withMark, entries]
  | waitKey x =>
      refine ⟨changed, ?_⟩
      have keypad : (m.withMark changed).keypad = m.keypad := rfl
      simp only [effect, keypad]
      cases (List.finRange 16).find? fun key => m.keypad[key] <;> rfl
  | _ => exact ⟨changed, rfl⟩

theorem step_withMark (formed : m.WellFormed) (changed : Bool) :
    ∃ changed', (m.withMark changed).step = ⟨m.step.machine.withMark changed', m.step.fault⟩ := by
  have ended := step_stepsTo formed
  have ended' := step_stepsTo (formed.withMark changed)
  -- Neither the word fetched nor what is refused depends on the mark: both steps end the same way.
  generalize m.step = outcome at ended ⊢
  cases ended with
  | @runs i encoded goes =>
      obtain ⟨changed', effect⟩ := effect_withMark m.fetched i changed
      refine ⟨changed', ?_⟩
      rw [ended'.unique (.runs encoded goes)]
      exact congrArg (fun after : Machine => (⟨after.withConsole _, none⟩ : Outcome)) effect
  | refuses encoded refused =>
      refine ⟨changed, ?_⟩
      rw [ended'.unique (.refuses encoded refused)]
      rfl
  | unsupported missing =>
      refine ⟨changed, ?_⟩
      rw [ended'.unique (.unsupported missing)]
      rfl

theorem setKeys_withMark {keys : List Bool} {m' : Machine} (set : m.setKeys keys = .ok m')
    (changed : Bool) : (m.withMark changed).setKeys keys = .ok (m'.withMark changed) := by
  obtain ⟨fits, rfl⟩ := setKeys_eq_ok_iff.mp set
  exact setKeys_eq_ok_iff.mpr ⟨fits, rfl⟩

theorem advanceTimers_withMark (m : Machine) (changed : Bool) :
    (m.withMark changed).advanceTimers =
      (m.advanceTimers.1, m.advanceTimers.2.withMark changed) := by
  rw [advanceTimers_eq, advanceTimers_eq]
  rfl

end Machine

variable {τ : Type}

/-! ### Events, apart from the marks -/

/-- The same event, whether or not there was anything new to draw. -/
def Event.unmarked : Event τ → Event τ
  | .drew _ => .drew false
  | event => event

/-- The same round, whether or not there was anything new to draw. -/
def Round.unmarked (round : Round τ) : Round τ :=
  { round with drew := round.drew.map fun _ => false }

theorem Round.events_unmarked (round : Round τ) :
    round.unmarked.events = round.events.map Event.unmarked := by
  obtain ⟨now, title, drew, keys, buzzer⟩ := round
  cases title <;> cases drew <;> cases buzzer <;> rfl

theorem flatMap_events_unmarked {rounds rounds' : List (Round τ)}
    (same : rounds'.map Round.unmarked = rounds.map Round.unmarked) :
    (rounds'.flatMap Round.events).map Event.unmarked =
      (rounds.flatMap Round.events).map Event.unmarked := by
  have erased (rounds : List (Round τ)) : (rounds.flatMap Round.events).map Event.unmarked =
      (rounds.map Round.unmarked).flatMap Round.events := by
    rw [List.map_flatMap, List.flatMap_map]
    simp only [Round.events_unmarked]
  rw [erased, erased, same]

/-! ### Hosts that drew at other times -/

/-- What a draw changes, except for the time of the next one. -/
structure Drawing (τ : Type) where
  changed : Bool
  display : Display
  calls : List DeviceCall
  journal : List (Event τ)

namespace Host

def withDrawing (h : Host τ) (d : Drawing τ) : Host τ :=
  { h with
    machine := h.machine.withMark d.changed
    display := d.display
    calls := d.calls
    journal := d.journal }

def drawing (h : Host τ) : Drawing τ := ⟨h.machine.screen.changed, h.display, h.calls, h.journal⟩

/-- The same host with other drawing. Both displays can be drawn on. -/
structure Redrawn (h k : Host τ) : Prop where
  same : ∃ d, k = h.withDrawing d
  formed : h.machine.WellFormed
  ready : h.display.Ready
  ready' : k.display.Ready

variable {h h' k : Host τ} {now : τ}

theorem drawn_eq (h : Host τ) :
    h.drawn = h.withDrawing
      { changed := false
        display := (h.display.draw h.machine.screen).2.display
        calls := ((h.display.draw h.machine.screen).2.calls.filter h.notes).reverse ++ h.calls
        journal := .drew h.machine.screen.changed :: h.journal } := by
  simp only [drawn, Display.draw_fst]
  rfl

theorem draw_ready (formed : h.machine.WellFormed) (ready : h.display.Ready) :
    (h.display.draw h.machine.screen).2.display.Ready :=
  Display.ready_draw formed.screen formed.width formed.height ready

theorem draw_faultless (formed : h.machine.WellFormed) (ready : h.display.Ready) :
    (h.display.draw h.machine.screen).2.fault = none :=
  Display.draw_fault formed.screen formed.width formed.height ready

namespace Redrawn

theorem intro (same : k = h.withDrawing k.drawing) (formed : h.machine.WellFormed)
    (ready : h.display.Ready) (ready' : k.display.Ready) : Redrawn h k :=
  ⟨⟨_, same⟩, formed, ready, ready'⟩

theorem refl (formed : h.machine.WellFormed) (ready : h.display.Ready) : Redrawn h h :=
  intro rfl formed ready ready

theorem drawn (formed : h.machine.WellFormed) (ready : h.display.Ready) : Redrawn h h.drawn := by
  rw [drawn_eq]
  exact intro rfl formed ready (draw_ready formed ready)

theorem formed' (redrawn : Redrawn h k) : k.machine.WellFormed := by
  obtain ⟨⟨d, rfl⟩, formed, _⟩ := redrawn
  exact formed.withMark d.changed

/-- After a last draw only what draws leave behind is different. -/
theorem drawn_same (redrawn : Redrawn h k) :
    k.drawn = { h.drawn with
      display := k.drawn.display, calls := k.drawn.calls, journal := k.drawn.journal } := by
  obtain ⟨⟨d, rfl⟩, _⟩ := redrawn
  rw [drawn_eq, drawn_eq]
  rfl

end Redrawn

/-! ### Phases of hosts that drew at other times -/

variable [Scalar τ]

theorem Reports.redrawn {title : Option (Nat × Nat)} (reports : Reports now h title h')
    (redrawn : Redrawn h k) : ∃ k', Reports now k title k' ∧ Redrawn h' k' := by
  obtain ⟨⟨d, rfl⟩, formed, ready, ready'⟩ := redrawn
  cases reports with
  | early early => exact ⟨_, .early early, ⟨⟨d, rfl⟩, formed, ready, ready'⟩⟩
  | due due truncated number _ =>
      have titled := Display.ready_setTitle ready (titleText h.frames h.operations)
      have titled' := Display.ready_setTitle ready' (titleText h.frames h.operations)
      exact ⟨_, .due (h := h.withDrawing d) due truncated number titled'.1,
        .intro rfl formed titled.2 titled'.2⟩

theorem Polls.redrawn {drew : Option Bool} (polls : Polls now h drew h') (redrawn : Redrawn h k) :
    ∃ drew' k', Polls now k drew' k' ∧ (drew'.map fun _ => false) = (drew.map fun _ => false) ∧
      Redrawn h' k' := by
  obtain ⟨⟨d, rfl⟩, formed, ready, ready'⟩ := redrawn
  cases polls with
  | early early => exact ⟨none, _, .early early, rfl, ⟨⟨d, rfl⟩, formed, ready, ready'⟩⟩
  | due due stays faultless =>
      have formed' := formed.withMark d.changed
      have faultless' := draw_faultless (h := h.withDrawing d) formed' ready'
      refine ⟨some d.changed, _, .due (h := h.withDrawing d) due stays faultless', rfl, ?_⟩
      rw [drawn_eq, drawn_eq]
      exact .intro rfl (formed.withMark false) (draw_ready formed ready)
        (draw_ready (h := h.withDrawing d) formed' ready')

theorem Steps.redrawn {keys : List Bool} (steps : Steps h keys h') (redrawn : Redrawn h k) :
    ∃ k', Steps k keys k' ∧ Redrawn h' k' := by
  obtain ⟨⟨d, rfl⟩, formed, ready, ready'⟩ := redrawn
  cases steps with
  | step asked set went =>
      have keyed := Machine.setKeys_wellFormed formed set
      obtain ⟨changed, step⟩ := Machine.step_withMark keyed d.changed
      have set' := Machine.setKeys_withMark set d.changed
      have went' := (congrArg Outcome.fault step).trans went
      refine ⟨_, .step (h := h.withDrawing d) asked set' went', ?_⟩
      rw [step]
      exact .intro rfl (Machine.step_wellFormed keyed) ready ready'

theorem Ticks.redrawn {buzzer : Option Bool} (ticks : Ticks now h buzzer h')
    (redrawn : Redrawn h k) : ∃ k', Ticks now k buzzer k' ∧ Redrawn h' k' := by
  obtain ⟨⟨d, rfl⟩, formed, ready, ready'⟩ := redrawn
  cases ticks with
  | early early => exact ⟨_, .early early, ⟨⟨d, rfl⟩, formed, ready, ready'⟩⟩
  | due due =>
      have tick : (h.withDrawing d).machine.advanceTimers = _ :=
        Machine.advanceTimers_withMark h.machine d.changed
      have ticks : Ticks now (h.withDrawing d) _ _ := .due due
      rw [tick] at ticks
      refine ⟨_, ticks, ?_⟩
      simp only [ticked, tick]
      exact .intro rfl (Machine.advanceTimers_wellFormed formed) ready ready'

theorem Waits.redrawn (waits : Waits now h h') (redrawn : Redrawn h k) :
    ∃ k', Waits now k k' ∧ Redrawn h' k' := by
  obtain ⟨⟨d, rfl⟩, formed, ready, ready'⟩ := redrawn
  cases waits with
  | uncapped uncapped =>
      exact ⟨_, .uncapped uncapped, ⟨⟨d, rfl⟩, formed, ready, ready'⟩⟩
  | capped capped awaits =>
      exact ⟨_, .capped (h := h.withDrawing d) capped awaits, ⟨⟨d, rfl⟩, formed, ready, ready'⟩⟩

/-! ### Rounds of hosts that drew at other times -/

/-- Drawing at other times changes nothing in a round but whether there is anything new to draw. -/
theorem RoundTo.redrawn {round : Round τ} (goes : RoundTo h round h') (redrawn : Redrawn h k) :
    ∃ round' k', RoundTo k round' k' ∧ round'.unmarked = round.unmarked ∧ Redrawn h' k' := by
  cases goes with
  | @round now clock title drew buzzer keys _ _ _ _ _ read reports polls steps ticks waits =>
      obtain ⟨⟨d, rfl⟩, formed, ready, ready'⟩ := redrawn
      have began : Redrawn (({ h with clock } : Host τ).record (.began now))
          (({ h.withDrawing d with clock } : Host τ).record (.began now)) :=
        .intro rfl formed ready ready'
      obtain ⟨_, reports', redrawn⟩ := reports.redrawn began
      obtain ⟨drew', _, polls', same, redrawn⟩ := polls.redrawn redrawn
      obtain ⟨_, steps', redrawn⟩ := steps.redrawn redrawn
      obtain ⟨_, ticks', redrawn⟩ := ticks.redrawn redrawn
      obtain ⟨_, waits', ⟨d', rfl⟩, formed, ready, ready'⟩ := waits.redrawn redrawn
      refine ⟨⟨now, title, drew', keys, buzzer⟩, _,
        .round (h := h.withDrawing d) read reports' polls' steps' ticks' waits', ?_,
        ⟨d', rfl⟩, formed, ready, ready'⟩
      simp only [Round.unmarked, same]

theorem Rounds.redrawn {rounds : List (Round τ)} (goes : Rounds h rounds h')
    (redrawn : Redrawn h k) :
    ∃ rounds' k', Rounds k rounds' k' ∧ rounds'.map Round.unmarked = rounds.map Round.unmarked ∧
      Redrawn h' k' := by
  induction goes generalizing k with
  | nil h => exact ⟨[], k, .nil k, rfl, redrawn⟩
  | @cons h between h' round rest first later ih =>
      obtain ⟨round', between', first', same, redrawn⟩ := first.redrawn redrawn
      obtain ⟨rest', k', later', same', redrawn⟩ := ih redrawn
      refine ⟨round' :: rest', k', .cons first' later', ?_, redrawn⟩
      rw [List.map_cons, List.map_cons, same, same']

/-- A host that can be drawn on can be drawn on after its rounds. -/
theorem Rounds.drawable {rounds : List (Round τ)} (goes : Rounds h rounds h')
    (formed : h.machine.WellFormed) (ready : h.display.Ready) :
    h'.machine.WellFormed ∧ h'.display.Ready := by
  obtain ⟨_, _, _, _, redrawn⟩ := goes.redrawn (.refl formed ready)
  exact ⟨redrawn.formed, redrawn.ready⟩

/-! ### Runs in parts -/

/-- A run on a stage that was reached leaves the screen shown, and can be gone on with. -/
theorem run_reached {limit : Option Int} {cycles : Int} {earlier : List DeviceCall}
    (watched : h.Watched) (reached : (h.stage earlier).Reached)
    (ends : (run limit).run h = .ok cycles h') :
    h'.Watched ∧ (h'.stage earlier).Reached ∧ (h'.stage earlier).Shows := by
  have watched' := (actsOnly_run limit h watched).1
  rw [after_of_ok ends] at watched'
  have reached' := (actsOnly_run limit).reached watched reached ends
  exact ⟨watched', reached', reached'.coherent.shows (run_ok ends)⟩

/-- A run in which no poll asks to quit runs as many instructions as it may. -/
theorem rounds_of_unquit {limit : Nat} {cycles : Int}
    (ends : (run (some limit)).run h = .ok cycles h')
    (unquit : ∀ events, h'.journal = events ++ h.journal → .polled true ∉ events) :
    ∃ rounds left, Rounds h rounds left ∧ rounds.length = limit ∧ cycles = limit ∧
      h' = left.drawn := by
  obtain ⟨rounds, between, farewell, left, goes, leaves, total, getsTo, faultless, rfl⟩ :=
    run_ok_iff.mp ends
  cases leaves with
  | quit quits =>
      have did := (goes.did.trans quits.did).trans (did_drawn faultless)
      exact absurd (by simp [Farewell.events]) (unquit _ did.journal)
  | done =>
      have full : cycles = max 0 (limit : Int) := getsTo
      exact ⟨rounds, between, goes, by omega, by omega, rfl⟩

/-- Rounds that leave a host which can be drawn on make a run that ends well. -/
theorem run_of_rounds {rounds : List (Round τ)} {left : Host τ} (goes : Rounds h rounds left)
    (formed : left.machine.WellFormed) (ready : left.display.Ready) :
    (run (some rounds.length)).run h = .ok (rounds.length : Int) left.drawn := by
  refine run_ok_iff.mpr ⟨rounds, left, none, left, goes, .done, rfl, ?_,
    draw_faultless formed ready, rfl⟩
  show (rounds.length : Int) = max 0 (rounds.length : Int)
  omega

/-- **Runs can be stopped and gone on with.** A run of `m + n` instructions in which no poll asks to
quit does what a run of `m` instructions and then one of `n` do: the machine, the sound, the inputs,
the times and counts and the clock end up the same. Both journals tell the same, except for one more
draw where the runs meet and for whether later draws found anything new. If the host started on a stage
that was reached, where machine and display are always as required here, both leave the screen shown. -/
theorem run_splits {m n : Nat} {cycles : Int} (formed : h.machine.WellFormed)
    (ready : h.display.Ready) (ends : (run (some ((m + n : Nat) : Int))).run h = .ok cycles h')
    (unquit : ∀ events, h'.journal = events ++ h.journal → .polled true ∉ events) :
    cycles = (m + n : Nat) ∧
    ∃ h₁ h₂ : Host τ, (run (some (m : Int))).run h = .ok (m : Int) h₁ ∧
      (run (some (n : Int))).run h₁ = .ok (n : Int) h₂ ∧
      h₂ = { h' with display := h₂.display, calls := h₂.calls, journal := h₂.journal } ∧
      (∃ first second second' changed, h'.journal = second ++ first ∧
        h₁.journal = .drew changed :: first ∧ h₂.journal = second' ++ h₁.journal ∧
        second'.map Event.unmarked = second.map Event.unmarked) ∧
      ∀ earlier, h.Watched → (h.stage earlier).Reached →
        (h'.stage earlier).Shows ∧ (h₂.stage earlier).Shows := by
  obtain ⟨rounds, left, goes, length, total, rfl⟩ := rounds_of_unquit ends unquit
  obtain ⟨first, second, rfl, rfl, rfl⟩ : ∃ first second, rounds = first ++ second ∧
      first.length = m ∧ second.length = n :=
    ⟨rounds.take m, rounds.drop m, (List.take_append_drop m rounds).symm,
      by rw [List.length_take]; omega, by rw [List.length_drop]; omega⟩
  obtain ⟨between, earlier, later⟩ := goes.split
  obtain ⟨formed₁, ready₁⟩ := earlier.drawable formed ready
  obtain ⟨second', left', later', same, redrawn⟩ := later.redrawn (.drawn formed₁ ready₁)
  have sized : second'.length = second.length := by
    rw [← List.length_map Round.unmarked, same, List.length_map]
  have ends₁ := run_of_rounds earlier formed₁ ready₁
  have ends₂ := run_of_rounds later' redrawn.formed' redrawn.ready'
  rw [sized] at ends₂
  have journals : ∃ first second second' changed, left.drawn.journal = second ++ first ∧
      between.drawn.journal = .drew changed :: first ∧
      left'.drawn.journal = second' ++ between.drawn.journal ∧
      second'.map Event.unmarked = second.map Event.unmarked := by
    refine ⟨between.journal, .drew left.machine.screen.changed :: (second.flatMap Round.events).reverse,
      .drew left'.machine.screen.changed :: (second'.flatMap Round.events).reverse,
      between.machine.screen.changed, ?_, rfl, ?_, ?_⟩
    · rw [drawn_journal, later.did.journal, List.cons_append]
    · rw [drawn_journal, later'.did.journal, List.cons_append]
    · rw [List.map_cons, List.map_cons, List.map_reverse, List.map_reverse,
        flatMap_events_unmarked same]
      rfl
  refine ⟨total, between.drawn, left'.drawn, ends₁, ends₂, redrawn.drawn_same, journals, ?_⟩
  intro calls watched reached
  obtain ⟨watched₁, reached₁, _⟩ := run_reached watched reached ends₁
  exact ⟨(run_reached watched reached ends).2.2, (run_reached watched₁ reached₁ ends₂).2.2⟩

/-- The speed is capped, so the clock is read several times in each of two rounds. -/
theorem run_splits_capped :
    ∃ h h' h₁ h₂ : Host Rat, (run (some 2)).run h = .ok 2 h' ∧ (run (some 1)).run h = .ok 1 h₁ ∧
      (run (some 1)).run h₁ = .ok 1 h₂ ∧ h'.clock.reads = 6 ∧ h₂.clock.reads = 6 ∧
      h₂.machine = h'.machine := by
  let opened : Display := { scale := 1, surface := .headless }
  let machine := (Machine.create false false (.cycle #[])).performAll [.load [0x12, 0x00]]
  let blank := machine.withMark false
  let host : Host Rat := { idle ⟨blank, opened, []⟩ 6 with interval := some 2 }
  have formed : blank.WellFormed :=
    (Machine.performAll_wellFormed (Machine.create_wellFormed false false _) _).withMark false
  obtain ⟨h', ends, reads, stays⟩ : ∃ h' : Host Rat, (run (some 2)).run host = .ok 2 h' ∧
      h'.clock.reads = 6 ∧ h'.journal.any (· matches .polled true) = false := by
    have told : (run (some 2)).run' host = some 2 ∧
        (after (run (some 2)) host).clock.reads = 6 ∧
        (after (run (some 2)) host).journal.any (· matches .polled true) = false := by
      decide +kernel
    exact ⟨_, run_of_run' told.1, told.2⟩
  have unquit (events : List (Event Rat)) (journal : h'.journal = events ++ host.journal) :
      .polled true ∉ events := fun member => by
    have asked : Event.polled true ∈ h'.journal := journal ▸ List.mem_append_left _ member
    exact absurd rfl (List.any_eq_false.mp stays _ asked)
  obtain ⟨_, h₁, h₂, ends₁, ends₂, same, _⟩ :=
    run_splits (h := host) (m := 1) (n := 1) formed trivial ends unquit
  have reads' : h₂.clock.reads = h'.clock.reads := by rw [same]
  exact ⟨host, h', h₁, h₂, ends, ends₁, ends₂, reads, reads'.trans reads, by rw [same]⟩

end Host

end Chip8
