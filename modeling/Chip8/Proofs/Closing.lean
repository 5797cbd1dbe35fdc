import Chip8.Proofs.Moves
import Chip8.Proofs.Resampling
import Chip8.Proofs.Showing
import Chip8.Session

/-!
Whether a session gives back what it took.

A session that opens a terminal, a window or a mixer has to make certain calls afterwards
(`DeviceCall.duties`). The run of the host opens and closes nothing, however it ends
(`Host.quiet_run`), and behind it everything is closed that was opened before. The one leak is a
display that is refused when its device is open already, because of a scale that is not positive:
nothing is there yet that would close it. So a session gives back everything unless it comes as far
as such a display (`Session.gives_back_unless_refused`).
-/

namespace Chip8

/-! ### Duties -/

namespace DeviceCall

/-- Takes hold of a device. -/
def opens : DeviceCall → Bool
  | .openTerminal => true
  | .openWindow => true
  | .openMixer => true
  | _ => false

/-- What has to be called after what: a terminal is put back into its usual mode and closed, windows
and mixers are closed. -/
def duties : List (DeviceCall × DeviceCall) :=
  [(.openTerminal, .linewise), (.openTerminal, .echoOn), (.openTerminal, .closeTerminal),
   (.openWindow, .closeWindow), (.openMixer, .closeMixer)]

theorem opens_of_mem_duties {duty : DeviceCall × DeviceCall} (member : duty ∈ duties) :
    duty.1.opens = true := by
  revert duty
  decide

end DeviceCall

open DeviceCall (duties)

/-- Wherever `opened` is called, `closed` is called afterwards. -/
def Followed (calls : List DeviceCall) (opened closed : DeviceCall) : Prop :=
  ∀ before after, calls = before ++ opened :: after → closed ∈ after

/-- Every device that was taken hold of is given back. -/
def GivenBack (calls : List DeviceCall) : Prop :=
  ∀ duty ∈ duties, Followed calls duty.1 duty.2

/-- No call takes hold of a device. -/
def Quiet (calls : List DeviceCall) : Prop := ∀ call ∈ calls, call.opens = false

namespace Quiet

variable {calls calls' : List DeviceCall}

theorem nil : Quiet [] := fun call member => by cases member

theorem singleton {call : DeviceCall} (quiet : call.opens = false) : Quiet [call] :=
  fun _ member => List.mem_singleton.mp member ▸ quiet

/-- Devices that are told what to show are open already. -/
theorem of_showing (shows : Showing calls) : Quiet calls := by
  intro call member
  have shown := shows call member
  cases call <;> first | rfl | cases shown

theorem append (quiet : Quiet calls) (quiet' : Quiet calls') : Quiet (calls ++ calls') :=
  fun call member => (List.mem_append.mp member).elim (quiet call) (quiet' call)

theorem notMem {duty : DeviceCall × DeviceCall} (quiet : Quiet calls) (member : duty ∈ duties) :
    duty.1 ∉ calls := by
  intro called
  have opens := quiet duty.1 called
  rw [DeviceCall.opens_of_mem_duties member] at opens
  cases opens

end Quiet

/-- What the calls before the closing ones owe is paid by these. -/
theorem givenBack_append {calls closing : List DeviceCall}
    (paid : ∀ duty ∈ duties, duty.1 ∈ calls → duty.2 ∈ closing) (quiet : Quiet closing) :
    GivenBack (calls ++ closing) := by
  intro duty member before after parts
  -- No closing call opens anything, so the opening call stands before all of them.
  have absent := quiet.notMem member
  rcases List.append_eq_append_iff.mp parts with ⟨rest, _, closing'⟩ | ⟨rest, calls', after'⟩
  · rw [closing'] at absent
    exact absurd (List.mem_append_right rest List.mem_cons_self) absent
  · cases rest with
    | nil =>
        rw [← List.nil_append closing, ← after'] at absent
        exact absurd List.mem_cons_self absent
    | cons first rest =>
        obtain ⟨rfl, rfl⟩ := List.cons.inj after'
        have opened : duty.1 ∈ calls := by
          rw [calls']
          exact List.mem_append_right before List.mem_cons_self
        exact List.mem_append_right rest (paid duty member opened)

theorem givenBack_of_quiet {calls : List DeviceCall} (quiet : Quiet calls) : GivenBack calls := by
  intro duty member before after parts
  have called : duty.1 ∈ calls := by
    rw [parts]
    exact List.mem_append_right before List.mem_cons_self
  exact absurd called (quiet.notMem member)

/-- A duty that is left undone. -/
theorem not_givenBack {calls : List DeviceCall} {duty : DeviceCall × DeviceCall}
    (member : duty ∈ duties) (opened : duty.1 ∈ calls) (undone : duty.2 ∉ calls) :
    ¬ GivenBack calls := by
  intro givenBack
  obtain ⟨before, after, parts⟩ := List.append_of_mem opened
  have closed := givenBack duty member before after parts
  rw [parts] at undone
  exact undone (List.mem_append_right before (List.mem_cons_of_mem _ closed))

/-! ### Operations that take hold of nothing -/

theorem Sound.quiet_buzzerCalls (sound : Sound) (on : Bool) : Quiet (sound.buzzerCalls on) := by
  intro call member
  rcases mem_buzzerCalls member with rfl | rfl | rfl <;> rfl

namespace Display

variable {d : Display}

theorem quiet_shutdown : Quiet d.shutdown.calls := by
  have terminal : ∀ call ∈ Terminal.closingCalls, call.opens = false := by decide
  unfold shutdown
  split
  · exact .nil
  · exact .singleton rfl
  · exact terminal

end Display

theorem Sound.quiet_shutdownCalls (sound : Sound) : Quiet sound.shutdownCalls := by
  have mixer : ∀ call ∈ [DeviceCall.stop, .closeMixer], call.opens = false := by decide
  unfold shutdownCalls
  split
  · exact mixer
  · exact .nil

/-! ### Runs -/

namespace Host

variable {τ : Type} {h h' : Host τ}

theorem quiet_log {calls : List DeviceCall} (quiet : Quiet h.calls) (quiet' : Quiet calls) :
    Quiet (h.log calls).calls := by
  refine Quiet.append ?_ quiet
  intro call member
  exact quiet' call (List.mem_of_mem_filter (List.mem_reverse.mp member))

variable [Scalar τ]

theorem quiet_move {now : τ} {events : List (Event τ)} (move : Move now h events h')
    (quiet : Quiet h.calls) : Quiet h'.calls := by
  cases move with
  | wait | schedule | count | poll | quit | keys | step | halt => exact quiet
  | title => exact quiet_log quiet (.of_showing (Display.shows_setTitle _))
  | draw => exact quiet_log quiet (.of_showing (Display.shows_draw _))
  | paint => exact quiet_log quiet (.of_showing (Display.shows_draw _))
  | tick => exact quiet_log quiet (Sound.quiet_buzzerCalls _ _)

/-- However a run ends, it takes hold of no device. -/
theorem quiet_run (limit : Option Int) (quiet : Quiet h.calls) :
    Quiet (after (run limit) h).calls := by
  refine run_keeps (P := fun h => Quiet h.calls) ?_ ?_ limit quiet
  · intro h
    exact pass_keeps (fun _ quiet => quiet) quiet_move
  · intro h
    exact draw_keeps quiet_move

theorem quiet_create {machine : Machine} {display : Display} {inputs : Inputs τ} {sound : Sound}
    {speed : Choice Int} {clock : Clock τ} {timeOfDay : τ}
    (created : create machine display inputs sound speed clock timeOfDay = .ok h) :
    Quiet h.calls := by
  obtain ⟨_, _, _, rfl⟩ := create_ok_iff.mp created
  exact quiet_log .nil (.of_showing (Display.shows_setTitle _))

end Host

/-! ### Sessions -/

namespace Session

variable {τ : Type}

/-- A scale that a frontend refuses when its device is open already. A scale that is struck out is
refused by a window as late as one that is not positive, and by a terminal before it opens; so are
scales that no machine word holds. -/
def RefusedOnceOpen (frontend : Frontend) (scale : Choice Int) : Prop :=
  match frontend with
  | .headless => False
  | .window => ∀ n, scale.resolve? Window.defaultScale = some n → n ≤ 0
  | .terminal => ∃ n, scale.resolve? Terminal.defaultScale = some n ∧ -Bytes.sizeLimit ≤ n ∧ n ≤ 0

/-- What is left open when a display opens or fails to: an open display pays for its calls when
it is shut down, and without one the device stays open if it was refused. -/
def Settles (opening : Display.Opening) (refused : Prop) : Prop :=
  match opening.display with
  | .ok d =>
      (∀ duty ∈ duties, duty.1 ∈ opening.calls → duty.2 ∈ d.shutdown.calls) ∧ ¬ refused
  | .error _ => GivenBack opening.calls ↔ ¬ refused

theorem headless_settles (scale : Choice Int) :
    Settles (Display.headless scale) (RefusedOnceOpen .headless scale) := by
  cases said : scale.resolve? 1 with
  | none =>
      rw [Display.headless, said]
      exact iff_of_true (givenBack_of_quiet .nil) id
  | some n =>
      rw [Display.headless_eq said]
      split
      · exact iff_of_true (givenBack_of_quiet .nil) id
      · exact ⟨fun _ _ called => absurd called List.not_mem_nil, id⟩

theorem window_settles (scale : Choice Int) :
    Settles (Display.window scale) (RefusedOnceOpen .window scale) := by
  have owed : (DeviceCall.openWindow, DeviceCall.closeWindow) ∈ duties := by decide
  cases said : scale.resolve? Window.defaultScale with
  | none =>
      have refused : RefusedOnceOpen .window scale := fun n said' => by
        rw [said] at said'
        cases said'
      rw [Display.window, said]
      exact iff_of_false (not_givenBack owed (by decide) (by decide)) (not_not_intro refused)
  | some n =>
      rw [Display.window_eq said]
      split
      · next small =>
          have refused : RefusedOnceOpen .window scale := fun n' said' => by
            rw [said] at said'
            cases said'
            exact small
          refine iff_of_false (not_givenBack owed ?_ ?_) (not_not_intro refused)
          · simp [Window.openingCalls]
          · simp [Window.openingCalls, Window.sizingCalls]
      · next positive =>
          refine ⟨?_, fun refused => positive (refused n said)⟩
          simp [duties, Window.openingCalls, Window.sizingCalls, Display.shutdown]

theorem terminal_settles (scale : Choice Int) (sizes : Nat → Int × Int) (resizable : Bool) :
    Settles (Display.terminal scale sizes resizable) (RefusedOnceOpen .terminal scale) := by
  have owed : (DeviceCall.openTerminal, DeviceCall.closeTerminal) ∈ duties := by decide
  have limits : -Bytes.sizeLimit ≤ 0 ∧ 0 ≤ Bytes.longest ∧ 0 < Bytes.sizeLimit := by decide
  cases said : scale.resolve? Terminal.defaultScale with
  | none =>
      rw [Display.terminal, said]
      refine iff_of_true (givenBack_of_quiet .nil) ?_
      rintro ⟨n, said', _⟩
      rw [said] at said'
      cases said'
  | some n =>
      have refused_iff : RefusedOnceOpen .terminal scale ↔ -Bytes.sizeLimit ≤ n ∧ n ≤ 0 := by
        constructor
        · rintro ⟨n', said', bounds⟩
          rw [said] at said'
          cases said'
          exact bounds
        · intro bounds
          exact ⟨n, said, bounds⟩
      rw [Display.terminal_eq sizes resizable said]
      split
      · next outside => exact iff_of_true (givenBack_of_quiet .nil) (mt refused_iff.mp (by omega))
      · split
        · next large => exact iff_of_true (givenBack_of_quiet .nil) (mt refused_iff.mp (by omega))
        · split
          · next outside _ small =>
              refine iff_of_false (not_givenBack owed (by decide) (by decide)) ?_
              exact not_not_intro (refused_iff.mpr (by omega))
          · next positive =>
              have paid : ∀ duty ∈ duties,
                  duty.1 ∈ Terminal.openingCalls ++ [DeviceCall.newPad 1 1] →
                  duty.2 ∈ Terminal.closingCalls := by decide
              exact ⟨paid, mt refused_iff.mp (by omega)⟩

theorem openDisplay_settles (frontend : Frontend) (scale : Choice Int) (around : Surroundings τ) :
    Settles (openDisplay frontend scale around) (RefusedOnceOpen frontend scale) := by
  cases frontend with
  | headless => exact headless_settles scale
  | window => exact window_settles scale
  | terminal => exact terminal_settles scale around.sizes around.resizable

variable [Scalar τ]

/-- The sound that a session opens is closed by its calls, if the tone of the buzzer can be made. -/
theorem sound_settles (tone : ∃ sound, (Sound.create τ .wave).sound = .ok sound)
    (kind : SoundKind) :
    ∃ sound, (Sound.create τ kind).sound = .ok sound ∧
      ∀ duty ∈ duties, duty.1 ∈ (Sound.create τ kind).calls → duty.2 ∈ sound.shutdownCalls := by
  cases kind with
  | silent => exact ⟨_, rfl, fun _ _ called => absurd called List.not_mem_nil⟩
  | bell => exact ⟨_, rfl, fun _ _ called => absurd called List.not_mem_nil⟩
  | wave =>
      obtain ⟨sound, made⟩ := tone
      refine ⟨sound, made, ?_⟩
      unfold Sound.create at made ⊢
      dsimp only at made ⊢
      split at made
      · cases made
      · cases made
        simp [duties, Sound.mixerCalls, Sound.shutdownCalls]

/-- What is opened beside a display is closed with it. -/
theorem connect_settles (tone : ∃ sound, (Sound.create τ .wave).sound = .ok sound)
    (settings : Settings) (around : Surroundings τ) (frontend : Frontend) (kind : SoundKind)
    (machine : Machine) (display : Display) :
    let connection := connect settings around frontend kind machine display
    (∀ duty ∈ duties, duty.1 ∈ connection.calls → duty.2 ∈ connection.closing) ∧
      Quiet connection.closing ∧ (∀ call ∈ display.shutdown.calls, call ∈ connection.closing) ∧
      ∀ h, connection.host = .ok h → Quiet h.calls := by
  obtain ⟨sound, made, paid⟩ := sound_settles tone kind
  unfold connect
  dsimp only
  split
  · exact ⟨fun _ _ called => absurd called List.not_mem_nil, Display.quiet_shutdown,
      fun _ member => member, fun h opened => by cases opened⟩
  · next inputs _ =>
      rw [made]
      refine ⟨fun duty member called => List.mem_append_left _ (paid duty member called),
        (Sound.quiet_shutdownCalls sound).append Display.quiet_shutdown,
        fun call member => List.mem_append_right _ member, fun h opened => ?_⟩
      cases speed : settings.clockSpeed with
      | none =>
          rw [speed] at opened
          cases opened
      | some speed' =>
          rw [speed] at opened
          cases created : Host.create machine display inputs sound speed' around.clock
              around.timeOfDay with
          | error fault =>
              simp only [need, bind, Except.bind, created, Except.mapError, reduceCtorEq] at opened
          | ok h' =>
              simp only [need, bind, Except.bind, created, Except.mapError,
                Except.ok.injEq] at opened
              exact opened ▸ Host.quiet_create created

/-- A session comes as far as its display. -/
structure Prepared (settings : Settings) (around : Surroundings τ) (frontend : Frontend)
    (kind : SoundKind) (machine : Machine) (scale : Choice Int) : Prop where
  selected : selectFrontend settings around = .ok (frontend, kind)
  loaded : loadMachine settings around = .ok machine
  given : settings.scale = some scale

/-- A session comes as far as a display that is refused when its device is open already. -/
def Refused (settings : Settings) (around : Surroundings τ) : Prop :=
  ∃ frontend kind machine scale,
    Prepared settings around frontend kind machine scale ∧ RefusedOnceOpen frontend scale

variable {settings : Settings} {around : Surroundings τ}

theorem start_unprepared
    (unprepared : ∀ frontend kind machine scale,
      ¬ Prepared settings around frontend kind machine scale) :
    ∃ failure, start settings around = ⟨[], [], .error failure⟩ := by
  unfold start
  cases selected : selectFrontend settings around with
  | error failure => exact ⟨failure, rfl⟩
  | ok chosen =>
      cases loaded : loadMachine settings around with
      | error failure => exact ⟨failure, rfl⟩
      | ok machine =>
          cases given : settings.scale with
          | none => exact ⟨_, rfl⟩
          | some scale => exact absurd ⟨selected, loaded, given⟩ (unprepared _ _ machine scale)

theorem Prepared.start_error {frontend : Frontend} {kind : SoundKind} {machine : Machine}
    {scale : Choice Int} {fault : Fault}
    (prepared : Prepared settings around frontend kind machine scale)
    (failed : (openDisplay frontend scale around).display = .error fault) :
    start settings around =
      ⟨(openDisplay frontend scale around).calls, [], .error (.fault fault)⟩ := by
  unfold start
  rw [prepared.selected, prepared.loaded, prepared.given]
  simp only [bind, Except.bind, need, pure, Except.pure, failed]

theorem Prepared.start_ok {frontend : Frontend} {kind : SoundKind} {machine : Machine}
    {scale : Choice Int} {display : Display}
    (prepared : Prepared settings around frontend kind machine scale)
    (opened : (openDisplay frontend scale around).display = .ok display) :
    start settings around =
      let connection := connect settings around frontend kind machine display
      { connection with
        calls := (openDisplay frontend scale around).calls ++ connection.calls } := by
  unfold start
  rw [prepared.selected, prepared.loaded, prepared.given]
  simp only [bind, Except.bind, need, pure, Except.pure, opened]

omit [Scalar τ] in
/-- Where a session gets to is settled, so only one scale can be refused. -/
theorem Prepared.refused_iff {frontend : Frontend} {kind : SoundKind} {machine : Machine}
    {scale : Choice Int} (prepared : Prepared settings around frontend kind machine scale) :
    Refused settings around ↔ RefusedOnceOpen frontend scale := by
  constructor
  · rintro ⟨frontend', kind', machine', scale', prepared', refused⟩
    cases prepared.selected.symm.trans prepared'.selected
    cases prepared.given.symm.trans prepared'.given
    exact refused
  · intro refused
    exact ⟨frontend, kind, machine, scale, prepared, refused⟩

/-- The calls of a session: those that open, those of the run, and those that close. -/
theorem run_calls (quiet : ∀ h, (start settings around).host = .ok h → Quiet h.calls) :
    ∃ made, Quiet made ∧ (run settings around).calls =
      (start settings around).calls ++ made ++ (start settings around).closing := by
  cases opened : (start settings around).host with
  | error failure =>
      refine ⟨[], .nil, ?_⟩
      simp only [run, opened, List.append_nil]
  | ok h =>
      have ran := Host.quiet_run none (quiet h opened)
      refine ⟨(Host.after (Host.run none) h).calls.reverse,
        fun call member => ran call (List.mem_reverse.mp member), ?_⟩
      simp only [run, opened, play, Host.after]
      cases (Host.run none).run h <;> rfl

/-- A session that cannot start a host makes the calls of its start alone. -/
theorem run_calls_of_error {calls : List DeviceCall} {failure : Failure}
    (failed : start settings around = ⟨calls, [], .error failure⟩) :
    (run settings around).calls = calls := by
  simp only [run, failed, List.append_nil]

/-- **A session gives back what it took unless its display was refused.** Whatever the options,
the program, the libraries, the clock and the inputs are, and however the session ends: wherever
it opens a terminal, it puts it back into its usual mode and closes it afterwards, and windows
and mixers are closed as well. The one exception is a session that comes as far as a display
whose scale is refused when the device is open already; such a session never gives it back. -/
theorem gives_back_unless_refused (tone : ∃ sound, (Sound.create τ .wave).sound = .ok sound)
    (settings : Settings) (around : Surroundings τ) :
    GivenBack (run settings around).calls ↔ ¬ Refused settings around := by
  by_cases prepared : ∃ frontend kind machine scale,
      Prepared settings around frontend kind machine scale
  · obtain ⟨frontend, kind, machine, scale, prepared⟩ := prepared
    have settles := openDisplay_settles frontend scale around
    rw [prepared.refused_iff]
    unfold Settles at settles
    cases opened : (openDisplay frontend scale around).display with
    | error fault =>
        rw [opened] at settles
        rw [run_calls_of_error (prepared.start_error opened)]
        exact settles
    | ok display =>
        rw [opened] at settles
        obtain ⟨paid, accepted⟩ := settles
        obtain ⟨paid', closing, shut, quiet⟩ :=
          connect_settles tone settings around frontend kind machine display
        have started := prepared.start_ok opened
        obtain ⟨made, quiet', calls⟩ := run_calls fun h made => by
          rw [started] at made
          exact quiet h made
        rw [calls, started]
        refine iff_of_true (givenBack_append (fun duty member called => ?_) closing) accepted
        rcases List.mem_append.mp called with early | ran
        · rcases List.mem_append.mp early with display | beside
          · exact shut _ (paid duty member display)
          · exact paid' duty member beside
        · exact absurd ran (quiet'.notMem member)
  · have unprepared (frontend kind machine scale) :
        ¬ Prepared settings around frontend kind machine scale :=
      fun prepared' => prepared ⟨frontend, kind, machine, scale, prepared'⟩
    obtain ⟨failure, started⟩ := start_unprepared unprepared
    rw [run_calls_of_error started]
    refine iff_of_true (givenBack_of_quiet .nil) ?_
    rintro ⟨frontend, kind, machine, scale, prepared', _⟩
    exact unprepared frontend kind machine scale prepared'

/-- A terminal is asked for pixels of no width. It is opened before they are refused, and never
closed; with pixels of one column the session would close it. -/
theorem refused_terminal_stays_open :
    ∃ (settings : Settings) (around : Surroundings Rat),
      settings.scale = some (.value 0) ∧ Refused settings around ∧
      ¬ GivenBack (run settings around).calls ∧
      GivenBack (run { settings with scale := some (.value 1) } around).calls := by
  let settings : Settings :=
    { filename := some (some "r.ch8")
      debug := some false
      strict := some false
      clockSpeed := some (.value 0)
      renderer := some (.value "curses")
      scale := some (.value 0)
      mute := some .unset
      keymap := some .unset }
  let around : Surroundings Rat :=
    { available := fun _ => true
      read := fun _ => .ok [0x12, 0x00]
      sizes := fun _ => (24, 80)
      clock := { reading := fun k => k, remaining := 3 }
      timeOfDay := 0
      random := .cycle #[] }
  have loads : (loadMachine settings around).toOption.isSome = true := by decide +kernel
  obtain ⟨machine, loaded⟩ : ∃ machine, loadMachine settings around = .ok machine := by
    cases loaded : loadMachine settings around with
    | ok machine => exact ⟨machine, rfl⟩
    | error failure =>
        rw [loaded] at loads
        cases loads
  have selected : selectFrontend settings around = .ok (.terminal, .silent) := by decide +kernel
  have bounds : -Bytes.sizeLimit ≤ 0 ∧ (0 : Int) ≤ 0 := by decide
  have refused : Refused settings around :=
    ⟨.terminal, .silent, machine, .value 0, ⟨selected, loaded, rfl⟩, 0, rfl, bounds⟩
  have accepted : ¬ Refused { settings with scale := some (.value 1) } around := by
    have prepared : Prepared { settings with scale := some (.value 1) } around .terminal .silent
        machine (.value 1) := ⟨selected, loaded, rfl⟩
    rw [prepared.refused_iff]
    rintro ⟨n, ⟨⟩, _, small⟩
    exact absurd small (by decide)
  refine ⟨settings, around, rfl, refused, fun givenBack => ?_, ?_⟩
  · exact (gives_back_unless_refused Sound.tone_rat settings around).mp givenBack refused
  · exact (gives_back_unless_refused Sound.tone_rat _ around).mpr accepted

end Session

end Chip8
