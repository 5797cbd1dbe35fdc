import Chip8.Proofs.Moves

/-!
The host loop on its stage.

Whatever the clock shows, whatever the inputs answer and however a run ends, all that it does to the
machine, the display and their calls is a sequence of acts on a stage (`Host.actsOnly_run`). A run
that ends well has drawn at the very end, so what it leaves on the display is the screen of the
machine (`Host.display_coherent`).
-/

namespace Chip8.Host

variable {τ α β : Type}

/-! ### The stage of a host -/

/-- The stage of a host, some of whose calls were made earlier. -/
def stage (h : Host τ) (earlier : List DeviceCall) : Stage :=
  ⟨h.machine, h.display, h.calls ++ earlier⟩

/-- Every call is noted down. A window makes none but those that reach it, so there it is enough
that these are. -/
def Watched (h : Host τ) : Prop :=
  ∀ call, call.reachesDevice = true ∨ ¬ h.display.IsWindow → h.notes call = true

/-- The way from one host to another consists of acts on the stage. -/
def Acts (h h' : Host τ) : Prop :=
  h.Watched → h'.Watched ∧
    ∃ acts, ∀ earlier, h'.stage earlier = (h.stage earlier).actAll acts

namespace Acts

variable {h h' h'' : Host τ}

/-- The times, the counts, the inputs and the journal are no part of the stage. -/
theorem offStage (machine : h'.machine = h.machine) (display : h'.display = h.display)
    (calls : h'.calls = h.calls) (notes : h'.notes = h.notes) : Acts h h' := by
  intro watched
  refine ⟨?_, [], fun earlier => ?_⟩
  · rw [Watched, display, notes]
    exact watched
  · rw [stage, machine, display, calls]
    rfl

theorem refl (h : Host τ) : Acts h h := offStage rfl rfl rfl rfl

theorem trans (first : Acts h h') (second : Acts h' h'') : Acts h h'' := by
  intro watched
  obtain ⟨watched', acts, stage'⟩ := first watched
  obtain ⟨watched'', acts', stage''⟩ := second watched'
  refine ⟨watched'', acts ++ acts', fun earlier => ?_⟩
  rw [stage'', stage', Stage.actAll, Stage.actAll, Stage.actAll, List.foldl_append]

/-- What is done with the machine alone. -/
theorem drive (h : Host τ) (operation : Operation) :
    Acts h { h with machine := (h.machine.perform operation).machine } :=
  fun watched => ⟨watched, [.drive operation], fun _ => rfl⟩

/-- An operation of the display or the sound, whose calls are noted down. -/
theorem log (h' : Host τ) {calls : List DeviceCall} (act : Act) (notes : h'.notes = h.notes)
    (seen : h.Watched → ∀ call ∈ calls, h.notes call = true)
    (window : h.display.IsWindow → h'.display.IsWindow)
    (acts : ∀ earlier, (h.stage earlier).act act =
      ⟨h'.machine, h'.display, calls.reverse ++ (h'.calls ++ earlier)⟩) :
    Acts h (h'.log calls) := by
  intro watched
  have all : calls.filter h'.notes = calls :=
    List.filter_eq_self.mpr fun call member => notes ▸ seen watched call member
  refine ⟨fun call reaches => ?_, [act], fun earlier => ?_⟩
  · exact notes ▸ watched call (reaches.imp_right fun other => other ∘ window)
  · rw [stage, Host.log, all, List.append_assoc]
    exact (acts earlier).symm

theorem seen_of_onWindow {shown : Shown} {titles : List String}
    (onWindow : h.display.IsWindow → Display.OnWindow titles shown) (watched : h.Watched) :
    ∀ call ∈ shown.calls, h.notes call = true := by
  intro call member
  by_cases window : h.display.IsWindow
  · exact watched call (.inl ((onWindow window).reached call member))
  · exact watched call (.inr window)

theorem title (h : Host τ) (frames operations : Nat) : Acts h (h.titled frames operations) := by
  have onWindow (window : h.display.IsWindow) :=
    Display.onWindow_setTitle window (titleText frames operations)
  let shown := h.display.setTitle (titleText frames operations)
  have titles : Acts h (({ h with display := shown.display } : Host τ).log shown.calls) :=
    log _ (.title (titleText frames operations)) rfl (seen_of_onWindow onWindow)
      (fun window => (onWindow window).window) fun _ => rfl
  exact titles.trans (.offStage rfl rfl rfl rfl)

theorem paint (h : Host τ) : Acts h h.painted := by
  have onWindow (window : h.display.IsWindow) := Display.onWindow_draw window h.machine.screen
  exact log _ .draw rfl (seen_of_onWindow onWindow) (fun window => (onWindow window).window)
    fun earlier => rfl

theorem buzz (h : Host τ) (on : Bool) :
    Acts h ({ h with sound := (h.sound.enableBuzzer on).1 }.log (h.sound.enableBuzzer on).2) := by
  refine log _ (.buzz h.sound on) rfl (fun watched call member => ?_) id fun _ => rfl
  refine watched call (.inl ?_)
  rcases Sound.mem_buzzerCalls member with rfl | rfl | rfl <;> rfl

/-- A move is an act, or several, or does nothing on the stage. -/
theorem move [Scalar τ] {now : τ} {events : List (Event τ)} (move : Move now h events h') :
    Acts h h' := by
  cases move with
  | wait | schedule | count | poll | quit | keys => exact .offStage rfl rfl rfl rfl
  | title => exact .title h _ _
  | draw => exact (Acts.paint h).trans (.offStage rfl rfl rfl rfl)
  | paint => exact .paint h
  | @step states machine set went =>
      have keys := Acts.drive h (.setKeys states)
      rw [Machine.perform_setKeys_of_ok set] at keys
      have step := Acts.drive { h with machine } .step
      exact (keys.trans step).trans (.offStage rfl rfl rfl rfl)
  | @halt states machine set =>
      have keys := Acts.drive h (.setKeys states)
      rw [Machine.perform_setKeys_of_ok set] at keys
      exact keys.trans (.drive { h with machine } .step)
  | tick =>
      have tick := Acts.drive h .tick
      have buzz :=
        Acts.buzz { h with machine := h.machine.advanceTimers.2 } h.machine.advanceTimers.1
      exact tick.trans (buzz.trans (.offStage rfl rfl rfl rfl))

end Acts

/-- A computation that does nothing to the stage but acts, however it ends. -/
def ActsOnly (computation : HostM τ α) : Prop := ∀ h, Acts h (after computation h)

/-- What can be reached stays so. -/
theorem ActsOnly.reached {h h' : Host τ} {computation : HostM τ α} {a : α}
    {earlier : List DeviceCall} (acts : ActsOnly computation) (watched : h.Watched)
    (reached : (h.stage earlier).Reached) (ends : computation.run h = .ok a h') :
    (h'.stage earlier).Reached := by
  obtain ⟨_, done, stage'⟩ := acts h watched
  rw [← after_of_ok ends, stage']
  exact reached.actAll done

/-! ### The loop -/

/-- Whether or not it fails, a draw takes the mark from the screen and leaves its picture. -/
theorem screen_draw (h : Host τ) :
    (after draw h).machine.screen = { h.machine.screen with changed := false } := by
  have taken : ∀ {screen shown}, h.display.draw h.machine.screen = (screen, shown) →
      screen = { h.machine.screen with changed := false } := fun {screen shown} drawn => by
    have screenAfter : (h.display.draw h.machine.screen).1 = screen := congrArg Prod.fst drawn
    rw [← screenAfter, Display.draw_fst]
  unfold draw
  rw [after_get_bind]
  split
  case h_1 screen shown drawn =>
    rw [after_set_bind]
    split
    · exact taken drawn
    · exact taken drawn

/-- On a coherent stage a draw does not fail. -/
theorem draw_ok {h : Host τ} {earlier : List DeviceCall}
    (coherent : (h.stage earlier).Coherent) : draw.run h = .ok () (after draw h) := by
  have faultless : (h.display.draw h.machine.screen).2.fault = none :=
    Display.draw_fault coherent.formed.screen coherent.formed.width coherent.formed.height
      coherent.ready
  have ends : ∃ h', draw.run h = .ok () h' := by
    unfold draw
    simp only [EStateM.run_bind, EStateM.run_get, EStateM.run_set, faultless]
    exact ⟨_, rfl⟩
  obtain ⟨h', ends⟩ := ends
  rw [after_of_ok ends, ends]

variable [Scalar τ]

theorem actsOnly_draw : ActsOnly (draw : HostM τ Unit) := by
  intro h
  exact draw_keeps (P := Acts h) (fun move acts => acts.trans (.move move)) (.refl h)

theorem actsOnly_pass : ActsOnly (pass : HostM τ Bool) := by
  intro h
  refine pass_keeps (P := Acts h) (fun _ acts => ?_) (fun move acts => ?_) (.refl h)
  · exact acts.trans (.offStage rfl rfl rfl rfl)
  · exact acts.trans (.move move)

theorem actsOnly_passes (limit : Option Int) (bound : Nat) (cycles : Int) :
    ActsOnly (passes limit bound cycles : HostM τ Int) := by
  intro h
  refine passes_keeps (P := Acts h) (fun h' acts => ?_) limit bound cycles (.refl h)
  exact acts.trans (actsOnly_pass h')

/-- Whatever the clock shows, whatever the inputs answer and however a run ends, it does nothing to
its stage but acts. -/
theorem actsOnly_run (limit : Option Int) : ActsOnly (run limit : HostM τ Int) := by
  intro h
  refine run_keeps (P := Acts h) (fun h' acts => ?_) (fun h' acts => ?_) limit (.refl h)
  · exact acts.trans (actsOnly_pass h')
  · exact acts.trans (actsOnly_draw h')

/-- A run that ends well has drawn last. -/
theorem run_ok {limit : Option Int} {h h' : Host τ} {cycles : Int}
    (ends : (run limit).run h = .ok cycles h') : h'.machine.screen.changed = false := by
  have ends : ((passes limit (h.clock.remaining + 1) 0) >>= fun cycles => draw >>= fun _ =>
    pure cycles).run h = .ok cycles h' := ends
  obtain ⟨cycles', between, _, ends⟩ := exists_of_run_bind ends
  obtain ⟨_, drawn, draws, ends⟩ := exists_of_run_bind ends
  cases ends
  rw [← after_of_ok draws, screen_draw]

/-- On a coherent stage, a run whose passes end well ends well. -/
theorem run_of_passes {limit : Option Int} {h between : Host τ} {earlier : List DeviceCall}
    {cycles : Int} (passed : (passes limit (h.clock.remaining + 1) 0).run h = .ok cycles between)
    (coherent : (between.stage earlier).Coherent) :
    (run limit).run h = .ok cycles (after draw between) := by
  have draws := draw_ok coherent
  unfold run
  simp only [EStateM.run_bind, EStateM.run_get, passed, draws]
  rfl

/-- **Displays show the screen.** Whatever was done with a machine and a headless display or a
window so far, the display shows the screen of the machine whenever the screen is not marked as
changed. A run of a host on this stage that ends well leaves the screen shown, whatever the program,
the clock and the inputs did, and what it leaves can be gone on with. -/
theorem display_coherent {s : Stage} (reached : s.Reached) :
    (s.machine.screen.changed = false → s.Shows) ∧
    ∀ {τ : Type} [Scalar τ] {h h' : Host τ} {earlier : List DeviceCall} {limit : Option Int}
      {cycles : Int}, h.Watched → h.stage earlier = s → (run limit).run h = .ok cycles h' →
      (h'.stage earlier).Reached ∧ (h'.stage earlier).Shows := by
  refine ⟨reached.coherent.shows, ?_⟩
  intro τ _ h h' earlier limit cycles watched start ends
  have reached' := (actsOnly_run limit).reached watched (start ▸ reached) ends
  exact ⟨reached', reached'.coherent.shows (run_ok ends)⟩

/-- A program draws the glyph of 0 in the upper left corner, where the display shows a dark pixel
before. -/
theorem display_coherent_glyph :
    ∃ (s : Stage) (h' : Host Rat), s.Reached ∧ s.machine.screen.changed = false ∧
      pixelAt? s.machine.screen.rows 0 0 = some 0 ∧ s.Shows ∧
      (idle s 2).Watched ∧ (idle s 2).stage s.calls = s ∧
      (run (some 2)).run (idle s 2) = .ok 2 h' ∧
      pixelAt? h'.machine.screen.rows 0 0 = some 1 ∧ (h'.stage s.calls).Shows := by
  let opened : Display := { scale := 1, surface := .headless }
  have drawn (m : Machine) (reached : Stage.Reached ⟨m, opened, []⟩)
      (marked : m.screen.changed = true) :
      Stage.Reached
        { machine := { m with screen := { m.screen with changed := false } }
          display :=
            { opened with width := m.screen.width, height := m.screen.height, frames := 1 }
          calls := ((Display.pixels m.screen.rows).map Display.pixelCall ++
            [DeviceCall.refreshed true]).reverse ++ [] } := by
    have drawn := reached.act .draw
    rw [Stage.act, Display.draw_headless rfl marked] at drawn
    exact drawn
  obtain ⟨s, reached, unmarked, dark, counted, lit⟩ : ∃ s : Stage, s.Reached ∧
      s.machine.screen.changed = false ∧ pixelAt? s.machine.screen.rows 0 0 = some 0 ∧
      (passes (some 2) 3 0).run' (idle s 2) = some 2 ∧
      pixelAt? (after (passes (some 2) 3 0) (idle s 2)).machine.screen.rows 0 0 = some 1 := by
    have start : Stage.Reached ⟨_, opened, []⟩ :=
      .start false false (.cycle #[]) .unset (.inl rfl) rfl
    have loaded := start.act (.drive (.load [0xA0, 0x50, 0xD0, 0x05]))
    exact ⟨_, drawn _ loaded (by decide +kernel), rfl, by decide +kernel⟩
  have passed := run_of_run' counted
  have watched : (idle s 2).Watched := fun _ _ => rfl
  have stage : (idle s 2).stage s.calls = s := rfl
  have reached' := (actsOnly_passes (some 2) 3 0).reached watched (stage ▸ reached) passed
  have ends := run_of_passes (h := idle s 2) passed reached'.coherent
  obtain ⟨shows, runs⟩ := display_coherent reached
  refine ⟨s, _, reached, unmarked, dark, shows unmarked, watched, stage, ends, ?_,
    (runs watched stage ends).2⟩
  rw [screen_draw]
  exact lit

end Chip8.Host
