import Chip8.Proofs.RateLimit

/-!
The figures that the title shows.

A host counts the frames that it draws and the instructions that it runs, and starts anew with each
title. It increments the counts at other places than it resets them, a pass can quit between the two,
and the counts go on from one run to the next. But every phase of a round keeps the books
(`Host.Booked`), so nothing is lost and nothing is counted twice. The books are about the journal, and
each title in the journal was set on the display with just these figures (`Host.Played.path`); a window
has no other captions (`Host.Captioned`). By exact time, a title puts the next one off to the next whole
second (`Host.Spaced`), so no second has two. All that holds for any series of runs that end well
(`Host.figures_lose_nothing`).
-/

namespace Chip8

variable {τ : Type}

/-! ### Figures -/

namespace Event

/-- The frames that an event shows. -/
def frames : Event τ → Nat
  | .title frames _ => frames
  | _ => 0

/-- The instructions that an event shows. -/
def operations : Event τ → Nat
  | .title _ operations => operations
  | _ => 0

/-- The title that an event tells of. -/
def title? : Event τ → Option String
  | .title frames operations =>
      some ("TinyChip Emulator - " ++ toString frames ++ " FPS, " ++ toString operations ++ " OPS")
  | _ => none

/-- A poll that does not ask to quit. -/
def stays : Event τ → Bool
  | .polled false => true
  | _ => false

end Event

/-- What the titles of a journal show together, by one of their figures. -/
def shown (figure : Event τ → Nat) : List (Event τ) → Nat
  | [] => 0
  | event :: older => figure event + shown figure older

theorem shown_append (figure : Event τ → Nat) (newer older : List (Event τ)) :
    shown figure (newer ++ older) = shown figure newer + shown figure older := by
  induction newer with
  | nil => exact (Nat.zero_add _).symm
  | cons event rest ih => rw [List.cons_append, shown, shown, ih, Nat.add_assoc]

/-- The times at which the passes began that have shown a title, newest first. -/
def reportTimes : List (Event τ) → List τ
  | [] => []
  | .title _ _ :: older => (latest? older).toList ++ reportTimes older
  | _ :: older => reportTimes older

namespace Host

variable [Scalar τ]

/-- A host that was made with this clock and this display and has run a few times, always to the end,
with the total of what the runs have answered. -/
inductive Played (clock : Clock τ) (display : Display) : Int → Host τ → Prop
  | created {machine : Machine} {inputs : Inputs τ} {sound : Sound} {speed : Choice Int}
      {timeOfDay : τ} {h : Host τ}
      (created : create machine display inputs sound speed clock timeOfDay = .ok h) :
      Played clock display 0 h
  | run {total : Int} {h h' : Host τ} (played : Played clock display total h) {limit : Option Int}
      {cycles : Int} (ends : (run limit).run h = .ok cycles h') :
      Played clock display (total + cycles) h'

/-- What rounds, farewells and draws keep, a run that ends well keeps. -/
theorem run_ok_keeps {P : Host τ → Prop} {h h' : Host τ}
    (rounds : ∀ {h h' : Host τ} {round}, RoundTo h round h' → P h → P h')
    (quits : ∀ {h h' : Host τ} {farewell}, QuitTo h farewell h' → P h → P h')
    (draws : ∀ h : Host τ, P h → P h.drawn) {limit : Option Int} {cycles : Int}
    (ends : (run limit).run h = .ok cycles h') (start : P h) : P h' := by
  obtain ⟨_, between, farewell, left, goes, leaves, -, -, -, rfl⟩ := run_ok_iff.mp ends
  have went : P between := by
    clear ends
    induction goes with
    | nil => exact start
    | cons first _ ih => exact ih (rounds first start) leaves
  cases leaves with
  | done => exact draws _ went
  | quit goes => exact draws _ (quits goes went)

/-! ### Books -/

/-- The books of a host: what the titles have shown and what is counted since makes up all that was
done, but for `running` instructions that are not counted yet. -/
structure Booked (running : Nat) (h : Host τ) : Prop where
  operations : h.operations + running + shown Event.operations h.journal =
    h.journal.countP Event.isStep
  frames : h.frames + shown Event.frames h.journal = h.journal.countP Event.stays

variable {now : τ} {h h' : Host τ} {running : Nat}

namespace Booked

omit [Scalar τ] in
/-- Events go into the journal, together with what they change in the counts. -/
theorem note {running' : Nat} (events : List (Event τ)) (booked : Booked running h)
    (journal : h'.journal = events ++ h.journal)
    (operations : h'.operations + running' + shown Event.operations events =
      h.operations + running + events.countP Event.isStep)
    (frames : h'.frames + shown Event.frames events = h.frames + events.countP Event.stays) :
    Booked running' h' := by
  obtain ⟨booked, booked'⟩ := booked
  refine ⟨?_, ?_⟩
  · rw [journal, shown_append, List.countP_append]
    omega
  · rw [journal, shown_append, List.countP_append]
    omega

omit [Scalar τ] in
theorem began {clock : Clock τ} (booked : Booked running h) (now : τ) :
    Booked running (({ h with clock } : Host τ).record (.began now)) :=
  booked.note [.began now] rfl rfl rfl

theorem reports {title : Option (Nat × Nat)} (booked : Booked running h)
    (reports : Reports now h title h') : Booked running h' := by
  cases reports with
  | early => exact booked
  | due =>
      -- What was counted is shown, and the counts start anew.
      refine booked.note [.title h.frames h.operations] rfl ?_ (Nat.zero_add _)
      exact (congrArg (· + h.operations) (Nat.zero_add running)).trans (Nat.add_comm _ _)

omit [Scalar τ] in
theorem drawn (booked : Booked running h) : Booked running h.drawn :=
  booked.note [.drew h.machine.screen.changed] rfl rfl rfl

theorem polls {drew : Option Bool} (booked : Booked running h) (polls : Polls now h drew h') :
    Booked running h' := by
  cases polls with
  | early => exact booked
  | due => exact booked.note [.drew h.machine.screen.changed, .polled false] rfl rfl rfl

theorem quits (booked : Booked running h) (quits : Quits now h h') : Booked running h' := by
  cases quits with
  | due => exact booked.note [.polled true] rfl rfl rfl

theorem steps {keys : List Bool} (booked : Booked running h) (steps : Steps h keys h') :
    Booked (running + 1) h' := by
  cases steps with
  | step => exact booked.note [.stepped, .keys keys] rfl rfl rfl

theorem ticks {buzzer : Option Bool} (booked : Booked running h) (ticks : Ticks now h buzzer h') :
    Booked running h' := by
  cases ticks with
  | early => exact booked
  | due => exact booked.note [.buzzer h.machine.advanceTimers.1] rfl rfl rfl

theorem waits (booked : Booked running h) (waits : Waits now h h') : Booked running h' := by
  cases waits with
  | uncapped => exact booked
  | capped => exact booked.note [] rfl rfl rfl

theorem round {round : Round τ} (booked : Booked 0 h) (goes : RoundTo h round h') :
    Booked 0 h' := by
  cases goes with
  | round read reports polls steps ticks waits =>
      have done := ((booked.began _).reports reports).polls polls
      have ran := ((done.steps steps).ticks ticks).waits waits
      exact ran.note [] rfl rfl rfl

theorem quit {farewell : Farewell τ} (booked : Booked 0 h) (goes : QuitTo h farewell h') :
    Booked 0 h' := by
  cases goes with
  | quit read reports quits => exact ((booked.began _).reports reports).quits quits

theorem run {limit : Option Int} {cycles : Int} (booked : Booked 0 h)
    (ends : (run limit).run h = .ok cycles h') : Booked 0 h' :=
  run_ok_keeps (P := Booked 0) (fun goes booked => booked.round goes)
    (fun goes booked => booked.quit goes) (fun _ booked => booked.drawn) ends booked

end Booked

/-! ### Reports -/

/-- On a clock that shows no negative times: no two passes that began in the same second have shown a
title, and the next title waits for the second behind them. -/
structure Spaced (h : Host Rat) : Prop where
  apart : (reportTimes h.journal).Pairwise fun later earlier => earlier.floor < later.floor
  behind : ∀ time ∈ reportTimes h.journal, ((time.floor + 1 : Int) : Rat) ≤ h.nextReport
  nonneg : ∀ k, 0 ≤ h.clock.reading k

namespace Spaced

variable {now : Rat} {h h' : Host Rat}

/-- No title is shown, and the next one is not put off. -/
theorem keep (spaced : Spaced h) (times : reportTimes h'.journal = reportTimes h.journal)
    (next : h'.nextReport = h.nextReport) (reading : h'.clock.reading = h.clock.reading) :
    Spaced h' where
  apart := times ▸ spaced.apart
  behind := by
    rw [times, next]
    exact spaced.behind
  nonneg := reading ▸ spaced.nonneg

theorem began {clock : Clock Rat} (spaced : Spaced h) (read : h.clock.read = some (now, clock)) :
    0 ≤ now ∧ Spaced (({ h with clock } : Host Rat).record (.began now)) := by
  obtain ⟨shown, reading, _⟩ := Clock.reading_of_read read
  exact ⟨shown ▸ spaced.nonneg _, spaced.keep rfl rfl reading⟩

/-- A title that is due is due since the second behind the last one. -/
theorem reports {title : Option (Nat × Nat)} (spaced : Spaced h) (nonneg : 0 ≤ now)
    (within : latest? h.journal = some now) (reports : Reports now h title h') : Spaced h' := by
  cases reports with
  | early => exact spaced
  | @due due whole second truncated number faultless =>
      have due : h.nextReport ≤ now := of_decide_eq_true due
      have next : second + 1 = ((now.floor + 1 : Int) : Rat) := by
        cases truncated
        cases number
        rw [if_neg (Rat.not_lt.mpr nonneg), Rat.intCast_add]
        rfl
      have times : reportTimes (.title h.frames h.operations :: h.journal) =
          now :: reportTimes h.journal := by
        rw [reportTimes, within]
        rfl
      have later : ∀ time ∈ reportTimes h.journal, time.floor + 1 ≤ now.floor := fun time member =>
        Rat.le_floor_iff.mpr (Rat.le_trans (spaced.behind time member) due)
      refine ⟨?_, fun time member => ?_, spaced.nonneg⟩
      · show (reportTimes (.title h.frames h.operations :: h.journal)).Pairwise _
        rw [times]
        exact List.pairwise_cons.mpr ⟨later, spaced.apart⟩
      · show ((time.floor + 1 : Int) : Rat) ≤ second + 1
        have member : time ∈ reportTimes (.title h.frames h.operations :: h.journal) := member
        rw [times] at member
        rw [next, Rat.intCast_le_intCast]
        rcases List.mem_cons.mp member with rfl | earlier
        · exact Int.le_refl _
        · have := later time earlier
          omega

theorem drawn (spaced : Spaced h) : Spaced h.drawn := spaced.keep rfl rfl rfl

theorem polls {drew : Option Bool} (spaced : Spaced h) (polls : Polls now h drew h') :
    Spaced h' := by
  cases polls <;> exact spaced.keep rfl rfl rfl

theorem quits (spaced : Spaced h) (quits : Quits now h h') : Spaced h' := by
  cases quits
  exact spaced.keep rfl rfl rfl

theorem steps {keys : List Bool} (spaced : Spaced h) (steps : Steps h keys h') : Spaced h' := by
  cases steps
  exact spaced.keep rfl rfl rfl

theorem ticks {buzzer : Option Bool} (spaced : Spaced h) (ticks : Ticks now h buzzer h') :
    Spaced h' := by
  cases ticks <;> exact spaced.keep rfl rfl rfl

theorem waits (spaced : Spaced h) (waits : Waits now h h') : Spaced h' := by
  cases waits with
  | uncapped => exact spaced
  | capped _ awaits => exact spaced.keep rfl rfl awaits.reading.1

theorem round {round : Round Rat} (spaced : Spaced h) (goes : RoundTo h round h') : Spaced h' := by
  cases goes with
  | round read reports polls steps ticks waits =>
      obtain ⟨nonneg, began⟩ := spaced.began read
      have shown := (began.reports nonneg rfl reports).polls polls
      have ran := ((shown.steps steps).ticks ticks).waits waits
      exact ran.keep rfl rfl rfl

theorem quit {farewell : Farewell Rat} (spaced : Spaced h) (goes : QuitTo h farewell h') :
    Spaced h' := by
  cases goes with
  | quit read reports quits =>
      obtain ⟨nonneg, began⟩ := spaced.began read
      exact (began.reports nonneg rfl reports).quits quits

theorem run {limit : Option Int} {cycles : Int} (spaced : Spaced h)
    (ends : (run limit).run h = .ok cycles h') : Spaced h' :=
  run_ok_keeps (P := Spaced) (fun goes spaced => spaced.round goes)
    (fun goes spaced => spaced.quit goes) (fun _ spaced => spaced.drawn) ends spaced

end Spaced

/-! ### Captions -/

theorem titleText_eq (frames operations : Nat) :
    titleText frames operations =
      "TinyChip Emulator - " ++ toString frames ++ " FPS, " ++ toString operations ++ " OPS" := by
  have name : appName ++ " - " = "TinyChip Emulator - " := rfl
  rw [titleText, name]

/-- A host with a window, whose captions are the titles of the journal, in order. -/
structure Captioned (h : Host τ) : Prop where
  window : h.display.IsWindow
  noted : h.notes = DeviceCall.reachesDevice
  captions : h.calls.filterMap DeviceCall.caption? = h.journal.filterMap Event.title?

namespace Captioned

variable {now : τ} {h h' : Host τ} {events : List (Event τ)}

omit [Scalar τ] in
/-- The captions among calls that reach the window are noted down. -/
theorem captions_log (captioned : Captioned h) {titles : List String} {shown : Shown}
    (onWindow : Display.OnWindow titles shown) (h' : Host τ) (notes : h'.notes = h.notes)
    (calls : h'.calls = h.calls) : (h'.log shown.calls).calls.filterMap DeviceCall.caption? =
      titles.reverse ++ h.journal.filterMap Event.title? := by
  have all : shown.calls.filter h'.notes = shown.calls :=
    List.filter_eq_self.mpr fun call member =>
      notes ▸ captioned.noted ▸ onWindow.reached call member
  rw [Host.log, all, List.filterMap_append, List.filterMap_reverse, onWindow.captions, calls,
    captioned.captions]

omit [Scalar τ] in
theorem titled (captioned : Captioned h) (frames operations : Nat) :
    Captioned (h.titled frames operations) := by
  have onWindow := Display.onWindow_setTitle captioned.window (titleText frames operations)
  refine ⟨onWindow.window, captioned.noted, (captioned.captions_log onWindow _ rfl rfl).trans ?_⟩
  rw [titleText_eq]
  rfl

omit [Scalar τ] in
theorem painted (captioned : Captioned h) : Captioned h.painted := by
  have onWindow := Display.onWindow_draw captioned.window h.machine.screen
  exact ⟨onWindow.window, captioned.noted, captioned.captions_log onWindow _ rfl rfl⟩

theorem ticked (captioned : Captioned h) (now : τ) : Captioned (h.ticked now) where
  window := captioned.window
  noted := captioned.noted
  captions := by
    have silent : ((h.sound.buzzerCalls h.machine.advanceTimers.1).filter h.notes).reverse.filterMap
        DeviceCall.caption? = [] := by
      refine List.filterMap_eq_nil_iff.mpr fun call member => ?_
      have member := List.mem_of_mem_filter (List.mem_reverse.mp member)
      rcases Sound.mem_buzzerCalls member with rfl | rfl | rfl <;> rfl
    refine (List.filterMap_append ..).trans ?_
    exact (congrArg (· ++ _) silent).trans captioned.captions

theorem move (move : Move now h events h') (captioned : Captioned h) : Captioned h' := by
  cases move with
  | wait | schedule | count | poll | quit | keys | step | halt => exact { captioned with }
  | title => exact captioned.titled _ _
  | draw => exact { captioned.painted with }
  | paint => exact captioned.painted
  | tick => exact captioned.ticked _

end Captioned

/-! ### Series of runs -/

variable {clock : Clock τ} {display : Display} {total : Int} {h : Host τ}

theorem Played.booked (played : Played clock display total h) :
    Booked 0 h ∧ (h.journal.countP Event.isStep : Int) = total := by
  induction played with
  | created created =>
      obtain ⟨interval, _, _, rfl⟩ := create_ok_iff.mp created
      exact ⟨⟨rfl, rfl⟩, rfl⟩
  | run played ends ih =>
      obtain ⟨booked, answered⟩ := ih
      obtain ⟨rounds, farewell, changed, did, cycles, _⟩ := did_of_run ends
      refine ⟨booked.run ends, ?_⟩
      rw [did.journal, List.countP_append, List.countP_reverse, countP_runEvents, ← answered, cycles,
        Int.natCast_add, Int.add_comm]

/-- All that was done with a host is a path, which starts when nothing was shown yet. -/
theorem Played.path (played : Played clock display total h) :
    ∃ (start : Host τ) (events : List (Event τ)), start.display = display ∧ start.clock = clock ∧
      start.journal = [] ∧ start.calls = [] ∧ start.notes = DeviceCall.reachesDevice ∧
      Path start events h := by
  induction played with
  | @created machine inputs sound _ timeOfDay _ created =>
      obtain ⟨interval, _, faultless, rfl⟩ := create_ok_iff.mp created
      let start := fresh machine display inputs sound interval clock timeOfDay
      have titled : Move (Scalar.ofNat 0) start _ (start.titled 0 0) := .title faultless
      exact ⟨start, _, rfl, rfl, rfl, rfl, rfl, .single titled⟩
  | @run _ h h' _ limit _ ends ih =>
      obtain ⟨start, events, made, shows, journal, calls, notes, path⟩ := ih
      obtain ⟨events', ran⟩ := path_runAll [limit] h
      have last : runAll [limit] h = h' := after_of_ok ends
      exact ⟨start, events ++ events', made, shows, journal, calls, notes, path.trans (last ▸ ran)⟩

theorem Played.captioned (played : Played clock display total h) (window : display.IsWindow) :
    Captioned h := by
  obtain ⟨start, events, rfl, _, journal, calls, notes, path⟩ := played.path
  refine path.keep (P := Captioned) (fun _ captioned => { captioned with }) Captioned.move ?_
  exact ⟨window, notes, by rw [journal, calls]; rfl⟩

theorem Played.spaced {clock : Clock Rat} {total : Int} {h : Host Rat}
    (nonneg : ∀ k, 0 ≤ clock.reading k) (played : Played clock display total h) : Spaced h := by
  induction played with
  | created created =>
      obtain ⟨interval, _, _, rfl⟩ := create_ok_iff.mp created
      exact ⟨.nil, nofun, nonneg⟩
  | run played ends ih => exact ih.run ends

/-- **The figures in the titles lose nothing and count nothing twice.** A host was made and has run a few
times, always to the end. The instructions that its titles show, together with those counted since the
last title, are all that it has run, which is what its runs have answered. The frames make up all polls
that did not ask to quit. Each title of the journal was set on the display at its place in what was done,
and its text shows these figures; a window was given these captions, in this order, and no others. If the
clock shows exact times, none of them negative, then of any two passes that have shown a title the
earlier one began in an earlier second. -/
theorem figures_lose_nothing :
    (∀ {τ : Type} [Scalar τ] {clock : Clock τ} {display : Display} {total : Int} {h : Host τ},
      Played clock display total h →
      ((h.operations + shown Event.operations h.journal : Nat) : Int) = total ∧
      (h.journal.countP Event.isStep : Int) = total ∧
      h.frames + shown Event.frames h.journal = h.journal.countP Event.stays ∧
      (∃ start : Host τ, start.display = display ∧ start.journal = [] ∧ start.calls = [] ∧
        ∀ (newer older : List (Event τ)) (frames operations : Nat),
          h.journal = newer ++ .title frames operations :: older →
          ∃ before : Host τ, Path start older.reverse before ∧
            let set := before.display.setTitle ("TinyChip Emulator - " ++ toString frames
              ++ " FPS, " ++ toString operations ++ " OPS")
            set.fault = none ∧
            Path ((({ before with display := set.display } : Host τ).log set.calls).record
              (.title frames operations)) newer.reverse h) ∧
      (display.IsWindow →
        h.calls.filterMap DeviceCall.caption? = h.journal.filterMap Event.title?)) ∧
    ∀ {clock : Clock Rat} {display : Display} {total : Int} {h : Host Rat},
      (∀ k, 0 ≤ clock.reading k) → Played clock display total h →
      (reportTimes h.journal).Pairwise fun later earlier => earlier.floor < later.floor := by
  refine ⟨fun {τ} _ {clock display total h} played => ?_, fun nonneg played => ?_⟩
  · obtain ⟨booked, answered⟩ := played.booked
    obtain ⟨start, events, made, _, journal, calls, _, path⟩ := played.path
    refine ⟨booked.operations ▸ answered, answered, booked.frames,
      ⟨start, made, journal, calls, fun newer older frames operations parts => ?_⟩,
      fun window => (played.captioned window).captions⟩
    have whole : events = older.reverse ++ .title frames operations :: newer.reverse := by
      have told := path.journal
      rw [journal, List.append_nil, parts] at told
      rw [← List.reverse_reverse events, ← told]
      simp
    subst whole
    obtain ⟨before, reached, faultless, later⟩ := path.at_title
    rw [titled, titleText_eq] at later
    rw [titleText_eq] at faultless
    exact ⟨before, reached, faultless, later⟩
  · exact (played.spaced nonneg).apart

/-- Two runs on a clock that advances by half a second. The second run comes to whole seconds twice; then
the titles show four instructions, as the captions of the window tell, and the last one is counted
since. -/
theorem figures_lose_nothing_half_seconds :
    ∃ (clock : Clock Rat) (display : Display) (h : Host Rat), (∀ k, 0 ≤ clock.reading k) ∧
      display.IsWindow ∧ Played clock display (0 + 2 + 3) h ∧
      reportTimes h.journal = [2, 1, 0] ∧ h.operations = 1 ∧
      h.operations + shown Event.operations h.journal = 5 ∧
      h.frames + shown Event.frames h.journal = h.journal.countP Event.stays ∧
      h.calls.filterMap DeviceCall.caption? =
        ["TinyChip Emulator - 2 FPS, 2 OPS", "TinyChip Emulator - 2 FPS, 2 OPS",
          "TinyChip Emulator - 0 FPS, 0 OPS", "TinyChip Emulator - 0 FPS, 0 OPS"] ∧
      (reportTimes h.journal).Pairwise fun later earlier => earlier.floor < later.floor := by
  let machine := (Machine.create false false (.cycle #[])).performAll [.load [0x12, 0x00]]
  let blank := { machine with screen := { machine.screen with changed := false } }
  let clock : Clock Rat := { reading := fun k => k / 2, remaining := 5 }
  let display : Display := { scale := 640, surface := .window (Window.create 640) }
  have nonneg : ∀ k, 0 ≤ clock.reading k := fun k => by
    have half : (0 : Rat) ≤ k := Rat.natCast_nonneg
    show (0 : Rat) ≤ k / 2
    grind
  obtain ⟨start, created, first, second, times, since, titles⟩ : ∃ start : Host Rat,
      create blank display .silent { kind := .silent } (.value 0) clock 0 = .ok start ∧
      (run (some 2)).run' start = some 2 ∧
      (run (some 3)).run' (after (run (some 2)) start) = some 3 ∧
      reportTimes (after (run (some 3)) (after (run (some 2)) start)).journal = [2, 1, 0] ∧
      (after (run (some 3)) (after (run (some 2)) start)).operations = 1 ∧
      (after (run (some 3)) (after (run (some 2)) start)).journal.filterMap Event.title? =
        ["TinyChip Emulator - 2 FPS, 2 OPS", "TinyChip Emulator - 2 FPS, 2 OPS",
          "TinyChip Emulator - 0 FPS, 0 OPS", "TinyChip Emulator - 0 FPS, 0 OPS"] :=
    ⟨_, rfl, by decide +kernel, by decide +kernel, by decide +kernel, by decide +kernel,
      by decide +kernel⟩
  have played : Played clock display (0 + 2 + 3)
      (after (run (some 3)) (after (run (some 2)) start)) :=
    ((Played.created created).run (run_of_run' first)).run (run_of_run' second)
  have window : display.IsWindow := ⟨_, rfl⟩
  obtain ⟨conserved, spaced⟩ := figures_lose_nothing
  obtain ⟨operations, _, frames, _, captions⟩ := conserved played
  exact ⟨clock, display, _, nonneg, window, played, times, since, Int.ofNat_inj.mp operations, frames,
    (captions window).trans titles, spaced nonneg played⟩

end Host

end Chip8
