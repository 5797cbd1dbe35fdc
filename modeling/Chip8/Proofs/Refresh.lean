import Chip8.Proofs.Painting

/-!
When the screen of a terminal shows its pad.

What is drawn goes to a pad, and the screen shows that when the pad is copied to it. A terminal
whose screen has got another size since it last asked clears the screen instead, and remembers that
a copy is due. It never forgets one (`Terminal.Tended.current`), but makes it at the next refresh
only, and nothing refreshes a terminal because a copy is due. So a draw leaves the screen without
its picture exactly when the size has changed, or is asked for the first time
(`Terminal.draw_shows_unless_resized`), and the first draw of all does
(`Terminal.first_draw_is_not_shown`).
-/

namespace Chip8

/-! ### Calls -/

namespace DeviceCall

/-- Writes to the pad, or clears the screen that shows it. -/
def spoils : DeviceCall → Bool
  | .write .. => true
  | .clearScreen => true
  | _ => false

def showsPad : DeviceCall → Bool
  | .showPad .. => true
  | _ => false

theorem spoils_of_showsPad {call : DeviceCall} (shows : call.showsPad = true) :
    call.spoils = false := by
  cases call <;> first | rfl | cases shows

end DeviceCall

/-- Calls, oldest first, after which the screen shows the pad: it was copied, and not spoilt
afterwards. -/
def ShowsLast (calls : List DeviceCall) : Prop :=
  ∃ before call after, calls = before ++ call :: after ∧ call.showsPad = true ∧
    ∀ later ∈ after, later.spoils = false

/-- Calls, newest first, since which nothing waits to be shown: whatever was spoilt was copied
again. -/
def UpToDate (calls : List DeviceCall) : Prop :=
  ∀ newer call older, calls = newer ++ call :: older → call.spoils = true →
    ∃ later ∈ newer, later.showsPad = true

theorem showsLast_append_showsPad {calls : List DeviceCall} {call : DeviceCall}
    (shows : call.showsPad = true) : ShowsLast (calls ++ [call]) :=
  ⟨calls, call, [], rfl, shows, fun _ member => by cases member⟩

theorem not_showsLast {calls : List DeviceCall} (hidden : ∀ call ∈ calls, call.showsPad = false) :
    ¬ ShowsLast calls := by
  rintro ⟨before, call, after, rfl, shows, _⟩
  have hides := hidden call (by simp)
  rw [shows] at hides
  cases hides

theorem upToDate_of_unspoilt {calls : List DeviceCall}
    (unspoilt : ∀ call ∈ calls, call.spoils = false) : UpToDate calls := by
  rintro newer call older rfl spoils
  have keeps := unspoilt call (by simp)
  rw [spoils] at keeps
  cases keeps

/-- A pad that was just copied is shown, whatever happened before. -/
theorem upToDate_cons {call : DeviceCall} {calls : List DeviceCall}
    (shows : call.showsPad = true) : UpToDate (call :: calls) := by
  intro newer spoiling older parts spoils
  cases newer with
  | nil =>
      cases parts
      rw [DeviceCall.spoils_of_showsPad shows] at spoils
      cases spoils
  | cons first rest =>
      cases parts
      exact ⟨call, List.mem_cons_self, shows⟩

/-! ### Requests -/

/-- What a display can be told. -/
inductive Request where
  | draw (fb : Framebuffer)
  | title (text : String)
  | refresh (changed : Bool)

def Display.answer (d : Display) : Request → Shown
  | .draw fb => (d.draw fb).2
  | .title text => d.setTitle text
  | .refresh changed => d.refresh changed

namespace Terminal

/-- The terminals that requests lead to, with the calls made so far, newest first. The screen has
the sizes `sizes`, one for each time of asking. -/
inductive Reached (sizes : Nat → Int × Int) : Display → List DeviceCall → Prop
  | start {scale : Choice Int} {resizable : Bool} {d : Display}
      (opened : (Display.terminal scale sizes resizable).display = .ok d) :
      Reached sizes d (Display.terminal scale sizes resizable).calls.reverse
  | answer {d : Display} {calls : List DeviceCall} (reached : Reached sizes d calls)
      (request : Request) :
      Reached sizes (d.answer request).display ((d.answer request).calls.reverse ++ calls)

/-! ### Terminals with a pad -/

/-- The size that the screen had when it was last asked for; at the start there is none. -/
def lastSize (sizes : Nat → Int × Int) : (asked : Nat) → Int × Int
  | 0 => (-1, -1)
  | asked + 1 => sizes asked

/-- A terminal that is not shut down. -/
structure Open (sizes : Nat → Int × Int) (t : Terminal) : Prop where
  pad : t.pad.isSome = true
  sized : t.sizes = sizes
  last : (t.lastHeight, t.lastWidth) = lastSize sizes t.asked

/-- What every request keeps: if no copy is due, the screen is up to date. -/
structure Tended (sizes : Nat → Int × Int) (t : Terminal) (calls : List DeviceCall) : Prop
    extends Open sizes t where
  current : t.refreshNeeded = false → UpToDate calls

/-- The screen has the same size as when it was last asked for. -/
def Unresized (sizes : Nat → Int × Int) (t : Terminal) : Prop :=
  sizes t.asked = lastSize sizes t.asked

/-- The screen was asked for its size before, and has kept it. -/
def Steady (sizes : Nat → Int × Int) (asked : Nat) : Prop :=
  ∃ before, asked = before + 1 ∧ sizes asked = sizes before

variable {sizes : Nat → Int × Int} {t : Terminal} {calls : List DeviceCall}

/-- No screen has the size that stands for none. -/
theorem unresized_iff_steady (positive : ∀ k, 1 ≤ (sizes k).1 ∧ 1 ≤ (sizes k).2) :
    Unresized sizes t ↔ Steady sizes t.asked := by
  unfold Unresized Steady
  cases t.asked with
  | zero =>
      have high := (positive 0).1
      refine ⟨fun none => ?_, fun ⟨before, first, _⟩ => by cases first⟩
      rw [none] at high
      cases high
  | succ before =>
      refine ⟨fun same => ⟨before, rfl, same⟩, fun ⟨before', next, same⟩ => ?_⟩
      obtain rfl := Nat.succ.inj next
      exact same

theorem Open.unresized_iff (opened : Open sizes t) :
    (t.sizes t.asked).1 = t.lastHeight ∧ (t.sizes t.asked).2 = t.lastWidth ↔ Unresized sizes t := by
  rw [Unresized, ← opened.last, opened.sized, Prod.ext_iff]

/-- A refresh copies the pad if the screen has kept its size and a copy is due. -/
theorem refresh_unresized (opened : Open sizes t) (unresized : Unresized sizes t)
    {changed : Bool} (due : (t.refreshNeeded || changed) = true) :
    t.refresh changed =
      ({ t with asked := t.asked + 1, refreshNeeded := false },
        [.showPad 0 0 0 0 ((sizes t.asked).1 - 1) ((sizes t.asked).2 - 1)]) := by
  have same := opened.unresized_iff.mpr unresized
  simp only [refresh, same, and_self, if_true, due, opened.pad, Bool.and_self, ← opened.sized]

/-- Without anything to copy, a screen of the same size stays as it is. -/
theorem refresh_idle (opened : Open sizes t) (unresized : Unresized sizes t)
    {changed : Bool} (idle : (t.refreshNeeded || changed) = false) :
    t.refresh changed = ({ t with asked := t.asked + 1, refreshNeeded := false }, []) := by
  have same := opened.unresized_iff.mpr unresized
  simp only [refresh, same, and_self, if_true, idle, Bool.false_and, Bool.false_eq_true, if_false]

/-- A screen of another size is cleared, and a copy is due. -/
theorem refresh_resized (opened : Open sizes t) (resized : ¬ Unresized sizes t) (changed : Bool) :
    t.refresh changed =
      ({ t with
          asked := t.asked + 1
          refreshNeeded := true
          lastHeight := (sizes t.asked).1
          lastWidth := (sizes t.asked).2 },
        [.clearScreen] ++
          (if t.resizable then [.resizeScreen (sizes t.asked).1 (sizes t.asked).2] else []) ++
          [.showScreen]) := by
  have other := mt opened.unresized_iff.mp resized
  obtain rfl := opened.sized
  exact if_neg other

/-- No call of a refresh that clears the screen shows the pad. -/
theorem not_showsPad_of_resized (opened : Open sizes t) (resized : ¬ Unresized sizes t)
    (changed : Bool) : ∀ call ∈ (t.refresh changed).2, call.showsPad = false := by
  intro call member
  rw [refresh_resized opened resized] at member
  rcases List.mem_append.mp member with early | late
  · rcases List.mem_append.mp early with clear | resize
    · rw [List.mem_singleton.mp clear]
      rfl
    · split at resize
      · rw [List.mem_singleton.mp resize]
        rfl
      · cases resize
  · rw [List.mem_singleton.mp late]
    rfl

theorem Open.refresh (opened : Open sizes t) (changed : Bool) :
    Open sizes (t.refresh changed).1 := by
  by_cases unresized : Unresized sizes t
  · have last := opened.last.trans unresized.symm
    cases due : t.refreshNeeded || changed with
    | true =>
        rw [refresh_unresized opened unresized due]
        exact ⟨opened.pad, opened.sized, last⟩
    | false =>
        rw [refresh_idle opened unresized due]
        exact ⟨opened.pad, opened.sized, last⟩
  · rw [refresh_resized opened unresized]
    exact ⟨opened.pad, opened.sized, rfl⟩

/-- A refresh tends to the terminal if it is told of everything that was spoilt. -/
theorem Open.tended_refresh (opened : Open sizes t) {changed : Bool}
    (told : (t.refreshNeeded || changed) = false → UpToDate calls) :
    Tended sizes (t.refresh changed).1 ((t.refresh changed).2.reverse ++ calls) := by
  refine { opened.refresh changed with current := fun settled => ?_ }
  by_cases unresized : Unresized sizes t
  · cases due : t.refreshNeeded || changed with
    | true =>
        rw [refresh_unresized opened unresized due]
        exact upToDate_cons rfl
    | false =>
        rw [refresh_idle opened unresized due]
        exact told due
  · rw [refresh_resized opened unresized] at settled
    cases settled

/-- A refresh counts the time of asking, and a copy is due after it only if it cleared the
screen. -/
theorem refreshNeeded_refresh (opened : Open sizes t) (changed : Bool) :
    (t.refresh changed).1.asked = t.asked + 1 ∧
      ((t.refresh changed).1.refreshNeeded = true ↔ ¬ Unresized sizes t) := by
  by_cases unresized : Unresized sizes t
  · cases due : t.refreshNeeded || changed with
    | true => simp [refresh_unresized opened unresized due, unresized]
    | false => simp [refresh_idle opened unresized due, unresized]
  · simp [refresh_resized opened unresized, unresized]

/-- Behind calls that do not show the pad, a refresh shows it if the screen has kept its size and a
copy is due. -/
theorem showsLast_refresh (opened : Open sizes t) (changed : Bool) {writes : List DeviceCall}
    (hidden : ∀ call ∈ writes, call.showsPad = false) :
    ShowsLast (writes ++ (t.refresh changed).2) ↔
      Unresized sizes t ∧ (t.refreshNeeded || changed) = true := by
  by_cases unresized : Unresized sizes t
  · cases due : t.refreshNeeded || changed with
    | true =>
        rw [refresh_unresized opened unresized due]
        exact iff_of_true (showsLast_append_showsPad rfl) ⟨unresized, rfl⟩
    | false =>
        rw [refresh_idle opened unresized due, List.append_nil]
        exact iff_of_false (not_showsLast hidden) fun ⟨_, wrong⟩ => by cases wrong
  · refine iff_of_false (not_showsLast fun call member => ?_) fun ⟨same, _⟩ => unresized same
    exact (List.mem_append.mp member).elim (hidden call)
      (not_showsPad_of_resized opened unresized changed call)

/-! ### What requests do -/

variable {d : Display} {fb : Framebuffer}

/-- A terminal with a pad takes any pixels. -/
theorem paint_eq (surface : d.surface = .terminal t) (pad : t.pad.isSome = true)
    (places : List (Int × Int × Int)) :
    d.paint places =
      ⟨d, places.map fun (x, y, colour) => pixelCall d.scale x y colour, none⟩ := by
  obtain ⟨scale, width, height, frames, _⟩ := d
  cases surface
  obtain ⟨size, held⟩ := Option.isSome_iff_exists.mp pad
  induction places with
  | nil => rfl
  | cons place rest ih =>
      obtain ⟨x, y, colour⟩ := place
      simp only [Display.paint, Display.setPixel, held, ih]
      rfl

/-- The calls that make a new pad for a picture, if the one there has another size. -/
def fitCalls (d : Display) (fb : Framebuffer) : List DeviceCall :=
  if fb.width = d.width ∧ fb.height = d.height then []
  else [.newPad (fb.height + 1) (fb.width * d.scale + 1)]

def pixelCalls (scale : Int) (fb : Framebuffer) : List DeviceCall :=
  (Display.pixels fb.rows).map fun (x, y, colour) => pixelCall scale x y colour

/-- The calls that paint a picture. -/
def drawCalls (d : Display) (fb : Framebuffer) : List DeviceCall :=
  fitCalls d fb ++ pixelCalls d.scale fb

theorem not_showsPad_drawCalls (d : Display) (fb : Framebuffer) :
    ∀ call ∈ drawCalls d fb, call.showsPad = false := by
  intro call member
  rcases List.mem_append.mp member with early | late
  · unfold fitCalls at early
    split at early
    · cases early
    · rw [List.mem_singleton.mp early]
      rfl
  · obtain ⟨⟨x, y, colour⟩, _, rfl⟩ := List.mem_map.mp late
    rfl

/-- A draw of a changed picture writes it to the pad and refreshes. -/
theorem draw_eq (surface : d.surface = .terminal t) (pad : t.pad.isSome = true)
    (changed : fb.changed = true) :
    ∃ pad : Int × Int,
      (d.draw fb).2 =
        ⟨{ d with
            width := fb.width
            height := fb.height
            frames := d.frames + 1
            surface := .terminal (({ t with pad := some pad } : Terminal).refresh true).1 },
          drawCalls d fb ++ (({ t with pad := some pad } : Terminal).refresh true).2, none⟩ := by
  have fits : ∃ pad : Int × Int, d.fit fb.width fb.height =
      ⟨{ d with
          width := fb.width
          height := fb.height
          surface := .terminal { t with pad := some pad } }, fitCalls d fb, none⟩ := by
    unfold Display.fit fitCalls
    split
    case isTrue same =>
      obtain ⟨size, held⟩ := Option.isSome_iff_exists.mp pad
      refine ⟨size, ?_⟩
      obtain ⟨wide, high⟩ := same
      simp only [wide, high, ← held, ← surface]
    case isFalse => exact ⟨_, by rw [Display.setResolution, surface]; rfl⟩
  obtain ⟨size, fits⟩ := fits
  exact ⟨size, congrArg Prod.snd (Display.draw_eq changed fits (paint_eq rfl rfl _) rfl)⟩

/-- A display on a terminal that is tended to. -/
def Holds (sizes : Nat → Int × Int) (d : Display) (calls : List DeviceCall) : Prop :=
  ∃ t, d.surface = .terminal t ∧ Tended sizes t calls

theorem Open.withPad (opened : Open sizes t) (pad : Int × Int) :
    Open sizes { t with pad := some pad } := ⟨rfl, opened.sized, opened.last⟩

theorem holds_draw (surface : d.surface = .terminal t) (tended : Tended sizes t calls) :
    Holds sizes (d.draw fb).2.display ((d.draw fb).2.calls.reverse ++ calls) := by
  cases changed : fb.changed with
  | false =>
      rw [Display.draw_unchanged changed]
      exact ⟨t, surface, tended⟩
  | true =>
      obtain ⟨pad, drawn⟩ := draw_eq surface tended.pad changed
      rw [drawn, List.reverse_append, List.append_assoc]
      have told : (t.refreshNeeded || true) = false → UpToDate ((drawCalls d fb).reverse ++ calls) :=
        fun settled => by simp at settled
      exact ⟨_, rfl, (tended.withPad pad).tended_refresh told⟩

/-- A title that is written is filled up with blanks, and has everything written to the pad shown with
it. -/
theorem setTitle_cases {scale width : Int} {text : String} {t' : Terminal}
    {calls : List DeviceCall} (set : t.setTitle scale width text = .ok (t', calls)) :
    (t' = t ∧ calls = [] ∧ (t.pad.isSome = true → width * scale ≤ text.length)) ∨
      ((text.length : Int) < width * scale ∧ t' = (t.refresh true).1 ∧
        calls = .write 0 0 (text ++ blanks (width * scale - text.length)) true ::
          (t.refresh true).2) := by
  unfold setTitle at set
  dsimp only at set
  split at set
  case isTrue written =>
    have shorter := of_decide_eq_true (Bool.and_eq_true_iff.mp written).2
    have positive : ¬ width * scale - text.length < 0 := by omega
    cases length : Bytes.length (width * scale - text.length) with
    | error fault =>
        rw [fillLine, length] at set
        cases set
    | ok count =>
        rw [fillLine, length] at set
        cases set
        rw [Bytes.length, if_neg positive] at length
        split at length
        · cases length
        · split at length
          · cases length
          · cases length
            refine .inr ⟨shorter, rfl, ?_⟩
            rw [blanks, blanks, Int.toNat_natCast]
  case isFalse unwritten =>
    cases set
    refine .inl ⟨rfl, rfl, fun held => ?_⟩
    rw [held, Bool.true_and, decide_eq_true_iff] at unwritten
    exact Int.not_lt.mp unwritten

theorem holds_setTitle (surface : d.surface = .terminal t) (tended : Tended sizes t calls)
    (text : String) :
    Holds sizes (d.setTitle text).display ((d.setTitle text).calls.reverse ++ calls) := by
  rw [Display.setTitle, surface]
  dsimp only
  cases set : t.setTitle d.scale d.width text with
  | error fault => exact ⟨t, surface, tended⟩
  | ok result =>
      obtain ⟨t', made⟩ := result
      rcases setTitle_cases set with ⟨rfl, rfl, _⟩ | ⟨_, rfl, rfl⟩
      · exact ⟨_, rfl, tended⟩
      · have told (line : String) :
            (t.refreshNeeded || true) = false → UpToDate (.write 0 0 line true :: calls) :=
          fun settled => by simp at settled
        dsimp only
        rw [List.reverse_cons, List.append_assoc]
        exact ⟨_, rfl, tended.toOpen.tended_refresh (told _)⟩

theorem holds_refresh (surface : d.surface = .terminal t) (tended : Tended sizes t calls)
    (changed : Bool) :
    Holds sizes (d.refresh changed).display ((d.refresh changed).calls.reverse ++ calls) := by
  rw [Display.refresh, surface]
  refine ⟨_, rfl, tended.toOpen.tended_refresh fun settled => ?_⟩
  exact tended.current (Bool.or_eq_false_iff.mp settled).1

theorem Reached.holds (reached : Reached sizes d calls) : Holds sizes d calls := by
  induction reached with
  | start opened =>
      obtain ⟨⟨scale, _, rfl⟩, calls⟩ := Display.terminal_display opened
      rw [calls]
      have unspoilt : ∀ call ∈ (openingCalls ++ [DeviceCall.newPad 1 1]).reverse,
          call.spoils = false := by decide
      exact ⟨_, rfl, ⟨rfl, rfl, rfl⟩, fun _ => upToDate_of_unspoilt unspoilt⟩
  | answer _ request held =>
      obtain ⟨t, surface, tended⟩ := held
      cases request with
      | draw fb => exact holds_draw surface tended
      | title text => exact holds_setTitle surface tended text
      | refresh changed => exact holds_refresh surface tended changed

/-- **A draw shows its picture unless the screen was resized.** Whatever a terminal was told
before, a screen for which no copy of the pad is due is up to date, and a refresh makes a copy
that is due if the screen has the size that it had the last time. A draw of a changed picture
never fails, but under the same condition alone it ends with a copy. Otherwise a copy is due
after it, and drawing the picture again makes no call, because it is not marked as changed any
more. -/
theorem draw_shows_unless_resized (positive : ∀ k, 1 ≤ (sizes k).1 ∧ 1 ≤ (sizes k).2)
    (reached : Reached sizes d calls) :
    ∃ t, d.surface = .terminal t ∧ (t.refreshNeeded = false → UpToDate calls) ∧
      (∀ changed, ShowsLast (d.refresh changed).calls ↔
        Steady sizes t.asked ∧ (t.refreshNeeded || changed) = true) ∧
      ∀ fb : Framebuffer, fb.changed = true →
        (d.draw fb).2.fault = none ∧
        (ShowsLast (d.draw fb).2.calls ↔ Steady sizes t.asked) ∧
        (∃ t', (d.draw fb).2.display.surface = .terminal t' ∧ t'.asked = t.asked + 1 ∧
          (t'.refreshNeeded = true ↔ ¬ Steady sizes t.asked)) ∧
        ((d.draw fb).2.display.draw (d.draw fb).1).2.calls = [] := by
  obtain ⟨t, surface, tended⟩ := reached.holds
  have steady {t : Terminal} := unresized_iff_steady (t := t) positive
  refine ⟨t, surface, tended.current, fun changed => ?_, fun fb changed => ?_⟩
  · rw [Display.refresh, surface, ← steady]
    have none : ∀ call ∈ ([] : List DeviceCall), call.showsPad = false := fun call member => by
      cases member
    exact showsLast_refresh tended.toOpen changed none
  · obtain ⟨pad, drawn⟩ := draw_eq surface tended.pad changed
    have opened := tended.withPad pad
    have again : (d.draw fb).1.changed = false := by rw [Display.draw_fst]
    obtain ⟨asked, due⟩ := refreshNeeded_refresh opened true
    rw [Display.draw_unchanged again, drawn, ← steady]
    refine ⟨rfl, ?_, ⟨_, rfl, asked, due⟩, rfl⟩
    refine (showsLast_refresh opened true (not_showsPad_drawCalls d fb)).trans ?_
    rw [Bool.or_true, and_iff_left rfl]
    rfl

/-- The screen never changes its size, but the first picture is not shown until another refresh. -/
theorem first_draw_is_not_shown :
    ∃ (d d' : Display) (calls : List DeviceCall) (fb : Framebuffer),
      Reached (fun _ => (24, 80)) d calls ∧ fb.changed = true ∧ d' = (d.draw fb).2.display ∧
      ¬ ShowsLast (d.draw fb).2.calls ∧ ShowsLast (d'.refresh false).calls := by
  let sizes : Nat → Int × Int := fun _ => (24, 80)
  have positive (k : Nat) : 1 ≤ (sizes k).1 ∧ 1 ≤ (sizes k).2 := by decide
  have opened : Reached sizes
      { scale := 2, surface := .terminal { pad := some (1, 1), sizes } }
      (Display.terminal .unset sizes true).calls.reverse := .start rfl
  obtain ⟨t, surface, _, _, draws⟩ := draw_shows_unless_resized positive opened
  cases surface
  obtain ⟨_, shows, ⟨t', surface', asked, due⟩, _⟩ := draws Framebuffer.screen rfl
  have first : ¬ Steady sizes 0 := fun ⟨before, next, _⟩ => by cases next
  have drawn := opened.answer (.draw Framebuffer.screen)
  rw [Display.answer] at drawn
  obtain ⟨t'', surface'', _, refreshes, _⟩ := draw_shows_unless_resized positive drawn
  obtain rfl : t' = t'' := by
    rw [surface'] at surface''
    exact Surface.terminal.inj surface''
  refine ⟨_, _, _, Framebuffer.screen, opened, rfl, rfl, mt shows.mp first, ?_⟩
  refine (refreshes false).mpr ⟨⟨0, asked, rfl⟩, ?_⟩
  rw [due.mpr first, Bool.true_or]

end Terminal

end Chip8
