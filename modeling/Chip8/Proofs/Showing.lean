import Chip8.Proofs.Refresh

/-!
What displays tell their devices.

A display that is open tells its device what to show and nothing else (`DeviceCall.shows`): it neither
takes hold of a device nor gives one back, and it makes no sound. So whoever follows some other kind of
call through what a host does can leave the display out (`Display.shows_setTitle`, `Display.shows_draw`).
-/

namespace Chip8

/-- Tells a device what to show. -/
def DeviceCall.shows : DeviceCall → Bool
  | .pixel .. | .refreshed _ => true
  | .caption _ | .windowSize .. | .picture .. | .stretch .. | .paste .. | .flip => true
  | .newPad .. | .write .. | .showPad .. | .clearScreen | .showScreen | .resizeScreen .. => true
  | _ => false

/-- Every call tells a device what to show. -/
def Showing (calls : List DeviceCall) : Prop := ∀ call ∈ calls, call.shows = true

namespace Showing

variable {calls calls' : List DeviceCall}

theorem nil : Showing [] := fun call member => by cases member

theorem singleton {call : DeviceCall} (shows : call.shows = true) : Showing [call] :=
  fun _ member => List.mem_singleton.mp member ▸ shows

/-- Devices that are only told what to show can be told more of it. -/
theorem append (shows : Showing calls) (shows' : Showing calls') : Showing (calls ++ calls') :=
  fun call member => (List.mem_append.mp member).elim (shows call) (shows' call)

end Showing

/-! ### Devices -/

/-- A terminal whose size has changed is cleared, and told its new size, before it is shown. -/
theorem Terminal.shows_refresh (t : Terminal) (changed : Bool) : Showing (t.refresh changed).2 := by
  have resized : Showing (if t.resizable then
      [.resizeScreen (t.sizes t.asked).1 (t.sizes t.asked).2] else []) := by
    split
    · exact .singleton rfl
    · exact .nil
  unfold refresh
  dsimp only
  split
  · split
    · exact .singleton rfl
    · exact .nil
  · exact ((Showing.singleton rfl).append resized).append (.singleton rfl)

theorem Window.shows_refreshCalls (w : Window) (width height : Int) (changed : Bool) :
    Showing (w.refreshCalls width height changed) := by
  unfold refreshCalls
  split
  · intro call member
    simp only [List.mem_cons, List.not_mem_nil, or_false] at member
    rcases member with rfl | rfl | rfl | rfl <;> rfl
  · exact .nil

/-! ### Displays -/

namespace Display

variable {d : Display}

theorem shows_setResolution (width height : Int) : Showing (d.setResolution width height).calls := by
  unfold setResolution
  split
  · exact .nil
  · split <;> exact .nil
  · exact .singleton rfl

/-- A window collects its pixels in a buffer of its own, which only a refresh hands on. -/
theorem shows_setPixel (x y colour : Int) : Showing (d.setPixel x y colour).calls := by
  obtain ⟨scale, width, height, frames, surface⟩ := d
  unfold setPixel
  cases surface with
  | headless => exact .singleton rfl
  | window w => exact .nil
  | terminal t =>
      dsimp only
      split
      · exact .singleton rfl
      · exact .nil

theorem shows_refresh (changed : Bool) : Showing (d.refresh changed).calls := by
  unfold refresh
  split
  · exact .singleton rfl
  · exact Window.shows_refreshCalls _ _ _ changed
  · exact Terminal.shows_refresh _ changed

/-- A title goes to the caption of a window, or to the first row of a terminal if it is shorter. -/
theorem shows_setTitle (title : String) : Showing (d.setTitle title).calls := by
  unfold setTitle
  split
  · exact .nil
  · exact .singleton rfl
  · next t _ =>
      cases set : t.setTitle d.scale d.width title with
      | error fault => exact .nil
      | ok result =>
          obtain ⟨t', calls⟩ := result
          rcases Terminal.setTitle_cases set with ⟨_, rfl, _⟩ | ⟨_, _, rfl⟩
          · exact .nil
          · exact (Showing.singleton rfl).append (t.shows_refresh true)

/-- Painting stops at the first pixel that fails, and what was said up to there stays said. -/
theorem shows_paint (places : List (Int × Int × Int)) : Showing (d.paint places).calls := by
  induction places generalizing d with
  | nil => exact .nil
  | cons place rest ih =>
      obtain ⟨x, y, colour⟩ := place
      have first : Showing (d.setPixel x y colour).calls := shows_setPixel x y colour
      rw [paint]
      cases set : d.setPixel x y colour with
      | mk d' calls fault =>
          rw [set] at first
          cases fault with
          | some fault => exact first
          | none => exact first.append ih

theorem shows_andThen {before : Shown} {next : Display → Shown} (shows : Showing before.calls)
    (shows' : ∀ d, Showing (next d).calls) : Showing (Shown.andThen before next).calls := by
  unfold Shown.andThen
  split
  · exact shows
  · exact shows.append (shows' before.display)

/-- A draw fits the display to the picture, paints it and refreshes the device. -/
theorem shows_draw (fb : Framebuffer) : Showing (d.draw fb).2.calls := by
  have fits (width height : Int) : Showing (d.fit width height).calls := by
    unfold fit
    split
    · exact .nil
    · exact shows_setResolution width height
  unfold draw
  split
  · exact .nil
  · refine shows_andThen (shows_andThen (shows_andThen (fits _ _) fun d => ?_) fun d => ?_)
      fun d => .nil
    · exact shows_paint _
    · exact shows_refresh true

end Display

end Chip8
