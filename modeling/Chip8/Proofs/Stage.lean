import Chip8.Proofs.Operation
import Chip8.Proofs.Painting
import Chip8.Sound

/-!
Stages: a machine, and the display that its screen is drawn on.

The machine is driven and the display is told to draw, in any order (`Stage.Reached`). Whatever
changes the picture marks the screen (`Machine.perform_screen`) and only a draw takes the mark away,
so a display always shows a screen that is not marked (`Stage.Coherent`).
-/

namespace Chip8

namespace Machine

variable {m : Machine}

/-! ### The mark of the screen -/

theorem withPicture_pixel (m : Machine) :
    (m.withPicture m.pixel m.screen.changed).screen = m.screen := by
  have cells : (m.screen.vram.cells.mapIdx fun i _ => m.pixel (i % 64) (i / 64)) =
      m.screen.vram.cells := by
    refine Array.ext (by simp) fun i _ inside => ?_
    have place : i / 64 * 64 + i % 64 = i := Nat.div_add_mod' i 64
    rw [Array.getElem_mapIdx, pixel, place, Ram.byte, Array.getElem?_eq_getElem inside,
      Option.getD_some]
  simp only [withPicture, cells]

/-- An instruction that leaves the screen without a mark leaves it as it was. A sprite that marks
nothing has no lit pixel. -/
theorem effect_screen (i : Instruction) (unmarked : (m.effect i).screen.changed = false) :
    (m.effect i).screen = m.screen := by
  cases i with
  | cls => cases unmarked
  | drw x y height =>
      obtain ⟨unchanged, unlit⟩ := Bool.or_eq_false_iff.mp unmarked
      have unlit : ¬ m.SpriteLit height := of_decide_eq_false unlit
      have uncovered (px py : Nat) :
          ¬ m.SpriteCovers (m.value x) (m.value y) height px py := by
        rintro ⟨row, below, column, left, _, _, bit⟩
        exact unlit ⟨row, below, column, left, bit⟩
      have same : (m.effect (.drw x y height)).screen =
          (m.withPicture m.pixel m.screen.changed).screen := by
        simp only [effect, uncovered, if_false, unlit, decide_false, Bool.or_false]
        rfl
      rw [same, withPicture_pixel]
  | ret => cases entries : m.stack.entries <;> simp only [effect, entries]
  | waitKey x =>
      simp only [effect]
      split <;> rfl
  | _ => rfl

/-- The same of every operation, whether or not it fails. -/
theorem perform_screen (formed : m.WellFormed) (operation : Operation)
    (unmarked : (m.perform operation).machine.screen.changed = false) :
    (m.perform operation).machine.screen = m.screen := by
  cases operation with
  | load program =>
      rw [perform_load_of_sized formed.ram]
      split <;> rfl
  | setKeys keys =>
      rw [perform_setKeys]
      split <;> rfl
  | step =>
      have ended := step_stepsTo formed
      change m.step.machine.screen.changed = false at unmarked
      change m.step.machine.screen = m.screen
      generalize m.step = outcome at ended unmarked
      cases ended with
      | runs encoded goes => exact effect_screen (m := m.fetched) _ unmarked
      | refuses encoded refused => rfl
      | unsupported missing => rfl
  | tick => rw [perform, advanceTimers_eq]

end Machine

theorem Sound.mem_buzzerCalls {sound : Sound} {on : Bool} {call : DeviceCall}
    (member : call ∈ sound.buzzerCalls on) : call = .beep ∨ call = .play (-1) ∨ call = .stop := by
  unfold buzzerCalls at member
  split at member
  case h_1 => cases member
  case h_2 =>
    split at member
    · exact .inl (List.mem_singleton.mp member)
    · cases member
  case h_3 =>
    split at member
    · exact .inr (.inl (List.mem_singleton.mp member))
    · split at member
      · exact .inr (.inr (List.mem_singleton.mp member))
      · cases member

/-! ### Acts -/

/-- A machine, a display, and the calls made so far, newest first. -/
structure Stage where
  machine : Machine
  display : Display
  calls : List DeviceCall

/-- What is done on a stage. The screen is written by the machine alone. -/
inductive Act where
  | drive (operation : Operation)
  | title (text : String)
  /-- Have the display draw the screen of the machine. -/
  | draw
  /-- A tick of the buzzer, which makes calls of its own. -/
  | buzz (sound : Sound) (on : Bool)

namespace Stage

/-- Takes over what an operation of the display leaves behind. -/
def take (s : Stage) (shown : Shown) : Stage :=
  { s with display := shown.display, calls := shown.calls.reverse ++ s.calls }

/-- An act, whether or not it fails. -/
def act (s : Stage) : Act → Stage
  | .drive operation => { s with machine := (s.machine.perform operation).machine }
  | .title text => s.take (s.display.setTitle text)
  | .draw =>
      let (screen, shown) := s.display.draw s.machine.screen
      { s with machine := { s.machine with screen } }.take shown
  | .buzz sound on => { s with calls := (sound.buzzerCalls on).reverse ++ s.calls }

/-- Acts, one after the other. -/
def actAll (s : Stage) (acts : List Act) : Stage := acts.foldl act s

/-- The stages that a fresh machine and a display that was just opened can get to. -/
inductive Reached : Stage → Prop
  | start (trace strict : Bool) (random : RandomSource) (scale : Choice Int)
      {opening : Display.Opening} {display : Display}
      (opens : opening = Display.headless scale ∨ opening = Display.window scale)
      (opened : opening.display = .ok display) :
      Reached ⟨Machine.create trace strict random, display, opening.calls.reverse⟩
  | act {s : Stage} (reached : Reached s) (act : Act) : Reached (s.act act)

/-- Whether the display shows the screen of the machine. -/
def Shows (s : Stage) : Prop := s.display.Shows s.calls s.machine.screen.rows

/-! ### Coherence -/

/-- What every act keeps. Between a change of the screen and the next draw the display may show
something older, and then the screen is marked. -/
structure Coherent (s : Stage) : Prop where
  formed : s.machine.WellFormed
  ready : s.display.Ready
  shows : s.machine.screen.changed = false → s.Shows

variable {s : Stage}

/-- Titles and buzzers make calls, but show no picture. -/
theorem Coherent.unseen (coherent : s.Coherent) {calls : List DeviceCall}
    (unseen : ∀ call ∈ calls, call.Unseen) :
    Coherent { s with calls := calls.reverse ++ s.calls } where
  formed := coherent.formed
  ready := coherent.ready
  shows unmarked := (coherent.shows unmarked).append fun call member =>
    unseen call (List.mem_reverse.mp member)

theorem Coherent.title (coherent : s.Coherent) (text : String) :
    (s.act (.title text)).Coherent := by
  have ready := coherent.ready
  unfold Display.Ready at ready
  rw [act, take, Display.setTitle]
  cases surface : s.display.surface with
  | headless => exact coherent
  | window w =>
      have unseen : ∀ call ∈ [DeviceCall.caption text], call.Unseen := fun call member => by
        obtain rfl := List.mem_singleton.mp member
        exact ⟨fun _ _ => rfl, rfl⟩
      exact coherent.unseen unseen
  | terminal t =>
      rw [surface] at ready
      exact ready.elim

theorem Coherent.draw (coherent : s.Coherent) : (s.act .draw).Coherent := by
  cases changed : s.machine.screen.changed with
  | false =>
      rw [act, Display.draw_unchanged changed]
      exact coherent
  | true =>
      have formed := coherent.formed
      obtain ⟨shown, drawn, _, ready, shows⟩ :=
        Display.draw_shows formed.screen formed.width formed.height changed coherent.ready
      rw [act, drawn]
      exact
        { formed := { formed with screen := { formed.screen with } }
          ready
          shows := fun _ => shows s.calls }

theorem Coherent.buzz (coherent : s.Coherent) (sound : Sound) (on : Bool) :
    (s.act (.buzz sound on)).Coherent := by
  refine coherent.unseen fun call member => ?_
  rcases Sound.mem_buzzerCalls member with rfl | rfl | rfl <;> exact ⟨fun _ _ => rfl, rfl⟩

theorem Coherent.act (coherent : s.Coherent) (act : Act) : (s.act act).Coherent := by
  cases act with
  | drive operation =>
      exact
        { formed := Machine.perform_wellFormed coherent.formed operation
          ready := coherent.ready
          shows := fun unmarked => by
            have screen := Machine.perform_screen coherent.formed operation unmarked
            have unmarkedBefore : s.machine.screen.changed = false := screen ▸ unmarked
            have rows : (s.act (.drive operation)).machine.screen.rows = s.machine.screen.rows :=
              congrArg Framebuffer.rows screen
            rw [Shows, rows]
            exact coherent.shows unmarkedBefore }
  | title text => exact coherent.title text
  | draw => exact coherent.draw
  | buzz sound on => exact coherent.buzz sound on

theorem Reached.actAll (reached : Reached s) (acts : List Act) : Reached (s.actAll acts) := by
  induction acts generalizing s with
  | nil => exact reached
  | cons act rest ih => exact ih (reached.act act)

theorem Reached.coherent (reached : Reached s) : s.Coherent := by
  induction reached with
  | start trace strict random scale opens opened =>
      refine ⟨Machine.create_wellFormed trace strict random, ?_, fun unmarked => by cases unmarked⟩
      rcases opens with rfl | rfl
      · obtain ⟨scale, rfl⟩ := Display.headless_display opened
        trivial
      · obtain ⟨scale, rfl⟩ := Display.window_display opened
        rfl
  | act _ act coherent => exact coherent.act act

end Stage

end Chip8
