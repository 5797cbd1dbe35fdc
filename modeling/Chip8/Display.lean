import Chip8.Choice
import Chip8.Display.Terminal
import Chip8.Display.Window
import Chip8.Framebuffer

/-!
Displays. A display never changes the picture of the framebuffer. It draws when the framebuffer
has changed: every pixel is painted, then the display is refreshed in one go.

There are three: a window, a terminal, and a headless display that only tells what it was asked to
show.
-/

namespace Chip8

inductive Surface where
  | headless
  | window (window : Window)
  | terminal (terminal : Terminal)

structure Display where
  scale : Int
  /-- The size of the picture last drawn. -/
  width : Int := 0
  height : Int := 0
  /-- The number of pictures drawn. -/
  frames : Nat := 0
  surface : Surface

/-- What an operation of a display leaves behind: the display, the calls made in order, and the
fault that stopped it, if one did. -/
structure Shown where
  display : Display
  calls : List DeviceCall := []
  fault : Option Fault := none

namespace Display

/-! ### Hooks: what each kind of display does -/

def setResolution (d : Display) (width height : Int) : Shown :=
  match d.surface with
  | .headless => ⟨{ d with width, height }, [], none⟩
  | .window w =>
      match Bytes.zeros (width * height * 3) with
      | .ok rgb => ⟨{ d with width, height, surface := .window { w with rgb } }, [], none⟩
      | .error fault => ⟨d, [], some fault⟩
  | .terminal t =>
      let (t, calls) := t.setResolution d.scale width height
      ⟨{ d with width, height, surface := .terminal t }, calls, none⟩

def setPixel (d : Display) (x y colour : Int) : Shown :=
  match d with
  | { scale, width, height, frames, surface } =>
    match surface with
    | .headless =>
        ⟨{ scale, width, height, frames, surface := .headless }, [.pixel x y colour], none⟩
    | .window w =>
        let (w, fault) := w.setPixel width x y colour
        ⟨{ scale, width, height, frames, surface := .window w }, [], fault⟩
    | .terminal t =>
        let d := { scale, width, height, frames, surface := .terminal t }
        match t.pad with
        | some _ => ⟨d, [Terminal.pixelCall scale x y colour], none⟩
        | none => ⟨d, [], some .displayClosed⟩

def refresh (d : Display) (changed : Bool) : Shown :=
  match d.surface with
  | .headless => ⟨d, [.refreshed changed], none⟩
  | .window w => ⟨d, w.refreshCalls d.width d.height changed, none⟩
  | .terminal t =>
      let (t, calls) := t.refresh changed
      ⟨{ d with surface := .terminal t }, calls, none⟩

def setTitle (d : Display) (title : String) : Shown :=
  match d.surface with
  | .headless => ⟨d, [], none⟩
  | .window _ => ⟨d, [.caption title], none⟩
  | .terminal t =>
      match t.setTitle d.scale d.width title with
      | .ok (t, calls) => ⟨{ d with surface := .terminal t }, calls, none⟩
      | .error fault => ⟨d, [], some fault⟩

def shutdown (d : Display) : Shown :=
  match d.surface with
  | .headless => ⟨d, [], none⟩
  | .window _ => ⟨d, [.closeWindow], none⟩
  | .terminal t =>
      ⟨{ d with surface := .terminal { t with pad := none } }, Terminal.closingCalls, none⟩

/-! ### Drawing -/

/-- Paints pixels, each with its place and colour, up to the first that fails. -/
def paint (d : Display) : List (Int × Int × Int) → Shown
  | [] => ⟨d, [], none⟩
  | (x, y, colour) :: rest =>
      match d.setPixel x y colour with
      | ⟨d, calls, some fault⟩ => ⟨d, calls, some fault⟩
      | ⟨d, calls, none⟩ =>
          let after := d.paint rest
          { after with calls := calls ++ after.calls }

/-- The pixels of a picture in reading order. -/
def pixels (rows : List (List UInt8)) : List (Int × Int × Int) :=
  rows.zipIdx.flatMap fun (row, y) =>
    row.zipIdx.map fun (pixel, x) => (Int.ofNat x, Int.ofNat y, Int.ofNat pixel.toNat)

/-- Runs an operation after another one, unless that one failed. -/
def Shown.andThen (before : Shown) (next : Display → Shown) : Shown :=
  match before.fault with
  | some _ => before
  | none =>
      let after := next before.display
      { after with calls := before.calls ++ after.calls }

/-- Takes over the size of a picture if it is new. -/
def fit (d : Display) (width height : Int) : Shown :=
  if width = d.width ∧ height = d.height then ⟨d, [], none⟩ else d.setResolution width height

/-- Draws a framebuffer that has changed, and resets its mark. -/
def draw (d : Display) (fb : Framebuffer) : Framebuffer × Shown :=
  match fb.popChanged with
  | (false, fb) => (fb, ⟨d, [], none⟩)
  | (true, fb) =>
      (fb, Shown.andThen (Shown.andThen (Shown.andThen (d.fit fb.width fb.height)
        fun d => d.paint (pixels fb.rows))
        fun d => d.refresh true)
        fun d => ⟨{ d with frames := d.frames + 1 }, [], none⟩)

/-! ### Construction -/

/-- What the making of a display leaves behind: the calls made, and the display or the fault that
stopped it. -/
structure Opening where
  calls : List DeviceCall
  display : Except Fault Display

/-- A display of the given scale, after the calls that its device needs first. -/
private def finish (calls : List DeviceCall) (scale : Int) (surface : Surface) : Opening :=
  if scale ≤ 0 then ⟨calls, .error .scaleNotPositive⟩
  else
    let shown := setResolution { scale, surface } 0 0
    match shown.fault with
    | some fault => ⟨calls ++ shown.calls, .error fault⟩
    | none => ⟨calls ++ shown.calls, .ok shown.display⟩

def headless (scale : Choice Int) : Opening :=
  match scale.resolve? 1 with
  | none => ⟨[], .error .blankNumber⟩
  | some scale => finish [] scale .headless

/-- The window is opened before its size is reckoned. -/
def window (scale : Choice Int) : Opening :=
  match scale.resolve? Window.defaultScale with
  | none => ⟨Window.openingCalls, .error .blankNumber⟩
  | some scale =>
      finish (Window.openingCalls ++ Window.sizingCalls scale) scale
        (.window (Window.create scale))

/-- A pixel as wide as the scale says has to be possible before the terminal is opened. -/
def terminal (scale : Choice Int) (sizes : Nat → Int × Int) (resizable : Bool) : Opening :=
  match scale.resolve? Terminal.defaultScale with
  | none => ⟨[], .error .blankNumber⟩
  | some scale =>
      match Bytes.length scale with
      | .error .sizeTooLarge => ⟨[], .error .sizeTooLarge⟩
      | .error .outOfMemory => ⟨[], .error .outOfMemory⟩
      | _ => finish Terminal.openingCalls scale (.terminal { sizes, resizable })

private theorem finish_eq {calls calls' : List DeviceCall} {scale : Int} {surface : Surface}
    {d : Display} (sized : setResolution { scale, surface } 0 0 = ⟨d, calls', none⟩) :
    finish calls scale surface =
      if scale ≤ 0 then ⟨calls, .error .scaleNotPositive⟩ else ⟨calls ++ calls', .ok d⟩ := by
  rw [finish, sized]

/-- A headless display opens if its scale is positive. -/
theorem headless_eq {scale : Choice Int} {n : Int} (said : scale.resolve? 1 = some n) :
    headless scale =
      if n ≤ 0 then ⟨[], .error .scaleNotPositive⟩
      else ⟨[], .ok { scale := n, surface := .headless }⟩ := by
  rw [headless, said]
  exact finish_eq rfl

/-- A window whose scale is not positive fails when it is open already. -/
theorem window_eq {scale : Choice Int} {n : Int}
    (said : scale.resolve? Window.defaultScale = some n) :
    window scale =
      if n ≤ 0 then ⟨Window.openingCalls ++ Window.sizingCalls n, .error .scaleNotPositive⟩
      else ⟨Window.openingCalls ++ Window.sizingCalls n,
        .ok { scale := n, surface := .window (Window.create n) }⟩ := by
  have sized : setResolution { scale := n, surface := .window (Window.create n) } 0 0 =
      ⟨{ scale := n, surface := .window (Window.create n) }, [], none⟩ := rfl
  rw [window, said]
  refine (finish_eq sized).trans ?_
  rw [List.append_nil]

/-- A terminal whose pixels cannot be made is not opened, but one whose scale is not positive fails
when it is open already. The pad of a new terminal is as large as the title line of an empty
picture. -/
theorem terminal_eq {scale : Choice Int} {n : Int} (sizes : Nat → Int × Int) (resizable : Bool)
    (said : scale.resolve? Terminal.defaultScale = some n) :
    terminal scale sizes resizable =
      if n < -Bytes.sizeLimit ∨ Bytes.sizeLimit ≤ n then ⟨[], .error .sizeTooLarge⟩
      else if Bytes.longest < n then ⟨[], .error .outOfMemory⟩
      else if n ≤ 0 then ⟨Terminal.openingCalls, .error .scaleNotPositive⟩
      else ⟨Terminal.openingCalls ++ [.newPad 1 1],
        .ok { scale := n, surface := .terminal { pad := some (1, 1), sizes, resizable } }⟩ := by
  have sized : setResolution { scale := n, surface := .terminal { sizes, resizable } } 0 0 =
      ⟨{ scale := n, surface := .terminal { pad := some (1, 1), sizes, resizable } },
        [.newPad 1 1], none⟩ := by
    simp only [setResolution, Terminal.setResolution, Int.zero_mul, Int.zero_add]
  rw [terminal, said]
  dsimp only
  rw [Bytes.length]
  by_cases limited : n < -Bytes.sizeLimit ∨ Bytes.sizeLimit ≤ n
  · rw [if_pos limited, if_pos limited]
  · rw [if_neg limited, if_neg limited]
    by_cases negative : n < 0
    · have small : ¬ Bytes.longest < n := by
        rw [Bytes.longest]
        omega
      rw [if_pos negative, if_neg small]
      exact finish_eq sized
    · rw [if_neg negative]
      by_cases large : Bytes.longest < n
      · rw [if_pos large, if_pos large]
      · rw [if_neg large, if_neg large]
        exact finish_eq sized

/-- A headless display has drawn nothing yet when it opens. -/
theorem headless_display {scale : Choice Int} {d : Display}
    (opened : (headless scale).display = .ok d) :
    ∃ scale : Int, d = { scale, surface := .headless } := by
  cases said : scale.resolve? 1 with
  | none =>
      rw [headless, said] at opened
      cases opened
  | some n =>
      rw [headless_eq said] at opened
      split at opened
      · cases opened
      · exact ⟨n, (Except.ok.inj opened).symm⟩

/-- The picture of a window that opens is still empty. -/
theorem window_display {scale : Choice Int} {d : Display}
    (opened : (window scale).display = .ok d) :
    ∃ scale : Int, d = { scale, surface := .window (Window.create scale) } := by
  cases said : scale.resolve? Window.defaultScale with
  | none =>
      rw [window, said] at opened
      cases opened
  | some n =>
      rw [window_eq said] at opened
      split at opened
      · cases opened
      · exact ⟨n, (Except.ok.inj opened).symm⟩

/-- The pad of a terminal that opens is as large as the title line of an empty picture. -/
theorem terminal_display {scale : Choice Int} {sizes : Nat → Int × Int} {resizable : Bool}
    {d : Display} (opened : (terminal scale sizes resizable).display = .ok d) :
    (∃ scale : Int, 1 ≤ scale ∧
      d = { scale, surface := .terminal { pad := some (1, 1), sizes, resizable } }) ∧
    (terminal scale sizes resizable).calls = Terminal.openingCalls ++ [.newPad 1 1] := by
  cases said : scale.resolve? Terminal.defaultScale with
  | none =>
      rw [terminal, said] at opened
      cases opened
  | some n =>
      rw [terminal_eq sizes resizable said] at opened ⊢
      split at opened
      · cases opened
      · split at opened
        · cases opened
        · split at opened
          · cases opened
          case isFalse limited large positive =>
            rw [if_neg limited, if_neg large, if_neg positive]
            exact ⟨⟨n, by omega, (Except.ok.inj opened).symm⟩, rfl⟩

end Display

end Chip8
