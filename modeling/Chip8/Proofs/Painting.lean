import Chip8.Proofs.Picture

/-!
Painting: what a display shows, and that a picture that is drawn is shown.

A display is known by the calls it has made, newest first. A headless display shows in each place
the colour that it gave to that place last (`lastColour?`). A window shows the picture that it
handed over last (`lastPicture?`), three bytes for each pixel. `Display.draw_shows` says that a
display that is ready shows every pixel of a framebuffer that has changed when it has drawn it.
-/

namespace Chip8

/-! ### What calls show -/

namespace DeviceCall

/-- The colour that a call gives to a place. -/
def colourAt? (x y : Nat) : DeviceCall → Option Int
  | .pixel column row colour => if column = x ∧ row = y then some colour else none
  | _ => none

/-- The picture that a call hands over, with its width and height. -/
def picture? : DeviceCall → Option (List UInt8 × Int × Int)
  | .picture rgb width height => some (rgb, width, height)
  | _ => none

/-- The text of a caption. -/
def caption? : DeviceCall → Option String
  | .caption text => some text
  | _ => none

/-- A call that paints no pixel and hands over no picture. -/
def Unseen (call : DeviceCall) : Prop :=
  (∀ x y, call.colourAt? x y = none) ∧ call.picture? = none

end DeviceCall

/-- The colour that a place was given last. -/
def lastColour? (calls : List DeviceCall) (x y : Nat) : Option Int :=
  calls.findSome? (·.colourAt? x y)

/-- The picture that was handed over last, with its width and height. -/
def lastPicture? (calls : List DeviceCall) : Option (List UInt8 × Int × Int) :=
  calls.findSome? (·.picture?)

/-- If something in a list is mapped to a value, and nothing to another one, that value is found. -/
theorem findSome?_eq_some_of_agree {α β : Type} {f : α → Option β} {list : List α} {a : α} {b : β}
    (member : a ∈ list) (gives : f a = some b)
    (agree : ∀ a' ∈ list, ∀ b', f a' = some b' → b' = b) : list.findSome? f = some b := by
  cases found : list.findSome? f with
  | none =>
      have absent := List.findSome?_eq_none_iff.mp found a member
      rw [gives] at absent
      cases absent
  | some other =>
      obtain ⟨a', member', gives'⟩ := List.exists_of_findSome?_eq_some found
      rw [agree a' member' other gives']

/-- If newer calls give a place a colour, and never another one, that colour is the last. -/
theorem lastColour?_eq_some {newer : List DeviceCall} {x y : Nat} {colour : Int}
    (given : DeviceCall.pixel x y colour ∈ newer)
    (agree : ∀ colour', DeviceCall.pixel x y colour' ∈ newer → colour' = colour)
    (earlier : List DeviceCall) : lastColour? (newer ++ earlier) x y = some colour := by
  have gives : (DeviceCall.pixel x y colour).colourAt? x y = some colour := if_pos ⟨rfl, rfl⟩
  have last : newer.findSome? (·.colourAt? x y) = some colour := by
    refine findSome?_eq_some_of_agree given gives fun call member colour' gives' => ?_
    cases call with
    | pixel column row colour'' =>
        obtain ⟨⟨rfl, rfl⟩, same⟩ := Option.ite_none_right_eq_some.mp gives'
        cases same
        exact agree _ member
    | _ => cases gives'
  rw [lastColour?, List.findSome?_append, last, Option.some_or]

/-- The byte that a window shows a pixel by: black if it is unlit, white if it is lit. -/
def shade (pixel : UInt8) : UInt8 := if pixel = 0 then 0x00 else 0xFF

/-- Whether a picture of the size of the screen has a pixel in its place, three bytes of its
shade. -/
def Painted (rgb : List UInt8) (x y : Nat) (pixel : UInt8) : Prop :=
  ∀ k < 3, rgb[3 * (64 * y + x) + k]? = some (shade pixel)

namespace Display

/-- Whether a display that made these calls shows a pixel. Terminals are left out. -/
def ShowsPixel (d : Display) (calls : List DeviceCall) (x y : Nat) (pixel : UInt8) : Prop :=
  match d.surface with
  | .headless => lastColour? calls x y = some (pixel.toNat : Int)
  | .window _ => ∃ rgb, lastPicture? calls = some (rgb, 64, 32) ∧ Painted rgb x y pixel
  | .terminal _ => False

/-- Whether a display that made these calls shows a picture of the size of the screen. -/
def Shows (d : Display) (calls : List DeviceCall) (rows : List (List UInt8)) : Prop :=
  ∀ x < 64, ∀ y < 32, ∃ pixel, pixelAt? rows x y = some pixel ∧ d.ShowsPixel calls x y pixel

/-- Calls that nobody sees do not change what is shown. -/
theorem Shows.append {d : Display} {calls earlier : List DeviceCall} {rows : List (List UInt8)}
    (shown : d.Shows earlier rows) (unseen : ∀ call ∈ calls, call.Unseen) :
    d.Shows (calls ++ earlier) rows := by
  have colours (x y : Nat) : lastColour? (calls ++ earlier) x y = lastColour? earlier x y := by
    have none := List.findSome?_eq_none_iff.mpr fun call member => (unseen call member).1 x y
    rw [lastColour?, List.findSome?_append, none, Option.none_or, lastColour?]
  have picture : lastPicture? (calls ++ earlier) = lastPicture? earlier := by
    have none := List.findSome?_eq_none_iff.mpr fun call member => (unseen call member).2
    rw [lastPicture?, List.findSome?_append, none, Option.none_or, lastPicture?]
  intro x left y below
  obtain ⟨pixel, held, pixelShown⟩ := shown x left y below
  refine ⟨pixel, held, ?_⟩
  unfold ShowsPixel at pixelShown ⊢
  rwa [colours, picture]

end Display

/-! ### The picture of a window -/

namespace Window

/-- The bytes of a picture of the size of the screen. -/
def screenBytes : Nat := 6144

variable {w : Window} {x y : Nat} {pixel : UInt8}

/-- Inside the screen, a pixel that is 0 or 1 replaces three bytes. -/
theorem setPixel_eq (sized : w.rgb.size = screenBytes) (left : x < 64) (below : y < 32)
    (binary : pixel = 0 ∨ pixel = 1) :
    w.setPixel 64 x y pixel.toNat =
      ({ w with
          rgb := Bytes.splice w.rgb (3 * (64 * y + x)) (List.replicate 3 (shade pixel)) },
        none) := by
  have bytes : colour? pixel.toNat = some (List.replicate 3 (shade pixel)) := by
    rcases binary with rfl | rfl <;> decide
  have place : location 64 x y = ((3 * (64 * y + x) : Nat) : Int) := by
    unfold location
    omega
  have room : 3 * (64 * y + x) + 3 ≤ screenBytes := by
    unfold screenBytes
    omega
  have start : Bytes.cut screenBytes (location 64 x y) = 3 * (64 * y + x) := by
    rw [place]
    exact Ram.cut_inside (by omega) (by omega)
  have stop : Bytes.cut screenBytes (location 64 x y + 3) = 3 * (64 * y + x) + 3 := by
    rw [place]
    exact Ram.cut_inside (by omega) (by omega)
  have fits : Bytes.fits w.rgb (location 64 x y) (location 64 x y + 3) 3 = true := by
    rw [Bytes.fits, sized, start, stop, Nat.add_sub_cancel_left, beq_self_eq_true]
  simp only [setPixel, bytes, List.length_replicate, fits, if_true, sized, start]

/-- A pixel that is set has its colour, and the others have theirs as before. -/
theorem setPixel_paints (sized : w.rgb.size = screenBytes) (left : x < 64) (below : y < 32)
    (binary : pixel = 0 ∨ pixel = 1) :
    ∃ rgb, w.setPixel 64 x y pixel.toNat = ({ w with rgb }, none) ∧ rgb.size = screenBytes ∧
      Painted rgb.toList x y pixel ∧
      ∀ x' < 64, ∀ y' < 32, ∀ pixel', ¬ (x' = x ∧ y' = y) →
        Painted w.rgb.toList x' y' pixel' → Painted rgb.toList x' y' pixel' := by
  have byte {x' y' k : Nat} (left' : x' < 64) (below' : y' < 32) (small : k < 3) :=
    Bytes.getElem?_splice w.rgb (3 * (64 * y + x)) (List.replicate 3 (shade pixel))
      (3 * (64 * y' + x') + k) (by rw [sized, screenBytes]; omega)
  refine ⟨_, setPixel_eq sized left below binary, by rw [Bytes.size_splice, sized], ?_, ?_⟩
  · intro k small
    rw [Array.getElem?_toList, byte left below small, List.length_replicate, if_pos (by omega),
      Nat.add_sub_cancel_left, List.getElem?_replicate_of_lt small]
  · intro x' left' y' below' pixel' elsewhere painted k small
    rw [Array.getElem?_toList, byte left' below' small, List.length_replicate, if_neg (by omega),
      ← Array.getElem?_toList]
    exact painted k small

end Window

namespace Display

variable {d : Display} {w : Window} {fb : Framebuffer} {rows : List (List UInt8)}

/-! ### Painting -/

/-- What a headless display is told about a pixel. -/
def pixelCall : Int × Int × Int → DeviceCall
  | (x, y, colour) => .pixel x y colour

theorem pixel_mem_map_pixelCall {places : List (Int × Int × Int)} {x y colour : Int} :
    DeviceCall.pixel x y colour ∈ places.map pixelCall ↔ (x, y, colour) ∈ places := by
  constructor
  · intro member
    obtain ⟨⟨x', y', colour'⟩, inPlaces, same⟩ := List.mem_map.mp member
    cases same
    exact inPlaces
  · exact fun inPlaces => List.mem_map.mpr ⟨_, inPlaces, rfl⟩

theorem paint_headless (d : Display) (places : List (Int × Int × Int)) :
    paint { d with surface := .headless } places =
      ⟨{ d with surface := .headless },
        places.map pixelCall, none⟩ := by
  induction places with
  | nil => rfl
  | cons place rest ih =>
      rw [paint]
      simp only [setPixel, ih]
      rfl

/-- A picture of the size of the screen: 32 rows of 64 pixels, each 0 or 1. -/
structure IsScreen (rows : List (List UInt8)) : Prop where
  total : ∀ x < 64, ∀ y < 32, ∃ pixel, pixelAt? rows x y = some pixel
  inside : ∀ {x y pixel}, pixelAt? rows x y = some pixel → x < 64 ∧ y < 32
  binary : ∀ {x y pixel}, pixelAt? rows x y = some pixel → pixel = 0 ∨ pixel = 1

theorem isScreen_rows (formed : fb.WellFormed) (wide : fb.width = 64) (high : fb.height = 32) :
    IsScreen fb.rows := by
  have held {x y : Nat} {pixel : UInt8} : pixelAt? fb.rows x y = some pixel ↔
      x < 64 ∧ y < 32 ∧ pixel = fb.vram.byte (y * 64 + x) := by
    rw [Framebuffer.pixelAt?_rows_eq_some_iff formed.shaped, wide, high]
    exact Iff.rfl
  exact
    { total := fun x left y below => ⟨_, held.mpr ⟨left, below, rfl⟩⟩
      inside := fun at_ => ⟨(held.mp at_).1, (held.mp at_).2.1⟩
      binary := fun at_ => (held.mp at_).2.2 ▸ formed.binary _ }

/-- Painting some pixels of a screen in a window: none fails, those painted have their colours
afterwards, and those that had them before keep them. -/
theorem paint_window (screen : IsScreen rows) (wide : d.width = 64)
    (sized : w.rgb.size = Window.screenBytes) (places : List (Int × Int × Int))
    (held : ∀ place ∈ places, ∃ (x y : Nat) (pixel : UInt8),
      pixelAt? rows x y = some pixel ∧ place = ((x : Int), (y : Int), (pixel.toNat : Int))) :
    ∃ rgb, paint { d with surface := .window w } places =
        ⟨{ d with surface := .window { w with rgb } }, [], none⟩ ∧
      rgb.size = Window.screenBytes ∧
      ∀ x y pixel, pixelAt? rows x y = some pixel →
        ((x : Int), (y : Int), (pixel.toNat : Int)) ∈ places ∨ Painted w.rgb.toList x y pixel →
        Painted rgb.toList x y pixel := by
  induction places generalizing w with
  | nil =>
      refine ⟨w.rgb, rfl, sized, fun x y pixel _ painted => ?_⟩
      exact painted.resolve_left List.not_mem_nil
  | cons place rest ih =>
      obtain ⟨x₀, y₀, pixel₀, held₀, rfl⟩ := held place List.mem_cons_self
      obtain ⟨left₀, below₀⟩ := screen.inside held₀
      obtain ⟨rgb₀, set, sized₀, here, elsewhere⟩ :=
        Window.setPixel_paints sized left₀ below₀ (screen.binary held₀)
      obtain ⟨rgb, paints, sized', later⟩ := ih (w := { w with rgb := rgb₀ }) sized₀
        fun place member => held place (List.mem_cons_of_mem _ member)
      refine ⟨rgb, ?_, sized', fun x y pixel heldAt painted => later x y pixel heldAt ?_⟩
      · rw [← wide] at set
        rw [paint]
        simp only [setPixel, set]
        rw [paints]
        rfl
      · obtain ⟨left, below⟩ := screen.inside heldAt
        by_cases same : x = x₀ ∧ y = y₀
        · obtain ⟨rfl, rfl⟩ := same
          obtain rfl : pixel = pixel₀ := Option.some.inj (heldAt.symm.trans held₀)
          exact .inr here
        · refine painted.imp (fun member => ?_) (elsewhere x left y below pixel same)
          refine (List.mem_cons.mp member).resolve_left fun first => same ?_
          obtain ⟨sameX, sameYAndColour⟩ := Prod.ext_iff.mp first
          exact ⟨Int.natCast_inj.mp sameX, Int.natCast_inj.mp (Prod.ext_iff.mp sameYAndColour).1⟩

/-! ### Drawing -/

/-- No terminal, and the picture of a window has room for the screen it was last fitted to. -/
def Ready (d : Display) : Prop :=
  match d.surface with
  | .headless => True
  | .window w => (w.rgb.size : Int) = d.width * d.height * 3
  | .terminal _ => False

theorem draw_unchanged (unchanged : fb.changed = false) : d.draw fb = (fb, ⟨d, [], none⟩) := by
  cases fb
  cases unchanged
  rfl

/-- A draw takes the mark from the screen and leaves its picture. -/
theorem draw_fst (d : Display) (fb : Framebuffer) : (d.draw fb).1 = { fb with changed := false } := by
  unfold draw Framebuffer.popChanged
  cases fb.changed <;> rfl

/-- Two operations that go well, one after the other. -/
theorem andThen_eq {before : Shown} (next : Display → Shown) {d d' : Display}
    {calls calls' : List DeviceCall} (first : before = ⟨d, calls, none⟩)
    (second : next d = ⟨d', calls', none⟩) :
    Shown.andThen before next = ⟨d', calls ++ calls', none⟩ := by
  subst first
  simp only [Shown.andThen, second]

/-- A display that can be fitted to a changed screen, can paint it and can be refreshed, draws it. -/
theorem draw_eq {fitted painted refreshed : Display} {calls calls' calls'' : List DeviceCall}
    (changed : fb.changed = true) (fits : d.fit fb.width fb.height = ⟨fitted, calls, none⟩)
    (paints : fitted.paint (pixels fb.rows) = ⟨painted, calls', none⟩)
    (refreshes : painted.refresh true = ⟨refreshed, calls'', none⟩) :
    d.draw fb =
      ({ fb with changed := false },
        ⟨{ refreshed with frames := refreshed.frames + 1 }, calls ++ calls' ++ calls'', none⟩) := by
  have paints' := andThen_eq (fun d => d.paint (pixels fb.rows)) fits paints
  have refreshes' := andThen_eq (fun d => d.refresh true) paints' refreshes
  have counts := andThen_eq (fun d => ⟨{ d with frames := d.frames + 1 }, [], none⟩) refreshes' rfl
  rw [List.append_nil] at counts
  rw [draw, Framebuffer.popChanged, changed]
  exact congrArg _ counts

/-- A headless display paints every pixel and is refreshed once. -/
theorem draw_headless (headless : d.surface = .headless) (changed : fb.changed = true) :
    d.draw fb =
      ({ fb with changed := false },
        ⟨{ d with width := fb.width, height := fb.height, frames := d.frames + 1 },
          (pixels fb.rows).map pixelCall ++ [.refreshed true], none⟩) := by
  have fits : d.fit fb.width fb.height =
      ⟨{ d with width := fb.width, height := fb.height, surface := .headless }, [], none⟩ := by
    unfold fit
    split
    case isTrue same => simp only [same, ← headless]
    case isFalse => rw [setResolution, headless]
  rw [draw_eq changed fits (paint_headless { d with width := fb.width, height := fb.height } _) rfl,
    headless, List.nil_append]

/-- A window that is ready hands over a picture that has every pixel of the screen. -/
theorem draw_window (formed : fb.WellFormed) (wide : fb.width = 64) (high : fb.height = 32)
    (changed : fb.changed = true) (window : d.surface = .window w) (ready : d.Ready) :
    ∃ rgb, d.draw fb =
        ({ fb with changed := false },
          ⟨{ d with
              width := 64
              height := 32
              frames := d.frames + 1
              surface := .window { w with rgb } },
            [.picture rgb.toList 64 32, .stretch w.outputWidth w.outputHeight, .paste 0 0, .flip],
            none⟩) ∧
      rgb.size = Window.screenBytes ∧
      ∀ x y pixel, pixelAt? fb.rows x y = some pixel → Painted rgb.toList x y pixel := by
  have fits : ∃ rgb, rgb.size = Window.screenBytes ∧ d.fit 64 32 =
      ⟨{ d with width := 64, height := 32, surface := .window { w with rgb } }, [], none⟩ := by
    unfold fit
    split
    case isTrue same =>
      refine ⟨w.rgb, ?_, by simp only [same, ← window]⟩
      simp only [Ready, window, ← same] at ready
      exact Int.natCast_inj.mp ready
    case isFalse =>
      refine ⟨Array.replicate Window.screenBytes 0, Array.size_replicate, ?_⟩
      have zeros : Bytes.zeros (64 * 32 * 3) = .ok (Array.replicate Window.screenBytes 0) := rfl
      simp only [setResolution, window, zeros]
  obtain ⟨blank, sized, fits⟩ := fits
  obtain ⟨rgb, paints, sized', painted⟩ := paint_window
    (d := { d with width := 64, height := 32, surface := .window { w with rgb := blank } })
    (w := { w with rgb := blank }) (isScreen_rows formed wide high) rfl sized (pixels fb.rows)
    fun place member => mem_pixels_iff.mp member
  refine ⟨rgb, ?_, sized', fun x y pixel held => painted x y pixel held (.inl ?_)⟩
  · have size : d.fit fb.width fb.height = d.fit 64 32 := by rw [wide, high]
    rw [draw_eq changed (size.trans fits) paints rfl]
    rfl
  · exact mem_pixels_at_iff.mpr ⟨pixel, held, rfl⟩

/-- A display that is ready shows a changed screen once it has drawn it, without a fault, and is
ready again. -/
theorem draw_shows (formed : fb.WellFormed) (wide : fb.width = 64) (high : fb.height = 32)
    (changed : fb.changed = true) (ready : d.Ready) :
    ∃ shown, d.draw fb = ({ fb with changed := false }, shown) ∧ shown.fault = none ∧
      shown.display.Ready ∧
      ∀ earlier, shown.display.Shows (shown.calls.reverse ++ earlier) fb.rows := by
  have screen := isScreen_rows formed wide high
  cases surface : d.surface with
  | headless =>
      refine ⟨_, draw_headless surface changed, rfl, by simp only [Ready, surface],
        fun earlier x left y below => ?_⟩
      obtain ⟨pixel, held⟩ := screen.total x left y below
      refine ⟨pixel, held, ?_⟩
      simp only [ShowsPixel, surface]
      have painted {colour : Int} : DeviceCall.pixel x y colour ∈
          ((pixels fb.rows).map pixelCall ++ [DeviceCall.refreshed true]).reverse ↔
          ∃ pixel, pixelAt? fb.rows x y = some pixel ∧ colour = pixel.toNat := by
        rw [List.mem_reverse, List.mem_append, pixel_mem_map_pixelCall, mem_pixels_at_iff]
        exact or_iff_left fun member => by cases List.mem_singleton.mp member
      refine lastColour?_eq_some (painted.mpr ⟨pixel, held, rfl⟩)
        (fun colour member => ?_) earlier
      obtain ⟨pixel', held', rfl⟩ := painted.mp member
      rw [Option.some.inj (held'.symm.trans held)]
  | window w =>
      obtain ⟨rgb, drawn, sized, painted⟩ := draw_window formed wide high changed surface ready
      refine ⟨_, drawn, rfl, by rw [Ready]; exact congrArg Nat.cast sized,
        fun earlier x left y below => ?_⟩
      obtain ⟨pixel, held⟩ := screen.total x left y below
      exact ⟨pixel, held, _, rfl, painted x y pixel held⟩
  | terminal t => simp only [Ready, surface] at ready

/-- On such a display no draw fails. -/
theorem draw_fault (formed : fb.WellFormed) (wide : fb.width = 64) (high : fb.height = 32)
    (ready : d.Ready) : (d.draw fb).2.fault = none := by
  cases changed : fb.changed with
  | false => rw [draw_unchanged changed]
  | true =>
      obtain ⟨shown, drawn, faultless, _⟩ := draw_shows formed wide high changed ready
      rw [drawn, faultless]

theorem ready_draw (formed : fb.WellFormed) (wide : fb.width = 64) (high : fb.height = 32)
    (ready : d.Ready) : (d.draw fb).2.display.Ready := by
  cases changed : fb.changed with
  | false => rwa [draw_unchanged changed]
  | true =>
      obtain ⟨shown, drawn, _, ready', _⟩ := draw_shows formed wide high changed ready
      rwa [drawn]

/-- Such a display takes any title. -/
theorem ready_setTitle (ready : d.Ready) (text : String) :
    (d.setTitle text).fault = none ∧ (d.setTitle text).display.Ready := by
  have surfaceReady := ready
  unfold Ready at surfaceReady
  rw [setTitle]
  cases surface : d.surface with
  | headless => exact ⟨rfl, ready⟩
  | window w => exact ⟨rfl, ready⟩
  | terminal t =>
      rw [surface] at surfaceReady
      exact surfaceReady.elim

/-- A title that cannot be shown has changed nothing. -/
theorem setTitle_of_fault {text : String} {fault : Fault}
    (failed : (d.setTitle text).fault = some fault) :
    (d.setTitle text).display = d ∧ (d.setTitle text).calls = [] := by
  rw [setTitle] at failed ⊢
  cases surface : d.surface with
  | headless =>
      rw [surface] at failed
      cases failed
  | window w =>
      rw [surface] at failed
      cases failed
  | terminal t =>
      rw [surface] at failed
      dsimp only at failed ⊢
      cases set : t.setTitle d.scale d.width text with
      | ok result =>
          rw [set] at failed
          cases failed
      | error fault => exact ⟨rfl, rfl⟩

/-! ### Windows stay windows -/

def IsWindow (d : Display) : Prop := ∃ w, d.surface = .window w

/-- What an operation of a window leaves behind: a window, and calls that reached it. The captions among
them are `titles`. -/
structure OnWindow (titles : List String) (shown : Shown) : Prop where
  window : shown.display.IsWindow
  reached : ∀ call ∈ shown.calls, call.reachesDevice = true
  captions : shown.calls.filterMap DeviceCall.caption? = titles

/-- Nothing was said to the window. -/
theorem OnWindow.silent (window : d.IsWindow) (fault : Option Fault) : OnWindow [] ⟨d, [], fault⟩ where
  window := window
  reached _ member := by cases member
  captions := rfl

theorem OnWindow.andThen {before : Shown} {next : Display → Shown} (first : OnWindow [] before)
    (second : ∀ d, d.IsWindow → OnWindow [] (next d)) :
    OnWindow [] (Shown.andThen before next) := by
  unfold Shown.andThen
  split
  · exact first
  · have after := second _ first.window
    refine ⟨after.window, fun call member => ?_, ?_⟩
    · rcases List.mem_append.mp member with early | late
      · exact first.reached call early
      · exact after.reached call late
    · rw [List.filterMap_append, first.captions, after.captions, List.append_nil]

theorem onWindow_fit (window : d.IsWindow) (width height : Int) :
    OnWindow [] (d.fit width height) := by
  unfold fit
  split
  · exact .silent window none
  · obtain ⟨w, surface⟩ := window
    simp only [setResolution, surface]
    split
    · exact .silent ⟨_, rfl⟩ none
    · exact .silent ⟨w, surface⟩ _

theorem onWindow_paint (window : d.IsWindow) (places : List (Int × Int × Int)) :
    OnWindow [] (d.paint places) := by
  induction places generalizing d with
  | nil => exact .silent window none
  | cons place rest ih =>
      obtain ⟨x, y, colour⟩ := place
      obtain ⟨w, surface⟩ := window
      obtain ⟨scale, width, height, frames, _⟩ := d
      cases surface
      cases set : w.setPixel width x y colour with
      | mk w' fault =>
          simp only [paint, setPixel, set]
          cases fault with
          | some fault => exact .silent ⟨w', rfl⟩ _
          | none => exact ih ⟨w', rfl⟩

theorem onWindow_refresh (window : d.IsWindow) (changed : Bool) :
    OnWindow [] (d.refresh changed) := by
  obtain ⟨w, surface⟩ := window
  simp only [refresh, surface, Window.refreshCalls]
  refine ⟨⟨w, surface⟩, fun call member => ?_, ?_⟩
  · split at member
    · simp only [List.mem_cons, List.not_mem_nil, or_false] at member
      rcases member with rfl | rfl | rfl | rfl <;> rfl
    · cases member
  · dsimp only
    split <;> rfl

theorem onWindow_draw (window : d.IsWindow) (fb : Framebuffer) : OnWindow [] (d.draw fb).2 := by
  unfold draw Framebuffer.popChanged
  cases fb.changed with
  | false => exact .silent window none
  | true =>
      have painted := (onWindow_fit window fb.width fb.height).andThen
        fun d window => onWindow_paint window (pixels { fb with changed := false }.rows)
      have refreshed := painted.andThen fun d window => onWindow_refresh window true
      exact refreshed.andThen fun d window =>
        .silent (d := { d with frames := d.frames + 1 }) window none

theorem onWindow_setTitle (window : d.IsWindow) (text : String) :
    OnWindow [text] (d.setTitle text) := by
  obtain ⟨w, surface⟩ := window
  simp only [setTitle, surface]
  refine ⟨⟨w, surface⟩, fun call member => ?_, rfl⟩
  obtain rfl := List.mem_singleton.mp member
  rfl

end Display

end Chip8
