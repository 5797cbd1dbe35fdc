import Chip8.Proofs.Refresh

/-!
Where things stand on the pad of a terminal.

A pad is known by the calls it has got (`Pad.after`): a new pad is empty, and a text goes to
consecutive cells of its row. Whatever a terminal is told, each of its writes goes to the pad that is
there, inside it and left of its last column. A picture covers the cells below the first row, each pixel
as many of them as the scale says, and the first row belongs to the title (`Terminal.pad_layout`).
-/

namespace Chip8

/-! ### Pads -/

/-- What a cell of a pad holds: a character, and whether it is in reverse video. -/
abbrev Cell := Char × Bool

namespace DeviceCall

/-- What a call writes to a cell. -/
def cellAt? (row column : Int) : DeviceCall → Option Cell
  | .write row' start text reverse =>
      if row' = row ∧ start ≤ column then
        text.toList[(column - start).toNat]?.map fun character => (character, reverse)
      else none
  | _ => none

/-- Writes to a pad, or makes a new one. -/
def touchesPad : DeviceCall → Bool
  | .newPad .. => true
  | .write .. => true
  | _ => false

end DeviceCall

structure Pad where
  height : Int
  width : Int
  /-- What was last written to each cell, if anything was. -/
  cells : Int → Int → Option Cell

namespace Pad

def blank (height width : Int) : Pad where
  height
  width
  cells _ _ := none

/-- The same pad after something was written to some of its cells. -/
def overwritten (pad : Pad) (written : Int → Int → Option Cell) : Pad :=
  { pad with cells := fun row column => (written row column).or (pad.cells row column) }

theorem cells_overwritten (pad : Pad) (written : Int → Int → Option Cell) (row column : Int) :
    (pad.overwritten written).cells row column =
      (written row column).or (pad.cells row column) := rfl

/-- The pad that is there after a call, if there is one. A new pad takes the place of the old one. -/
def after (pad : Option Pad) : DeviceCall → Option Pad
  | .newPad height width => some (blank height width)
  | .write row column text reverse =>
      pad.map (·.overwritten fun row' column' =>
        (DeviceCall.write row column text reverse).cellAt? row' column')
  | _ => pad

/-- The place of a text inside a pad, left of the last column. -/
structure Holds (pad : Pad) (row column : Int) (text : String) : Prop where
  top : 0 ≤ row
  bottom : row < pad.height
  left : 0 ≤ column
  right : column + text.length < pad.width

/-- Whenever something is written, there is a pad that holds it. -/
def Fits : Option Pad → List DeviceCall → Prop
  | _, [] => True
  | pad, call :: rest =>
      (∀ row column text reverse, call = .write row column text reverse →
        ∃ there, pad = some there ∧ there.Holds row column text) ∧
      Fits (after pad call) rest

variable {pad : Pad} {calls : List DeviceCall}

theorem after_of_untouched {call : DeviceCall} (untouched : call.touchesPad = false)
    (pad : Option Pad) : after pad call = pad := by
  cases call with
  | newPad => cases untouched
  | write => cases untouched
  | _ => rfl

theorem foldl_after_of_untouched (untouched : ∀ call ∈ calls, call.touchesPad = false)
    (pad : Option Pad) : calls.foldl after pad = pad := by
  induction calls with
  | nil => rfl
  | cons call rest ih =>
      rw [List.foldl_cons, after_of_untouched (untouched call List.mem_cons_self)]
      exact ih fun call member => untouched call (List.mem_cons_of_mem _ member)

/-- As long as there is no new pad, a cell holds what was last written to it. -/
theorem foldl_after (kept : ∀ height width, .newPad height width ∉ calls) (pad : Pad) :
    calls.foldl after (some pad) =
      some (pad.overwritten fun row column => calls.reverse.findSome? (·.cellAt? row column)) := by
  induction calls generalizing pad with
  | nil => rfl
  | cons call rest ih =>
      have first : after (some pad) call =
          some (pad.overwritten fun row column => call.cellAt? row column) := by
        cases call with
        | newPad height width => exact absurd List.mem_cons_self (kept height width)
        | _ => rfl
      rw [List.foldl_cons, first, ih fun height width member =>
        kept height width (List.mem_cons_of_mem _ member)]
      simp only [overwritten, List.reverse_cons, List.findSome?_append, List.findSome?_singleton,
        Option.or_assoc]

theorem fits_append (pad : Option Pad) (calls calls' : List DeviceCall) :
    Fits pad (calls ++ calls') ↔ Fits pad calls ∧ Fits (calls.foldl after pad) calls' := by
  induction calls generalizing pad with
  | nil => exact iff_of_eq (true_and _).symm
  | cons call rest ih =>
      rw [List.cons_append, Fits, Fits, ih, List.foldl_cons, and_assoc]

theorem fits_of_untouched (untouched : ∀ call ∈ calls, call.touchesPad = false)
    (pad : Option Pad) : Fits pad calls := by
  induction calls generalizing pad with
  | nil => trivial
  | cons call rest ih =>
      refine ⟨fun row column text reverse same => ?_, ih (fun call member =>
        untouched call (List.mem_cons_of_mem _ member)) _⟩
      have touched := untouched call List.mem_cons_self
      rw [same] at touched
      cases touched

/-- Without a new pad, it is enough that the pad holds every text. -/
theorem fits_of_holds (kept : ∀ height width, .newPad height width ∉ calls)
    (holds : ∀ row column text reverse, .write row column text reverse ∈ calls →
      pad.Holds row column text) : Fits (some pad) calls := by
  induction calls generalizing pad with
  | nil => trivial
  | cons call rest ih =>
      refine ⟨fun row column text reverse same => ⟨pad, rfl, ?_⟩, ?_⟩
      · exact holds row column text reverse (same ▸ List.mem_cons_self)
      · have later := fun row column text reverse member =>
          holds row column text reverse (List.mem_cons_of_mem call member)
        have kept' := fun height width member =>
          kept height width (List.mem_cons_of_mem call member)
        cases call with
        | newPad height width => exact absurd List.mem_cons_self (kept height width)
        | _ => exact ih kept' fun row column text reverse member =>
            { later row column text reverse member with }

end Pad

namespace Terminal

variable {scale : Int} {fb : Framebuffer} {d : Display} {t : Terminal} {pad : Pad}

/-! ### Pixels -/

/-- A pixel covers as many cells of its row as the scale says. -/
theorem cellAt?_pixelCall (positive : 0 < scale) (x y colour row column : Int) :
    (pixelCall scale x y colour).cellAt? row column =
      if column / scale = x ∧ row - 1 = y then some (' ', colour != 0) else none := by
  have covers : column / scale = x ↔
      x * scale ≤ column ∧ (column - x * scale).toNat < scale.toNat := by
    rw [Int.ediv_eq_iff_of_pos positive]
    omega
  have character : (blanks scale).toList[(column - x * scale).toNat]? =
      if (column - x * scale).toNat < scale.toNat then some ' ' else none := by
    rw [blanks, String.toList_ofList, List.getElem?_replicate]
  rw [pixelCall, DeviceCall.cellAt?, character]
  by_cases here : column / scale = x ∧ row - 1 = y
  · obtain ⟨start, below⟩ := covers.mp here.1
    rw [if_pos here, if_pos ⟨by omega, start⟩, if_pos below]
    rfl
  · rw [if_neg here]
    split
    case isTrue starts =>
      rw [if_neg fun below => here ⟨covers.mpr ⟨starts.2, below⟩, by omega⟩]
      rfl
    case isFalse => rfl

theorem length_blanks (nonneg : 0 ≤ scale) : ((blanks scale).length : Int) = scale := by
  rw [blanks, String.length_ofList, List.length_replicate]
  omega

theorem mem_pixelCalls_iff (shaped : fb.Shaped) {call : DeviceCall} :
    call ∈ pixelCalls scale fb ↔ ∃ (x y : Nat) (pixel : UInt8), x < fb.width ∧ y < fb.height ∧
      fb.pixel x y = .ok pixel ∧ call = pixelCall scale x y pixel.toNat := by
  constructor
  · intro member
    obtain ⟨place, inPixels, rfl⟩ := List.mem_map.mp member
    obtain ⟨x, y, pixel, held, rfl⟩ := Display.mem_pixels_iff.mp inPixels
    obtain ⟨left, above, _⟩ := (Framebuffer.pixelAt?_rows_eq_some_iff shaped).mp held
    have left' : (x : Int) < fb.width := by omega
    have above' : (y : Int) < fb.height := by omega
    exact ⟨x, y, pixel, left', above',
      (Framebuffer.pixelAt?_rows_iff_pixel shaped left' above').mp held, rfl⟩
  · rintro ⟨x, y, pixel, left, above, held, rfl⟩
    have inRows := (Framebuffer.pixelAt?_rows_iff_pixel shaped left above).mpr held
    exact List.mem_map.mpr ⟨_, Display.mem_pixels_at_iff.mpr ⟨pixel, inRows, rfl⟩, rfl⟩

/-- The cells of a picture: below the first row, and left of the last column. -/
structure InPicture (scale : Int) (fb : Framebuffer) (row column : Int) : Prop where
  top : 1 ≤ row
  bottom : row ≤ fb.height
  left : 0 ≤ column
  right : column < fb.width * scale

variable {row column : Int}

/-- Each cell of a picture is written, -/
theorem exists_mem_pixelCalls (positive : 0 < scale) (shaped : fb.Shaped)
    (inside : InPicture scale fb row column) :
    ∃ pixel, fb.pixel (column / scale) (row - 1) = .ok pixel ∧
      pixelCall scale (column / scale) (row - 1) pixel.toNat ∈ pixelCalls scale fb := by
  have right : column / scale < fb.width := Int.ediv_lt_of_lt_mul positive inside.right
  have above := inside.bottom
  obtain ⟨x, across⟩ := Int.eq_ofNat_of_zero_le (Int.ediv_nonneg inside.left (Int.le_of_lt positive))
  obtain ⟨y, down⟩ := Int.eq_ofNat_of_zero_le (Int.sub_nonneg_of_le inside.top)
  rw [across] at right ⊢
  rw [down]
  have above' : (y : Int) < fb.height := by omega
  have held : pixelAt? fb.rows x y = some (fb.vram.byte (y * fb.width.toNat + x)) :=
    (Framebuffer.pixelAt?_rows_eq_some_iff shaped).mpr ⟨by omega, by omega, rfl⟩
  have pixel := (Framebuffer.pixelAt?_rows_iff_pixel shaped right above').mp held
  exact ⟨_, pixel, (mem_pixelCalls_iff shaped).mpr ⟨x, y, _, right, above', pixel, rfl⟩⟩

/-- and by the call for the pixel over it only. -/
theorem eq_of_mem_pixelCalls (positive : 0 < scale) (shaped : fb.Shaped) {call : DeviceCall}
    (member : call ∈ pixelCalls scale fb) {cell : Cell}
    (writes : call.cellAt? row column = some cell) :
    InPicture scale fb row column ∧ ∃ pixel, fb.pixel (column / scale) (row - 1) = .ok pixel ∧
      cell = (' ', pixel != 0) ∧ call = pixelCall scale (column / scale) (row - 1) pixel.toNat := by
  obtain ⟨x, y, pixel, left, above, held, rfl⟩ := (mem_pixelCalls_iff shaped).mp member
  rw [cellAt?_pixelCall positive] at writes
  obtain ⟨⟨across, down⟩, same⟩ := Option.ite_none_right_eq_some.mp writes
  have left' : 0 ≤ column := by
    rw [← Int.ediv_nonneg_iff_of_pos positive, across]
    exact Int.natCast_nonneg x
  have right : column < fb.width * scale := by
    rw [← Int.ediv_lt_iff_lt_mul positive, across]
    exact left
  have colour : ((pixel.toNat : Int) != 0) = (pixel != 0) := by
    rw [Bool.eq_iff_iff, bne_iff_ne, bne_iff_ne, ne_eq, ne_eq, Int.natCast_eq_zero,
      ← UInt8.toNat_inj, UInt8.toNat_zero]
  rw [across, down]
  refine ⟨⟨by omega, by omega, left', right⟩, pixel, held, ?_, rfl⟩
  rw [← Option.some.inj same, colour]

/-- Hence that pixel is the last that was painted there. -/
theorem findSome?_pixelCalls (positive : 0 < scale) (shaped : fb.Shaped)
    (inside : InPicture scale fb row column) :
    ∃ pixel, fb.pixel (column / scale) (row - 1) = .ok pixel ∧
      (pixelCalls scale fb).reverse.findSome? (·.cellAt? row column) = some (' ', pixel != 0) := by
  obtain ⟨pixel, held, member⟩ := exists_mem_pixelCalls positive shaped inside
  have colour {cell : Cell} {call : DeviceCall} (member : call ∈ pixelCalls scale fb)
      (written : call.cellAt? row column = some cell) : cell = (' ', pixel != 0) := by
    obtain ⟨_, pixel', held', same, _⟩ := eq_of_mem_pixelCalls positive shaped member written
    rw [held] at held'
    cases held'
    exact same
  have given : (pixelCall scale (column / scale) (row - 1) pixel.toNat).cellAt? row column =
      some (' ', (pixel.toNat : Int) != 0) := by
    rw [cellAt?_pixelCall positive, if_pos ⟨rfl, rfl⟩]
  rw [colour member given] at given
  exact ⟨pixel, held, findSome?_eq_some_of_agree (List.mem_reverse.mpr member) given
    fun call member' cell gives => colour (List.mem_reverse.mp member') gives⟩

theorem newPad_not_mem_pixelCalls (shaped : fb.Shaped) (height width : Int) :
    .newPad height width ∉ pixelCalls scale fb := by
  intro member
  obtain ⟨x, y, pixel, _, _, _, same⟩ := (mem_pixelCalls_iff shaped).mp member
  cases same

/-- Painting a picture on a pad that is large enough. -/
theorem fits_pixelCalls (positive : 0 < scale) (shaped : fb.Shaped)
    (high : pad.height = fb.height + 1) (wide : pad.width = fb.width * scale + 1) :
    Pad.Fits (some pad) (pixelCalls scale fb) := by
  refine Pad.fits_of_holds (newPad_not_mem_pixelCalls shaped) fun row column text reverse member => ?_
  obtain ⟨x, y, pixel, left, above, _, same⟩ := (mem_pixelCalls_iff shaped).mp member
  cases same
  have length := length_blanks (Int.le_of_lt positive)
  have start : 0 ≤ x * scale := Int.mul_nonneg (Int.natCast_nonneg x) (Int.le_of_lt positive)
  have stop : (x + 1) * scale ≤ fb.width * scale :=
    Int.mul_le_mul_of_nonneg_right left (Int.le_of_lt positive)
  rw [Int.add_mul, Int.one_mul] at stop
  exact ⟨by omega, by omega, start, by omega⟩

/-! ### Requests -/

/-- A terminal whose pad is as large as the picture and the title need. -/
structure Laid (scale : Int) (d : Display) (pad : Pad) : Prop where
  terminal : ∃ t, d.surface = .terminal t ∧ t.pad.isSome = true
  scaled : d.scale = scale
  wide : 0 ≤ d.width ∧ pad.width = d.width * scale + 1
  high : 0 ≤ d.height ∧ pad.height = d.height + 1

/-- What drawing a picture makes of a pad. -/
structure Drawn (scale : Int) (fb : Framebuffer) (calls : List DeviceCall) (pad : Pad) : Prop where
  high : pad.height = fb.height + 1
  wide : pad.width = fb.width * scale + 1
  /-- Each cell of the picture is in reverse video if the pixel over it is lit. -/
  shows : ∀ row column, InPicture scale fb row column →
    ∃ pixel, fb.pixel (column / scale) (row - 1) = .ok pixel ∧
      pad.cells row column = some (' ', pixel != 0)
  /-- Pixels neither overlap nor leave gaps. -/
  once : ∀ row column, InPicture scale fb row column →
    ∃ call ∈ calls, (call.cellAt? row column).isSome = true ∧
      ∀ call' ∈ calls, (call'.cellAt? row column).isSome = true → call' = call
  /-- Nothing else is written, the title line in particular. -/
  inside : ∀ call ∈ calls, ∀ row column, (call.cellAt? row column).isSome = true →
    InPicture scale fb row column

/-- A refresh writes nothing to the pad. -/
theorem refresh_pad (t : Terminal) (changed : Bool) :
    (t.refresh changed).1.pad = t.pad ∧
      ∀ call ∈ (t.refresh changed).2, call.touchesPad = false := by
  unfold refresh
  dsimp only
  split
  · split
    · exact ⟨rfl, fun call member => by rw [List.mem_singleton.mp member]; rfl⟩
    · exact ⟨rfl, fun call member => by cases member⟩
  · refine ⟨rfl, fun call member => ?_⟩
    rcases List.mem_append.mp member with early | late
    · rcases List.mem_append.mp early with clear | resize
      · rw [List.mem_singleton.mp clear]
        rfl
      · split at resize
        · rw [List.mem_singleton.mp resize]
          rfl
        · cases resize
    · rw [List.mem_singleton.mp late]
      rfl

/-- A pad is fitted to a picture before the pixels are painted. -/
theorem fitCalls_pad (laid : Laid scale d pad) (fb : Framebuffer) :
    Pad.Fits (some pad) (fitCalls d fb) ∧
      (∀ call ∈ fitCalls d fb, ∀ row column, call.cellAt? row column = none) ∧
      ∃ fitted, (fitCalls d fb).foldl Pad.after (some pad) = some fitted ∧
        fitted.height = fb.height + 1 ∧ fitted.width = fb.width * scale + 1 := by
  unfold fitCalls
  split
  case isTrue same =>
    -- The pad is kept from the last picture, which had the size of this one.
    obtain ⟨wide, high⟩ := same
    refine ⟨trivial, nofun, pad, rfl, ?_, ?_⟩
    · rw [laid.high.2, high]
    · rw [laid.wide.2, wide]
  case isFalse =>
    refine ⟨⟨nofun, trivial⟩, fun call member row column => ?_, _, rfl, rfl, ?_⟩
    · rw [List.mem_singleton.mp member]
      rfl
    · rw [Pad.blank, laid.scaled]

theorem cellAt?_of_untouched {call : DeviceCall} (untouched : call.touchesPad = false)
    (row column : Int) : call.cellAt? row column = none := by
  cases call with
  | write => cases untouched
  | _ => rfl

/-- A pad that is large enough, once the pixels are painted on it and nothing else is. -/
theorem drawn_overwritten (positive : 0 < scale) (shaped : fb.Shaped)
    (high : pad.height = fb.height + 1) (wide : pad.width = fb.width * scale + 1)
    {calls : List DeviceCall} (paints : ∀ call ∈ pixelCalls scale fb, call ∈ calls)
    (only : ∀ call ∈ calls, call ∉ pixelCalls scale fb →
      ∀ row column, call.cellAt? row column = none) :
    Drawn scale fb calls (pad.overwritten fun row column =>
      (pixelCalls scale fb).reverse.findSome? (·.cellAt? row column)) := by
  have writes {call : DeviceCall} {row column : Int} (member : call ∈ calls)
      (written : (call.cellAt? row column).isSome = true) : call ∈ pixelCalls scale fb := by
    refine Decidable.byContradiction fun other => ?_
    rw [only call member other] at written
    cases written
  refine ⟨high, wide, fun row column inside => ?_, fun row column inside => ?_,
    fun call member row column written => ?_⟩
  · obtain ⟨pixel, held, painted⟩ := findSome?_pixelCalls positive shaped inside
    exact ⟨pixel, held, congrArg (Option.or · (pad.cells row column)) painted⟩
  · obtain ⟨pixel, held, member⟩ := exists_mem_pixelCalls positive shaped inside
    refine ⟨_, paints _ member, ?_, fun call member' written => ?_⟩
    · rw [cellAt?_pixelCall positive, if_pos ⟨rfl, rfl⟩]
      rfl
    · obtain ⟨cell, written'⟩ := Option.isSome_iff_exists.mp written
      obtain ⟨_, pixel', held', _, same⟩ :=
        eq_of_mem_pixelCalls positive shaped (writes member' written) written'
      rw [held] at held'
      cases held'
      exact same
  · obtain ⟨cell, written'⟩ := Option.isSome_iff_exists.mp written
    exact (eq_of_mem_pixelCalls positive shaped (writes member written) written').1

theorem laid_draw (positive : 0 < scale) (laid : Laid scale d pad) (shaped : fb.Shaped)
    (changed : fb.changed = true) :
    (d.draw fb).2.fault = none ∧ Pad.Fits (some pad) (d.draw fb).2.calls ∧
      ∃ pad', (d.draw fb).2.calls.foldl Pad.after (some pad) = some pad' ∧
        Laid scale (d.draw fb).2.display pad' ∧ Drawn scale fb (d.draw fb).2.calls pad' := by
  obtain ⟨t, surface, held⟩ := laid.terminal
  obtain ⟨size, drawn⟩ := draw_eq surface held changed
  obtain ⟨kept, quiet⟩ := refresh_pad { t with pad := some size } true
  obtain ⟨fits, silent, fitted, fit, high, wide⟩ := fitCalls_pad laid fb
  rw [drawn, drawCalls, laid.scaled]
  refine ⟨rfl, ?_, fitted.overwritten fun row column =>
    (pixelCalls scale fb).reverse.findSome? (·.cellAt? row column), ?_, ?_, ?_⟩
  · rw [Pad.fits_append, Pad.fits_append, fit]
    exact ⟨⟨fits, fits_pixelCalls positive shaped high wide⟩, Pad.fits_of_untouched quiet _⟩
  · rw [List.foldl_append, List.foldl_append, fit,
      Pad.foldl_after (newPad_not_mem_pixelCalls shaped), Pad.foldl_after_of_untouched quiet]
  · exact ⟨⟨_, rfl, by rw [kept]; rfl⟩, rfl, ⟨Int.le_of_lt shaped.width_pos, wide⟩,
      ⟨Int.le_of_lt shaped.height_pos, high⟩⟩
  · -- Fitting and refreshing write nothing, so only the pixels are left to look at.
    refine drawn_overwritten positive shaped high wide
      (fun call member => List.mem_append_left _ (List.mem_append_right _ member))
      fun call member other row column => ?_
    rcases List.mem_append.mp member with early | late
    · exact silent call ((List.mem_append.mp early).resolve_right other) row column
    · exact cellAt?_of_untouched (quiet call late) row column

/-- What writing a title makes of a pad that keeps `line` columns for it. -/
structure Titled (line : Int) (text : String) (calls : List DeviceCall) (before after : Pad) :
    Prop where
  shorter : (text.length : Int) < line
  /-- The title is written once, filled up with blanks, in the first row. -/
  once : ∃ rest, calls = .write 0 0 (text ++ blanks (line - text.length)) true :: rest ∧
    ∀ call ∈ rest, call.touchesPad = false
  fills : ∀ column, 0 ≤ column → column < line →
    ∃ character, (text ++ blanks (line - text.length)).toList[column.toNat]? = some character ∧
      after.cells 0 column = some (character, true)
  others : ∀ row column, ¬ (row = 0 ∧ 0 ≤ column ∧ column < line) →
    after.cells row column = before.cells row column

theorem length_filled {text : String} {line : Int} (shorter : (text.length : Int) < line) :
    ((text ++ blanks (line - text.length)).length : Int) = line := by
  have length : ((blanks (line - text.length)).length : Int) = line - text.length :=
    length_blanks (by omega)
  rw [String.length_append, Int.natCast_add, length]
  omega

theorem titled_overwritten {text : String} {line : Int} (shorter : (text.length : Int) < line)
    {rest : List DeviceCall} (quiet : ∀ call ∈ rest, call.touchesPad = false) :
    Titled line text (.write 0 0 (text ++ blanks (line - text.length)) true :: rest) pad
      (pad.overwritten fun row column => (DeviceCall.write 0 0 (text ++ blanks (line - text.length))
        true).cellAt? row column) where
  shorter
  once := ⟨rest, rfl, quiet⟩
  fills column nonneg below := by
    have length := length_filled shorter
    rw [← String.length_toList] at length
    obtain ⟨character, there⟩ : ∃ character,
        (text ++ blanks (line - text.length)).toList[column.toNat]? = some character :=
      ⟨_, List.getElem?_eq_getElem (by omega)⟩
    refine ⟨character, there, ?_⟩
    rw [Pad.cells_overwritten, DeviceCall.cellAt?.eq_def]
    dsimp only
    rw [if_pos ⟨rfl, nonneg⟩, Int.sub_zero, there, Option.map_some, Option.some_or]
  others row column outside := by
    have length := length_filled shorter
    rw [← String.length_toList] at length
    rw [Pad.cells_overwritten, DeviceCall.cellAt?.eq_def]
    dsimp only
    split
    case isTrue inRow =>
      rw [Int.sub_zero, List.getElem?_eq_none (by omega), Option.map_none, Option.none_or]
    case isFalse => rw [Option.none_or]

theorem laid_setTitle (laid : Laid scale d pad) (text : String) :
    Pad.Fits (some pad) (d.setTitle text).calls ∧
      ∃ pad', (d.setTitle text).calls.foldl Pad.after (some pad) = some pad' ∧
        Laid scale (d.setTitle text).display pad' ∧
        (Titled (d.width * scale) text (d.setTitle text).calls pad pad' ∨
          pad' = pad ∧ (∀ call ∈ (d.setTitle text).calls, call.touchesPad = false) ∧
            ((d.setTitle text).fault = none → d.width * scale ≤ text.length)) := by
  obtain ⟨t, surface, held⟩ := laid.terminal
  rw [Display.setTitle, surface]
  dsimp only
  cases set : t.setTitle d.scale d.width text with
  | error fault =>
      refine ⟨trivial, pad, rfl, laid, .inr ⟨rfl, fun call member => ?_, fun went => ?_⟩⟩
      · cases member
      · cases went
  | ok result =>
      obtain ⟨t', calls⟩ := result
      rcases setTitle_cases set with ⟨rfl, rfl, longer⟩ | ⟨shorter, rfl, rfl⟩
      · rw [laid.scaled] at longer
        refine ⟨trivial, pad, rfl, { laid with terminal := ⟨_, rfl, held⟩ },
          .inr ⟨rfl, fun call member => ?_, fun _ => longer held⟩⟩
        cases member
      · rw [laid.scaled] at shorter ⊢
        have length := length_filled shorter
        obtain ⟨kept, quiet⟩ := refresh_pad t true
        refine ⟨⟨?_, Pad.fits_of_untouched quiet _⟩, _, Pad.foldl_after_of_untouched quiet _,
          ⟨⟨_, rfl, by rw [kept, held]⟩, rfl, laid.wide, laid.high⟩,
          .inl (titled_overwritten shorter quiet)⟩
        intro row column text' reverse same
        cases same
        have high := laid.high
        have wide := laid.wide
        exact ⟨pad, rfl, Int.le_refl 0, by omega, Int.le_refl 0, by omega⟩

/-! ### Any requests -/

/-- Answers requests one after the other, whether or not one fails: the display that is left, and the
calls in order. -/
def answerAll (d : Display) : List Request → Display × List DeviceCall
  | [] => (d, [])
  | request :: rest =>
      let shown := d.answer request
      let later := answerAll shown.display rest
      (later.1, shown.calls ++ later.2)

theorem laid_answer (positive : 0 < scale) (laid : Laid scale d pad) {request : Request}
    (shaped : ∀ fb, request = .draw fb → fb.Shaped) :
    Pad.Fits (some pad) (d.answer request).calls ∧
      ∃ pad', (d.answer request).calls.foldl Pad.after (some pad) = some pad' ∧
        Laid scale (d.answer request).display pad' := by
  cases request with
  | draw fb =>
      rw [Display.answer]
      cases changed : fb.changed with
      | false =>
          rw [Display.draw_unchanged changed]
          exact ⟨trivial, pad, rfl, laid⟩
      | true =>
          obtain ⟨_, fits, pad', made, laid', _⟩ := laid_draw positive laid (shaped fb rfl) changed
          exact ⟨fits, pad', made, laid'⟩
  | title text =>
      obtain ⟨fits, pad', made, laid', _⟩ := laid_setTitle laid text
      exact ⟨fits, pad', made, laid'⟩
  | refresh changed =>
      obtain ⟨t, surface, held⟩ := laid.terminal
      obtain ⟨kept, quiet⟩ := refresh_pad t changed
      rw [Display.answer, Display.refresh, surface]
      exact ⟨Pad.fits_of_untouched quiet _, pad, Pad.foldl_after_of_untouched quiet _,
        { laid with terminal := ⟨_, rfl, by rw [kept, held]⟩ }⟩

theorem laid_answerAll (positive : 0 < scale) (laid : Laid scale d pad) {requests : List Request}
    (shaped : ∀ fb, .draw fb ∈ requests → fb.Shaped) :
    Pad.Fits (some pad) (answerAll d requests).2 ∧
      ∃ pad', (answerAll d requests).2.foldl Pad.after (some pad) = some pad' ∧
        Laid scale (answerAll d requests).1 pad' := by
  induction requests generalizing d pad with
  | nil => exact ⟨trivial, pad, rfl, laid⟩
  | cons request rest ih =>
      obtain ⟨fits, between, made, laid'⟩ := laid_answer positive laid fun fb same =>
        shaped fb (same ▸ List.mem_cons_self)
      obtain ⟨fits', pad', made', laid''⟩ := ih laid' fun fb member =>
        shaped fb (List.mem_cons_of_mem _ member)
      refine ⟨?_, pad', ?_, laid''⟩
      · exact (Pad.fits_append _ _ _).mpr ⟨fits, made ▸ fits'⟩
      · rw [answerAll, List.foldl_append, made, made']

/-- A terminal that has just been opened; every one is of this form (`Display.terminal_display`). -/
def fresh (scale : Int) (sizes : Nat → Int × Int) (resizable : Bool) : Display where
  scale
  surface := .terminal { pad := some (1, 1), sizes, resizable }

/-- **A terminal keeps pictures and titles apart on its pad.** A terminal has pixels as wide as `scale`
says, and was told anything since: pictures of any sizes, titles, refreshes. Each of its writes went
inside the pad that was there, and left the last column out. A changed picture that is drawn next covers
the cells below the first row, each pixel its own, in reverse video where it is lit, and no others. A
title is written only if it is shorter than the picture is wide, and then fills the first row of the
picture's width and nothing else. -/
theorem pad_layout (positive : 1 ≤ scale) (sizes : Nat → Int × Int) (resizable : Bool)
    {requests : List Request} (shaped : ∀ fb, .draw fb ∈ requests → fb.Shaped) :
    let d := (answerAll (fresh scale sizes resizable) requests).1
    let calls := openingCalls ++ .newPad 1 1 ::
      (answerAll (fresh scale sizes resizable) requests).2
    Pad.Fits none calls ∧ ∃ pad, calls.foldl Pad.after none = some pad ∧ Laid scale d pad ∧
      (∀ fb : Framebuffer, fb.Shaped → fb.changed = true →
        (d.draw fb).2.fault = none ∧
        ∃ drawn, (d.draw fb).2.calls.foldl Pad.after (some pad) = some drawn ∧
          Drawn scale fb (d.draw fb).2.calls drawn) ∧
      ∀ text, ∃ titled, (d.setTitle text).calls.foldl Pad.after (some pad) = some titled ∧
        (Titled (d.width * scale) text (d.setTitle text).calls pad titled ∨
          titled = pad ∧ (∀ call ∈ (d.setTitle text).calls, call.touchesPad = false) ∧
            ((d.setTitle text).fault = none → d.width * scale ≤ text.length)) := by
  intro d calls
  have start : Laid scale (fresh scale sizes resizable) (Pad.blank 1 1) :=
    ⟨⟨_, rfl, rfl⟩, rfl, ⟨Int.le_refl 0, by simp [fresh, Pad.blank]⟩, ⟨Int.le_refl 0, rfl⟩⟩
  obtain ⟨fits, pad, made, laid⟩ := laid_answerAll positive start shaped
  refine ⟨?_, pad, made, laid, fun fb shaped' changed => ?_, fun text => ?_⟩
  · exact (Pad.fits_append _ _ _).mpr
      ⟨Pad.fits_of_untouched (by decide) none, nofun, fits⟩
  · obtain ⟨went, _, drawn, made', _, shows⟩ := laid_draw positive laid shaped' changed
    exact ⟨went, drawn, made', shows⟩
  · obtain ⟨_, titled, made', _, shows⟩ := laid_setTitle laid text
    exact ⟨titled, made', shows⟩

/-- A terminal opened at the default scale shows a screen under a title, and then a picture of two
pixels. The pad for that has five columns: two show the lit pixel, two the other one. -/
theorem pad_layout_two_pixels :
    let sizes : Nat → Int × Int := fun _ => (24, 80)
    let picture : Framebuffer :=
      { width := 2, height := 1, vram := { cells := #[1, 0], top := 1, size := 2 }, changed := true }
    let requests : List Request := [.title "early", .draw Framebuffer.screen, .title "screen"]
    let d := (answerAll (fresh 2 sizes true) requests).1
    let calls := openingCalls ++ .newPad 1 1 :: (answerAll (fresh 2 sizes true) requests).2
    (Display.terminal .unset sizes true).display = .ok (fresh 2 sizes true) ∧
    ∃ drawn, (calls ++ (d.draw picture).2.calls).foldl Pad.after none = some drawn ∧
      drawn.width = 5 ∧
      drawn.cells 1 1 = some (' ', true) ∧ drawn.cells 1 2 = some (' ', false) := by
  intro sizes picture requests d calls
  have shapedScreen : Framebuffer.screen.Shaped := Framebuffer.screen_wellFormed.shaped
  have shaped : ∀ fb, .draw fb ∈ requests → fb.Shaped := by
    intro fb member
    simp only [requests, List.mem_cons, reduceCtorEq, Request.draw.injEq, List.not_mem_nil, false_or,
      or_false] at member
    exact member ▸ shapedScreen
  have shapedPicture : picture.Shaped := ⟨by decide, by decide, rfl, rfl, rfl⟩
  obtain ⟨_, pad, made, _, draws, _⟩ := pad_layout (show (1 : Int) ≤ 2 by decide) sizes true shaped
  obtain ⟨_, drawn, painted, layout⟩ := draws picture shapedPicture rfl
  obtain ⟨lit, held, shown⟩ := layout.shows 1 1 ⟨by decide, by decide, by decide, by decide⟩
  obtain ⟨unlit, held', shown'⟩ := layout.shows 1 2 ⟨by decide, by decide, by decide, by decide⟩
  refine ⟨rfl, drawn, ?_, layout.wide, ?_, ?_⟩
  · rw [List.foldl_append, made, painted]
  · cases held
    exact shown
  · cases held'
    exact shown'

end Terminal

end Chip8
