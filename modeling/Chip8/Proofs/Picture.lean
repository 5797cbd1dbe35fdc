import Chip8.Display
import Chip8.Proofs.WellFormed

/-!
Pictures: the rows of a framebuffer, seen as a table of pixels.

`pixelAt?` looks a pixel up. On a framebuffer that has one byte for each pixel, the table has exactly
the places of the screen, and each holds the byte kept for it (`Framebuffer.rows_eq`,
`Framebuffer.pixelAt?_rows_eq_some_iff`). A display is handed each of them with its place
(`Display.mem_pixels_iff`).
-/

namespace Chip8

/-- The pixel in column `x` of row `y`. -/
def pixelAt? (rows : List (List UInt8)) (x y : Nat) : Option UInt8 :=
  rows[y]?.bind fun row => row[x]?

/-- A block inside memory, byte by byte. -/
theorem Ram.getElem?_readBlock {ram : Ram} {size : Nat} (sized : ram.Sized size)
    {location length : Nat} (within : location + length ≤ size) (i : Nat) :
    (ram.readBlock location length)[i]? =
      if i < length then some (ram.byte (location + i)) else none := by
  have start : Bytes.cut size location = location := cut_inside (by omega) (by omega)
  have stop : Bytes.cut size (location + length) = location + length :=
    cut_inside (by omega) (by omega)
  rw [readBlock, Bytes.slice, sized.cells, start, stop, Array.getElem?_toList,
    Array.getElem?_extract, sized.cells, Nat.min_eq_left within, Nat.add_sub_cancel_left]
  split
  case isTrue below =>
    have inside : location + i < ram.cells.size := by rw [sized.cells]; omega
    rw [byte, Array.getElem?_eq_getElem inside, Option.getD_some]
  case isFalse => rfl

theorem Ram.readBlock_eq_map {ram : Ram} {size : Nat} (sized : ram.Sized size)
    {location length : Nat} (within : location + length ≤ size) :
    ram.readBlock location length = (List.range length).map fun i => ram.byte (location + i) := by
  apply List.ext_getElem?
  intro i
  rw [Ram.getElem?_readBlock sized within, List.getElem?_map]
  split
  case isTrue below => rw [List.getElem?_range below, Option.map_some]
  case isFalse beyond =>
    rw [List.getElem?_eq_none (by simpa using beyond), Option.map_none]

/-- A screen with one byte for each pixel, whatever the bytes are. -/
structure Framebuffer.Shaped (fb : Framebuffer) : Prop where
  width_pos : 0 < fb.width
  height_pos : 0 < fb.height
  vram : fb.vram.Sized (fb.width * fb.height).toNat

theorem Framebuffer.WellFormed.shaped {fb : Framebuffer} (formed : fb.WellFormed) : fb.Shaped :=
  ⟨formed.width_pos, formed.height_pos, formed.vram⟩

/-- The rows list the pixels as they are kept. -/
theorem Framebuffer.rows_eq {fb : Framebuffer} (shaped : fb.Shaped) :
    fb.rows = (List.range fb.height.toNat).map fun y => (List.range fb.width.toNat).map fun x =>
      fb.vram.byte (y * fb.width.toNat + x) := by
  obtain ⟨width, wide⟩ := Int.eq_ofNat_of_zero_le (Int.le_of_lt shaped.width_pos)
  obtain ⟨height, high⟩ := Int.eq_ofNat_of_zero_le (Int.le_of_lt shaped.height_pos)
  have sized : fb.vram.Sized (height * width) := by
    have size : (fb.width * fb.height).toNat = height * width := by
      rw [wide, high, Int.mul_comm, ← Int.natCast_mul, Int.toNat_natCast]
    exact size ▸ shaped.vram
  rw [rows, wide, high, Int.toNat_natCast, Int.toNat_natCast]
  refine List.map_congr_left fun y member => ?_
  have within : y * width + width ≤ height * width := by
    rw [← Nat.succ_mul]
    exact Nat.mul_le_mul_right width (List.mem_range.mp member)
  have start : Int.ofNat y * width = ((y * width : Nat) : Int) := by
    rw [Int.natCast_mul, Int.ofNat_eq_natCast]
  rw [start]
  exact Ram.readBlock_eq_map sized within

theorem Framebuffer.pixelAt?_rows_eq_some_iff {fb : Framebuffer} (shaped : fb.Shaped)
    {x y : Nat} {pixel : UInt8} :
    pixelAt? fb.rows x y = some pixel ↔
      x < fb.width.toNat ∧ y < fb.height.toNat ∧
        pixel = fb.vram.byte (y * fb.width.toNat + x) := by
  rw [pixelAt?, rows_eq shaped, List.getElem?_map]
  by_cases below : y < fb.height.toNat
  · rw [List.getElem?_range below, Option.map_some, Option.bind_some, List.getElem?_map]
    by_cases left : x < fb.width.toNat
    · rw [List.getElem?_range left, Option.map_some, Option.some.injEq]
      simp only [below, left, true_and, eq_comm]
    · simp [left]
  · simp [below]

/-- A single pixel is the one in the rows. -/
theorem Framebuffer.pixelAt?_rows_iff_pixel {fb : Framebuffer} (shaped : fb.Shaped) {x y : Nat}
    (left : x < fb.width) (above : y < fb.height) {pixel : UInt8} :
    pixelAt? fb.rows x y = some pixel ↔ fb.pixel x y = .ok pixel := by
  obtain ⟨width, wide⟩ := Int.eq_ofNat_of_zero_le (Int.le_of_lt shaped.width_pos)
  obtain ⟨height, high⟩ := Int.eq_ofNat_of_zero_le (Int.le_of_lt shaped.height_pos)
  rw [wide] at left
  rw [high] at above
  have place : (y : Int) * width + x = ((y * width + x : Nat) : Int) := by
    rw [Int.natCast_add, Int.natCast_mul]
  have inside : y * width + x < (fb.width * fb.height).toNat := by
    have size : (fb.width * fb.height).toNat = height * width := by
      rw [wide, high, Int.mul_comm, ← Int.natCast_mul, Int.toNat_natCast]
    have rowEnd : y * width + width ≤ height * width := by
      rw [← Nat.succ_mul]
      exact Nat.mul_le_mul_right width (by omega)
    omega
  rw [pixelAt?_rows_eq_some_iff shaped, Framebuffer.pixel, wide, high, place,
    Ram.read_eq shaped.vram (Int.natCast_nonneg _) (Int.ofNat_lt.mpr inside), Except.ok.injEq,
    Int.toNat_natCast, Int.toNat_natCast, Int.toNat_natCast]
  constructor
  · rintro ⟨_, _, held⟩
    exact held.symm
  · exact fun held => ⟨by omega, by omega, held.symm⟩

namespace Display

/-- A display is handed the pixels of a picture with their places. -/
theorem mem_pixels_iff {rows : List (List UInt8)} {place : Int × Int × Int} :
    place ∈ pixels rows ↔
      ∃ (x y : Nat) (pixel : UInt8),
        pixelAt? rows x y = some pixel ∧ place = ((x : Int), (y : Int), (pixel.toNat : Int)) := by
  constructor
  · intro member
    obtain ⟨⟨row, y⟩, inRows, member⟩ := List.mem_flatMap.mp member
    obtain ⟨⟨pixel, x⟩, inRow, rfl⟩ := List.mem_map.mp member
    have rowAt : rows[y]? = some row := List.mem_zipIdx_iff_getElem?.mp inRows
    have pixelIn : row[x]? = some pixel := List.mem_zipIdx_iff_getElem?.mp inRow
    exact ⟨x, y, pixel, by rw [pixelAt?, rowAt, Option.bind_some, pixelIn], rfl⟩
  · rintro ⟨x, y, pixel, at_, rfl⟩
    obtain ⟨row, rowAt, pixelIn⟩ := Option.bind_eq_some_iff.mp at_
    refine List.mem_flatMap.mpr ⟨(row, y), List.mem_zipIdx_iff_getElem?.mpr rowAt, ?_⟩
    exact List.mem_map.mpr ⟨(pixel, x), List.mem_zipIdx_iff_getElem?.mpr pixelIn, rfl⟩

/-- Every place comes with the pixel of the picture there. -/
theorem mem_pixels_at_iff {rows : List (List UInt8)} {x y : Nat} {colour : Int} :
    ((x : Int), (y : Int), colour) ∈ pixels rows ↔
      ∃ pixel, pixelAt? rows x y = some pixel ∧ colour = pixel.toNat := by
  rw [mem_pixels_iff]
  constructor
  · rintro ⟨x', y', pixel, held, same⟩
    obtain ⟨sameX, sameY, rfl⟩ : (x : Int) = x' ∧ (y : Int) = y' ∧ colour = pixel.toNat := by
      simpa only [Prod.mk.injEq] using same
    obtain ⟨rfl, rfl⟩ := And.intro (Int.natCast_inj.mp sameX) (Int.natCast_inj.mp sameY)
    exact ⟨pixel, held, rfl⟩
  · rintro ⟨pixel, held, rfl⟩
    exact ⟨x, y, pixel, held, rfl⟩

end Display

end Chip8
