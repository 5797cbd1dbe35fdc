import Chip8.Proofs.WellFormed
import Mathlib.Data.List.Nodup

/-!
Sprites: what drawing one does to the screen as a whole.

Toggling pixels one after the other flips exactly those toggled an odd number of times
(`Framebuffer.toggled`). The pixels of one sprite lie in different cells
(`Machine.spriteCells_nodup`), so a draw flips each of them once and reports a hit iff one of them
was lit before (`Machine.drawSprite_eq`).
-/

namespace Chip8

/-! ### Toggling -/

namespace Framebuffer

variable {fb : Framebuffer}

/-- The picture after toggling the pixels at `places`, one after the other. -/
def toggled (fb : Framebuffer) (places : List Nat) : Framebuffer :=
  { fb with
    vram := { fb.vram with
      cells := fb.vram.cells.mapIdx fun i b => if places.count i % 2 = 1 then b ^^^ 1 else b }
    changed := fb.changed || !places.isEmpty }

/-- The cell of the pixel at `(x, y)`, both axes wrapped. -/
def place (fb : Framebuffer) (x y : Int) : Nat := (fb.location x y).toNat

theorem location_bounds (formed : fb.WellFormed) (x y : Int) :
    0 ≤ fb.location x y ∧ fb.location x y < (fb.width * fb.height).toNat := by
  have row := Int.emod_nonneg y (Int.ne_of_gt formed.height_pos)
  have rowBelow := Int.emod_lt_of_pos y formed.height_pos
  have column := Int.emod_nonneg x (Int.ne_of_gt formed.width_pos)
  have columnBelow := Int.emod_lt_of_pos x formed.width_pos
  have start : 0 ≤ (y % fb.height) * fb.width :=
    Int.mul_nonneg row (Int.le_of_lt formed.width_pos)
  -- The row ends no later than the last one does.
  have stop : (y % fb.height + 1) * fb.width ≤ fb.height * fb.width :=
    Int.mul_le_mul_of_nonneg_right rowBelow (Int.le_of_lt formed.width_pos)
  rw [Int.add_mul, Int.one_mul, Int.mul_comm fb.height] at stop
  unfold location
  omega

theorem byte_toggled (formed : fb.WellFormed) (places : List Nat) {i : Nat}
    (inside : i < (fb.width * fb.height).toNat) :
    (fb.toggled places).vram.byte i =
      if places.count i % 2 = 1 then fb.vram.byte i ^^^ 1 else fb.vram.byte i := by
  have cell : i < fb.vram.cells.size := by rw [formed.vram.cells]; exact inside
  simp [toggled, Ram.byte, cell]

theorem byte_toggled_of_notMem (fb : Framebuffer) {places : List Nat} {i : Nat}
    (absent : i ∉ places) : (fb.toggled places).vram.byte i = fb.vram.byte i := by
  by_cases inside : i < fb.vram.cells.size
  · simp [toggled, Ram.byte, inside, List.count_eq_zero_of_not_mem absent]
  · simp [toggled, Ram.byte, inside]

/-- Pixels stay 0 or 1. -/
theorem WellFormed.toggled (formed : fb.WellFormed) (places : List Nat) :
    (fb.toggled places).WellFormed where
  width_pos := formed.width_pos
  height_pos := formed.height_pos
  vram := formed.vram.of_cells (by simpa using formed.vram.cells)
  binary i := by
    by_cases inside : i < fb.vram.cells.size
    · rw [byte_toggled formed places (by rwa [← formed.vram.cells])]
      rcases formed.binary i with dark | lit <;> split <;> simp [*]
    · left
      simp [Framebuffer.toggled, Ram.byte, inside]

theorem toggled_nil (fb : Framebuffer) : fb.toggled [] = fb := by
  have cells : fb.vram.cells.mapIdx (fun _ b => b) = fb.vram.cells :=
    Array.ext (by simp) (by simp)
  simp [toggled, cells]

/-- Toggling some pixels and then others toggles all of them. -/
theorem toggled_append (fb : Framebuffer) (first second : List Nat) :
    (fb.toggled first).toggled second = fb.toggled (first ++ second) := by
  have cancel : ∀ b : UInt8, b ^^^ 1 ^^^ 1 = b := fun b => by
    rw [UInt8.xor_assoc]; simp
  have pixels : ∀ (i : Nat) (b : UInt8),
      (if second.count i % 2 = 1 then (if first.count i % 2 = 1 then b ^^^ 1 else b) ^^^ 1
        else (if first.count i % 2 = 1 then b ^^^ 1 else b)) =
      if (first ++ second).count i % 2 = 1 then b ^^^ 1 else b := by
    intro i b
    rw [List.count_append]
    rcases Nat.mod_two_eq_zero_or_one (first.count i) with even | odd <;>
      rcases Nat.mod_two_eq_zero_or_one (second.count i) with even' | odd' <;>
      simp [*, Nat.add_mod]
  have changed : ((fb.changed || !first.isEmpty) || !second.isEmpty) =
      (fb.changed || !(first ++ second).isEmpty) := by
    cases first <;> simp
  simp only [toggled, Array.mapIdx_mapIdx, Function.comp_def, pixels, changed]

/-- A single toggle, which always succeeds, and answers whether the pixel was lit. -/
theorem run_xorPixel (formed : fb.WellFormed) (x y : Int) :
    (FramebufferM.xorPixel x y).run fb =
      .ok (fb.vram.byte (fb.place x y) != 0) (fb.toggled [fb.place x y]) := by
  obtain ⟨nonneg, below⟩ := location_bounds formed x y
  have read : fb.vram.read (fb.location x y) = .ok (fb.vram.byte (fb.place x y)) :=
    Ram.read_eq formed.vram nonneg below
  have written := FaultM.final_eq_ok_iff.mp (Ram.write_eq formed.vram nonneg below
    (fb.vram.byte (fb.place x y) ^^^ 1).toNat_lt)
  have cells : fb.vram.cells.setIfInBounds (fb.place x y) (fb.vram.byte (fb.place x y) ^^^ 1) =
      fb.vram.cells.mapIdx fun i b => if [fb.place x y].count i % 2 = 1 then b ^^^ 1 else b := by
    apply Array.ext (by simp)
    intro i inside _
    have cell : i < fb.vram.cells.size := by simpa using inside
    by_cases here : fb.place x y = i
    · subst here
      simp [Ram.byte, cell]
    · rw [Array.getElem_setIfInBounds_ne cell here]
      simp [here]
  rw [UInt8.ofNat_toNat, show (fb.location x y).toNat = fb.place x y from rfl, cells] at written
  simp only [FramebufferM.xorPixel, FramebufferM.onVram, EStateM.run_bind, EStateM.run_get, read,
    FaultM.run_ofExcept_ok, FaultM.run_onPart, written, EStateM.run_modify, EStateM.run_pure]
  simp [toggled]

theorem xorPixel_eq (formed : fb.WellFormed) (x y : Int) :
    fb.xorPixel x y =
      .ok (fb.vram.byte (fb.place x y) != 0, fb.toggled [fb.place x y]) :=
  FaultM.result_eq_ok_iff.mpr (run_xorPixel formed x y)

end Framebuffer

/-! ### Drawing -/

/-- A drawing step on a screen of this width and height toggles exactly `places`, and its hit grows
if one of them was lit. -/
def Draws (width height : Int) (places : List Nat) (draw : Bool → FramebufferM Bool) : Prop :=
  ∀ (hit : Bool) (fb : Framebuffer), fb.WellFormed → fb.width = width → fb.height = height →
    (draw hit).run fb =
      .ok (hit || places.any fun i => fb.vram.byte i != 0) (fb.toggled places)

variable {width height : Int} {α : Type}

/-- Steps that toggle different places toggle all of them. A place that a later step toggles still
looks as it did at the start, so the hit speaks of the first screen. -/
theorem Draws.foldlM {places : α → List Nat} {draw : Bool → α → FramebufferM Bool}
    (each : ∀ a, Draws width height (places a) fun hit => draw hit a) (steps : List α)
    (nodup : (steps.flatMap places).Nodup) :
    Draws width height (steps.flatMap places) fun hit => steps.foldlM draw hit := by
  induction steps with
  | nil =>
      intro hit fb _ _ _
      simp [Framebuffer.toggled_nil]
  | cons a rest ih =>
      intro hit fb formed sameWidth sameHeight
      rw [List.flatMap_cons, List.nodup_append] at nodup
      obtain ⟨_, nodupRest, apart⟩ := nodup
      have first : (draw hit a).run fb = _ := each a hit fb formed sameWidth sameHeight
      have later := fun hit => ih nodupRest hit _ (formed.toggled (places a)) sameWidth sameHeight
      have hits : (rest.flatMap places).any (fun i => (fb.toggled (places a)).vram.byte i != 0) =
          (rest.flatMap places).any (fun i => fb.vram.byte i != 0) := by
        rw [Bool.eq_iff_iff, List.any_eq_true, List.any_eq_true]
        refine exists_congr fun i => and_congr_right fun member => ?_
        rw [Framebuffer.byte_toggled_of_notMem _ fun here => apart i here i member rfl]
      simp only [List.foldlM_cons, EStateM.run_bind, first, later, hits, Framebuffer.toggled_append,
        List.flatMap_cons, List.any_append, Bool.or_assoc]

/-! ### The cells of a sprite -/

/-- The cell of the pixel at `(x, y)` of the screen, both axes wrapped. -/
def cellAt (x y : Int) : Nat := ((y % 32) * 64 + x % 64).toNat

theorem cellAt_eq_iff {x y x' y' : Int} :
    cellAt x y = cellAt x' y' ↔ x % 64 = x' % 64 ∧ y % 32 = y' % 32 := by
  unfold cellAt
  omega

theorem mem_litColumns {data : UInt8} {column : Nat} :
    column ∈ Machine.litColumns data ↔ column < 8 ∧ data.toNat.testBit (7 - column) := by
  simp [Machine.litColumns]

/-- The cells of the lit pixels of a sprite row. -/
def rowCells (data : UInt8) (left top : Int) : List Nat :=
  (Machine.litColumns data).map fun (column : Nat) => cellAt (left + column) top

theorem rowCells_nodup (data : UInt8) (left top : Int) : (rowCells data left top).Nodup := by
  refine List.Nodup.map_on ?_ (List.nodup_range.filter _)
  intro c member c' member' same
  have := (mem_litColumns.mp member).1
  have := (mem_litColumns.mp member').1
  rw [cellAt_eq_iff] at same
  omega

theorem drawRow_draws (data : UInt8) (left top : Int) :
    Draws 64 32 (rowCells data left top) (MachineM.drawRow data left top) := by
  have cells : rowCells data left top =
      (Machine.litColumns data).flatMap fun (column : Nat) => [cellAt (left + column) top] :=
    List.map_eq_flatMap
  have nodup := rowCells_nodup data left top
  rw [cells] at nodup ⊢
  refine Draws.foldlM (fun column => ?_) _ nodup
  intro hit fb formed sameWidth sameHeight
  simp only [EStateM.run_bind, Framebuffer.run_xorPixel formed, Framebuffer.place,
    Framebuffer.location, sameWidth, sameHeight]
  simp [cellAt]

namespace Machine

/-- The cells of the lit pixels of the sprite at the index register, row by row. -/
def spriteCells (m : Machine) (left top : Int) (height : Nat) : List Nat :=
  (List.range height).flatMap fun (row : Nat) =>
    rowCells (m.memory (m.index + row)) left (top + row)

/-- A sprite is smaller than the screen, so no two of its pixels share a cell. -/
theorem spriteCells_nodup (m : Machine) (left top : Int) {height : Nat} (small : height ≤ 32) :
    (m.spriteCells left top height).Nodup := by
  refine List.nodup_flatMap.mpr ⟨fun row _ => rowCells_nodup _ _ _, ?_⟩
  refine List.nodup_range.imp_of_mem ?_
  intro row row' member member' differ cell inRow inRow'
  obtain ⟨column, _, rfl⟩ := List.mem_map.mp inRow
  obtain ⟨column', _, same⟩ := List.mem_map.mp inRow'
  rw [List.mem_range] at member member'
  rw [cellAt_eq_iff] at same
  omega

/-- Steps that draw by what the machine holds beside its screen draw on the screen alone. -/
theorem run_foldlM_onScreen {m : Machine} {next : Bool → α → MachineM Bool}
    {draw : Bool → α → FramebufferM Bool}
    (draws : ∀ hit a screen, (next hit a).run { m with screen } =
      (MachineM.onScreen (draw hit a)).run { m with screen }) (steps : List α) (hit : Bool) :
    (steps.foldlM next hit).run m = (MachineM.onScreen (steps.foldlM draw hit)).run m := by
  suffices follows : ∀ screen, (steps.foldlM next hit).run { m with screen } =
      (MachineM.onScreen (steps.foldlM draw hit)).run { m with screen } from follows m.screen
  induction steps generalizing hit with
  | nil => exact fun _ => rfl
  | cons a rest ih =>
      intro screen
      rw [List.foldlM_cons, List.foldlM_cons, EStateM.run_bind, draws, MachineM.onScreen,
        MachineM.onScreen, FaultM.run_onPart, FaultM.run_onPart, EStateM.run_bind]
      cases (draw hit a).run screen with
      | ok hit' screen' => exact ih hit' screen'
      | error fault screen' => rfl

/-- The rows of a sprite do not change while it is drawn. -/
theorem run_drawSprite {m : Machine} (sized : m.ram.Sized 0x1000) (left top : Int) (height : Nat) :
    (MachineM.drawSprite left top height).run m =
      (MachineM.onScreen ((List.range height).foldlM (fun hit (row : Nat) =>
        MachineM.drawRow (m.memory (m.index + row)) left (top + row) hit) false)).run m := by
  refine run_foldlM_onScreen (fun hit row screen => ?_) _ false
  have read := read_wrapped sized (m.index + row)
  simp only [EStateM.run_bind, EStateM.run_get, read, FaultM.run_ofExcept_ok]

theorem drawSprite_eq {m : Machine} (formed : m.WellFormed) (left top : Int) {height : Nat}
    (small : height ≤ 32) :
    (MachineM.drawSprite left top height).run m =
      .ok ((m.spriteCells left top height).any fun i => m.screen.vram.byte i != 0)
        { m with screen := m.screen.toggled (m.spriteCells left top height) } := by
  have rows : Draws 64 32 (m.spriteCells left top height) fun hit =>
      (List.range height).foldlM (fun hit (row : Nat) =>
        MachineM.drawRow (m.memory (m.index + row)) left (top + row) hit) hit :=
    Draws.foldlM (fun row => drawRow_draws _ _ _) _ (m.spriteCells_nodup left top small)
  have drawn := rows false m.screen formed.screen formed.width formed.height
  rw [Bool.false_or] at drawn
  rw [run_drawSprite formed.ram, MachineM.onScreen, FaultM.run_onPart, drawn]

end Machine

end Chip8
