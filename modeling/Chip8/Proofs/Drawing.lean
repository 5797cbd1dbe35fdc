import Chip8.Proofs.Preservation

/-!
Drawing a sprite, as a formula for the whole screen.

The instruction toggles pixels one after the other and looks for collisions while it does so. Since
no two pixels of a sprite fall on the same pixel of the screen (`FallsOn.unique`), the order does
not matter: a pixel flips exactly if the sprite covers it, and the flag tells whether one of those
was lit before (`SpriteDrawn`). That holds wherever the operands come from, the flag register
included, as they are all read before the flag is written.
-/

namespace Chip8.Machine

variable {m : Machine}

/-! ### Where the pixels of a sprite fall -/

/-- The lit pixel of a sprite of `height` rows at `(left, top)` with this row and column falls on
`(px, py)`. -/
def FallsOn (m : Machine) (left top height px py : Nat) (place : Nat × Nat) : Prop :=
  place.1 < height ∧ place.2 < 8 ∧ (left + place.2) % 64 = px ∧ (top + place.1) % 32 = py ∧
    m.SpriteBit place.1 place.2

/-- A sprite is smaller than the screen on both axes, so it does not meet itself across an edge. -/
theorem FallsOn.unique {left top height px py : Nat} (small : height ≤ 32) {place place' : Nat × Nat}
    (falls : m.FallsOn left top height px py place)
    (falls' : m.FallsOn left top height px py place') : place = place' := by
  obtain ⟨row, column, across, down, _⟩ := falls
  obtain ⟨row', column', across', down', _⟩ := falls'
  exact Prod.ext (by omega) (by omega)

theorem spriteCovers_iff_existsUnique {left top height px py : Nat} (small : height ≤ 32) :
    m.SpriteCovers left top height px py ↔ ∃! place, m.FallsOn left top height px py place := by
  constructor
  · rintro ⟨row, rowBelow, column, columnBelow, across, down, lit⟩
    have falls : m.FallsOn left top height px py (row, column) :=
      ⟨rowBelow, columnBelow, across, down, lit⟩
    exact ⟨_, falls, fun _ falls' => falls'.unique small falls⟩
  · rintro ⟨⟨row, column⟩, ⟨rowBelow, columnBelow, across, down, lit⟩, _⟩
    exact ⟨row, rowBelow, column, columnBelow, across, down, lit⟩

/-! ### One toggle after the other -/

/-- One toggle; the answer tells whether any toggle so far has met a lit pixel. -/
def toggle (hit : Bool) (place : Int × Int) : FramebufferM Bool := do
  let erased ← FramebufferM.xorPixel place.1 place.2
  return hit || erased

/-- The places that drawing a sprite toggles, in order. -/
def spriteToggles (m : Machine) (left top : Int) (height : Nat) : List (Int × Int) :=
  (List.range height).flatMap fun (row : Nat) =>
    (litColumns (m.memory (m.index + row))).map fun (column : Nat) => (left + column, top + row)

theorem foldlM_flatMap {α β ρ σ : Type} (places : α → List β) (next : ρ → β → FaultM σ ρ)
    (steps : List α) (r : ρ) :
    (steps.flatMap places).foldlM next r =
      steps.foldlM (fun r a => (places a).foldlM next r) r := by
  induction steps generalizing r with
  | nil => rfl
  | cons a rest ih =>
      rw [List.flatMap_cons, List.foldlM_append, List.foldlM_cons]
      simp only [ih]

theorem drawSprite_eq_toggles (sized : m.ram.Sized 0x1000) (left top : Int) (height : Nat) :
    (MachineM.drawSprite left top height).run m =
      (MachineM.onScreen ((m.spriteToggles left top height).foldlM toggle false)).run m := by
  rw [run_drawSprite sized, spriteToggles, foldlM_flatMap]
  simp only [List.foldlM_map]
  rfl

/-- No pixel of the screen is toggled twice. -/
theorem spriteToggles_nodup (m : Machine) (left top : Int) {height : Nat} (small : height ≤ 32) :
    ((m.spriteToggles left top height).map fun place => (place.1 % 64, place.2 % 32)).Nodup := by
  have cells : (m.spriteToggles left top height).map (fun place => cellAt place.1 place.2) =
      m.spriteCells left top height := by
    simp only [spriteToggles, spriteCells, rowCells, List.map_flatMap, List.map_map]
    rfl
  have nodup := m.spriteCells_nodup left top small
  rw [← cells] at nodup
  refine List.Nodup.of_map (fun place => cellAt place.1 place.2) ?_
  rw [List.map_map]
  have wrapped : (fun place => cellAt place.1 place.2) ∘ (fun place => (place.1 % 64, place.2 % 32)) =
      fun place : Int × Int => cellAt place.1 place.2 := by
    ext place
    exact cellAt_eq_iff.mpr ⟨Int.emod_emod _ _, Int.emod_emod _ _⟩
  rwa [wrapped]

/-! ### The parts of the effect -/

theorem pixel_withPicture (formed : m.WellFormed) (picture : Nat → Nat → UInt8) (changed : Bool)
    {px py : Nat} (across : px < 64) (down : py < 32) :
    (m.withPicture picture changed).pixel px py = picture px py := by
  have cell : py * 64 + px < m.screen.vram.cells.size := by
    rw [formed.screen.vram.cells, formed.width, formed.height]
    change _ < 2048
    omega
  have column : (py * 64 + px) % 64 = px := by omega
  have row : (py * 64 + px) / 64 = py := by omega
  simp [pixel, withPicture, Ram.byte, cell, column, row]

theorem value_assign (m : Machine) (x r : Digit) {result : Nat} (isByte : result < 256) :
    (m.assign x result).value r = if r = x then result else m.value r := by
  have old := m.value_lt r
  rw [assign, value_withValues]
  split <;> omega

/-- A word that encodes an instruction has that effect, behind a line about it when tracing. -/
theorem run_eq_effect (formed : m.WellFormed) {i : Instruction} (encoded : i.EncodedAs m.word)
    (goes : ¬ m.Refuses i) :
    m.run = ⟨(m.effect i).withConsole (m.announced i.mnemonic), none⟩ := by
  have formed' := formed.withConsole (m.announced i.mnemonic)
  rw [run_eq_execute (Decoding.decode_of_encodedAs encoded), traced_eq,
    outcome_of_ok (execute_eq formed' encoded goes), effect_withConsole]

/-! ### The whole instruction -/

/-- What drawing a sprite of `height` rows at `(Vx, Vy)` makes of a machine. All operands are those
of the machine before. -/
structure SpriteDrawn (m : Machine) (x y : Digit) (height : Nat) (after : Machine) : Prop where
  /-- The pixels that the sprite covers flip, and no others. -/
  pixels : ∀ px < 64, ∀ py < 32, after.pixel px py =
    m.pixel px py ^^^ if m.SpriteCovers (m.value x) (m.value y) height px py then 1 else 0
  /-- The flag tells whether the sprite covers a pixel that was lit. -/
  flag : after.value flagRegister = if m.SpriteHits (m.value x) (m.value y) height then 1 else 0
  changed : after.screen.changed = (m.screen.changed || m.SpriteLit height)
  registers : ∀ r ≠ flagRegister, after.value r = m.value r
  /-- Only pixels, the mark of the screen, registers and the trace differ. -/
  frame : after = { m with
    screen := { m.screen with
      vram := { m.screen.vram with cells := after.screen.vram.cells }
      changed := after.screen.changed }
    registers := after.registers
    console := m.announced (Instruction.drw x y height).mnemonic }

theorem spriteDrawn_effect (formed : m.WellFormed) (x y : Digit) (height : Nat) :
    m.SpriteDrawn x y height ((m.effect (.drw x y height)).withConsole
      (m.announced (Instruction.drw x y height).mnemonic)) := by
  have bit : (if m.SpriteHits (m.value x) (m.value y) height then 1 else 0) < 256 := by
    split <;> decide
  constructor
  case pixels =>
    intro px across py down
    have drawn := pixel_withPicture formed (fun px py =>
      if m.SpriteCovers (m.value x) (m.value y) height px py then m.pixel px py ^^^ 1
      else m.pixel px py) (m.screen.changed || m.SpriteLit height) across down
    refine Eq.trans drawn ?_
    split
    · rfl
    · exact UInt8.xor_zero.symm
  case flag => exact (value_assign _ _ _ bit).trans (if_pos rfl)
  case changed => rfl
  case registers =>
    intro r other
    exact (value_assign _ _ _ bit).trans (if_neg other)
  case frame => rfl

/-- **A sprite is drawn as one formula says.** On a well-formed machine a word that draws a sprite
does not fail. The pixels that the sprite covers flip, each under just one pixel of the sprite, so
that no pixel is toggled twice; the flag tells whether one of them was lit, and nothing else changes.
A step that fetches such a word does the same to the machine that has fetched it. -/
theorem drawing_flips_covered (formed : m.WellFormed) {x y : Digit} {height : Nat} :
    ((Instruction.drw x y height).EncodedAs m.word →
      m.run.fault = none ∧ m.SpriteDrawn x y height m.run.machine ∧
      (∀ px py, m.SpriteCovers (m.value x) (m.value y) height px py →
        ∃! place, m.FallsOn (m.value x) (m.value y) height px py place) ∧
      ∃ places : List (Int × Int),
        (MachineM.drawSprite (m.value x) (m.value y) height).run m =
          (MachineM.onScreen (places.foldlM toggle false)).run m ∧
        (places.map fun place => (place.1 % 64, place.2 % 32)).Nodup) ∧
    ((Instruction.drw x y height).EncodedAs m.nextWord →
      m.step.fault = none ∧ m.fetched.SpriteDrawn x y height m.step.machine) := by
  constructor
  · intro encoded
    have small : height ≤ 32 := Nat.le_trans (Nat.le_of_lt encoded.1) (by decide)
    rw [run_eq_effect formed encoded id]
    refine ⟨rfl, spriteDrawn_effect formed x y height, fun px py covers => ?_, _,
      drawSprite_eq_toggles formed.ram _ _ _, m.spriteToggles_nodup _ _ small⟩
    exact (spriteCovers_iff_existsUnique small).mp covers
  · intro encoded
    have formed' := fetched_wellFormed formed
    rw [step_eq_run formed, run_eq_effect formed' encoded id]
    exact ⟨rfl, spriteDrawn_effect formed' x y height⟩

/-- A glyph in the corner, with both coordinates in the flag register: its lower right end is at the
upper left of the screen. -/
theorem drawing_flips_covered_corner :
    let m : Machine := { create false false (.cycle #[]) with
      registers := Vector.replicate 16 62
      index := 0x50
      word := 0xDFF5 }
    m.WellFormed ∧ m.run.fault = none ∧ m.run.machine.pixel 1 2 = 1 ∧
      m.run.machine.pixel 2 2 = 0 ∧ m.run.machine.value flagRegister = 0 := by
  intro m
  have formed : m.WellFormed :=
    { create_wellFormed false false (.cycle #[]) with index := by decide }
  have encoded : (Instruction.drw 0xF 0xF 5).EncodedAs m.word := ⟨by decide, rfl⟩
  obtain ⟨went, drawn, _⟩ := (drawing_flips_covered formed).1 encoded
  obtain ⟨covered, free⟩ : m.SpriteCovers (m.value 0xF) (m.value 0xF) 5 1 2 ∧
      ¬ m.SpriteCovers (m.value 0xF) (m.value 0xF) 5 2 2 := by decide +kernel
  have dark (px py : Nat) : m.pixel px py = 0 := by
    by_cases inside : py * 64 + px < 2048 <;>
      simp [m, create, pixel, Framebuffer.screen, Ram.byte, inside]
  have misses : ¬ m.SpriteHits (m.value 0xF) (m.value 0xF) 5 := by
    rintro ⟨px, _, py, _, _, lit⟩
    exact lit (dark px py)
  refine ⟨formed, went, ?_, ?_, ?_⟩
  · rw [drawn.pixels 1 (by omega) 2 (by omega), if_pos covered, dark]
    rfl
  · rw [drawn.pixels 2 (by omega) 2 (by omega), if_neg free, dark]
    rfl
  · rw [drawn.flag, if_neg misses]

end Chip8.Machine
