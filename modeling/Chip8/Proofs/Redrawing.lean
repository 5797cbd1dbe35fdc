import Chip8.Proofs.Drawing

/-!
Drawing more than one sprite.

Toggling is its own inverse and does not care about the order. So a sprite that is drawn a second time
is gone again, and of two sprites either may be drawn first (`redrawing_restores`). The flag of the
first draw tells whether the sprite covers a lit pixel, that of the second whether it covered one that
was not: what the second draw puts out is what the first one lit. That rests on the second draw having
the operands of the first, which it has unless one of the coordinates is kept in the flag register.
-/

namespace Chip8

/-! ### Pictures and order -/

namespace Framebuffer

/-- Only how often each pixel is toggled matters. -/
theorem toggled_perm (fb : Framebuffer) {places places' : List Nat} (perm : places.Perm places') :
    fb.toggled places = fb.toggled places' := by
  have counts : (fun (i : Nat) (b : UInt8) => if places.count i % 2 = 1 then b ^^^ 1 else b) =
      fun i b => if places'.count i % 2 = 1 then b ^^^ 1 else b := by
    funext i b
    rw [perm.count_eq i]
  have none : places.isEmpty = places'.isEmpty := by
    rw [Bool.eq_iff_iff, List.isEmpty_iff_length_eq_zero, List.isEmpty_iff_length_eq_zero,
      perm.length_eq]
  simp only [toggled, counts, none]

theorem toggled_comm (fb : Framebuffer) (places places' : List Nat) :
    (fb.toggled places).toggled places' = (fb.toggled places').toggled places := by
  rw [toggled_append, toggled_append]
  exact fb.toggled_perm List.perm_append_comm

end Framebuffer

namespace Machine

variable {m once again twice : Machine} {x y : Digit} {left top height : Nat}

/-! ### What a sprite covers -/

/-- Whether the sprite covers a pixel that is not lit. -/
def SpriteLights (m : Machine) (left top height : Nat) : Prop :=
  ∃ px < 64, ∃ py < 32, m.SpriteCovers left top height px py ∧ m.pixel px py = 0

instance (m : Machine) (left top height : Nat) : Decidable (m.SpriteLights left top height) := by
  unfold SpriteLights; infer_instance

/-- Where a sprite falls is settled by memory and the index register. -/
theorem spriteCovers_congr {m' : Machine} (ram : m'.ram = m.ram) (index : m'.index = m.index)
    {px py : Nat} :
    m'.SpriteCovers left top height px py ↔ m.SpriteCovers left top height px py := by
  simp only [SpriteCovers, SpriteBit, memory, ram, index]

theorem exists_testBit_iff (b : UInt8) : (∃ column < 8, b.toNat.testBit (7 - column)) ↔ b ≠ 0 := by
  constructor
  · rintro ⟨column, _, lit⟩ rfl
    simp at lit
  · intro some
    have positive : b.toNat ≠ 0 := fun zero => some (UInt8.toNat_inj.mp zero)
    obtain ⟨place, lit⟩ := Nat.exists_testBit_of_ne_zero positive
    have large : 2 ^ place ≤ b.toNat := Nat.ge_two_pow_of_testBit lit
    have below : place < 8 :=
      (Nat.pow_lt_pow_iff_right (by decide)).mp (Nat.lt_of_le_of_lt large b.toNat_lt)
    have turned : 7 - (7 - place) = place := by omega
    exact ⟨7 - place, by omega, by rwa [turned]⟩

/-- A sprite has a lit pixel unless all its bytes are zero. -/
theorem not_spriteLit_iff : ¬ m.SpriteLit height ↔ ∀ row < height, m.memory (m.index + row) = 0 := by
  simp only [SpriteLit, SpriteBit, exists_testBit_iff, not_exists, not_and, not_not]

/-- Each pixel that a sprite covers is lit or not. -/
theorem spriteLit_iff_hits_or_lights (m : Machine) (left top height : Nat) :
    m.SpriteLit height ↔ m.SpriteHits left top height ∨ m.SpriteLights left top height := by
  constructor
  · rintro ⟨row, rowBelow, column, columnBelow, lit⟩
    have across : (left + column) % 64 < 64 := Nat.mod_lt _ (by decide)
    have down : (top + row) % 32 < 32 := Nat.mod_lt _ (by decide)
    have covers : m.SpriteCovers left top height ((left + column) % 64) ((top + row) % 32) :=
      ⟨row, rowBelow, column, columnBelow, rfl, rfl, lit⟩
    by_cases dark : m.pixel ((left + column) % 64) ((top + row) % 32) = 0
    · exact .inr ⟨_, across, _, down, covers, dark⟩
    · exact .inl ⟨_, across, _, down, covers, dark⟩
  · rintro (⟨px, _, py, _, covers, _⟩ | ⟨px, _, py, _, covers, _⟩) <;>
    · obtain ⟨row, rowBelow, column, columnBelow, _, _, lit⟩ := covers
      exact ⟨row, rowBelow, column, columnBelow, lit⟩

/-! ### The same sprite twice -/

/-- What drawing one sprite twice makes of a machine: `once` is the machine after the first draw,
`twice` the one after the second. -/
structure DrawnTwice (m : Machine) (x y : Digit) (height : Nat) (once twice : Machine) : Prop where
  restored : ∀ px < 64, ∀ py < 32, twice.pixel px py = m.pixel px py
  /-- The first flag tells whether the sprite covers a pixel that was lit before both draws. -/
  first : once.value flagRegister = if m.SpriteHits (m.value x) (m.value y) height then 1 else 0
  /-- The second flag tells whether it covers one that was not. -/
  second : twice.value flagRegister = if m.SpriteLights (m.value x) (m.value y) height then 1 else 0
  /-- Without any collision there was nothing to draw. -/
  silent : once.value flagRegister = 0 ∧ twice.value flagRegister = 0 ↔
    ∀ row < height, m.memory (m.index + row) = 0
  /-- A sprite that was drawn without a collision collides with itself. -/
  follows : m.SpriteLit height → once.value flagRegister = 0 → twice.value flagRegister = 1

/-- The flags of two draws tell when each of them is set. -/
theorem DrawnTwice.of_flags
    (restored : ∀ px < 64, ∀ py < 32, twice.pixel px py = m.pixel px py)
    (first : once.value flagRegister = if m.SpriteHits (m.value x) (m.value y) height then 1 else 0)
    (second : twice.value flagRegister =
      if m.SpriteLights (m.value x) (m.value y) height then 1 else 0) :
    m.DrawnTwice x y height once twice where
  restored := restored
  first := first
  second := second
  silent := by
    rw [← not_spriteLit_iff, m.spriteLit_iff_hits_or_lights (m.value x) (m.value y), not_or, first,
      second, ite_eq_right_iff, ite_eq_right_iff]
    simp only [Nat.one_ne_zero, imp_false]
  follows := by
    intro lit clear
    rw [first, ite_eq_right_iff] at clear
    rcases (m.spriteLit_iff_hits_or_lights _ _ _).mp lit with hits | lights
    · exact absurd (clear hits) (by decide)
    · rw [second, if_pos lights]

/-- The pixels that the second draw meets are the flipped ones. -/
theorem xor_one_ne_zero_iff {b : UInt8} (binary : b = 0 ∨ b = 1) : b ^^^ 1 ≠ 0 ↔ b = 0 := by
  rcases binary with rfl | rfl <;> decide

/-- A machine that looks as the first draw left it draws the same sprite again. -/
theorem SpriteDrawn.drawnTwice (formed : m.WellFormed) (drawn : m.SpriteDrawn x y height once)
    (redrawn : again.SpriteDrawn x y height twice) (ram : again.ram = once.ram)
    (index : again.index = once.index) (registers : again.registers = once.registers)
    (screen : again.screen = once.screen) (notX : x ≠ flagRegister) (notY : y ≠ flagRegister) :
    m.DrawnTwice x y height once twice := by
  have sameX : again.value x = m.value x :=
    Eq.trans (by rw [value, value, registers]) (drawn.registers x notX)
  have sameY : again.value y = m.value y :=
    Eq.trans (by rw [value, value, registers]) (drawn.registers y notY)
  have pixel (px py : Nat) : again.pixel px py = once.pixel px py := by
    rw [Machine.pixel, Machine.pixel, screen]
  have covers (px py : Nat) : again.SpriteCovers (again.value x) (again.value y) height px py ↔
      m.SpriteCovers (m.value x) (m.value y) height px py := by
    rw [sameX, sameY]
    exact spriteCovers_congr (ram.trans (congrArg Machine.ram drawn.frame))
      (index.trans (congrArg Machine.index drawn.frame))
  refine .of_flags ?_ drawn.flag ?_
  · intro px across py down
    rw [redrawn.pixels px across py down, pixel, drawn.pixels px across py down]
    simp only [covers]
    split
    · rw [UInt8.xor_assoc, UInt8.xor_self, UInt8.xor_zero]
    · rw [UInt8.xor_zero, UInt8.xor_zero]
  · have hits : again.SpriteHits (again.value x) (again.value y) height ↔
        m.SpriteLights (m.value x) (m.value y) height := by
      refine exists_congr fun px => and_congr_right fun across => exists_congr fun py =>
        and_congr_right fun down => ?_
      rw [covers, pixel, drawn.pixels px across py down]
      refine and_congr_right fun covered => ?_
      rw [if_pos covered]
      exact xor_one_ne_zero_iff (formed.screen.binary _)
    rw [redrawn.flag]
    simp only [hits]

/-- A word that draws a sprite draws it and leaves a machine that can draw again. -/
theorem run_draws (formed : m.WellFormed) (encoded : (Instruction.drw x y height).EncodedAs m.word) :
    m.run.machine.WellFormed ∧ m.run.fault = none ∧ m.SpriteDrawn x y height m.run.machine := by
  rw [run_eq_effect formed encoded id]
  exact ⟨(effect_wellFormed formed encoded id).withConsole _, rfl, spriteDrawn_effect formed x y height⟩

/-! ### Two sprites -/

/-- The screen after the machine has run its word on it. -/
def runOn (m : Machine) (screen : Framebuffer) : Framebuffer :=
  ({ m with screen } : Machine).run.machine.screen

/-- A sprite toggles pixels that do not depend on the screen. -/
theorem runOn_eq (formed : m.WellFormed) (encoded : (Instruction.drw x y height).EncodedAs m.word)
    {screen : Framebuffer} (formedScreen : screen.WellFormed) (width : screen.width = 64)
    (tall : screen.height = 32) :
    m.runOn screen = screen.toggled (m.spriteCells (m.value x) (m.value y) height) := by
  have facing : WellFormed { m with screen } :=
    { formed with screen := formedScreen, width := width, height := tall }
  have drawn := toggled_spriteCells facing (m.value x) (m.value y) encoded.1
  rw [runOn, run_eq_effect facing encoded id]
  exact congrArg Machine.screen drawn.symm

/-- **A sprite drawn twice is gone, and of two sprites either may come first.** On a well-formed
machine a word that draws a sprite, with its coordinates outside the flag register, can be run twice in
a row; that leaves every pixel as it was. The first flag tells whether the sprite covers a lit pixel and
the second whether it covers one that is not, so both are clear exactly if all bytes of the sprite are
zero. The same holds of two steps that fetch such a word. Two machines, with any operands and any
sprites, that draw on one screen leave the same picture in either order. -/
theorem redrawing_restores (formed : m.WellFormed) :
    (∀ x y height, x ≠ flagRegister → y ≠ flagRegister →
      ((Instruction.drw x y height).EncodedAs m.word →
        m.run.fault = none ∧ m.run.machine.run.fault = none ∧
          m.DrawnTwice x y height m.run.machine m.run.machine.run.machine) ∧
      ((Instruction.drw x y height).EncodedAs m.nextWord →
        (Instruction.drw x y height).EncodedAs m.step.machine.nextWord →
        m.step.fault = none ∧ m.step.machine.step.fault = none ∧
          m.DrawnTwice x y height m.step.machine m.step.machine.step.machine)) ∧
    ∀ one other : Machine, one.WellFormed → other.WellFormed →
      (∃ x y height, (Instruction.drw x y height).EncodedAs one.word) →
      (∃ x y height, (Instruction.drw x y height).EncodedAs other.word) →
      other.runOn (one.runOn m.screen) = one.runOn (other.runOn m.screen) := by
  refine ⟨fun x y height notX notY => ⟨fun encoded => ?_, fun encoded encoded' => ?_⟩, ?_⟩
  · obtain ⟨formedOnce, went, drawn⟩ := run_draws formed encoded
    have same : m.run.machine.word = m.word := (congrArg Machine.word drawn.frame).trans rfl
    obtain ⟨_, wentAgain, redrawn⟩ := run_draws formedOnce (same ▸ encoded)
    exact ⟨went, wentAgain, drawn.drawnTwice formed redrawn rfl rfl rfl rfl notX notY⟩
  · have formed' := fetched_wellFormed formed
    obtain ⟨formedOnce, went, drawn⟩ := run_draws formed' encoded
    rw [← step_eq_run formed] at formedOnce went drawn
    obtain ⟨_, wentAgain, redrawn⟩ := run_draws (fetched_wellFormed formedOnce) encoded'
    rw [← step_eq_run formedOnce] at wentAgain redrawn
    have both := drawn.drawnTwice formed' redrawn rfl rfl rfl rfl notX notY
    exact ⟨went, wentAgain, .of_flags both.restored both.first both.second⟩
  · rintro one other formedOne formedOther ⟨x, y, height, encoded⟩ ⟨x', y', height', encoded'⟩
    have same := formed.screen
    rw [runOn_eq formedOne encoded same formed.width formed.height,
      runOn_eq formedOther encoded' same formed.width formed.height,
      runOn_eq formedOther encoded' (same.toggled _) formed.width formed.height,
      runOn_eq formedOne encoded (same.toggled _) formed.width formed.height]
    exact m.screen.toggled_comm _ _

/-- The top row of a glyph, across the right edge of a dark screen, drawn twice by two words in a row:
only the second draw collides. A row of the next glyph may be drawn before it or after it. -/
theorem redrawing_restores_edge :
    let ram := { bootRam with cells := Bytes.splice bootRam.cells 0x200 [0xD0, 0x11, 0xD0, 0x11] }
    let booted : Machine := { create false false (.cycle #[]) with
      registers := Vector.replicate 16 62
      index := 0x50
      word := 0xD011 }
    let m : Machine := { booted with ram }
    let other : Machine := { m with index := 0x55 }
    m.WellFormed ∧ m.run.machine.value flagRegister = 0 ∧
      m.run.machine.run.machine.value flagRegister = 1 ∧
      m.step.machine.step.machine.pixel 62 30 = 0 ∧
      other.runOn (m.runOn m.screen) = m.runOn (other.runOn m.screen) := by
  intro ram booted m other
  have formed : m.WellFormed := by
    have formedBooted : booted.WellFormed :=
      { create_wellFormed false false (.cycle #[]) with index := by decide }
    exact formedBooted.withRam
      (bootRam_sized.of_cells ((Bytes.size_splice _ _ _).trans bootRam_sized.cells))
  have formedOther : other.WellFormed := { formed with index := by decide }
  have dark (px py : Nat) : m.pixel px py = 0 := Ram.byte_replicate 2048 _ _ (py * 64 + px)
  have misses : ¬ m.SpriteHits (m.value 0) (m.value 1) 1 := by
    rintro ⟨px, _, py, _, _, lit⟩
    exact lit (dark px py)
  have lit : m.SpriteLit 1 := ⟨0, by decide, 0, by decide, by decide +kernel⟩
  have encoded : (Instruction.drw 0 1 1).EncodedAs m.word := ⟨by decide, rfl⟩
  have fetched : m.nextWord = 0xD011 := by decide +kernel
  have fetchedAgain : m.step.machine.nextWord = 0xD011 := by decide +kernel
  obtain ⟨draws, commute⟩ := redrawing_restores formed
  obtain ⟨ran, stepped⟩ := draws 0 1 1 (by decide) (by decide)
  obtain ⟨_, _, run⟩ := ran encoded
  obtain ⟨_, _, steps⟩ := stepped (fetched ▸ encoded) (fetchedAgain ▸ encoded)
  have clear : m.run.machine.value flagRegister = 0 := by rw [run.first, if_neg misses]
  refine ⟨formed, clear, run.follows lit clear, ?_, ?_⟩
  · exact (steps.restored 62 (by decide) 30 (by decide)).trans (dark 62 30)
  · exact commute m other formed formedOther ⟨0, 1, 1, encoded⟩ ⟨0, 1, 1, encoded⟩

end Machine

end Chip8
