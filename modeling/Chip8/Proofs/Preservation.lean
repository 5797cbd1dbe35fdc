import Chip8.Proofs.Step

/-!
Programs stay in range: a step takes a well-formed machine to a well-formed machine, whatever word it
meets (`step_wellFormed`).

An instruction changes memory, registers and screen through `withMemory`, `withValues` and
`withPicture` alone, so each of these is shown once to keep a machine well formed. What is left are
the instructions that set the program counter, the index register, the timers or the stack.
-/

namespace Chip8.Machine

variable {m : Machine}

/-! ### The parts of an effect -/

/-- Registers hold bytes, so any numbers will do. -/
theorem WellFormed.withValues (formed : m.WellFormed) (values : Digit → Nat) :
    (m.withValues values).WellFormed :=
  { formed with }

theorem WellFormed.withRegisters (formed : m.WellFormed) (registers : Vector UInt8 16) :
    WellFormed { m with registers } :=
  { formed with }

theorem WellFormed.assign (formed : m.WellFormed) (x : Digit) (result : Nat) :
    (m.assign x result).WellFormed :=
  formed.withValues _

theorem WellFormed.assignFlagged (formed : m.WellFormed) (x : Digit) (result : Nat) (flag : Bool) :
    (m.assignFlagged x result flag).WellFormed :=
  formed.withValues _

/-- Another memory will do if it has the same size. -/
theorem WellFormed.withRam (formed : m.WellFormed) {ram : Ram} (sized : ram.Sized 0x1000) :
    WellFormed { m with ram } :=
  { formed with ram := sized }

theorem WellFormed.withMemory (formed : m.WellFormed) (contents : Int → Nat) :
    (m.withMemory contents).WellFormed :=
  formed.withRam (withMemory_sized formed.ram contents)

theorem WellFormed.withPc (formed : m.WellFormed) {pc : Int} (inMemory : 0 ≤ pc ∧ pc < 0x1000) :
    WellFormed { m with pc } :=
  { formed with pc := inMemory }

/-- A skip over the end of memory goes on at its start. -/
theorem WellFormed.skipping (formed : m.WellFormed) (condition : Bool) :
    (m.skipping condition).WellFormed := by
  refine formed.withPc ?_
  have := formed.pc
  split <;> omega

/-- Any picture will do whose pixels are 0 or 1. -/
theorem WellFormed.withPicture (formed : m.WellFormed) {picture : Nat → Nat → UInt8}
    (binary : ∀ px py, picture px py = 0 ∨ picture px py = 1) (changed : Bool) :
    (m.withPicture picture changed).WellFormed := by
  have pixels : ∀ i, (m.withPicture picture changed).screen.vram.byte i = 0 ∨
      (m.withPicture picture changed).screen.vram.byte i = 1 := by
    intro i
    by_cases inside : i < m.screen.vram.cells.size
    · simpa [Machine.withPicture, Ram.byte, inside] using binary (i % 64) (i / 64)
    · left
      simp [Machine.withPicture, Ram.byte, inside]
  exact { formed with
    screen :=
      { width_pos := formed.screen.width_pos
        height_pos := formed.screen.height_pos
        vram := formed.screen.vram.of_cells (by simpa using formed.screen.vram.cells)
        binary := pixels } }

/-! ### Instructions -/

/-- The operands of an instruction that a word encodes are in range, and so is what it makes of them. -/
theorem effect_wellFormed (formed : m.WellFormed) {w : Int} {i : Instruction}
    (encoded : i.EncodedAs w) (goes : ¬ m.Refuses i) : (m.effect i).WellFormed := by
  cases i with
  | cls => exact formed.withPicture (fun _ _ => .inl rfl) true
  | ret =>
      cases entries : m.stack.entries with
      | nil => exact absurd entries goes
      | cons a rest =>
          have returns := formed.returns
          have depth := formed.depth
          simp only [entries, List.mem_cons, forall_eq_or_imp, List.length_cons] at returns depth
          rw [effect_ret entries]
          exact { formed with
            pc := returns.1, returns := returns.2, depth := Nat.le_of_succ_le depth }
  | jp a => exact formed.withPc ⟨encoded.1, encoded.2.1⟩
  | call a =>
      have room : m.stack.entries.length < 16 := Nat.lt_of_le_of_ne formed.depth goes
      exact { formed with
        pc := ⟨encoded.1, encoded.2.1⟩
        returns := List.forall_mem_cons.mpr ⟨formed.pc, formed.returns⟩
        depth := room }
  | seByte | sneByte | se | sne | skp | sknp => exact formed.skipping _
  | ldByte | addByte | ld | or | and | xor | readDelay => exact formed.assign _ _
  | add | sub | subn | shr | shl => exact formed.assignFlagged _ _ _
  | ldIndex a =>
      have small : a < 0x10000 := Int.lt_trans encoded.2.1 (by decide)
      exact { formed with index := ⟨encoded.1, small⟩ }
  | rnd x k =>
      have drawn := formed.assign x ((m.random.draw 0 0xFF).1.toNat &&& k.toNat)
      exact { drawn with }
  | drw x y height =>
      refine (formed.withPicture (fun px py => ?_) _).assign _ _
      have old : m.pixel px py = 0 ∨ m.pixel px py = 1 := formed.screen.binary _
      rcases old with dark | lit <;> split <;> simp [*]
  | waitKey x =>
      simp only [effect]
      split
      · exact formed.assign x _
      · exact formed.withPc (by omega)
  | setDelay x =>
      have small : (m.value x : Int) < 0x100 := Int.ofNat_lt.mpr (m.value_lt x)
      exact { formed with delay := ⟨Int.natCast_nonneg _, small⟩ }
  | setSound x =>
      have small : (m.value x : Int) < 0x100 := Int.ofNat_lt.mpr (m.value_lt x)
      exact { formed with sound := ⟨Int.natCast_nonneg _, small⟩ }
  | addIndex x =>
      exact { formed with
        index := ⟨Int.emod_nonneg _ (by decide), Int.emod_lt_of_pos _ (by decide)⟩ }
  | glyph x =>
      have inWord : 0 ≤ (0x50 + 5 * (m.value x % 16 : Nat) : Int) ∧
          (0x50 + 5 * (m.value x % 16 : Nat) : Int) < 0x10000 := by omega
      exact { formed with index := inWord }
  | bcd | save =>
      simp only [effect]
      exact formed.withMemory _
  | restore =>
      simp only [effect]
      exact formed.withValues _

/-- However a step ends, nothing that it has changed by then is out of range. -/
theorem step_wellFormed (formed : m.WellFormed) : m.step.machine.WellFormed := by
  have formed' := fetched_wellFormed formed
  have ended := step_stepsTo formed
  generalize m.step = outcome at ended
  cases ended with
  | runs encoded goes => exact (effect_wellFormed formed' encoded goes).withConsole _
  | refuses encoded refused => exact formed'.withConsole _
  | unsupported missing => exact formed'.withConsole _

end Chip8.Machine
