import Chip8.Proofs.Effect
import Chip8.Proofs.Encoding
import Chip8.Proofs.Sprite

/-!
Execution meets the instruction table: on a well-formed machine an instruction has the effect that
its row gives (`execute_eq`), unless it is a return without a call or a call too deep.

Loops over registers, memory and pixels are followed step by step: what a loop has done so far is
itself a closed form, which the next round carries on (`run_forM_save`, `run_forM_restore`,
`toggled_spriteCells`).
-/

namespace Chip8.Machine

/-! ### Registers -/

variable {m : Machine}

theorem value_mk (m : Machine) {i : Nat} (inside : i < 16) :
    m.value ⟨i, inside⟩ = m.registers[i].toNat := rfl

theorem value_lt (m : Machine) (x : Digit) : m.value x < 256 := (m.registers.get x).toNat_lt

@[simp] theorem toNat_reg (m : Machine) (x : Digit) : (m.reg x).toNat = m.value x := rfl

theorem withValues_congr {values values' : Digit → Nat} (same : ∀ r, values r = values' r) :
    m.withValues values = m.withValues values' := by
  rw [funext same]

/-- A register keeps the low byte of what it is given. -/
@[simp] theorem value_withValues (m : Machine) (values : Digit → Nat) (r : Digit) :
    (m.withValues values).value r = values r % 256 := by
  obtain ⟨i, inside⟩ := r
  simp [value_mk, withValues]

theorem withValues_withValues (m : Machine) (values values' : Digit → Nat) :
    (m.withValues values).withValues values' = m.withValues values' := by
  simp [withValues, Vector.mapFinIdx_mapFinIdx]

theorem withValues_value (m : Machine) : m.withValues m.value = m := by
  have registers : (m.registers.mapFinIdx fun r _ inside => UInt8.ofNat (m.value ⟨r, inside⟩)) =
      m.registers := by
    apply Vector.ext
    intro i inside
    simp [value_mk]
  rw [withValues, registers]

/-- Registers set one after the other are registers set at once. -/
theorem assign_withValues (m : Machine) {values : Digit → Nat} (bytes : ∀ r, values r < 256)
    (x : Digit) (result : Nat) :
    (m.withValues values).assign x result =
      m.withValues fun r => if r = x then result else values r := by
  rw [assign, withValues_withValues]
  refine withValues_congr fun r => ?_
  rw [value_withValues, Nat.mod_eq_of_lt (bytes r)]

/-- A byte put into a register, as the table has it. -/
theorem setReg_eq (m : Machine) (x : Digit) (b : UInt8) : m.setReg x b = m.assign x b.toNat := by
  have registers : m.registers.set x.val b x.below = m.registers.mapFinIdx fun r _ inside =>
      UInt8.ofNat (if (⟨r, inside⟩ : Digit) = x then b.toNat else m.value ⟨r, inside⟩) := by
    apply Vector.ext
    intro i inside
    by_cases here : i = x.val
    · subst here
      simp
    · have other : (⟨i, inside⟩ : Digit) ≠ x := fun same => here (congrArg Fin.val same)
      have other' : x.val ≠ i := Ne.symm here
      simp [other, value_mk, Vector.getElem_set_ne, other']
  rw [setReg, registers]
  rfl

/-- The flag is written first, so the result stays where both go to the same register. -/
theorem setFlag_setReg_eq (m : Machine) (flag : Bool) (x : Digit) (b : UInt8) :
    (m.setFlag flag).setReg x b = m.assignFlagged x b.toNat flag := by
  have bit : (if flag then 1 else 0 : UInt8).toNat = flag.toNat := by cases flag <;> rfl
  have small : flag.toNat < 256 := Nat.lt_of_le_of_lt (Bool.toNat_le flag) (by decide)
  have bytes : ∀ r, (if r = flagRegister then flag.toNat else m.value r) < 256 := fun r => by
    have := value_lt m r
    split <;> omega
  have first : m.assign flagRegister flag.toNat =
      m.withValues fun r => if r = flagRegister then flag.toNat else m.value r := rfl
  rw [setFlag, setReg_eq, setReg_eq, bit, first, assign_withValues m bytes, assignFlagged]

theorem skipIf_eq (m : Machine) (condition : Bool) : m.skipIf condition = m.skipping condition := by
  cases condition <;> rfl

theorem skipIf_beq (m : Machine) (a b : UInt8) :
    m.skipIf (a == b) = m.skipping (a.toNat = b.toNat) := by
  rw [skipIf_eq, Bool.beq_eq_decide_eq]
  simp only [UInt8.toNat_inj]

theorem skipIf_bne (m : Machine) (a b : UInt8) :
    m.skipIf (a != b) = m.skipping (a.toNat ≠ b.toNat) := by
  rw [skipIf_eq, bne, Bool.beq_eq_decide_eq]
  simp only [ne_eq, UInt8.toNat_inj, decide_not]

/-! ### Arithmetic on bytes -/

theorem toNat_shiftLeft_one (b : UInt8) : (b <<< 1).toNat = b.toNat * 2 % 256 := by
  rw [UInt8.toNat_shiftLeft]
  simp [Nat.shiftLeft_eq]

theorem toNat_shiftRight_one (b : UInt8) : (b >>> 1).toNat = b.toNat / 2 := by
  rw [UInt8.toNat_shiftRight]
  simp [Nat.shiftRight_eq_div_pow]

theorem toNat_sub (a b : UInt8) : (a - b).toNat = (256 + a.toNat - b.toNat) % 256 := by
  have := b.toNat_lt
  rw [UInt8.toNat_sub]
  omega

theorem testBit_seven {n : Nat} (isByte : n < 256) : n.testBit 7 = decide (128 ≤ n) := by
  rw [Nat.testBit_eq_decide_div_mod_eq, decide_eq_decide]
  omega

/-! ### Memory -/

/-- Only the cells that there are count. -/
theorem withMemory_congr (sized : m.ram.Sized 0x1000) {contents contents' : Int → Nat}
    (same : ∀ a, 0 ≤ a → a < 0x1000 → contents a = contents' a) :
    m.withMemory contents = m.withMemory contents' := by
  have cells : m.ram.cells.mapIdx (fun a _ => UInt8.ofNat (contents a)) =
      m.ram.cells.mapIdx fun a _ => UInt8.ofNat (contents' a) := by
    apply Array.ext (by simp)
    intro i inside _
    have below : i < 0x1000 := by simpa [sized.cells] using inside
    simp [same i (by omega) (by omega)]
  rw [withMemory, withMemory, cells]

theorem withMemory_withMemory (m : Machine) (contents contents' : Int → Nat) :
    (m.withMemory contents).withMemory contents' = m.withMemory contents' := by
  simp [withMemory, Array.mapIdx_mapIdx, Function.comp_def]

/-- A cell keeps the low byte of what it is given. -/
theorem memory_withMemory (sized : m.ram.Sized 0x1000) (contents : Int → Nat) (a : Int) :
    (m.withMemory contents).memory a = UInt8.ofNat (contents (a % 0x1000)) := by
  have inside : (a % 0x1000).toNat < m.ram.cells.size := by
    rw [sized.cells]
    omega
  have cell : ((a % 0x1000).toNat : Int) = a % 0x1000 := by omega
  simp [memory, withMemory, Ram.byte, inside, cell]

theorem withMemory_sized (sized : m.ram.Sized 0x1000) (contents : Int → Nat) :
    (m.withMemory contents).ram.Sized 0x1000 :=
  sized.of_cells (by simpa using sized.cells)

theorem withMemory_memory (sized : m.ram.Sized 0x1000) :
    m.withMemory (fun a => (m.memory a).toNat) = m := by
  have cells : m.ram.cells.mapIdx (fun a _ => UInt8.ofNat (m.memory a).toNat) = m.ram.cells := by
    apply Array.ext (by simp)
    intro i inside inside'
    have below : i < 0x1000 := by rwa [sized.cells] at inside'
    have wrapped : ((i : Int) % 0x1000).toNat = i := by omega
    simp [memory, wrapped, Ram.byte, inside']
  rw [withMemory, cells]

/-- One byte of memory gets `value`. -/
def store (m : Machine) (address : Int) (value : Nat) : Machine :=
  m.withMemory fun a => if a = address % 0x1000 then value else (m.memory a).toNat

/-- Cells written one after the other are cells written at once. -/
theorem store_withMemory (sized : m.ram.Sized 0x1000) {contents : Int → Nat}
    (bytes : ∀ a, contents a < 256) (address : Int) (value : Nat) :
    (m.withMemory contents).store address value =
      m.withMemory fun a => if a = address % 0x1000 then value else contents a := by
  rw [store, withMemory_withMemory]
  refine withMemory_congr sized fun a nonneg below => ?_
  have wrapped : a % 0x1000 = a := by omega
  rw [memory_withMemory sized, wrapped, UInt8.toNat_ofNat_of_lt' (bytes a)]

/-- A wrapped address can always be written. -/
theorem run_write (sized : m.ram.Sized 0x1000) (address : Int) {value : Nat}
    (isByte : value < 256) :
    (MachineM.onRam (RamM.write (wrapAddress address) value)).run m =
      .ok () (m.store address value) := by
  have nonneg := wrapAddress_nonneg address
  have below : wrapAddress address < (0x1000 : Nat) := wrapAddress_lt address
  have written := FaultM.final_eq_ok_iff.mp (Ram.write_eq sized nonneg below isByte)
  have cells : m.ram.cells.setIfInBounds (wrapAddress address).toNat (UInt8.ofNat value) =
      m.ram.cells.mapIdx fun (a : Nat) _ => UInt8.ofNat
        (if (a : Int) = address % 0x1000 then value else (m.memory a).toNat) := by
    apply Array.ext (by simp)
    intro i inside _
    have cell : i < m.ram.cells.size := by simpa using inside
    have wrapped : (i : Int) % 0x1000 = i := by
      rw [sized.cells] at cell
      omega
    have target : (wrapAddress address).toNat = i ↔ (i : Int) = address % 0x1000 := by
      change (address % 0x1000).toNat = i ↔ _
      omega
    rw [Array.getElem_mapIdx, Array.getElem_setIfInBounds cell]
    by_cases here : (i : Int) = address % 0x1000
    · simp [target, here]
    · simp [target, here, memory, wrapped, Ram.byte, cell]
  rw [MachineM.onRam, FaultM.run_onPart, written, cells]
  rfl

/-- The three digits go to three different cells, also across the end of memory. -/
theorem run_storeDecimal (sized : m.ram.Sized 0x1000) (x : Digit) :
    (MachineM.storeDecimal (m.value x)).run m = .ok () (m.effect (.bcd x)) := by
  have small := m.value_lt x
  have hundreds : m.value x / 100 < 256 := by omega
  have tens : m.value x / 10 % 10 < 256 := by omega
  have ones : m.value x % 10 < 256 := by omega
  have sized₁ : (m.store m.index (m.value x / 100)).ram.Sized 0x1000 := withMemory_sized sized _
  have sized₂ : ((m.store m.index (m.value x / 100)).store (m.index + 1)
      (m.value x / 10 % 10)).ram.Sized 0x1000 := withMemory_sized sized₁ _
  have stored : (MachineM.storeDecimal (m.value x)).run m =
      .ok () (((m.store m.index (m.value x / 100)).store (m.index + 1)
        (m.value x / 10 % 10)).store (m.index + 2) (m.value x % 10)) := by
    simp only [MachineM.storeDecimal, EStateM.run_bind, EStateM.run_get,
      run_write sized m.index hundreds, run_write sized₁ (m.index + 1) tens,
      run_write sized₂ (m.index + 2) ones]
  have old : ∀ a, (m.memory a).toNat < 256 := fun a => (m.memory a).toNat_lt
  have firstStore : m.store m.index (m.value x / 100) = m.withMemory fun a =>
      if a = m.index % 0x1000 then m.value x / 100 else (m.memory a).toNat := rfl
  rw [stored, firstStore, store_withMemory sized (by grind), store_withMemory sized (by grind)]
  simp only [effect]
  -- The three addresses differ, so the order of the writes does not matter.
  rw [withMemory_congr sized fun a nonneg below => ?_]
  grind

/-- Saving the registers of a list at the index register, on top of what memory holds. -/
theorem run_forM_save (sized : m.ram.Sized 0x1000) {registers : List Digit}
    (nodup : registers.Nodup) (contents : Int → Nat) (bytes : ∀ a, contents a < 256) :
    (forM registers MachineM.saveRegister).run (m.withMemory contents) =
      .ok () (m.withMemory fun a =>
        match registers.find? fun k => (m.index + k.val) % 0x1000 = a with
        | some k => m.value k
        | none => contents a) := by
  induction registers generalizing contents with
  | nil => rfl
  | cons k rest ih =>
      obtain ⟨absent, nodupRest⟩ := List.nodup_cons.mp nodup
      have written : (MachineM.saveRegister k).run (m.withMemory contents) =
          .ok () ((m.withMemory contents).store (m.index + k.val) (m.value k)) :=
        run_write (withMemory_sized sized contents) (m.index + k.val) (m.value_lt k)
      have later := ih nodupRest (fun a =>
        if a = (m.index + k.val) % 0x1000 then m.value k else contents a)
        fun a => by
          have := m.value_lt k
          have := bytes a
          split <;> omega
      rw [store_withMemory sized bytes] at written
      rw [List.forM_cons, FaultM.run_bind_of_ok written, later, EStateM.Result.ok.injEq]
      refine ⟨rfl, withMemory_congr sized fun a nonneg below => ?_⟩
      by_cases here : (m.index + k.val) % 0x1000 = a
      · -- No register after `k` goes to the same address.
        have later : rest.find? (fun k' => (m.index + k'.val) % 0x1000 = a) = none := by
          refine List.find?_eq_none.mpr fun k' member same => absent ?_
          have same' : (m.index + k'.val) % 0x1000 = a := of_decide_eq_true same
          rwa [show k = k' from Fin.ext (by omega)]
        rw [List.find?_cons_of_pos (by simpa using here), later]
        simp [here]
      · rw [List.find?_cons_of_neg (by simpa using here)]
        simp [Ne.symm here]

theorem run_saveRegisters (sized : m.ram.Sized 0x1000) (x : Digit) :
    (MachineM.saveRegisters x).run m = .ok () (m.effect (.save x)) := by
  have nodup : (upTo x).Nodup := (List.nodup_finRange 16).filter _
  have saved := run_forM_save sized nodup (fun a => (m.memory a).toNat)
    fun a => (m.memory a).toNat_lt
  rw [withMemory_memory sized] at saved
  simp only [upTo, List.find?_filter, Bool.decide_and, Bool.decide_eq_true] at saved
  exact saved

/-- Restoring the registers of a list. What is read does not depend on the registers. -/
theorem run_forM_restore (sized : m.ram.Sized 0x1000) (registers : List Digit)
    (values : Digit → Nat) (bytes : ∀ r, values r < 256) :
    (forM registers MachineM.restoreRegister).run (m.withValues values) =
      .ok () (m.withValues fun r =>
        if registers.contains r then (m.memory (m.index + r.val)).toNat else values r) := by
  induction registers generalizing values with
  | nil => rfl
  | cons k rest ih =>
      have read : (m.withValues values).ram.read
          (wrapAddress ((m.withValues values).index + k.val)) =
          .ok (m.memory (m.index + k.val)) := read_wrapped sized _
      have restored : (MachineM.restoreRegister k).run (m.withValues values) =
          .ok () (m.withValues fun r =>
            if r = k then (m.memory (m.index + k.val)).toNat else values r) := by
        simp only [MachineM.restoreRegister, EStateM.run_bind, EStateM.run_get, read,
          FaultM.run_ofExcept_ok, EStateM.run_set, setReg_eq, assign_withValues m bytes]
      have later := ih (fun r =>
        if r = k then (m.memory (m.index + k.val)).toNat else values r)
        fun r => by
          have := bytes r
          have := (m.memory (m.index + k.val)).toNat_lt
          split <;> omega
      rw [List.forM_cons, FaultM.run_bind_of_ok restored, later, EStateM.Result.ok.injEq]
      refine ⟨rfl, withValues_congr fun r => ?_⟩
      by_cases here : r = k
      · simp [here]
      · simp [here]

theorem run_restoreRegisters (sized : m.ram.Sized 0x1000) (x : Digit) :
    (MachineM.restoreRegisters x).run m = .ok () (m.effect (.restore x)) := by
  have restored := run_forM_restore sized (upTo x) m.value m.value_lt
  rw [withValues_value] at restored
  rw [MachineM.restoreRegisters, restored]
  simp [effect, upTo]

/-! ### The screen -/

/-- The cells of a sprite are those of the pixels that it covers. -/
theorem mem_spriteCells {left top height i : Nat} :
    i ∈ m.spriteCells left top height ↔
      i < 2048 ∧ m.SpriteCovers left top height (i % 64) (i / 64) := by
  have place : ∀ row column : Nat, cellAt (left + column) (top + row) = i ↔
      i < 2048 ∧ (left + column) % 64 = i % 64 ∧ (top + row) % 32 = i / 64 := by
    intro row column
    unfold cellAt
    omega
  simp only [spriteCells, rowCells, List.mem_flatMap, List.mem_map, List.mem_range,
    mem_litColumns, place, SpriteCovers, SpriteBit]
  constructor
  · rintro ⟨row, rowBelow, column, ⟨columnBelow, lit⟩, inside, across, down⟩
    exact ⟨inside, row, rowBelow, column, columnBelow, across, down, lit⟩
  · rintro ⟨inside, row, rowBelow, column, columnBelow, across, down, lit⟩
    exact ⟨row, rowBelow, column, ⟨columnBelow, lit⟩, inside, across, down⟩

theorem spriteLit_iff (m : Machine) (left top height : Nat) :
    m.SpriteLit height ↔ m.spriteCells left top height ≠ [] := by
  constructor
  · rintro ⟨row, rowBelow, column, columnBelow, lit⟩
    have inRow : cellAt (left + column) (top + row) ∈
        rowCells (m.memory (m.index + row)) left (top + row) :=
      List.mem_map.mpr ⟨column, mem_litColumns.mpr ⟨columnBelow, lit⟩, rfl⟩
    exact List.ne_nil_of_mem (List.mem_flatMap.mpr ⟨row, List.mem_range.mpr rowBelow, inRow⟩)
  · intro some
    obtain ⟨i, member⟩ := List.exists_mem_of_ne_nil _ some
    obtain ⟨_, row, rowBelow, column, columnBelow, _, _, lit⟩ := mem_spriteCells.mp member
    exact ⟨row, rowBelow, column, columnBelow, lit⟩

/-- A collision seen cell by cell is one seen pixel by pixel. -/
theorem spriteHits_iff (m : Machine) (left top height : Nat) :
    m.SpriteHits left top height ↔
      (m.spriteCells left top height).any (fun i => m.screen.vram.byte i != 0) := by
  simp only [SpriteHits, List.any_eq_true, mem_spriteCells, bne_iff_ne, pixel]
  constructor
  · rintro ⟨px, across, py, down, covers, lit⟩
    have column : (py * 64 + px) % 64 = px := by omega
    have row : (py * 64 + px) / 64 = py := by omega
    exact ⟨py * 64 + px, ⟨by omega, by rwa [column, row]⟩, lit⟩
  · rintro ⟨i, ⟨inside, covers⟩, lit⟩
    exact ⟨i % 64, by omega, i / 64, by omega, covers, by rwa [Nat.div_add_mod']⟩

/-- Toggling the pixels of a sprite, seen pixel by pixel. -/
theorem toggled_spriteCells (formed : m.WellFormed) (left top : Nat) {height : Nat}
    (small : height < 16) :
    { m with screen := m.screen.toggled (m.spriteCells left top height) } =
      m.withPicture
        (fun px py =>
          if m.SpriteCovers left top height px py then m.pixel px py ^^^ 1 else m.pixel px py)
        (m.screen.changed || m.SpriteLit height) := by
  have fits : height ≤ 32 := by omega
  have nodup := m.spriteCells_nodup left top fits
  have changed : (!(m.spriteCells left top height).isEmpty) = decide (m.SpriteLit height) := by
    rw [Bool.eq_iff_iff, decide_eq_true_iff, spriteLit_iff m left top]
    simp
  have cells : m.screen.vram.cells.mapIdx
      (fun i b => if (m.spriteCells left top height).count i % 2 = 1 then b ^^^ 1 else b) =
      m.screen.vram.cells.mapIdx fun i _ =>
        if m.SpriteCovers left top height (i % 64) (i / 64) then m.pixel (i % 64) (i / 64) ^^^ 1
        else m.pixel (i % 64) (i / 64) := by
    apply Array.ext (by simp)
    intro i inside _
    have cell : i < m.screen.vram.cells.size := by simpa using inside
    have below : i < 2048 := by
      rw [formed.screen.vram.cells, formed.width, formed.height] at cell
      exact cell
    have old : m.pixel (i % 64) (i / 64) = m.screen.vram.cells[i] := by
      rw [pixel, Nat.div_add_mod']
      simp [Ram.byte, cell]
    rw [Array.getElem_mapIdx, Array.getElem_mapIdx, nodup.count, old]
    simp only [mem_spriteCells, below, true_and]
    split <;> simp
  simp only [Framebuffer.toggled, withPicture, changed, cells]

theorem run_drw (formed : m.WellFormed) (x y : Digit) {height : Nat} (small : height < 16) :
    (MachineM.execute (.drw x y height)).run m = .ok () (m.effect (.drw x y height)) := by
  have fits : height ≤ 32 := by omega
  have drawn := drawSprite_eq formed (m.value x) (m.value y) fits
  have hit : ((m.spriteCells (m.value x) (m.value y) height).any
      fun i => m.screen.vram.byte i != 0) =
      decide (m.SpriteHits (m.value x) (m.value y) height) := by
    rw [Bool.eq_iff_iff, ← spriteHits_iff, decide_eq_true_iff]
  rw [hit, toggled_spriteCells formed (m.value x) (m.value y) small] at drawn
  simp only [MachineM.execute, EStateM.run_bind, EStateM.run_get, toNat_reg, drawn,
    EStateM.run_modify, effect, setFlag, setReg_eq, decide_eq_true_eq]
  split <;> rfl

theorem run_cls (formed : m.WellFormed) :
    (MachineM.execute .cls).run m = .ok () (m.effect .cls) := by
  have room : (m.screen.width * m.screen.height).toNat ≤ 0x100000000 := by
    rw [formed.width, formed.height]
    decide
  have cleared := FaultM.final_eq_ok_iff.mp (Framebuffer.clear_eq formed.screen room)
  simp only [MachineM.execute, MachineM.onScreen, EStateM.run_bind, EStateM.run_get,
    FaultM.run_onPart, cleared]
  rfl

/-! ### Instructions -/

/-- An instruction that a word encodes, and that has its place on the stack, does not fail and has the
effect that the table gives. -/
theorem execute_eq (formed : m.WellFormed) {w : Int} {i : Instruction} (encoded : i.EncodedAs w)
    (goes : ¬ m.Refuses i) : (MachineM.execute i).run m = .ok () (m.effect i) := by
  cases i with
  | cls => exact run_cls formed
  | ret =>
      cases entries : m.stack.entries with
      | nil => exact absurd entries goes
      | cons a rest =>
          rw [effect_ret entries]
          simp only [MachineM.execute, MachineM.onStack, EStateM.run_bind, EStateM.run_get,
            FaultM.run_tryCatch, FaultM.run_onPart, StackM.run_pop, entries, EStateM.run_modify]
  | jp a => rfl
  | call a =>
      have room : ¬ m.stack.capacity ≤ m.stack.entries.length := by
        have := formed.depth
        have := formed.capacity
        simp only [Refuses] at goes
        omega
      simp only [MachineM.execute, MachineM.onStack, EStateM.run_bind, EStateM.run_get,
        FaultM.run_tryCatch, FaultM.run_onPart, StackM.run_push, room, if_false,
        EStateM.run_modify, effect]
  | seByte x k => exact congrArg (EStateM.Result.ok ()) (skipIf_beq m _ k)
  | sneByte x k => exact congrArg (EStateM.Result.ok ()) (skipIf_bne m _ k)
  | se x y => exact congrArg (EStateM.Result.ok ()) (skipIf_beq m _ _)
  | sne x y => exact congrArg (EStateM.Result.ok ()) (skipIf_bne m _ _)
  | ldByte x k => exact congrArg (EStateM.Result.ok ()) (setReg_eq m x k)
  | addByte x k =>
      refine congrArg (EStateM.Result.ok ()) ?_
      simp only [effect, setReg_eq, UInt8.toNat_add, toNat_reg]
  | ld x y => exact congrArg (EStateM.Result.ok ()) (setReg_eq m x _)
  | or x y =>
      refine congrArg (EStateM.Result.ok ()) ?_
      simp only [effect, setReg_eq, UInt8.toNat_or, toNat_reg]
  | and x y =>
      refine congrArg (EStateM.Result.ok ()) ?_
      simp only [effect, setReg_eq, UInt8.toNat_and, toNat_reg]
  | xor x y =>
      refine congrArg (EStateM.Result.ok ()) ?_
      simp only [effect, setReg_eq, UInt8.toNat_xor, toNat_reg]
  | add x y =>
      refine congrArg (EStateM.Result.ok ()) ?_
      simp only [effect, setFlag_setReg_eq, UInt8.toNat_add, toNat_reg, Nat.reducePow]
      rfl
  | sub x y =>
      refine congrArg (EStateM.Result.ok ()) ?_
      simp only [effect, setFlag_setReg_eq, toNat_sub, UInt8.le_iff_toNat_le, toNat_reg]
  | subn x y =>
      refine congrArg (EStateM.Result.ok ()) ?_
      simp only [effect, setFlag_setReg_eq, toNat_sub, UInt8.le_iff_toNat_le, toNat_reg]
  | shr x =>
      refine congrArg (EStateM.Result.ok ()) ?_
      simp only [effect, setFlag_setReg_eq, toNat_shiftRight_one, Nat.testBit_zero, toNat_reg]
  | shl x =>
      refine congrArg (EStateM.Result.ok ()) ?_
      simp only [effect, setFlag_setReg_eq, toNat_shiftLeft_one, toNat_reg,
        testBit_seven (m.value_lt x)]
  | ldIndex a => rfl
  | rnd x k =>
      have nonneg := m.random.draw_nonneg
      have below := m.random.draw_lt
      have small : (m.random.draw 0 0xFF).1.toNat < 256 := by omega
      simp only [MachineM.execute, EStateM.run_bind, EStateM.run_get, EStateM.run_set, effect,
        setReg_eq, UInt8.toNat_and, UInt8.toNat_ofNat_of_lt' small]
      rfl
  | drw x y height => exact run_drw formed x y encoded.1
  | skp x => exact congrArg (EStateM.Result.ok ()) (skipIf_eq m _)
  | sknp x => exact congrArg (EStateM.Result.ok ()) (skipIf_eq m _)
  | readDelay x =>
      have small := formed.delay
      have fits : m.delay.toNat < 256 := by omega
      simp only [MachineM.execute, EStateM.run_bind, EStateM.run_get, MachineM.loadReg, small,
        and_self, if_true, EStateM.run_modify, setReg_eq, effect]
      rw [UInt8.toNat_ofNat_of_lt' fits]
  | waitKey x =>
      simp only [MachineM.execute, EStateM.run_bind, EStateM.run_get, effect, firstKey]
      cases (List.finRange 16).find? fun key => m.keypad[key] with
      | none => rfl
      | some key =>
          have small : key.val < 256 := by omega
          simp only [EStateM.run_set, setReg_eq]
          rw [UInt8.toNat_ofNat_of_lt' small]
  | setDelay x => rfl
  | setSound x => rfl
  | addIndex x => rfl
  | glyph x => rfl
  | bcd x => exact run_storeDecimal formed.ram x
  | save x => exact run_saveRegisters formed.ram x
  | restore x => exact run_restoreRegisters formed.ram x

end Chip8.Machine
