import Chip8.Machine.Execution
import Chip8.Proofs.Faults

/-!
Well-formed machines: everything that a program can reach is in range.

Memory and video memory have their fixed sizes, pixels are 0 or 1, addresses have twelve bits, the
index register sixteen and the timers eight. On such a machine every access to memory succeeds
(`Ram.read_eq`, `Ram.write_eq`), which is what the laws of execution rest on. A fresh machine is well
formed (`create_wellFormed`).
-/

namespace Chip8

/-! ### Results -/

@[simp] theorem ok_bind {α β : Type} (a : α) (next : α → Except Fault β) :
    (Except.ok a >>= next) = next a := rfl

/-- What comes to an end has gone through all its steps. -/
theorem exists_of_bind_eq_ok {α β : Type} {first : Except Fault α} {next : α → Except Fault β} {b : β}
    (ends : (first >>= next) = .ok b) : ∃ a, first = .ok a ∧ next a = .ok b := by
  cases first with
  | error fault => cases ends
  | ok a => exact ⟨a, rfl, ends⟩

/-! ### Memory -/

/-- There is room for a run of bytes unless its size is negative or too large. -/
theorem Bytes.length_eq_ok_iff {size : Int} {length : Nat} :
    Bytes.length size = .ok length ↔ 0 ≤ size ∧ size ≤ longest ∧ length = size.toNat := by
  have wide : longest < sizeLimit := by decide
  have narrow : -sizeLimit < 0 := by decide
  unfold Bytes.length
  split
  · simp only [reduceCtorEq, false_iff]
    omega
  · split
    · simp only [reduceCtorEq, false_iff]
      omega
    · split
      · simp only [reduceCtorEq, false_iff]
        omega
      · rw [Except.ok.injEq]
        omega

/-- Exactly `size` bytes, and bookkeeping that agrees with them. -/
structure Ram.Sized (ram : Ram) (size : Nat) : Prop where
  cells : ram.cells.size = size
  top : ram.top = size - 1
  size : ram.size = size

namespace Ram

variable {ram : Ram} {size : Nat} {location : Int}

/-- The byte in a cell; zero outside. -/
def byte (ram : Ram) (i : Nat) : UInt8 := (ram.cells[i]?).getD 0

theorem byte_replicate (length : Nat) (top size : Int) (i : Nat) :
    byte { cells := Array.replicate length 0, top, size } i = 0 := by
  by_cases inside : i < length <;> simp [byte, inside]

theorem byte_zeroed (ram : Ram) (i : Nat) :
    byte { ram with cells := ram.cells.mapIdx fun _ _ => 0 } i = 0 := by
  by_cases inside : i < ram.cells.size <;> simp [byte, inside]

theorem index?_inside (nonneg : 0 ≤ location) (below : location < size) :
    Bytes.index? size location = some location.toNat := by
  simp [Bytes.index?, nonneg, below]

theorem cut_inside (nonneg : 0 ≤ location) (within : location ≤ size) :
    Bytes.cut size location = location.toNat := by
  have notBefore : ¬ location < 0 := by omega
  rw [Bytes.cut, if_neg notBefore]
  split <;> omega

theorem read_eq (sized : ram.Sized size) (nonneg : 0 ≤ location) (below : location < size) :
    ram.read location = .ok (ram.byte location.toNat) := by
  have inside : location.toNat < ram.cells.size := by rw [sized.cells]; omega
  simp [read, sized.cells, index?_inside nonneg below, byte, Array.getElem?_eq_getElem inside]

theorem checkOverflow_eq (sized : ram.Sized size) (below : location < size) :
    ram.checkOverflow location = .ok () := by
  have within : ¬ ram.top < location := by rw [sized.top]; omega
  simp [checkOverflow, within]

theorem checkOverflow_of_le (sized : ram.Sized size) (beyond : size ≤ location) :
    ram.checkOverflow location = .error .memoryOverflow := by
  have above : ram.top < location := by rw [sized.top]; omega
  simp [checkOverflow, above]

/-- A byte written inside memory replaces one cell. -/
theorem write_eq (sized : ram.Sized size) (nonneg : 0 ≤ location) (below : location < size)
    {value : Nat} (isByte : value < 256) :
    ram.write location value = .ok
      { ram with cells := ram.cells.setIfInBounds location.toNat (UInt8.ofNat value) } := by
  have fits : (0 : Int) ≤ value ∧ (value : Int) < 256 := by omega
  have stored : Bytes.put ram.cells location value =
      .ok (ram.cells.setIfInBounds location.toNat (UInt8.ofNat value)) := by
    simp only [Bytes.put, sized.cells, index?_inside nonneg below, fits, and_self, if_true,
      Int.toNat_natCast]
  rw [write, FaultM.final_eq_ok_iff]
  simp only [RamM.write, EStateM.run_bind, RamM.run_checkOverflow, checkOverflow_eq sized below,
    RamM.run_assign, stored]

/-- Changing bytes keeps the size. -/
theorem Sized.of_cells (sized : ram.Sized size) {cells : Array UInt8} (same : cells.size = size) :
    Sized { ram with cells } size where
  cells := same
  top := sized.top
  size := sized.size

/-- There is room for a block of moderate size. -/
theorem blockLength_eq (room : size ≤ 0x100000000) : Bytes.blockLength size = .ok size := by
  have header : ¬ (Bytes.sizeLimit ≤ size + Bytes.blockHeader) := by
    simp only [Bytes.sizeLimit, Bytes.blockHeader]
    omega
  have narrow : ¬ ((size : Int) < -Bytes.sizeLimit ∨ Bytes.sizeLimit ≤ size) := by
    simp only [Bytes.sizeLimit]
    omega
  have nonneg : ¬ ((size : Int) < 0) := by omega
  have short : ¬ (Bytes.longest < size) := by
    simp only [Bytes.longest]
    omega
  rw [Bytes.blockLength, if_neg header, Bytes.length, if_neg narrow, if_neg nonneg, if_neg short,
    Int.toNat_natCast]

/-- A new memory is blank. -/
theorem create_eq_ok_iff {size : Int} {ram : Ram} :
    create size = .ok ram ↔ 0 ≤ size ∧ size ≤ Bytes.longest ∧
      ram = { cells := Array.replicate size.toNat 0, top := size - 1, size } := by
  constructor
  · intro created
    obtain ⟨cells, blank, made⟩ := exists_of_bind_eq_ok created
    obtain ⟨length, room, filled⟩ := exists_of_bind_eq_ok blank
    obtain ⟨nonneg, short, rfl⟩ := Bytes.length_eq_ok_iff.mp room
    cases filled
    cases made
    exact ⟨nonneg, short, rfl⟩
  · rintro ⟨nonneg, short, rfl⟩
    have room := Bytes.length_eq_ok_iff.mpr ⟨nonneg, short, rfl⟩
    simp only [create, Bytes.zeros, room, ok_bind]
    rfl

/-- A memory that is cleared as a whole. -/
theorem clear_eq (sized : ram.Sized size) (room : size ≤ 0x100000000) :
    ram.clear = .ok { ram with cells := ram.cells.mapIdx fun _ _ => 0 } := by
  have start : Bytes.cut size 0 = 0 := cut_inside (Int.le_refl 0) (by omega)
  have stop : Bytes.cut size size = size := cut_inside (by omega) (Int.le_refl _)
  have zeros : Bytes.splice ram.cells 0 (List.replicate size 0) =
      ram.cells.mapIdx fun _ _ => 0 := by
    apply Array.ext_getElem?
    intro i
    by_cases inside : i < ram.cells.size
    · rw [Bytes.getElem?_splice _ _ _ _ inside]
      have below : i < size := by rwa [sized.cells] at inside
      simp [inside, below]
    · simp [inside]
  have within : ram.checkOverflow (size - 1) = .ok () := checkOverflow_eq sized (by omega)
  have zeroed : Bytes.assignZeros ram.cells 0 size size = .ok (ram.cells.mapIdx fun _ _ => 0) := by
    simp only [Bytes.assignZeros, Bytes.fits, sized.cells, start, stop, zeros, Nat.sub_zero,
      beq_self_eq_true, if_true]
  rw [clear, FaultM.final_eq_ok_iff]
  simp only [RamM.clear, RamM.zeroBlock, EStateM.run_bind, EStateM.run_get, sized.size,
    Int.zero_add, RamM.run_checkOverflow, within, blockLength_eq room, FaultM.run_ofExcept_ok,
    RamM.run_assign, zeroed]

end Ram

/-! ### The screen -/

/-- A screen with a positive width and height, one byte per pixel, each 0 or 1. -/
structure Framebuffer.WellFormed (fb : Framebuffer) : Prop where
  width_pos : 0 < fb.width
  height_pos : 0 < fb.height
  vram : fb.vram.Sized (fb.width * fb.height).toNat
  binary : ∀ i, fb.vram.byte i = 0 ∨ fb.vram.byte i = 1

theorem Framebuffer.screen_wellFormed : Framebuffer.screen.WellFormed where
  width_pos := by decide
  height_pos := by decide
  vram := ⟨by simp [screen, screenWidth, screenHeight], rfl, rfl⟩
  binary i := .inl (Ram.byte_replicate _ _ _ i)

/-- A screen that is cleared is dark and counts as changed. -/
theorem Framebuffer.clear_eq {fb : Framebuffer} (formed : fb.WellFormed)
    (room : (fb.width * fb.height).toNat ≤ 0x100000000) :
    fb.clear = .ok { fb with
      vram := { fb.vram with cells := fb.vram.cells.mapIdx fun _ _ => 0 }
      changed := true } := by
  have cleared := FaultM.final_eq_ok_iff.mp (Ram.clear_eq formed.vram room)
  rw [clear, FaultM.final_eq_ok_iff]
  simp only [FramebufferM.clear, FramebufferM.onVram, EStateM.run_bind, FaultM.run_onPart, cleared]
  rfl

/-! ### The machine -/

namespace Machine

structure WellFormed (m : Machine) : Prop where
  pc : 0 ≤ m.pc ∧ m.pc < 0x1000
  index : 0 ≤ m.index ∧ m.index < 0x10000
  delay : 0 ≤ m.delay ∧ m.delay < 0x100
  sound : 0 ≤ m.sound ∧ m.sound < 0x100
  ram : m.ram.Sized 0x1000
  /-- Every return address is an address. -/
  returns : ∀ a ∈ m.stack.entries, 0 ≤ a ∧ a < 0x1000
  depth : m.stack.entries.length ≤ 16
  capacity : m.stack.capacity = 16
  screen : m.screen.WellFormed
  width : m.screen.width = 64
  height : m.screen.height = 32

theorem bootRam_sized : bootRam.Sized 0x1000 where
  cells := by simp [bootRam]
  top := rfl
  size := rfl

theorem create_wellFormed (trace strict : Bool) (random : RandomSource) :
    (create trace strict random).WellFormed where
  pc := by simp [create, programStart]
  index := by simp [create]
  delay := by simp [create]
  sound := by simp [create]
  ram := bootRam_sized
  returns := by simp [create, Stack.empty]
  depth := by simp [create, Stack.empty]
  capacity := rfl
  screen := Framebuffer.screen_wellFormed
  width := rfl
  height := rfl

/-- The byte at an address, which wraps around. -/
def memory (m : Machine) (address : Int) : UInt8 := m.ram.byte (address % 0x1000).toNat

/-- A wrapped address can always be read. -/
theorem read_wrapped {m : Machine} (sized : m.ram.Sized 0x1000) (address : Int) :
    m.ram.read (wrapAddress address) = .ok (m.memory address) :=
  Ram.read_eq sized (wrapAddress_nonneg address) (wrapAddress_lt address)

end Machine

end Chip8
