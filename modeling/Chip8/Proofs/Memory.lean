import Chip8.Proofs.Operation

/-!
Memory is an all-or-nothing array of bytes.

However a memory is used, its bookkeeping agrees with its bytes (`Ram.Sound`). Every access looks before
it writes (`Ram.access_atomic`), so one that fails leaves the memory as it was. From a place that is not
negative a block fails to be written exactly if it would run past the end; otherwise it takes the place
of as many bytes, and the others stay (`Ram.Overlaid`). Single bytes and stretches of zeros are written
as the blocks they are, and clearing writes zeros from end to end. So a program is loaded as a whole
behind the part that is kept for the interpreter, or not at all (`Ram.all_or_nothing`).
-/

namespace Chip8

namespace Ram

/-! ### Using a memory -/

inductive Access where
  | resize (size : Int)
  | write (location value : Int)
  | writeBlock (location : Int) (block : List UInt8)
  | zeroBlock (location size : Int)
  | clear
  | read (location : Int)
  | readBlock (location size : Int)

/-- What an access does to a memory; the answer is what was read. -/
def access : Access → RamM (List UInt8)
  | .resize size => do
      RamM.resize size
      return []
  | .write location value => do
      RamM.write location value
      return []
  | .writeBlock location block => do
      RamM.writeBlock location block
      return []
  | .zeroBlock location size => do
      RamM.zeroBlock location size
      return []
  | .clear => do
      RamM.clear
      return []
  | .read location => do
      let ram ← get
      let b ← ofExcept (ram.read location)
      return [b]
  | .readBlock location size => do
      let ram ← get
      return ram.readBlock location size

/-- What an access leaves behind: the memory, and the bytes that were read or the fault. -/
structure Reply where
  ram : Ram
  answer : Except Fault (List UInt8)

def perform (ram : Ram) (request : Access) : Reply :=
  match (access request).run ram with
  | .ok bytes ram => ⟨ram, .ok bytes⟩
  | .error fault ram => ⟨ram, .error fault⟩

/-- One access after the other, whether or not they fail. -/
def performAll (ram : Ram) (accesses : List Access) : Ram :=
  accesses.foldl (fun ram access => (ram.perform access).ram) ram

variable {ram after : Ram} {size : Nat} {location : Int} {block : List UInt8}

/-! ### Looking before writing -/

theorem checkOverflow_looks (location : Int) : FaultM.Looks (RamM.checkOverflow location) :=
  FaultM.looks_get.bind fun _ => FaultM.looks_ofExcept _

theorem resize_atomic (size : Int) : FaultM.Atomic (RamM.resize size) :=
  (FaultM.looks_ofExcept _).bind_atomic fun _ => FaultM.atomic_set _

theorem assign_atomic (change : Array UInt8 → Except Fault (Array UInt8)) :
    FaultM.Atomic (RamM.assign change) :=
  FaultM.looks_get.bind_atomic fun _ =>
    (FaultM.looks_ofExcept _).bind_atomic fun _ => FaultM.atomic_set _

theorem write_atomic (location value : Int) : FaultM.Atomic (RamM.write location value) :=
  (checkOverflow_looks _).bind_atomic fun _ => assign_atomic _

theorem writeBlock_atomic (location : Int) (block : List UInt8) :
    FaultM.Atomic (RamM.writeBlock location block) :=
  (checkOverflow_looks _).bind_atomic fun _ => assign_atomic _

theorem zeroBlock_atomic (location size : Int) : FaultM.Atomic (RamM.zeroBlock location size) :=
  (checkOverflow_looks _).bind_atomic fun _ =>
    (FaultM.looks_ofExcept _).bind_atomic fun _ => assign_atomic _

theorem clear_atomic : FaultM.Atomic RamM.clear :=
  FaultM.looks_get.bind_atomic fun _ => zeroBlock_atomic _ _

/-- Every access looks before it writes. -/
theorem access_atomic (request : Access) : FaultM.Atomic (access request) := by
  cases request with
  | resize size => exact (resize_atomic size).bind_pure _
  | write location value => exact (write_atomic location value).bind_pure _
  | writeBlock location block => exact (writeBlock_atomic location block).bind_pure _
  | zeroBlock location size => exact (zeroBlock_atomic location size).bind_pure _
  | clear => exact clear_atomic.bind_pure _
  | read location =>
      exact FaultM.looks_get.bind_atomic fun _ => (FaultM.looks_ofExcept _).atomic.bind_pure _
  | readBlock location size => exact FaultM.looks_get.atomic.bind_pure _

/-! ### Bookkeeping -/

/-- The bookkeeping agrees with the bytes, of which there is room for one more copy. -/
def Sound (ram : Ram) : Prop := ∃ size : Nat, ram.Sized size ∧ size ≤ Bytes.longest

theorem sound_create {size : Int} (created : create size = .ok ram) : ram.Sound := by
  obtain ⟨nonneg, short, rfl⟩ := create_eq_ok_iff.mp created
  obtain ⟨size, rfl⟩ := Int.eq_ofNat_of_zero_le nonneg
  exact ⟨size, ⟨Array.size_replicate, rfl, rfl⟩, short⟩

/-- The same number of bytes, kept by the same bookkeeping. -/
def SameCells (ram after : Ram) : Prop :=
  ∃ cells : Array UInt8, cells.size = ram.cells.size ∧ after = { ram with cells }

theorem sameCells_of_assign {change : Array UInt8 → Except Fault (Array UInt8)}
    (keeps : ∀ cells, change ram.cells = .ok cells → cells.size = ram.cells.size)
    (assigned : (RamM.assign change).run ram = .ok () after) : ram.SameCells after := by
  rw [RamM.run_assign] at assigned
  split at assigned
  next cells changed =>
    cases assigned
    exact ⟨cells, keeps cells changed, rfl⟩
  next => cases assigned

theorem sameCells_of_write {value : Int}
    (wrote : (RamM.write location value).run ram = .ok () after) : ram.SameCells after := by
  obtain ⟨_, _, assigned⟩ := (checkOverflow_looks _).exists_of_run_bind wrote
  exact sameCells_of_assign (fun _ => Bytes.size_of_put) assigned

theorem sameCells_of_writeBlock (wrote : (RamM.writeBlock location block).run ram = .ok () after) :
    ram.SameCells after := by
  obtain ⟨_, _, assigned⟩ := (checkOverflow_looks _).exists_of_run_bind wrote
  exact sameCells_of_assign (fun _ => Bytes.size_of_assign) assigned

theorem sameCells_of_zeroBlock {count : Int}
    (wrote : (RamM.zeroBlock location count).run ram = .ok () after) : ram.SameCells after := by
  obtain ⟨_, _, measured⟩ := (checkOverflow_looks _).exists_of_run_bind wrote
  obtain ⟨_, _, assigned⟩ := (FaultM.looks_ofExcept _).exists_of_run_bind measured
  exact sameCells_of_assign (fun _ => Bytes.size_of_assignZeros) assigned

theorem Sound.of_sameCells (sound : ram.Sound) (same : ram.SameCells after) : after.Sound := by
  obtain ⟨size, sized, short⟩ := sound
  obtain ⟨cells, same, rfl⟩ := same
  exact ⟨size, sized.of_cells (same.trans sized.cells), short⟩

theorem Sound.of_access (sound : ram.Sound) {request : Access} {bytes : List UInt8}
    (answered : (access request).run ram = .ok bytes after) : after.Sound := by
  cases request with
  | resize size =>
      obtain ⟨_, _, resized, rest⟩ := exists_of_run_bind answered
      obtain ⟨fresh, created, changed⟩ := (FaultM.looks_ofExcept _).exists_of_run_bind resized
      cases changed
      cases rest
      exact sound_create (FaultM.run_ofExcept_eq_ok_iff.mp created).1
  | write =>
      obtain ⟨_, _, wrote, rest⟩ := exists_of_run_bind answered
      cases rest
      exact sound.of_sameCells (sameCells_of_write wrote)
  | writeBlock =>
      obtain ⟨_, _, wrote, rest⟩ := exists_of_run_bind answered
      cases rest
      exact sound.of_sameCells (sameCells_of_writeBlock wrote)
  | zeroBlock =>
      obtain ⟨_, _, wrote, rest⟩ := exists_of_run_bind answered
      cases rest
      exact sound.of_sameCells (sameCells_of_zeroBlock wrote)
  | clear =>
      obtain ⟨_, _, wrote, rest⟩ := exists_of_run_bind answered
      obtain ⟨_, _, zeroed⟩ := FaultM.looks_get.exists_of_run_bind wrote
      cases rest
      exact sound.of_sameCells (sameCells_of_zeroBlock zeroed)
  | read location =>
      obtain ⟨_, _, found⟩ := FaultM.looks_get.exists_of_run_bind answered
      obtain ⟨_, _, rest⟩ := (FaultM.looks_ofExcept _).exists_of_run_bind found
      cases rest
      exact sound
  | readBlock =>
      cases answered
      exact sound

/-- An access that fails changes nothing. -/
theorem perform_of_error {request : Access} {fault : Fault}
    (failed : (ram.perform request).answer = .error fault) : (ram.perform request).ram = ram := by
  unfold perform at failed ⊢
  cases result : (access request).run ram with
  | ok bytes after =>
      rw [result] at failed
      cases failed
  | error fault' after => exact access_atomic request ram fault' after result

/-- A resize puts a new memory in the place of the old one, if a new one can be made. -/
theorem perform_resize (ram : Ram) (size : Int) :
    ram.perform (.resize size) = match create size with
      | .ok fresh => ⟨fresh, .ok []⟩
      | .error fault => ⟨ram, .error fault⟩ := by
  rw [perform, access, RamM.resize, EStateM.run_bind, EStateM.run_bind]
  cases create size <;> rfl

theorem Sound.perform (sound : ram.Sound) (request : Access) :
    (ram.perform request).ram.Sound := by
  unfold Ram.perform
  cases result : (access request).run ram with
  | ok bytes after => exact sound.of_access result
  | error fault after =>
      rw [access_atomic request ram fault after result]
      exact sound

theorem Sound.performAll (sound : ram.Sound) (accesses : List Access) :
    (ram.performAll accesses).Sound := by
  induction accesses generalizing ram with
  | nil => exact sound
  | cons access rest ih => exact ih (sound.perform access)

/-! ### Blocks -/

/-- `after` is a memory where `block` takes the place of the bytes from `start` on. -/
structure Overlaid (ram : Ram) (start : Nat) (block : List UInt8) (after : Ram) : Prop where
  length : after.cells.size = ram.cells.size
  top : after.top = ram.top
  size : after.size = ram.size
  inside : ∀ i < block.length, after.cells[start + i]? = block[i]?
  outside : ∀ i, i < start ∨ start + block.length ≤ i → after.cells[i]? = ram.cells[i]?

theorem overlaid_splice {start : Nat} (room : start + block.length ≤ ram.cells.size) :
    ram.Overlaid start block { ram with cells := Bytes.splice ram.cells start block } where
  length := Bytes.size_splice _ _ _
  top := rfl
  size := rfl
  inside i below := by
    have within : start ≤ start + i ∧ start + i < start + block.length := by omega
    rw [Bytes.getElem?_splice _ _ _ _ (by omega), if_pos within, Nat.add_sub_cancel_left]
  outside i apart := by
    by_cases cell : i < ram.cells.size
    · have without : ¬ (start ≤ i ∧ i < start + block.length) := by omega
      rw [Bytes.getElem?_splice _ _ _ _ cell, if_neg without]
    · rw [Array.getElem?_eq_none (by rw [Bytes.size_splice]; omega),
        Array.getElem?_eq_none (by omega)]

/-- From a place that is not negative, a block is written as a whole or does not fit. -/
theorem writeBlock_cases (sized : ram.Sized size) (nonneg : 0 ≤ location) :
    (ram.writeBlock location block = .error .memoryOverflow ↔ size < location + block.length) ∧
    (location + block.length ≤ size → ∃ after, ram.writeBlock location block = .ok after ∧
      ram.Overlaid location.toNat block after) := by
  by_cases long : size < location + block.length
  · exact ⟨iff_of_true (writeBlock_overflow sized long) long, fun room => by omega⟩
  · have room : location + block.length ≤ size := by omega
    have wrote := writeBlock_eq sized nonneg room
    refine ⟨iff_of_false (fun failed => ?_) long, fun _ => ⟨_, wrote, overlaid_splice ?_⟩⟩
    · rw [wrote] at failed
      cases failed
    · rw [sized.cells]
      omega

/-- A byte is written as a block of one. -/
theorem write_eq_writeBlock (sized : ram.Sized size) (nonneg : 0 ≤ location) {value : Nat}
    (isByte : value < 256) : ram.write location value = ram.writeBlock location [UInt8.ofNat value] := by
  by_cases below : location < size
  · have room : location + [UInt8.ofNat value].length ≤ size := by
      simp only [List.length_singleton]
      omega
    rw [write_eq sized nonneg below isByte, writeBlock_eq sized nonneg room]
    rfl
  · have beyond : ram.checkOverflow location = .error .memoryOverflow :=
      checkOverflow_of_le sized (by omega)
    have refused : (RamM.write location value).run ram = .error .memoryOverflow ram := by
      simp only [RamM.write, EStateM.run_bind, RamM.run_checkOverflow, beyond]
    rw [writeBlock_overflow sized (by simp only [List.length_singleton]; omega)]
    exact FaultM.final_of_error refused

/-- Zeros are written as a block of them. -/
theorem zeroBlock_eq_writeBlock (sized : ram.Sized size) (short : size ≤ Bytes.longest)
    (nonneg : 0 ≤ location) (count : Nat) :
    ram.zeroBlock location count = ram.writeBlock location (List.replicate count 0) := by
  have length : (List.replicate count (0 : UInt8)).length = count := List.length_replicate
  by_cases room : location + count ≤ size
  · have start : Bytes.cut size location = location.toNat := cut_inside nonneg (by omega)
    have stop : Bytes.cut size (location + count) = (location + count).toNat :=
      cut_inside (by omega) room
    have apart : (location + count).toNat - location.toNat = count := by omega
    have within : ram.checkOverflow (location + count - 1) = .ok () :=
      checkOverflow_eq sized (by omega)
    have few : count ≤ 0x100000000 := by
      simp only [Bytes.longest] at short
      omega
    have assigned : Bytes.assignZeros ram.cells location (location + count) count =
        .ok (Bytes.splice ram.cells location.toNat (List.replicate count 0)) := by
      simp only [Bytes.assignZeros, Bytes.fits, sized.cells, start, stop, apart, beq_self_eq_true,
        if_true]
    rw [writeBlock_eq sized nonneg (by rwa [length]), zeroBlock, FaultM.final_eq_ok_iff]
    simp only [RamM.zeroBlock, EStateM.run_bind, RamM.run_checkOverflow, within, blockLength_eq few,
      FaultM.run_ofExcept_ok, RamM.run_assign, assigned]
  · have beyond : ram.checkOverflow (location + count - 1) = .error .memoryOverflow :=
      checkOverflow_of_le sized (by omega)
    have refused : (RamM.zeroBlock location count).run ram = .error .memoryOverflow ram := by
      simp only [RamM.zeroBlock, EStateM.run_bind, RamM.run_checkOverflow, beyond]
    rw [writeBlock_overflow sized (by rw [length]; omega)]
    exact FaultM.final_of_error refused

/-- Clearing writes zeros from end to end. -/
theorem exists_clear (sound : ram.Sound) :
    ∃ after, ram.clear = .ok after ∧ ram.Overlaid 0 (List.replicate ram.cells.size 0) after := by
  obtain ⟨size, sized, short⟩ := sound
  have length : (List.replicate size (0 : UInt8)).length = size := List.length_replicate
  have room : 0 + ((List.replicate size (0 : UInt8)).length : Int) ≤ size := by
    rw [length]
    omega
  have same : RamM.clear.run ram = (RamM.zeroBlock 0 size).run ram := by
    simp only [RamM.clear, EStateM.run_bind, EStateM.run_get, sized.size]
  have zeroes : ram.clear = ram.zeroBlock 0 size := by
    rw [clear, zeroBlock, FaultM.final, FaultM.final, same]
  rw [zeroes, zeroBlock_eq_writeBlock sized short (Int.le_refl 0), sized.cells]
  exact (writeBlock_cases sized (Int.le_refl 0)).2 room

/-! ### Loading a program -/

/-- Whatever memory a machine has, a program that it refuses has changed nothing of it. -/
theorem loadProgram_atomic (program : List UInt8) :
    FaultM.Atomic (MachineM.loadProgram program) :=
  (writeBlock_atomic _ _).onPart fun _ => rfl

/-- A program that is too long changes nothing. -/
theorem load_of_long {m : Machine} (sized : m.ram.Sized 0x1000) {program : List UInt8}
    (long : 0xE00 < program.length) : m.perform (.load program) = ⟨m, some .memoryOverflow⟩ := by
  rw [Machine.perform_load_of_sized sized, if_pos long]

/-- Any other program replaces the bytes behind the part that is kept for the interpreter. -/
theorem load_of_short {m : Machine} (sized : m.ram.Sized 0x1000) {program : List UInt8}
    (short : program.length ≤ 0xE00) :
    ∃ ram, m.perform (.load program) = ⟨{ m with ram }, none⟩ ∧ m.ram.Overlaid 0x200 program ram := by
  rw [Machine.perform_load_of_sized sized, if_neg (Nat.not_lt.mpr short)]
  refine ⟨_, rfl, overlaid_splice ?_⟩
  rw [sized.cells]
  omega

/-- **Memory is an all-or-nothing array of bytes.** After any use of a memory, failed or not, its
bookkeeping agrees with its bytes, and an access that fails leaves it as it is. A resize puts a new
memory in its place, if one of that size can be made. From a place that is not negative, a block fails
to be written exactly if it runs past the end, and otherwise takes the place of as many bytes, while
the others stay. Bytes and stretches of zeros are written as the blocks they are, and clearing writes
zeros from end to end. A machine either refuses a program and stays as it was, exactly if the program
is too long, or takes it up behind the part that is kept for the interpreter, and nothing else of it
changes. -/
theorem all_or_nothing :
    (∀ (size : Int) (fresh : Ram), create size = .ok fresh → ∀ accesses : List Access,
      let ram := fresh.performAll accesses
      (ram.cells.size : Int) = ram.size ∧ ram.top = ram.size - 1 ∧
      (∀ access fault, (ram.perform access).answer = .error fault →
        (ram.perform access).ram = ram) ∧
      (∀ size, ram.perform (.resize size) = match create size with
        | .ok fresh => ⟨fresh, .ok []⟩
        | .error fault => ⟨ram, .error fault⟩) ∧
      (∀ location block, 0 ≤ location →
        (ram.writeBlock location block = .error .memoryOverflow ↔
          ram.size < location + block.length) ∧
        (location + block.length ≤ ram.size → ∃ after, ram.writeBlock location block = .ok after ∧
          ram.Overlaid location.toNat block after)) ∧
      (∀ (location : Int) (value : Nat), 0 ≤ location → value < 256 →
        ram.write location value = ram.writeBlock location [UInt8.ofNat value]) ∧
      (∀ (location : Int) (count : Nat), 0 ≤ location →
        ram.zeroBlock location count = ram.writeBlock location (List.replicate count 0)) ∧
      ∃ after, ram.clear = .ok after ∧
        ram.Overlaid 0 (List.replicate ram.cells.size 0) after) ∧
    ∀ m : Machine, m.ram.Sized 0x1000 → ∀ program : List UInt8,
      (0xE00 < program.length ∧ m.perform (.load program) = ⟨m, some .memoryOverflow⟩) ∨
      (program.length ≤ 0xE00 ∧ ∃ ram, m.perform (.load program) = ⟨{ m with ram }, none⟩ ∧
        m.ram.Overlaid 0x200 program ram ∧ ∀ i < 0x200, ram.cells[i]? = m.ram.cells[i]?) := by
  constructor
  · intro size fresh created accesses ram
    have sound : ram.Sound := (sound_create created).performAll accesses
    obtain ⟨size, sized, short⟩ := id sound
    rw [sized.size, sized.top]
    refine ⟨congrArg Nat.cast sized.cells, rfl, fun _ _ => perform_of_error, perform_resize ram,
      fun _ _ nonneg => writeBlock_cases sized nonneg,
      fun _ _ nonneg isByte => write_eq_writeBlock sized nonneg isByte,
      fun _ count nonneg => zeroBlock_eq_writeBlock sized short nonneg count, exists_clear sound⟩
  · intro m sized program
    rcases Nat.lt_or_ge 0xE00 program.length with long | short
    · exact .inl ⟨long, load_of_long sized long⟩
    · obtain ⟨ram, loaded, overlaid⟩ := load_of_short sized short
      exact .inr ⟨short, ram, loaded, overlaid, fun i below => overlaid.outside i (.inl below)⟩

/-- Five bytes, used with one success and two failures: a block at the end is refused, one that ends
there is not. A machine refuses a program that is one byte too long. -/
theorem all_or_nothing_five_bytes :
    let accesses : List Access := [.writeBlock 3 [7, 8], .writeBlock (-2) [1, 2, 3, 4, 5], .resize (-1)]
    let m := Machine.create false false (.cycle #[])
    ∃ fresh, create 5 = .ok fresh ∧ m.ram.Sized 0x1000 ∧
      (fresh.performAll accesses).writeBlock 4 [1, 2] = .error .memoryOverflow ∧
      (∃ after, (fresh.performAll accesses).writeBlock 4 [1] = .ok after ∧
        after.cells[4]? = some 1 ∧ after.cells[3]? = some 7) ∧
      m.perform (.load (List.replicate 0xE01 0)) = ⟨m, some .memoryOverflow⟩ := by
  intro accesses m
  obtain ⟨fresh, created⟩ : ∃ fresh, create 5 = .ok fresh :=
    ⟨_, create_eq_ok_iff.mpr ⟨by decide, by decide, rfl⟩⟩
  have sized : m.ram.Sized 0x1000 := Machine.bootRam_sized
  obtain ⟨always, loads⟩ := all_or_nothing
  obtain ⟨_, _, _, _, blocks, _⟩ := always 5 fresh created accesses
  obtain ⟨_, _, rfl⟩ := create_eq_ok_iff.mp created
  refine ⟨_, created, sized, ?_, ?_, ?_⟩
  · exact ((blocks 4 [1, 2] (by decide)).1).mpr (by decide)
  · obtain ⟨after, wrote, overlaid⟩ := (blocks 4 [1] (by decide)).2 (by decide)
    exact ⟨after, wrote, overlaid.inside 0 (by decide), overlaid.outside 3 (.inl (by decide))⟩
  · rcases loads m sized (List.replicate 0xE01 0) with ⟨_, refused⟩ | ⟨short, _⟩
    · exact refused
    · rw [List.length_replicate] at short
      exact absurd short (by decide)

end Ram

end Chip8
