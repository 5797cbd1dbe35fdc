import Chip8.Bytes
import Chip8.FaultM

/-!
Memory: a run of bytes that is read and written singly or in blocks.

A write is checked before anything is copied. That, and nothing else, is why a block that would run
past the end leaves the memory as it was: what had been written before a fault would stay.
-/

namespace Chip8

structure Ram where
  cells : Array UInt8
  /-- The last position that may be written; `-1` in an empty memory. -/
  top : Int
  size : Int

namespace Ram

/-- A cleared memory of `size` bytes. -/
def create (size : Int) : Except Fault Ram := do
  let cells ← Bytes.zeros size
  return { cells, top := size - 1, size }

def read (ram : Ram) (location : Int) : Except Fault UInt8 :=
  match Bytes.index? ram.cells.size location with
  | some i => match ram.cells[i]? with
    | some b => .ok b
    | none => .error .outOfRange
  | none => .error .outOfRange

/-- A block, cut down to what memory holds. -/
def readBlock (ram : Ram) (location size : Int) : List UInt8 :=
  Bytes.slice ram.cells location (location + size)

/-- The last position of a write is held against the top of memory. -/
def checkOverflow (ram : Ram) (location : Int) : Except Fault Unit :=
  if ram.top < location then .error .memoryOverflow else .ok ()

end Ram

/-- A computation on a memory. -/
abbrev RamM := FaultM Ram

namespace RamM

/-- A cleared memory of `size` bytes takes the place of this one. -/
def resize (size : Int) : RamM Unit := do
  let fresh ← ofExcept (Ram.create size)
  set fresh

def checkOverflow (location : Int) : RamM Unit := do
  let ram ← get
  ofExcept (ram.checkOverflow location)

/-- Changes the bytes. -/
def assign (change : Array UInt8 → Except Fault (Array UInt8)) : RamM Unit := do
  let ram ← get
  let cells ← ofExcept (change ram.cells)
  set { ram with cells }

theorem run_checkOverflow (location : Int) (ram : Ram) :
    (checkOverflow location).run ram = match ram.checkOverflow location with
      | .ok _ => .ok () ram
      | .error fault => .error fault ram := by
  simp only [checkOverflow, EStateM.run_bind, EStateM.run_get]
  cases ram.checkOverflow location <;> rfl

theorem run_assign (change : Array UInt8 → Except Fault (Array UInt8)) (ram : Ram) :
    (assign change).run ram = match change ram.cells with
      | .ok cells => .ok () { ram with cells }
      | .error fault => .error fault ram := by
  simp only [assign, EStateM.run_bind, EStateM.run_get]
  cases change ram.cells <;> rfl

/-- The top of memory is checked first, then the position, then the value. -/
def write (location value : Int) : RamM Unit := do
  checkOverflow location
  assign fun cells => Bytes.put cells location value

/-- A block is copied as a whole, once its end is known to be inside. -/
def writeBlock (location : Int) (block : List UInt8) : RamM Unit := do
  let stop := location + block.length
  checkOverflow (stop - 1)
  assign fun cells => Bytes.assign cells location stop block

/-- The zeros are made ready between the check and the copy, which may fail as well. -/
def zeroBlock (location size : Int) : RamM Unit := do
  let stop := location + size
  checkOverflow (stop - 1)
  let length ← ofExcept (Bytes.blockLength size)
  assign fun cells => Bytes.assignZeros cells location stop length

def clear : RamM Unit := do
  let ram ← get
  zeroBlock 0 ram.size

end RamM

namespace Ram

/-! What the operations on a memory come to: the memory in the end, or the fault. -/

def resize (ram : Ram) (size : Int) : Except Fault Ram := (RamM.resize size).final ram

def write (ram : Ram) (location value : Int) : Except Fault Ram :=
  (RamM.write location value).final ram

def writeBlock (ram : Ram) (location : Int) (block : List UInt8) : Except Fault Ram :=
  (RamM.writeBlock location block).final ram

def zeroBlock (ram : Ram) (location size : Int) : Except Fault Ram :=
  (RamM.zeroBlock location size).final ram

def clear (ram : Ram) : Except Fault Ram := RamM.clear.final ram

end Ram

end Chip8
