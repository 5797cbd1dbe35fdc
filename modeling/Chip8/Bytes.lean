import Chip8.Fault

/-!
Runs of bytes, addressed by integers. A single position may be negative and then counts from the
end; it has to name a byte. A cut may be anywhere and falls on the nearest place inside.
-/

namespace Chip8.Bytes

/-- The longest run that there is room for. -/
def longest : Int := 0x100000000

/-- From here on a size does not fit in a signed 64-bit word. -/
def sizeLimit : Int := 0x8000000000000000

/-- The length of a run of `size` bytes. A size has to fit in a signed 64-bit word before its sign
is looked at. -/
def length (size : Int) : Except Fault Nat :=
  if size < -sizeLimit ∨ sizeLimit ≤ size then .error .sizeTooLarge
  else if size < 0 then .error .negativeSize
  else if longest < size then .error .outOfMemory
  else .ok size.toNat

/-- What a block to be copied needs beside its bytes. -/
def blockHeader : Int := 33

/-- The length of a block of `size` bytes that is to be copied. Together with its header it has to
fit in a signed 64-bit word. -/
def blockLength (size : Int) : Except Fault Nat :=
  if sizeLimit ≤ size + blockHeader then .error .sizeTooLarge else length size

/-- A run of `size` zero bytes. -/
def zeros (size : Int) : Except Fault (Array UInt8) := do
  return Array.replicate (← length size) 0

/-- The index that a position names among `length` items. -/
def index? (length : Nat) (position : Int) : Option Nat :=
  if 0 ≤ position then
    if position < length then some position.toNat else none
  else if 0 ≤ position + length then some (position + length).toNat
  else none

/-- The index where a cut at `position` falls. -/
def cut (length : Nat) (position : Int) : Nat :=
  if position < 0 then (position + length).toNat
  else if position < length then position.toNat
  else length

theorem cut_le (length : Nat) (position : Int) : cut length position ≤ length := by
  unfold cut
  split
  · omega
  · split <;> omega

/-- The bytes from the cut at `start` to the cut at `stop`. -/
def slice (cells : Array UInt8) (start stop : Int) : List UInt8 :=
  (cells.extract (cut cells.size start) (cut cells.size stop)).toList

/-- Replaces the bytes from index `start` on by `block`. -/
def splice (cells : Array UInt8) (start : Nat) : List UInt8 → Array UInt8
  | [] => cells
  | b :: rest => splice (cells.setIfInBounds start b) (start + 1) rest

@[simp] theorem size_splice (cells : Array UInt8) (start : Nat) (block : List UInt8) :
    (splice cells start block).size = cells.size := by
  induction block generalizing cells start with
  | nil => rfl
  | cons b rest ih => simp [splice, ih]

/-- Inside a run, the bytes behind `start` are those of the block, and the others stay. -/
theorem getElem?_splice (cells : Array UInt8) (start : Nat) (block : List UInt8) (i : Nat)
    (inside : i < cells.size) :
    (splice cells start block)[i]? =
      if start ≤ i ∧ i < start + block.length then block[i - start]? else cells[i]? := by
  induction block generalizing cells start with
  | nil =>
      have : ¬ (start ≤ i ∧ i < start) := by omega
      simp [splice, this]
  | cons b rest ih =>
      rw [splice, ih _ _ (by simpa using inside)]
      rcases Nat.lt_trichotomy i start with before | rfl | behind
      · have outer : ¬ (start ≤ i ∧ i < start + (b :: rest).length) := by omega
        have inner : ¬ (start + 1 ≤ i ∧ i < start + 1 + rest.length) := by omega
        rw [if_neg outer, if_neg inner, Array.getElem?_setIfInBounds_ne (by omega)]
      · have inner : ¬ (i + 1 ≤ i ∧ i < i + 1 + rest.length) := by omega
        rw [if_neg inner, if_pos ⟨Nat.le_refl i, by simp⟩]
        simp [inside]
      · have shift : i - start = i - (start + 1) + 1 := by omega
        have same : (start ≤ i ∧ i < start + (b :: rest).length) ↔
            (start + 1 ≤ i ∧ i < start + 1 + rest.length) := by
          simp only [List.length_cons]; omega
        simp only [same, shift, List.getElem?_cons_succ]
        rw [Array.getElem?_setIfInBounds_ne (by omega)]

/-- Puts a value at a position. The position is looked at before the value. -/
def put (cells : Array UInt8) (position value : Int) : Except Fault (Array UInt8) :=
  match index? cells.size position with
  | none => .error .outOfRange
  | some i =>
    if 0 ≤ value ∧ value < 256 then .ok (cells.setIfInBounds i (UInt8.ofNat value.toNat))
    else .error .notAByte

theorem size_of_put {cells after : Array UInt8} {position value : Int}
    (done : put cells position value = .ok after) : after.size = cells.size := by
  unfold put at done
  split at done
  · cases done
  · split at done
    · cases done
      exact Array.size_setIfInBounds
    · cases done

/-- Whether a block of `length` bytes fits exactly between the cuts. -/
def fits (cells : Array UInt8) (start stop : Int) (length : Nat) : Bool :=
  cut cells.size stop - cut cells.size start == length

/-- Puts `block` between the cuts at `start` and `stop`, which have to be as far apart as it is
long. -/
def assign (cells : Array UInt8) (start stop : Int) (block : List UInt8) :
    Except Fault (Array UInt8) :=
  if fits cells start stop block.length then .ok (splice cells (cut cells.size start) block)
  else .error .blockSize

theorem size_of_assign {cells after : Array UInt8} {start stop : Int} {block : List UInt8}
    (done : assign cells start stop block = .ok after) : after.size = cells.size := by
  unfold assign at done
  split at done
  · cases done
    exact size_splice _ _ _
  · cases done

/-- Puts a block of zeros between two cuts, which have to be as far apart as it is long. -/
def assignZeros (cells : Array UInt8) (start stop : Int) (length : Nat) :
    Except Fault (Array UInt8) :=
  -- The block is only made if it fits.
  if fits cells start stop length then
    .ok (splice cells (cut cells.size start) (List.replicate length 0))
  else .error .blockSize

theorem size_of_assignZeros {cells after : Array UInt8} {start stop : Int} {length : Nat}
    (done : assignZeros cells start stop length = .ok after) : after.size = cells.size := by
  unfold assignZeros at done
  split at done
  · cases done
    exact size_splice _ _ _
  · cases done

end Chip8.Bytes
