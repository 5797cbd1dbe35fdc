import Chip8.Proofs.WellFormed

/-!
The instruction table: the effect of each instruction, in numbers.

`Machine.effect` gives the machine after an instruction in terms of the machine before it: every
operand is the value held before, and whatever a row does not mention stays. The definitions are
closed forms: they name every register, memory cell and pixel by what it holds afterwards.
-/

namespace Chip8.Machine

/-! ### Registers and memory as numbers -/

/-- The number in a register. -/
def value (m : Machine) (x : Digit) : Nat := (m.registers.get x).toNat

/-- The same machine with other numbers in its registers. -/
def withValues (m : Machine) (values : Digit → Nat) : Machine :=
  { m with
    registers := m.registers.mapFinIdx fun r _ inside => UInt8.ofNat (values ⟨r, inside⟩) }

/-- Register `x` gets `result`. -/
def assign (m : Machine) (x : Digit) (result : Nat) : Machine :=
  m.withValues fun r => if r = x then result else m.value r

/-- Register `x` gets `result`, and the flag register gets `flag` unless it is `x`. -/
def assignFlagged (m : Machine) (x : Digit) (result : Nat) (flag : Bool) : Machine :=
  m.withValues fun r => if r = x then result else if r = flagRegister then flag.toNat else m.value r

/-- The same machine with other numbers in the cells of its memory. -/
def withMemory (m : Machine) (contents : Int → Nat) : Machine :=
  { m with
    ram := { m.ram with cells := m.ram.cells.mapIdx fun a _ => UInt8.ofNat (contents a) } }

/-- The instruction that follows is left out if `condition` holds. -/
def skipping (m : Machine) (condition : Bool) : Machine :=
  { m with pc := if condition then (m.pc + 2) % 0x1000 else m.pc }

/-! ### Sprites -/

/-- Whether a pixel of the sprite at the index register is lit. -/
def SpriteBit (m : Machine) (row column : Nat) : Prop :=
  (m.memory (m.index + row)).toNat.testBit (7 - column)

instance (m : Machine) (row column : Nat) : Decidable (m.SpriteBit row column) := by
  unfold SpriteBit; infer_instance

/-- Whether a lit pixel of a sprite of `height` rows at `(left, top)` falls on `(px, py)`. -/
def SpriteCovers (m : Machine) (left top height px py : Nat) : Prop :=
  ∃ row < height, ∃ column < 8,
    (left + column) % 64 = px ∧ (top + row) % 32 = py ∧ m.SpriteBit row column

instance (m : Machine) (left top height px py : Nat) :
    Decidable (m.SpriteCovers left top height px py) := by
  unfold SpriteCovers; infer_instance

/-- Whether any pixel of the sprite is lit. -/
def SpriteLit (m : Machine) (height : Nat) : Prop :=
  ∃ row < height, ∃ column < 8, m.SpriteBit row column

instance (m : Machine) (height : Nat) : Decidable (m.SpriteLit height) :=
  Nat.decidableExistsLT _

/-- The byte of the pixel at `(px, py)`. -/
def pixel (m : Machine) (px py : Nat) : UInt8 := m.screen.vram.byte (py * 64 + px)

/-- Whether the sprite covers a lit pixel. -/
def SpriteHits (m : Machine) (left top height : Nat) : Prop :=
  ∃ px < 64, ∃ py < 32, m.SpriteCovers left top height px py ∧ m.pixel px py ≠ 0

instance (m : Machine) (left top height : Nat) : Decidable (m.SpriteHits left top height) := by
  unfold SpriteHits; infer_instance

/-- The same machine with another picture on its screen. -/
def withPicture (m : Machine) (picture : Nat → Nat → UInt8) (changed : Bool) : Machine :=
  { m with
    screen := { m.screen with
      vram := { m.screen.vram with
        cells := m.screen.vram.cells.mapIdx fun i _ => picture (i % 64) (i / 64) }
      changed } }

/-! ### The table -/

/-- What an instruction does to the machine that has fetched it. -/
def effect (m : Machine) : Instruction → Machine
  | .cls => m.withPicture (fun _ _ => 0) true
  | .ret =>
      match m.stack.entries with
      | [] => m
      | a :: rest => { m with pc := a, stack := { m.stack with entries := rest } }
  | .jp a => { m with pc := a }
  | .call a =>
      { m with pc := a, stack := { m.stack with entries := m.pc :: m.stack.entries } }
  | .seByte x k => m.skipping (m.value x = k.toNat)
  | .sneByte x k => m.skipping (m.value x ≠ k.toNat)
  | .se x y => m.skipping (m.value x = m.value y)
  | .sne x y => m.skipping (m.value x ≠ m.value y)
  | .ldByte x k => m.assign x k.toNat
  | .addByte x k => m.assign x ((m.value x + k.toNat) % 256)
  | .ld x y => m.assign x (m.value y)
  | .or x y => m.assign x (m.value x ||| m.value y)
  | .and x y => m.assign x (m.value x &&& m.value y)
  | .xor x y => m.assign x (m.value x ^^^ m.value y)
  | .add x y =>
      m.assignFlagged x ((m.value x + m.value y) % 256) (255 < m.value x + m.value y)
  | .sub x y =>
      m.assignFlagged x ((256 + m.value x - m.value y) % 256) (m.value y ≤ m.value x)
  | .subn x y =>
      m.assignFlagged x ((256 + m.value y - m.value x) % 256) (m.value x ≤ m.value y)
  | .shr x => m.assignFlagged x (m.value x / 2) (m.value x % 2 = 1)
  | .shl x => m.assignFlagged x (m.value x * 2 % 256) (128 ≤ m.value x)
  | .ldIndex a => { m with index := a }
  | .rnd x k =>
      let (drawn, random) := m.random.draw 0 0xFF
      { m.assign x (drawn.toNat &&& k.toNat) with random }
  | .drw x y height =>
      let picture px py :=
        if m.SpriteCovers (m.value x) (m.value y) height px py then m.pixel px py ^^^ 1
        else m.pixel px py
      (m.withPicture picture (m.screen.changed || m.SpriteLit height)).assign flagRegister
        (if m.SpriteHits (m.value x) (m.value y) height then 1 else 0)
  | .skp x => m.skipping m.keypad[m.value x % 16]
  | .sknp x => m.skipping !m.keypad[m.value x % 16]
  | .readDelay x => m.assign x m.delay.toNat
  | .waitKey x =>
      match (List.finRange 16).find? fun key => m.keypad[key] with
      | some key => m.assign x key.val
      | none => { m with pc := (m.pc - 2) % 0x1000 }
  | .setDelay x => { m with delay := m.value x }
  | .setSound x => { m with sound := m.value x }
  | .addIndex x => { m with index := (m.index + m.value x) % 0x10000 }
  | .glyph x => { m with index := 0x50 + 5 * (m.value x % 16 : Nat) }
  | .bcd x =>
      m.withMemory fun a =>
        if a = m.index % 0x1000 then m.value x / 100
        else if a = (m.index + 1) % 0x1000 then m.value x / 10 % 10
        else if a = (m.index + 2) % 0x1000 then m.value x % 10
        else (m.memory a).toNat
  | .save x =>
      m.withMemory fun a =>
        match (List.finRange 16).find? fun k => k ≤ x && (m.index + k.val) % 0x1000 = a with
        | some k => m.value k
        | none => (m.memory a).toNat
  | .restore x =>
      m.withValues fun r => if r ≤ x then (m.memory (m.index + r.val)).toNat else m.value r

theorem effect_ret {m : Machine} {a : Int} {rest : List Int}
    (entries : m.stack.entries = a :: rest) :
    m.effect .ret = { m with pc := a, stack := { m.stack with entries := rest } } := by
  simp only [effect, entries]

/-- A return without a call, or a call with no room for the return address. -/
def Refuses (m : Machine) : Instruction → Prop
  | .ret => m.stack.entries = []
  | .call _ => m.stack.entries.length = 16
  | _ => False

end Chip8.Machine
