import Chip8.Instruction.Decoding

/-!
The instruction table: the words of each instruction, and that decoding reads them.

`Instruction.EncodedAs` writes an instruction as its row of the table has it, with the operands in
their places. A word decodes to an instruction exactly if the instruction is encoded as that word
(`decode_eq_some_iff`), so no word belongs to two rows, and a word of no row decodes to nothing. The
second look-up never meets a family entry (`dispatch_finishes`).
-/

namespace Chip8

namespace Instruction

/-- The row of an instruction in the table: an address fills the low three digits of the word, a
register or a height one, a byte the low two. The shifts leave one digit open. -/
def EncodedAs (w : Int) : Instruction → Prop
  | .cls => w = 0x00E0
  | .ret => w = 0x00EE
  | .jp a => 0 ≤ a ∧ a < 0x1000 ∧ w = 0x1000 + a
  | .call a => 0 ≤ a ∧ a < 0x1000 ∧ w = 0x2000 + a
  | .seByte x k => w = 0x3000 + 0x100 * x.val + k.toNat
  | .sneByte x k => w = 0x4000 + 0x100 * x.val + k.toNat
  | .se x y => w = 0x5000 + 0x100 * x.val + 0x10 * y.val
  | .ldByte x k => w = 0x6000 + 0x100 * x.val + k.toNat
  | .addByte x k => w = 0x7000 + 0x100 * x.val + k.toNat
  | .ld x y => w = 0x8000 + 0x100 * x.val + 0x10 * y.val
  | .or x y => w = 0x8001 + 0x100 * x.val + 0x10 * y.val
  | .and x y => w = 0x8002 + 0x100 * x.val + 0x10 * y.val
  | .xor x y => w = 0x8003 + 0x100 * x.val + 0x10 * y.val
  | .add x y => w = 0x8004 + 0x100 * x.val + 0x10 * y.val
  | .sub x y => w = 0x8005 + 0x100 * x.val + 0x10 * y.val
  | .shr x => ∃ y : Digit, w = 0x8006 + 0x100 * x.val + 0x10 * y.val
  | .subn x y => w = 0x8007 + 0x100 * x.val + 0x10 * y.val
  | .shl x => ∃ y : Digit, w = 0x800E + 0x100 * x.val + 0x10 * y.val
  | .sne x y => w = 0x9000 + 0x100 * x.val + 0x10 * y.val
  | .ldIndex a => 0 ≤ a ∧ a < 0x1000 ∧ w = 0xA000 + a
  | .rnd x k => w = 0xC000 + 0x100 * x.val + k.toNat
  | .drw x y n => n < 16 ∧ w = 0xD000 + 0x100 * x.val + 0x10 * y.val + n
  | .skp x => w = 0xE09E + 0x100 * x.val
  | .sknp x => w = 0xE0A1 + 0x100 * x.val
  | .readDelay x => w = 0xF007 + 0x100 * x.val
  | .waitKey x => w = 0xF00A + 0x100 * x.val
  | .setDelay x => w = 0xF015 + 0x100 * x.val
  | .setSound x => w = 0xF018 + 0x100 * x.val
  | .addIndex x => w = 0xF01E + 0x100 * x.val
  | .glyph x => w = 0xF029 + 0x100 * x.val
  | .bcd x => w = 0xF033 + 0x100 * x.val
  | .save x => w = 0xF055 + 0x100 * x.val
  | .restore x => w = 0xF065 + 0x100 * x.val

theorem exists_call_encodedAs {w : Int} :
    (∃ a, (call a).EncodedAs w) ↔ 0x2000 ≤ w ∧ w < 0x3000 := by
  constructor
  · rintro ⟨a, nonneg, below, rfl⟩
    omega
  · intro family
    exact ⟨w - 0x2000, by omega, by omega, by omega⟩

end Instruction

/-! ### The bits that identify a word -/

/-- On hexadecimal numerals, `and` works digit by digit. -/
theorem and_digits (a b : Nat) {d e : Nat} (small : d < 16) (small' : e < 16) :
    (16 * a + d) &&& (16 * b + e) = 16 * (a &&& b) + (d &&& e) := by
  apply Nat.eq_of_testBit_eq
  intro j
  have lowDigit : ∀ (n : Nat) {k : Nat}, k < 16 → (16 * n + k).testBit j =
      if j < 4 then k.testBit j else n.testBit (j - 4) :=
    fun n _ below => Nat.testBit_two_pow_mul_add n (i := 4) below j
  rw [Nat.testBit_and, lowDigit a small, lowDigit b small',
    lowDigit (a &&& b) (Nat.and_lt_two_pow (n := 4) d small')]
  split <;> simp

theorem and_fifteen {d : Nat} (small : d < 16) : d &&& 15 = d := by
  rw [Nat.and_two_pow_sub_one_eq_mod d 4]
  omega

namespace Word

variable (w : Int)

/-- The last digit of a number, and the number without it. -/
theorem split_digit (w : Int) : ∃ (rest : Int) (d : Nat), d < 16 ∧ w = 16 * rest + d :=
  ⟨w / 16, (w % 16).toNat, by omega⟩

theorem low_digits : (w % 0x10000).toNat =
    16 * (16 * (16 * (family w).val + (x w).val) + (y w).val) + (digit w 1).val := by
  obtain ⟨a, d, _, rfl⟩ := split_digit w
  obtain ⟨b, e, _, rfl⟩ := split_digit a
  obtain ⟨c, f, _, rfl⟩ := split_digit b
  obtain ⟨q, g, _, rfl⟩ := split_digit c
  have last : (digit (16 * (16 * (16 * (16 * q + g) + f) + e) + d) 1).val = d := by
    simp only [digit]
    omega
  have third : (y (16 * (16 * (16 * (16 * q + g) + f) + e) + d)).val = e := by
    simp only [y, digit]
    omega
  have second : (x (16 * (16 * (16 * (16 * q + g) + f) + e) + d)).val = f := by
    simp only [x, digit]
    omega
  have first : (family (16 * (16 * (16 * (16 * q + g) + f) + e) + d)).val = g := by
    simp only [family, digit]
    omega
  rw [first, second, third, last]
  omega

/-- A word is the numeral of its four digits. -/
theorem eq_digits {w : Int} (inWord : 0 ≤ w ∧ w < 0x10000) :
    w = 0x1000 * (family w).val + 0x100 * (x w).val + 0x10 * (y w).val + nibble w := by
  have sum := low_digits w
  simp only [nibble]
  omega

theorem address_digits : address w = 0x100 * (x w).val + 0x10 * (y w).val + nibble w := by
  have sum := low_digits w
  have last := (digit w 1).isLt
  simp only [address, nibble]
  omega

theorem byte_digits : (byte w).toNat = 0x10 * (y w).val + nibble w := by
  have sum := low_digits w
  have last := (digit w 1).isLt
  simp only [byte, nibble, UInt8.toNat_ofNat']
  omega

theorem nibble_lt : nibble w < 16 := (digit w 1).isLt

/-- The first and the last digit of a word. -/
theorem masked_ends : masked w 0xF00F = 0x1000 * (family w).val + nibble w := by
  simp only [masked, low_digits]
  rw [show (0xF00F : Nat) = 16 * (16 * (16 * 15 + 0) + 0) + 15 from rfl,
    and_digits _ _ (digit w 1).isLt (by omega), and_digits _ _ (y w).isLt (by omega),
    and_digits _ _ (x w).isLt (by omega), and_fifteen (family w).isLt,
    and_fifteen (digit w 1).isLt]
  simp only [Nat.and_zero, nibble, Int.ofNat_eq_natCast]
  omega

/-- The first digit of a word and its low byte. -/
theorem masked_byte : masked w 0xF0FF = 0x1000 * (family w).val + (byte w).toNat := by
  simp only [masked, low_digits]
  rw [show (0xF0FF : Nat) = 16 * (16 * (16 * 15 + 0) + 15) + 15 from rfl,
    and_digits _ _ (digit w 1).isLt (by omega), and_digits _ _ (y w).isLt (by omega),
    and_digits _ _ (x w).isLt (by omega), and_fifteen (family w).isLt, and_fifteen (y w).isLt,
    and_fifteen (digit w 1).isLt, byte_digits]
  simp only [Nat.and_zero, nibble, Int.ofNat_eq_natCast]
  omega

end Word

namespace Decoding

open Word

/-! ### The table as a set of entries -/

theorem lookup_eq_some_iff {α : Type} {entries : List (Int × α)}
    (distinct : (entries.map Prod.fst).Nodup) {key : Int} {a : α} :
    entries.lookup key = some a ↔ (key, a) ∈ entries := by
  induction entries with
  | nil => simp
  | cons first rest ih =>
      obtain ⟨firstKey, b⟩ := first
      rw [List.map_cons, List.nodup_cons] at distinct
      by_cases here : key = firstKey
      · subst here
        have absent : (key, a) ∉ rest := fun member =>
          distinct.1 (List.mem_map.mpr ⟨_, member, rfl⟩)
        simp [absent, eq_comm]
      · have other : (key == firstKey) = false := by simpa using here
        simp [List.lookup_cons, other, ih distinct.2, here]

theorem lookup_table {key : Int} {entry : Entry} :
    table.lookup key = some entry ↔ (key, entry) ∈ table :=
  lookup_eq_some_iff (by decide)

/-- Only the sixteen lowest keys are kept for families. -/
theorem exact_key {key : Int} (member : (key, .exact) ∈ table) : key = 0 := by
  simpa [table] using member

theorem masked_key {key : Int} {mask : Nat} (member : (key, .masked mask) ∈ table) :
    mask = 0xF00F ∧ (key = 0x5 ∨ key = 0x8 ∨ key = 0x9) ∨
      mask = 0xF0FF ∧ (key = 0xE ∨ key = 0xF) := by
  simp [table] at member
  omega

/-! ### Dispatch -/

/-- The keys under which a word may be looked up. -/
inductive Reaches (w : Int) : Int → Prop where
  | family : Reaches w (family w).val
  | exact : (((family w).val : Int), .exact) ∈ table → 0x10 ≤ w → Reaches w w
  | masked {mask : Nat} : (((family w).val : Int), .masked mask) ∈ table →
      Reaches w (Word.masked w mask)

/-- The second look-up is under a key that is not kept for families. -/
theorem second_key {w : Int} {mask : Nat}
    (member : (((family w).val : Int), .masked mask) ∈ table) : 0x10 ≤ Word.masked w mask := by
  obtain ⟨rfl, _⟩ | ⟨rfl, _⟩ := masked_key member
  · rw [masked_ends]
    omega
  · rw [masked_byte]
    omega

/-- Where a look-up meets an instruction, the search ends with it. -/
theorem search_body {bound : Nat} {w key : Int} {form : Int → Instruction}
    (member : (key, .body form) ∈ table) :
    (search (bound + 1) w key).verdict = .found (form w) := by
  simp [search, lookup_table.mpr member]

/-- Where a second look-up meets no instruction, the search ends with nothing. -/
theorem search_second {w key : Int} (high : 0x10 ≤ key)
    (absent : ∀ form, (key, .body form) ∉ table) :
    (search 1 w key).verdict = .unsupported := by
  cases entry : table.lookup key with
  | none => simp [search, entry]
  | some found =>
      have member := lookup_table.mp entry
      cases found with
      | body form => exact absurd member (absent form)
      | exact =>
          have := exact_key member
          omega
      | masked mask =>
          have := masked_key member
          omega

theorem dispatch_exact {w : Int} (member : (((family w).val : Int), .exact) ∈ table)
    (high : 0x10 ≤ w) : (dispatch w).verdict = (search 1 w w).verdict := by
  have big : ¬ w < 0x10 := by omega
  rw [dispatch, search, lookup_table.mpr member]
  simp only [big, if_false]

theorem dispatch_masked {w : Int} {mask : Nat}
    (member : (((family w).val : Int), .masked mask) ∈ table) :
    (dispatch w).verdict = (search 1 w (Word.masked w mask)).verdict := by
  rw [dispatch, search, lookup_table.mpr member]

/-- A word that reaches an instruction is found to be it. -/
theorem dispatch_body {w key : Int} {form : Int → Instruction} (reached : Reaches w key)
    (member : (key, .body form) ∈ table) : (dispatch w).verdict = .found (form w) := by
  cases reached with
  | family => exact search_body member
  | exact entry high => rw [dispatch_exact entry high, search_body member]
  | masked entry => rw [dispatch_masked entry, search_body member]

/-- A word that reaches no instruction is unsupported. -/
theorem dispatch_missing {w : Int}
    (absent : ¬ ∃ key form, Reaches w key ∧ (key, .body form) ∈ table) :
    (dispatch w).verdict = .unsupported := by
  cases entry : table.lookup ((family w).val : Int) with
  | none => rw [dispatch, search, entry]
  | some found =>
      have member := lookup_table.mp entry
      cases found with
      | body form => exact absurd ⟨_, form, .family, member⟩ absent
      | exact =>
          by_cases low : w < 0x10
          · simp [dispatch, search, entry, low]
          · have high : 0x10 ≤ w := by omega
            rw [dispatch_exact member high]
            exact search_second high fun form second =>
              absent ⟨w, form, .exact member high, second⟩
      | masked mask =>
          rw [dispatch_masked member]
          exact search_second (second_key member) fun form second =>
            absent ⟨_, form, .masked member, second⟩

/-- The search always ends within its two look-ups. -/
theorem dispatch_finishes (w : Int) : (dispatch w).verdict ≠ .unfinished := by
  by_cases found : ∃ key form, Reaches w key ∧ (key, .body form) ∈ table
  · obtain ⟨key, form, reached, member⟩ := found
    rw [dispatch_body reached member]
    exact Verdict.noConfusion
  · rw [dispatch_missing found]
    exact Verdict.noConfusion

theorem decode_eq_some_iff_reaches {w : Int} {i : Instruction} :
    decode w = some i ↔ ∃ key form, Reaches w key ∧ (key, .body form) ∈ table ∧ form w = i := by
  constructor
  · intro decoded
    by_cases found : ∃ key form, Reaches w key ∧ (key, .body form) ∈ table
    · obtain ⟨key, form, reached, member⟩ := found
      rw [decode, dispatch_body reached member] at decoded
      exact ⟨key, form, reached, member, Option.some.inj decoded⟩
    · rw [decode, dispatch_missing found] at decoded
      cases decoded
  · rintro ⟨key, form, reached, member, rfl⟩
    rw [decode, dispatch_body reached member]

/-! ### Decoding against the table -/

/-- Which keys a word reaches, by its digits. -/
theorem reaches_iff {w key : Int} : Reaches w key ↔
    key = (family w).val ∨ ((family w).val = 0 ∧ 0x10 ≤ w ∧ key = w) ∨
      (((family w).val = 5 ∨ (family w).val = 8 ∨ (family w).val = 9) ∧
        key = 0x1000 * (family w).val + nibble w) ∨
      (((family w).val = 14 ∨ (family w).val = 15) ∧
        key = 0x1000 * (family w).val + (byte w).toNat) := by
  constructor
  · intro reached
    cases reached with
    | family => exact .inl rfl
    | exact member high =>
        have := exact_key member
        omega
    | masked member =>
        obtain ⟨rfl, _⟩ | ⟨rfl, _⟩ := masked_key member
        · rw [masked_ends]
          omega
        · rw [masked_byte]
          omega
  · rintro (rfl | ⟨zero, high, rfl⟩ | ⟨families, rfl⟩ | ⟨families, rfl⟩)
    · exact .family
    · exact .exact (by rw [zero]; simp [table]) high
    · rw [← masked_ends]
      refine .masked ?_
      rcases families with five | eight | nine <;> simp [table, *]
    · rw [← masked_byte]
      refine .masked ?_
      rcases families with fourteen | fifteen <;> simp [table, *]

theorem encodedAs_of_decode {w : Int} (inWord : 0 ≤ w ∧ w < 0x10000) {i : Instruction}
    (decoded : decode w = some i) : i.EncodedAs w := by
  obtain ⟨key, form, reached, member, rfl⟩ := decode_eq_some_iff_reaches.mp decoded
  have sum := eq_digits inWord
  have last := nibble_lt w
  rw [reaches_iff, byte_digits] at reached
  simp only [table, List.mem_cons, Prod.mk.injEq, reduceCtorEq, and_false, Entry.body.injEq,
    false_or, List.not_mem_nil, or_false] at member
  rcases member with ⟨rfl, rfl⟩ | ⟨rfl, rfl⟩ | ⟨rfl, rfl⟩ | ⟨rfl, rfl⟩ | ⟨rfl, rfl⟩ | ⟨rfl, rfl⟩ |
    ⟨rfl, rfl⟩ | ⟨rfl, rfl⟩ | ⟨rfl, rfl⟩ | ⟨rfl, rfl⟩ | ⟨rfl, rfl⟩ | ⟨rfl, rfl⟩ | ⟨rfl, rfl⟩ |
    ⟨rfl, rfl⟩ | ⟨rfl, rfl⟩ | ⟨rfl, rfl⟩ | ⟨rfl, rfl⟩ | ⟨rfl, rfl⟩ | ⟨rfl, rfl⟩ | ⟨rfl, rfl⟩ |
    ⟨rfl, rfl⟩ | ⟨rfl, rfl⟩ | ⟨rfl, rfl⟩ | ⟨rfl, rfl⟩ | ⟨rfl, rfl⟩ | ⟨rfl, rfl⟩ | ⟨rfl, rfl⟩ |
    ⟨rfl, rfl⟩ | ⟨rfl, rfl⟩ | ⟨rfl, rfl⟩ | ⟨rfl, rfl⟩ | ⟨rfl, rfl⟩ | ⟨rfl, rfl⟩
  all_goals
    simp only [Instruction.EncodedAs, byte_digits, address_digits]
  any_goals omega
  all_goals
    exact ⟨Word.y w, by omega⟩

/-! The other direction, for each way of placing the operands. -/

section Placed

variable {w base : Int} {x y : Digit}

theorem decode_of_lookup {key : Int} {form : Int → Instruction} (reached : Reaches w key)
    (entry : table.lookup key = some (.body form)) : decode w = some (form w) :=
  decode_eq_some_iff_reaches.mpr ⟨key, form, reached, lookup_table.mp entry, rfl⟩

theorem decode_address {a : Int} {form : Int → Instruction}
    (entry : table.lookup (base / 0x1000) = some (.body fun w => form (address w)))
    (aligned : base % 0x1000 = 0 ∧ 0 ≤ base ∧ base < 0x10000)
    (encoded : 0 ≤ a ∧ a < 0x1000 ∧ w = base + a) : decode w = some (form a) := by
  have sum := eq_digits (w := w) (by omega)
  have operand := address_digits w
  have last := nibble_lt w
  obtain rfl : a = address w := by omega
  exact decode_of_lookup (reaches_iff.mpr (by omega)) entry

theorem decode_byte {k : UInt8} {form : Digit → UInt8 → Instruction}
    (entry : table.lookup (base / 0x1000) = some (.body fun w => form (Word.x w) (byte w)))
    (aligned : base % 0x1000 = 0 ∧ 0 ≤ base ∧ base < 0x10000)
    (encoded : w = base + 0x100 * x.val + k.toNat) : decode w = some (form x k) := by
  have small := k.toNat_lt
  have sum := eq_digits (w := w) (by omega)
  have operand := byte_digits w
  have last := nibble_lt w
  obtain rfl : x = Word.x w := Fin.ext (by omega)
  obtain rfl : k = byte w := UInt8.toNat_inj.mp (by omega)
  exact decode_of_lookup (reaches_iff.mpr (by omega)) entry

theorem decode_registers {f : Digit → Digit → Instruction}
    (entry : table.lookup base = some (.body fun w => f (Word.x w) (Word.y w)))
    (aligned : base / 0x1000 = 5 ∨ base / 0x1000 = 8 ∨ base / 0x1000 = 9)
    (last : base % 0x1000 < 0x10)
    (encoded : w = base + 0x100 * x.val + 0x10 * y.val) : decode w = some (f x y) := by
  have sum := eq_digits (w := w) (by omega)
  have last := nibble_lt w
  obtain rfl : x = Word.x w := Fin.ext (by omega)
  obtain rfl : y = Word.y w := Fin.ext (by omega)
  exact decode_of_lookup (reaches_iff.mpr (by omega)) entry

theorem decode_register {form : Digit → Instruction}
    (entry : table.lookup base = some (.body fun w => form (Word.x w)))
    (aligned : base / 0x1000 = 14 ∨ base / 0x1000 = 15) (low : base % 0x1000 < 0x100)
    (encoded : w = base + 0x100 * x.val) : decode w = some (form x) := by
  have sum := eq_digits (w := w) (by omega)
  have operand := byte_digits w
  have last := nibble_lt w
  obtain rfl : x = Word.x w := Fin.ext (by omega)
  exact decode_of_lookup (reaches_iff.mpr (by omega)) entry

end Placed

/-- A word reaches the entry of the instruction that it encodes. -/
theorem decode_of_encodedAs {w : Int} {i : Instruction} (encoded : i.EncodedAs w) :
    decode w = some i := by
  cases i with
  | cls =>
      cases encoded
      rfl
  | ret =>
      cases encoded
      rfl
  | jp a => exact decode_address rfl (by decide) encoded
  | call a => exact decode_address rfl (by decide) encoded
  | ldIndex a => exact decode_address rfl (by decide) encoded
  | seByte x k => exact decode_byte rfl (by decide) encoded
  | sneByte x k => exact decode_byte rfl (by decide) encoded
  | ldByte x k => exact decode_byte rfl (by decide) encoded
  | addByte x k => exact decode_byte rfl (by decide) encoded
  | rnd x k => exact decode_byte rfl (by decide) encoded
  | se x y => exact decode_registers rfl (by decide) (by decide) encoded
  | sne x y => exact decode_registers rfl (by decide) (by decide) encoded
  | ld x y => exact decode_registers rfl (by decide) (by decide) encoded
  | or x y => exact decode_registers rfl (by decide) (by decide) encoded
  | and x y => exact decode_registers rfl (by decide) (by decide) encoded
  | xor x y => exact decode_registers rfl (by decide) (by decide) encoded
  | add x y => exact decode_registers rfl (by decide) (by decide) encoded
  | sub x y => exact decode_registers rfl (by decide) (by decide) encoded
  | subn x y => exact decode_registers rfl (by decide) (by decide) encoded
  | shr x =>
      obtain ⟨y, encoded⟩ := encoded
      exact decode_registers (f := fun x _ => .shr x) rfl (by decide) (by decide) encoded
  | shl x =>
      obtain ⟨y, encoded⟩ := encoded
      exact decode_registers (f := fun x _ => .shl x) rfl (by decide) (by decide) encoded
  | drw x y n =>
      obtain ⟨small, encoded⟩ := encoded
      have sum := eq_digits (w := w) (by omega)
      have last := nibble_lt w
      obtain rfl : x = Word.x w := Fin.ext (by omega)
      obtain rfl : y = Word.y w := Fin.ext (by omega)
      obtain rfl : n = nibble w := by omega
      have reached : Reaches w 0xD := reaches_iff.mpr (by omega)
      exact decode_of_lookup reached rfl
  | skp x => exact decode_register rfl (by decide) (by decide) encoded
  | sknp x => exact decode_register rfl (by decide) (by decide) encoded
  | readDelay x => exact decode_register rfl (by decide) (by decide) encoded
  | waitKey x => exact decode_register rfl (by decide) (by decide) encoded
  | setDelay x => exact decode_register rfl (by decide) (by decide) encoded
  | setSound x => exact decode_register rfl (by decide) (by decide) encoded
  | addIndex x => exact decode_register rfl (by decide) (by decide) encoded
  | glyph x => exact decode_register rfl (by decide) (by decide) encoded
  | bcd x => exact decode_register rfl (by decide) (by decide) encoded
  | save x => exact decode_register rfl (by decide) (by decide) encoded
  | restore x => exact decode_register rfl (by decide) (by decide) encoded

/-- Decoding reads the instruction table. -/
theorem decode_eq_some_iff {w : Int} (inWord : 0 ≤ w ∧ w < 0x10000) {i : Instruction} :
    decode w = some i ↔ i.EncodedAs w :=
  ⟨encodedAs_of_decode inWord, decode_of_encodedAs⟩

theorem decode_eq_none_iff {w : Int} (inWord : 0 ≤ w ∧ w < 0x10000) :
    decode w = none ↔ ∀ i : Instruction, ¬ i.EncodedAs w := by
  simp only [Option.eq_none_iff_forall_ne_some, ne_eq, decode_eq_some_iff inWord]

end Decoding

/-- No word belongs to two instructions. -/
theorem Instruction.EncodedAs.unique {w : Int} {i j : Instruction} (first : i.EncodedAs w)
    (second : j.EncodedAs w) : i = j :=
  Option.some.inj ((Decoding.decode_of_encodedAs first).symm.trans
    (Decoding.decode_of_encodedAs second))

end Chip8
