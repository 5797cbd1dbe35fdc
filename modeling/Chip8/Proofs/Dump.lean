import Chip8.Proofs.Preservation
import Mathlib.Algebra.Group.Int.Defs
import Mathlib.Algebra.Group.Nat.Defs

/-!
What a dump tells.

Every number of a dump stands in a field that is just wide enough for it, so the field has the same width
whatever the number is (`Hex.toList_padded`), and it can be told from what follows. The text of the
instruction ends with its line. The stack comes last, and an empty one is spelled out. So two machines with
the same dump agree on all that the dump is about (`Machine.dump_determines`).
-/

namespace Chip8

namespace Hex

/-! ### Fields -/

/-- The last digits of a number in exactly `width` places. -/
def places : (width n : Nat) → List Char
  | 0, _ => []
  | width + 1, n => places width (n / 16) ++ [Nat.digitChar (n % 16)]

theorem length_places (width n : Nat) : (places width n).length = width := by
  induction width generalizing n with
  | zero => rfl
  | succ width ih => rw [places, List.length_append, ih, List.length_singleton]

theorem digitChar_inj {d d' : Nat} (small : d < 16) (small' : d' < 16)
    (same : Nat.digitChar d = Nat.digitChar d') : d = d' := by
  have all : ∀ d < 16, ∀ d' < 16, Nat.digitChar d = Nat.digitChar d' → d = d' := by decide
  exact all d small d' small' same

/-- A number that fits in its places can be read off them. -/
theorem places_inj {width n n' : Nat} (fits : n < 16 ^ width) (fits' : n' < 16 ^ width)
    (same : places width n = places width n') : n = n' := by
  induction width generalizing n n' with
  | zero => omega
  | succ width ih =>
      rw [Nat.pow_succ] at fits fits'
      obtain ⟨front, last⟩ := List.append_inj' same rfl
      have quotient := ih (by omega) (by omega) front
      have remainder := digitChar_inj (Nat.mod_lt n (by decide)) (Nat.mod_lt n' (by decide))
        (List.singleton_inj.mp last)
      omega

theorem places_zero (width : Nat) : places width 0 = List.replicate width '0' := by
  induction width with
  | zero => rfl
  | succ width ih => rw [places, Nat.zero_div, ih, List.replicate_succ']; rfl

/-- A number that fits fills the field with its digits and zeros in front of them. -/
theorem places_eq {width n : Nat} (fits : n < 16 ^ (width + 1)) :
    places (width + 1) n =
      List.replicate (width + 1 - (Nat.toDigits 16 n).length) '0' ++ Nat.toDigits 16 n := by
  induction width generalizing n with
  | zero =>
      have small : n < 16 := by omega
      rw [Nat.toDigits_of_lt_base small, places, places, Nat.mod_eq_of_lt small]
      rfl
  | succ width ih =>
      rw [places]
      by_cases small : n < 16
      · rw [Nat.div_eq_of_lt small, places_zero, Nat.toDigits_of_lt_base small,
          Nat.mod_eq_of_lt small]
        rfl
      · have fits' : n / 16 < 16 ^ (width + 1) := by
          rw [Nat.pow_succ] at fits
          omega
        rw [ih fits', Nat.toDigits_eq_if (b := 16) (n := n) (by decide), if_neg small]
        simp

/-- A field that is wide enough has its width. -/
theorem toList_padded {width : Nat} {n : Int} (fits : 0 ≤ n ∧ n.toNat < 16 ^ (width + 1)) :
    (padded (width + 1) n).toList = places (width + 1) n.toNat := by
  have unsigned : ¬ n < 0 := Int.not_lt.mpr fits.1
  have magnitude : n.natAbs = n.toNat := by omega
  rw [places_eq fits.2, padded, if_neg unsigned, String.toList_ofList, magnitude]
  rfl

theorem byteChars_eq (b : UInt8) : byteChars b = places 2 b.toNat := by
  have small := b.toNat_lt
  have high : b.toNat / 16 % 16 = b.toNat / 16 := Nat.mod_eq_of_lt (by omega)
  rw [places, places, places, high]
  rfl

theorem toList_bytes_cons (b : UInt8) (bs : List UInt8) :
    (bytes (b :: bs)).toList = places 2 b.toNat ++ (bytes bs).toList := by
  rw [bytes, String.toList_ofList, List.flatMap_cons, byteChars_eq, bytes, String.toList_ofList]

/-! ### Fields in front of other text -/

section Read

variable {rest rest' : String}

/-- A number in a field that is wide enough can be told from what stands behind it. -/
theorem padded_append_inj {width : Nat} {n n' : Int}
    (fits : 0 ≤ n ∧ n.toNat < 16 ^ (width + 1)) (fits' : 0 ≤ n' ∧ n'.toNat < 16 ^ (width + 1))
    (same : padded (width + 1) n ++ rest = padded (width + 1) n' ++ rest') :
    n = n' ∧ rest = rest' := by
  have chars := congrArg String.toList same
  simp only [String.toList_append, toList_padded fits, toList_padded fits'] at chars
  have widths : (places (width + 1) n.toNat).length = (places (width + 1) n'.toNat).length := by
    rw [length_places, length_places]
  obtain ⟨digits, behind⟩ := List.append_inj chars widths
  have value := places_inj fits.2 fits'.2 digits
  exact ⟨by omega, String.toList_inj.mp behind⟩

theorem bytes_append_inj {bs bs' : List UInt8} (lengths : bs.length = bs'.length)
    (same : bytes bs ++ rest = bytes bs' ++ rest') : bs = bs' ∧ rest = rest' := by
  have chars := congrArg String.toList same
  simp only [String.toList_append] at chars
  clear same
  induction bs generalizing bs' with
  | nil =>
      obtain rfl := List.eq_nil_of_length_eq_zero lengths.symm
      exact ⟨rfl, String.toList_inj.mp chars⟩
  | cons b bs ih =>
      cases bs' with
      | nil => cases lengths
      | cons b' bs' =>
          rw [toList_bytes_cons, toList_bytes_cons, List.append_assoc, List.append_assoc] at chars
          obtain ⟨first, others⟩ := List.append_inj chars (by rw [length_places, length_places])
          have value : b.toNat = b'.toNat := places_inj (by exact b.toNat_lt) (by exact b'.toNat_lt) first
          obtain ⟨rfl, behind⟩ := ih (Nat.succ.inj lengths) others
          exact ⟨by rw [UInt8.toNat_inj.mp value], behind⟩

end Read

end Hex

/-- A line can be told from what stands behind it. -/
theorem Text.line_append_inj {line line' rest rest' : String} (single : OneLine line)
    (single' : OneLine line') (same : line ++ ("\n" ++ rest) = line' ++ ("\n" ++ rest')) :
    line = line' ∧ rest = rest' := by
  have until_break {chars : List Char} (absent : '\n' ∉ chars) (others : List Char) :
      (chars ++ '\n' :: others).takeWhile (· ≠ '\n') = chars := by
    have before : ∀ c ∈ chars, decide (c ≠ '\n') = true := fun c member =>
      decide_eq_true fun newline => absent (newline ▸ member)
    rw [List.takeWhile_append_of_pos before]
    simp
  have chars : line.toList ++ '\n' :: rest.toList = line'.toList ++ '\n' :: rest'.toList := by
    simpa using congrArg String.toList same
  have lines : line.toList = line'.toList := by
    rw [← until_break single rest.toList, chars, until_break single']
  rw [lines] at chars
  have behind := List.tail_eq_of_cons_eq (List.append_cancel_left chars)
  exact ⟨String.toList_inj.mp lines, String.toList_inj.mp behind⟩

namespace Machine

variable {m m' : Machine}

/-- A field with a label in front of it. -/
theorem field_append_inj (label : String) {width : Nat} {n n' : Int} {rest rest' : String}
    (fits : 0 ≤ n ∧ n < 16 ^ (width + 1)) (fits' : 0 ≤ n' ∧ n' < 16 ^ (width + 1))
    (same : label ++ (Hex.padded (width + 1) n ++ rest) =
      label ++ (Hex.padded (width + 1) n' ++ rest')) : n = n' ∧ rest = rest' := by
  have room {k : Int} (fits : 0 ≤ k ∧ k < 16 ^ (width + 1)) : 0 ≤ k ∧ k.toNat < 16 ^ (width + 1) :=
    ⟨fits.1, (Int.toNat_lt fits.1).mpr (by exact_mod_cast fits.2)⟩
  exact Hex.padded_append_inj (room fits) (room fits') (String.append_right_inj label |>.mp same)

/-! ### The stack -/

/-- Addresses stand in fields of one width, so a list of them can be told from its text. -/
theorem join_inj {items items' : List Int} (inside : ∀ a ∈ items, 0 ≤ a ∧ a < 0x1000)
    (inside' : ∀ a ∈ items', 0 ≤ a ∧ a < 0x1000)
    (same : String.join (items.map fun a => " 0x" ++ Hex.padded 3 a) =
      String.join (items'.map fun a => " 0x" ++ Hex.padded 3 a)) : items = items' := by
  induction items generalizing items' with
  | nil =>
      cases items' with
      | nil => rfl
      | cons a' rest' => simp [← String.toList_inj] at same
  | cons a rest ih =>
      cases items' with
      | nil => simp [← String.toList_inj] at same
      | cons a' rest' =>
          obtain ⟨first, others⟩ := List.forall_mem_cons.mp inside
          obtain ⟨first', others'⟩ := List.forall_mem_cons.mp inside'
          simp only [List.map_cons, String.join_cons, String.append_assoc] at same
          obtain ⟨rfl, behind⟩ := field_append_inj " 0x" first first' same
          rw [ih others others' behind]

/-- The word for an empty stack is not the beginning of a list of addresses. -/
theorem stackLine_inj (formed : m.WellFormed) (formed' : m'.WellFormed)
    (same : m.stackLine = m'.stackLine) : m.stack.items = m'.stack.items := by
  have empty (rest : String) : "Stack: (Empty)" ≠ "Stack:" ++ (" 0x" ++ rest) := by
    intro same
    simp [← String.toList_inj] at same
  have inside : ∀ a ∈ m.stack.items, 0 ≤ a ∧ a < 0x1000 := fun a member =>
    formed.returns a (List.mem_reverse.mp member)
  have inside' : ∀ a ∈ m'.stack.items, 0 ≤ a ∧ a < 0x1000 := fun a member =>
    formed'.returns a (List.mem_reverse.mp member)
  unfold stackLine at same
  generalize m.stack.items = items at same inside ⊢
  generalize m'.stack.items = items' at same inside' ⊢
  match items, items' with
  | [], [] => rfl
  | [], a' :: rest' =>
      simp only [List.map_cons, String.join_cons, String.append_assoc] at same
      exact absurd same (empty _)
  | a :: rest, [] =>
      simp only [List.map_cons, String.join_cons, String.append_assoc] at same
      exact absurd same.symm (empty _)
  | a :: rest, a' :: rest' => exact join_inj inside inside' (String.append_right_inj _ |>.mp same)

/-! ### Dumps -/

/-- A well-formed machine whose word is one, and comes from an address. -/
structure Stepped (m : Machine) : Prop where
  formed : m.WellFormed
  origin : 0 ≤ m.origin ∧ m.origin < 0x1000
  word : 0 ≤ m.word ∧ m.word < 0x10000

/-- Steps leave such machines, whether or not they halt. -/
theorem stepped_step (formed : m.WellFormed) : m.step.machine.Stepped := by
  have unmoved (i : Instruction) :
      (m.fetched.effect i).origin = m.pc ∧ (m.fetched.effect i).word = m.nextWord := by
    cases i with
    | ret => cases entries : m.fetched.stack.entries <;> simp only [effect, entries] <;> exact ⟨rfl, rfl⟩
    | waitKey x =>
        simp only [effect]
        split <;> exact ⟨rfl, rfl⟩
    | _ => exact ⟨rfl, rfl⟩
  have kept : m.step.machine.origin = m.pc ∧ m.step.machine.word = m.nextWord := by
    have ended := step_stepsTo formed
    generalize m.step = outcome at ended
    cases ended with
    | @runs i _ _ => exact unmoved i
    | refuses => exact ⟨rfl, rfl⟩
    | unsupported => exact ⟨rfl, rfl⟩
  exact
    { formed := step_wellFormed formed
      origin := kept.1 ▸ formed.pc
      word := kept.2 ▸ m.nextWord_inWord }

/-- **A dump loses nothing.** After a step each, two machines give the same dump, with the text of an
instruction that stays on its line, exactly if they agree on all registers, the timers, the address and
the word that was fetched, on that text and on the whole stack. -/
theorem dump_determines (stepped : m.Stepped) (stepped' : m'.Stepped) {text text' : String}
    (single : Text.OneLine text) (single' : Text.OneLine text') :
    m.dumpWithStack text = m'.dumpWithStack text' ↔
      m.registers = m'.registers ∧ m.index = m'.index ∧ m.delay = m'.delay ∧ m.sound = m'.sound ∧
        m.origin = m'.origin ∧ m.word = m'.word ∧ text = text' ∧ m.stack.items = m'.stack.items := by
  constructor
  · intro same
    have formed := stepped.formed
    have formed' := stepped'.formed
    rw [dumpWithStack, dumpWithStack, dump_eq, dump_eq] at same
    simp only [String.append_assoc] at same
    have bytes := String.append_right_inj _ |>.mp same
    obtain ⟨registers, fields⟩ := Hex.bytes_append_inj (by simp) bytes
    obtain ⟨index, fields⟩ := field_append_inj _ formed.index formed'.index fields
    obtain ⟨delay, fields⟩ := field_append_inj _ formed.delay formed'.delay fields
    obtain ⟨sound, fields⟩ := field_append_inj _ formed.sound formed'.sound fields
    obtain ⟨origin, fields⟩ := field_append_inj _ stepped.origin stepped'.origin fields
    obtain ⟨word, fields⟩ := field_append_inj _ stepped.word stepped'.word fields
    have lines := String.append_right_inj _ |>.mp fields
    obtain ⟨shown, stack⟩ := Text.line_append_inj single single' lines
    exact ⟨Vector.toList_inj.mp (List.reverse_inj.mp registers), index, delay, sound, origin, word,
      shown, stackLine_inj formed formed' stack⟩
  · rintro ⟨registers, index, delay, sound, origin, word, rfl, items⟩
    rw [dumpWithStack, dumpWithStack, dump_eq, dump_eq, stackLine, stackLine, registers, index, delay,
      sound, origin, word, items]

/-- The dump tells which of two return addresses was pushed last, and an empty stack from one that holds
the address 0. -/
theorem dump_determines_order :
    let dumped (entries : List Int) : Machine :=
      ({ create false false (.cycle #[]) with stack := ⟨entries, 16⟩ } : Machine).step.machine
    (dumped [0x30A, 0x202]).Stepped ∧ (dumped [0x202, 0x30A]).Stepped ∧ (dumped []).Stepped ∧
      (dumped [0]).Stepped ∧ Text.OneLine "???" ∧
      (dumped [0x30A, 0x202]).dumpWithStack "???" ≠ (dumped [0x202, 0x30A]).dumpWithStack "???" ∧
      (dumped []).dumpWithStack "???" ≠ (dumped [0]).dumpWithStack "???" := by
  intro dumped
  have stepped (entries : List Int) (inside : ∀ a ∈ entries, 0 ≤ a ∧ a < 0x1000)
      (few : entries.length ≤ 16) : (dumped entries).Stepped :=
    stepped_step
      { create_wellFormed false false (.cycle #[]) with
        returns := inside
        depth := few
        capacity := rfl }
  have later := stepped [0x30A, 0x202] (by decide) (by decide)
  have earlier := stepped [0x202, 0x30A] (by decide) (by decide)
  have none := stepped [] (by decide) (by decide)
  have zero := stepped [0] (by decide) (by decide)
  have single : Text.OneLine "???" := by decide
  have order : (dumped [0x30A, 0x202]).stack.items ≠ (dumped [0x202, 0x30A]).stack.items := by
    decide +kernel
  have depth : (dumped []).stack.items ≠ (dumped [0]).stack.items := by decide +kernel
  refine ⟨later, earlier, none, zero, single, fun same => order ?_, fun same => depth ?_⟩
  · exact ((dump_determines later earlier single single).mp same).2.2.2.2.2.2.2
  · exact ((dump_determines none zero single single).mp same).2.2.2.2.2.2.2

end Machine

end Chip8
