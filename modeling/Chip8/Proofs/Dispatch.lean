import Chip8.Machine.Execution
import Chip8.Proofs.Encoding

/-!
Dispatch of words of any size.

The word of a machine is an integer that somebody may have set by hand, negative or wider than sixteen
bits. The search for its instruction is bounded in its definition, but it never needs the bound: a finished
search goes the same way with more look-ups to spare (`search_add`), and two are always enough, since the
second key is none of the sixteen that are kept for families (`keys_dispatch`). Whole words are looked up
in family 0 alone, so everywhere else the upper bits do not matter (`dispatch_congr`).
-/

namespace Chip8

namespace Word

variable {w w' : Int}

/-- Words with the same low sixteen bits have the same fields. -/
structure SameFields (w w' : Int) : Prop where
  family : family w' = family w
  x : x w' = x w
  y : y w' = y w
  nibble : nibble w' = nibble w
  address : address w' = address w
  byte : byte w' = byte w
  masked : ∀ mask, masked w' mask = masked w mask

theorem sameFields (same : w' % 0x10000 = w % 0x10000) : SameFields w w' := by
  have digits := low_digits w
  have digits' := low_digits w'
  have last := (digit w 1).isLt
  have last' := (digit w' 1).isLt
  rw [same] at digits'
  have low : Word.nibble w' = Word.nibble w := by
    simp only [Word.nibble]
    omega
  have third : Word.y w' = Word.y w := Fin.ext (by omega)
  have second : Word.x w' = Word.x w := Fin.ext (by omega)
  have operand : Word.byte w' = Word.byte w := by
    apply UInt8.toNat_inj.mp
    rw [byte_digits, byte_digits, third, low]
  exact
    { family := Fin.ext (by omega)
      x := second
      y := third
      nibble := low
      address := by rw [address_digits, address_digits, second, third, low]
      byte := operand
      masked := fun mask => by rw [Word.masked, Word.masked, same] }

end Word

namespace Decoding

open Word

variable {w w' key : Int} {bound : Nat}

/-! ### Bounds do not matter -/

/-- More look-ups to spare do not change a search that has finished. -/
theorem search_add (finished : (search bound w key).verdict ≠ .unfinished) (more : Nat) :
    search (bound + more) w key = search bound w key := by
  induction bound generalizing key with
  | zero => exact absurd rfl finished
  | succ bound ih =>
      rw [Nat.add_right_comm]
      unfold search at finished ⊢
      cases entry : table.lookup key with
      | none => rfl
      | some found =>
          rw [entry] at finished
          cases found with
          | body form => rfl
          | exact =>
              by_cases low : w < 0x10
              · simp only [low, if_true]
              · simp only [low, if_false] at finished ⊢
                rw [ih finished]
          | masked mask =>
              dsimp only at finished ⊢
              rw [ih finished]

/-! ### The second look-up -/

/-- Under the keys that are not kept for families, there are instructions alone. -/
theorem body_of_high {entry : Entry} (high : 0x10 ≤ key) (member : (key, entry) ∈ table) :
    ∃ form, entry = .body form := by
  cases entry with
  | body form => exact ⟨form, rfl⟩
  | exact =>
      have := exact_key member
      omega
  | masked mask =>
      have := masked_key member
      omega

theorem keys_search_one : (search 1 w key).keys = [key] := by
  unfold search
  cases table.lookup key with
  | none => rfl
  | some found =>
      cases found with
      | body form => rfl
      | exact =>
          dsimp only
          split <;> rfl
      | masked mask => rfl

/-- The first key is the family of the word. If there is a second one, no family has it. -/
theorem keys_dispatch (w : Int) :
    (dispatch w).keys = [((family w).val : Int)] ∨
      ∃ key, (dispatch w).keys = [((family w).val : Int), key] ∧ 0x10 ≤ key := by
  unfold dispatch search
  cases entry : table.lookup ((family w).val : Int) with
  | none => exact .inl rfl
  | some found =>
      have member := lookup_table.mp entry
      cases found with
      | body form => exact .inl rfl
      | exact =>
          by_cases low : w < 0x10
          · simp only [low, if_true]
            exact .inl trivial
          · simp only [low, if_false, keys_search_one]
            exact .inr ⟨w, rfl, by omega⟩
      | masked mask =>
          simp only [keys_search_one]
          exact .inr ⟨_, rfl, second_key member⟩

/-! ### The upper bits -/

/-- An instruction holds the fields of its word and nothing else. -/
theorem form_congr {form : Int → Instruction} (same : SameFields w w')
    (member : (key, .body form) ∈ table) : form w' = form w := by
  have all : ∀ entry ∈ table, ∀ form, entry.2 = .body form → form w' = form w := by
    simp [table, same.x, same.y, same.nibble, same.address, same.byte]
  exact all _ member form rfl

theorem search_congr (same : SameFields w w') (high : 0x10 ≤ key) :
    search (bound + 1) w' key = search (bound + 1) w key := by
  unfold search
  cases entry : table.lookup key with
  | none => rfl
  | some found =>
      have member := lookup_table.mp entry
      obtain ⟨form, rfl⟩ := body_of_high high member
      dsimp only
      rw [form_congr same member]

/-- Outside family 0, the search goes by the low sixteen bits. -/
theorem dispatch_congr (outside : family w ≠ 0) (same : SameFields w w') :
    dispatch w' = dispatch w := by
  unfold dispatch
  rw [same.family]
  unfold search
  cases entry : table.lookup ((family w).val : Int) with
  | none => rfl
  | some found =>
      have member := lookup_table.mp entry
      cases found with
      | body form =>
          dsimp only
          rw [form_congr same member]
      | exact =>
          have zero := exact_key member
          exact absurd (Fin.ext (by omega)) outside
      | masked mask =>
          dsimp only
          rw [same.masked, search_congr same (second_key member)]

/-- Where the instructions are in the table: under the digits of families, or under words of them. -/
theorem body_key {form : Int → Instruction} (member : (key, .body form) ∈ table) :
    0 < key ∧ key < 0x10 ∨ key = 0x00E0 ∨ key = 0x00EE ∨ 0x5000 ≤ key ∧ key < 0x10000 := by
  have all : ∀ entry ∈ table, (∃ form, entry.2 = .body form) →
      0 < entry.1 ∧ entry.1 < 0x10 ∨ entry.1 = 0x00E0 ∨ entry.1 = 0x00EE ∨
        0x5000 ≤ entry.1 ∧ entry.1 < 0x10000 := by
    simp [table]
  exact all _ member ⟨form, rfl⟩

/-- In family 0 there are two instructions, and each is one word only. -/
theorem verdict_of_family_zero (inside : family w = 0) :
    (dispatch w).verdict =
      if w = 0x00E0 then .found .cls else if w = 0x00EE then .found .ret else .unsupported := by
  split
  · next clears =>
      subst clears
      rfl
  · next others =>
      split
      · next returns =>
          subst returns
          rfl
      · next others' =>
          apply dispatch_missing
          rintro ⟨key, form, reached, member⟩
          have zero : (family w).val = 0 := by rw [inside]; rfl
          have only : key = 0 ∨ (0x10 ≤ w ∧ key = w) := by
            rw [reaches_iff, zero] at reached
            omega
          have keys := body_key member
          simp only [family, digit] at zero
          omega

/-- **Dispatch ends, and no family leads back to a family.** Whatever integer a word is, its search has
one look-up or two and ends with them; more look-ups to spare would not change it. The second key is none
of the sixteen that are kept for families, and what stands under it is an instruction. Outside family 0
the low sixteen bits of a word decide which instruction it is, operands included. In family 0 the two
words `0x00E0` and `0x00EE` are instructions, and machines treat every other one as unsupported. -/
theorem dispatch_terminates (w : Int) :
    (∀ spare, search (2 + spare) w (family w).val = dispatch w) ∧
    (dispatch w).verdict ≠ .unfinished ∧
    ((dispatch w).keys = [((family w).val : Int)] ∨
      ∃ key, (dispatch w).keys = [((family w).val : Int), key] ∧ 0x10 ≤ key ∧
        ∀ entry, table.lookup key = some entry → ∃ form, entry = .body form) ∧
    (family w ≠ 0 → ∀ w', w' % 0x10000 = w % 0x10000 → dispatch w' = dispatch w) ∧
    (family w = 0 →
      (dispatch w).verdict =
        (if w = 0x00E0 then .found .cls else if w = 0x00EE then .found .ret else .unsupported) ∧
      ∀ m : Machine, m.word = w → w ≠ 0x00E0 → w ≠ 0x00EE → m.run = m.unsupported) := by
  have ends := dispatch_finishes w
  refine ⟨search_add ends, ends, ?_, fun outside w' same => dispatch_congr outside (sameFields same),
    fun inside => ?_⟩
  · rcases keys_dispatch w with single | ⟨key, both, high⟩
    · exact .inl single
    · exact .inr ⟨key, both, high, fun entry found => body_of_high high (lookup_table.mp found)⟩
  · have verdict := verdict_of_family_zero inside
    refine ⟨verdict, fun m word other other' => Machine.run_eq_unsupported ?_⟩
    rw [if_neg other, if_neg other'] at verdict
    rw [word, decode, verdict]

/-- Under the key 5 there is a family, but the word 5 is not looked up there. -/
example : dispatch 0x0005 = ⟨[0], .unsupported⟩ := by decide

end Decoding

end Chip8
