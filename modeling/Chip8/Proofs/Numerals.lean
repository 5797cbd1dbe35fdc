import Chip8.Text.Integer
import Mathlib.Data.List.TakeWhile
import Mathlib.Data.Nat.Digits.Defs

/-!
Which texts are integers.

The grammar is that of a numeral (`IsNumeral`) behind a sign, with blanks around (`Denotes`). Reading
an integer accepts exactly the texts of the grammar and finds the number that they denote
(`integer?_eq_some_iff`). An integer that is written in decimal is read back (`integer?_toString`),
as long as it has no more digits than may be read.
-/

namespace Chip8.Text

/-! ### Numerals -/

/-- Digits of any script, with at most one underscore between two of them. -/
inductive IsNumeral : List Char → List Nat → Prop where
  | digit {c : Char} {d : Nat} (value : decimalValue? c = some d) : IsNumeral [c] [d]
  | more {c : Char} {d : Nat} {text : List Char} {ds : List Nat} (value : decimalValue? c = some d)
      (rest : IsNumeral text ds) : IsNumeral (c :: text) (d :: ds)
  | gap {c : Char} {d : Nat} {text : List Char} {ds : List Nat} (value : decimalValue? c = some d)
      (rest : IsNumeral text ds) : IsNumeral (c :: '_' :: text) (d :: ds)

variable {c : Char} {d : Nat} {text : List Char} {ds : List Nat}

theorem decimalValue?_underscore : decimalValue? '_' = none := by decide

/-- A numeral starts with a digit. -/
theorem IsNumeral.exists_cons (numeral : IsNumeral text ds) :
    ∃ c d rest, text = c :: rest ∧ decimalValue? c = some d := by
  cases numeral with
  | digit value => exact ⟨_, _, _, rfl, value⟩
  | more value rest => exact ⟨_, _, _, rfl, value⟩
  | gap value rest => exact ⟨_, _, _, rfl, value⟩

theorem IsNumeral.ne_nil (numeral : IsNumeral text ds) : text ≠ [] := by
  cases numeral <;> exact List.cons_ne_nil _ _

theorem IsNumeral.length_pos (numeral : IsNumeral text ds) : 0 < ds.length := by
  cases numeral <;> exact Nat.zero_lt_succ _

theorem isNumeral_of_digits? (read : digits? text = some ds) : IsNumeral text ds := by
  fun_induction digits? text generalizing ds with
  | case1 => cases read
  | case2 c =>
      obtain ⟨d, value, rfl⟩ := Option.map_eq_some_iff.mp read
      exact .digit value
  | case3 c rest ih =>
      simp only [Option.bind_eq_bind, Option.bind_eq_some_iff, Option.pure_def,
        Option.some.injEq] at read
      obtain ⟨d, value, ds, later, rfl⟩ := read
      exact .gap value (ih later)
  | case4 c rest _ _ ih =>
      simp only [Option.bind_eq_bind, Option.bind_eq_some_iff, Option.pure_def,
        Option.some.injEq] at read
      obtain ⟨d, value, ds, later, rfl⟩ := read
      exact .more value (ih later)

theorem IsNumeral.digits?_eq (numeral : IsNumeral text ds) : digits? text = some ds := by
  induction numeral with
  | digit value => simp [digits?, value]
  | @more c d text ds value rest ih =>
      obtain ⟨c', d', text', rfl, value'⟩ := rest.exists_cons
      have notGap : c' ≠ '_' := by
        rintro rfl
        rw [decimalValue?_underscore] at value'
        cases value'
      rw [digits?.eq_4 _ _ (by simp) (by simpa using notGap)]
      simp [value, ih]
  | gap value rest ih => simp [digits?, value, ih]

theorem digits?_eq_some_iff : digits? text = some ds ↔ IsNumeral text ds :=
  ⟨isNumeral_of_digits?, IsNumeral.digits?_eq⟩

/-- The number that digits make, the last of them for the ones. -/
theorem ofDigits_eq (ds : List Nat) : ofDigits ds = Nat.ofDigits 10 ds.reverse := by
  have fold (ds : List Nat) (n : Nat) :
      ds.foldl (fun n d => 10 * n + d) n = ds.reverse.foldr (fun d n => d + 10 * n) n := by
    rw [List.foldr_reverse]
    simp only [Nat.add_comm]
  rw [ofDigits, fold, Nat.ofDigits_eq_foldr]
  rfl

/-- A numeral for `n` that is not too long to be read. -/
def IsNatural (text : List Char) (n : Nat) : Prop :=
  ∃ ds, IsNumeral text ds ∧ ds.length ≤ digitLimit ∧ Nat.ofDigits 10 ds.reverse = n

theorem natural?_eq_some_iff {n : Nat} : natural? text = some n ↔ IsNatural text n := by
  simp only [natural?, Option.bind_eq_bind, Option.bind_eq_some_iff, digits?_eq_some_iff,
    Option.ite_none_right_eq_some, Option.some.injEq, ofDigits_eq, IsNatural]

/-! ### Blanks -/

theorem isBlank_of_decimalValue? (value : decimalValue? c = some d) : isBlank c = false := by
  have apart : ∀ first ∈ decimalZeros, 0x30 ≤ first ∧
      ∀ blank ∈ blanksBeyondAscii, blank < first ∨ first + 10 ≤ blank := by decide
  obtain ⟨first, found, _⟩ := Option.map_eq_some_iff.mp value
  obtain ⟨above, beyond⟩ := apart first (List.mem_of_find?_eq_some found)
  have here := List.find?_some found
  simp only [Bool.and_eq_true, decide_eq_true_eq] at here
  have notSpace : c ≠ ' ' := by
    rintro rfl
    have : ' '.toNat = 32 := rfl
    omega
  have notBeyond : c.toNat ∉ blanksBeyondAscii := fun member => by
    have := beyond _ member
    omega
  have notAscii : 13 < c.toNat := by omega
  simp [isBlank, notSpace, notBeyond, notAscii]

theorem IsNumeral.isBlank_eq_false (numeral : IsNumeral text ds) :
    ∀ c ∈ text, isBlank c = false := by
  induction numeral with
  | digit value => simpa using isBlank_of_decimalValue? value
  | more value rest ih => exact List.forall_mem_cons.mpr ⟨isBlank_of_decimalValue? value, ih⟩
  | gap value rest ih =>
      exact List.forall_mem_cons.mpr ⟨isBlank_of_decimalValue? value,
        List.forall_mem_cons.mpr ⟨by decide, ih⟩⟩

theorem IsNumeral.notMem (numeral : IsNumeral text ds) {other : Char}
    (none : decimalValue? other = none) (noGap : other ≠ '_') : other ∉ text := by
  have noDigit {c : Char} {d : Nat} (value : decimalValue? c = some d) : other ≠ c := by
    rintro rfl
    rw [none] at value
    cases value
  induction numeral with
  | digit value => simpa using noDigit value
  | more value rest ih => exact List.not_mem_cons_of_ne_of_not_mem (noDigit value) ih
  | gap value rest ih =>
      exact List.not_mem_cons_of_ne_of_not_mem (noDigit value)
        (List.not_mem_cons_of_ne_of_not_mem noGap ih)

theorem dropWhile_isBlank_append {before : List Char} (blank : ∀ c ∈ before, isBlank c = true)
    {text : List Char} (some : text ≠ []) (solid : ∀ c ∈ text, isBlank c = false)
    (after : List Char) : (before ++ (text ++ after)).dropWhile isBlank = text ++ after := by
  obtain ⟨c, rest, rfl⟩ := List.exists_cons_of_ne_nil some
  rw [List.dropWhile_append_of_pos blank]
  exact List.dropWhile_cons_of_neg (by simpa using solid c List.mem_cons_self)

/-- Blanks around a text without blanks are all that is dropped. -/
theorem trimBlanks_eq {before after : List Char} (blank : ∀ c ∈ before, isBlank c = true)
    (blank' : ∀ c ∈ after, isBlank c = true) (some : text ≠ [])
    (solid : ∀ c ∈ text, isBlank c = false) : trimBlanks (before ++ text ++ after) = text := by
  have front := dropWhile_isBlank_append blank some solid after
  have mirrored : ∀ c ∈ after.reverse, isBlank c = true := by simpa using blank'
  have back := dropWhile_isBlank_append mirrored (mt List.reverse_eq_nil_iff.mp some)
    (by simpa using solid) []
  rw [List.append_nil, ← List.reverse_append] at back
  rw [trimBlanks, List.append_assoc, front, back, List.reverse_reverse]

theorem trimBlanks_eq_self (some : text ≠ []) (solid : ∀ c ∈ text, isBlank c = false) :
    trimBlanks text = text := by
  have none : ∀ c ∈ ([] : List Char), isBlank c = true := by simp
  have trimmed := trimBlanks_eq none none some solid
  rwa [List.nil_append, List.append_nil] at trimmed

theorem exists_trimBlanks (text : List Char) :
    ∃ before after, text = before ++ trimBlanks text ++ after ∧
      (∀ c ∈ before, isBlank c = true) ∧ ∀ c ∈ after, isBlank c = true := by
  set rest := text.dropWhile isBlank with front
  refine ⟨text.takeWhile isBlank, (rest.reverse.takeWhile isBlank).reverse, ?_,
    fun c member => List.mem_takeWhile_imp member,
    fun c member => List.mem_takeWhile_imp (List.mem_reverse.mp member)⟩
  have back : rest = trimBlanks text ++ (rest.reverse.takeWhile isBlank).reverse := by
    rw [trimBlanks, ← front, ← List.reverse_append, List.takeWhile_append_dropWhile,
      List.reverse_reverse]
  rw [List.append_assoc, ← back, front, List.takeWhile_append_dropWhile]

/-! ### Integers -/

/-- A numeral, perhaps behind a sign. -/
inductive IsSigned : List Char → Int → Prop where
  | unsigned {text : List Char} {n : Nat} (numeral : IsNatural text n) : IsSigned text n
  | plus {text : List Char} {n : Nat} (numeral : IsNatural text n) : IsSigned ('+' :: text) n
  | minus {text : List Char} {n : Nat} (numeral : IsNatural text n) : IsSigned ('-' :: text) (-n)

/-- The text stands for the integer `n`: blanks, a sign or none, a numeral and blanks again. -/
def Denotes (text : List Char) (n : Int) : Prop :=
  ∃ before signed after, text = before ++ signed ++ after ∧ (∀ c ∈ before, isBlank c = true) ∧
    (∀ c ∈ after, isBlank c = true) ∧ IsSigned signed n

theorem IsSigned.ne_nil {n : Int} (signed : IsSigned text n) : text ≠ [] := by
  cases signed with
  | unsigned natural =>
      obtain ⟨ds, numeral, _⟩ := natural
      exact numeral.ne_nil
  | plus => exact List.cons_ne_nil _ _
  | minus => exact List.cons_ne_nil _ _

theorem IsSigned.isBlank_eq_false {n : Int} (signed : IsSigned text n) :
    ∀ c ∈ text, isBlank c = false := by
  obtain ⟨ds, numeral, _⟩ | ⟨ds, numeral, _⟩ | ⟨ds, numeral, _⟩ := signed
  · exact numeral.isBlank_eq_false
  · exact List.forall_mem_cons.mpr ⟨by decide, numeral.isBlank_eq_false⟩
  · exact List.forall_mem_cons.mpr ⟨by decide, numeral.isBlank_eq_false⟩

/-- A digit is no sign. -/
theorem integer?_of_isNumeral (numeral : IsNumeral (trimBlanks text) ds) :
    integer? text = (natural? (trimBlanks text)).map Int.ofNat := by
  obtain ⟨c, d, rest, trimmed, digit⟩ := numeral.exists_cons
  unfold integer?
  split
  · next same =>
      obtain ⟨rfl, _⟩ := List.cons.inj (trimmed.symm.trans same)
      cases digit
  · next same =>
      obtain ⟨rfl, _⟩ := List.cons.inj (trimmed.symm.trans same)
      cases digit
  · rfl

/-- Reading an integer once the blanks are gone. -/
theorem integer?_eq_some_iff_isSigned {n : Int} :
    integer? text = some n ↔ IsSigned (trimBlanks text) n := by
  constructor
  · intro read
    unfold integer? at read
    split at read
    · next rest trimmed =>
        obtain ⟨k, value, rfl⟩ := Option.map_eq_some_iff.mp read
        rw [trimmed]
        exact .plus (natural?_eq_some_iff.mp value)
    · next rest trimmed =>
        obtain ⟨k, value, rfl⟩ := Option.map_eq_some_iff.mp read
        rw [trimmed]
        exact .minus (natural?_eq_some_iff.mp value)
    · obtain ⟨k, value, rfl⟩ := Option.map_eq_some_iff.mp read
      exact .unsigned (natural?_eq_some_iff.mp value)
  · intro signed
    generalize trimmed : trimBlanks text = rest at signed
    cases signed with
    | plus natural =>
        simp only [integer?, trimmed, natural?_eq_some_iff.mpr natural, Option.map_some]
        rfl
    | minus natural =>
        simp only [integer?, trimmed, natural?_eq_some_iff.mpr natural, Option.map_some]
        rfl
    | unsigned natural =>
        have value := natural?_eq_some_iff.mpr natural
        obtain ⟨ds, numeral, _⟩ := natural
        rw [← trimmed] at numeral value
        rw [integer?_of_isNumeral numeral, value]
        rfl

/-- **Reading an integer accepts exactly the texts that denote one.** -/
theorem integer?_eq_some_iff {n : Int} : integer? text = some n ↔ Denotes text n := by
  rw [integer?_eq_some_iff_isSigned]
  constructor
  · intro signed
    obtain ⟨before, after, whole, blank, blank'⟩ := exists_trimBlanks text
    exact ⟨before, _, after, whole, blank, blank', signed⟩
  · rintro ⟨before, signed, after, rfl, blank, blank', denotes⟩
    rwa [trimBlanks_eq blank blank' denotes.ne_nil denotes.isBlank_eq_false]

/-! ### Writing integers -/

theorem decimalValue?_digitChar {d : Nat} (small : d < 10) :
    decimalValue? (Nat.digitChar d) = some d := by
  revert d
  decide

theorem IsNumeral.concat (numeral : IsNumeral text ds) (value : decimalValue? c = some d) :
    IsNumeral (text ++ [c]) (ds ++ [d]) := by
  induction numeral with
  | digit first => exact .more first (.digit value)
  | more first rest ih => exact .more first ih
  | gap first rest ih => exact .gap first ih

/-- The decimal digits of a number make a numeral for it, which has more than `k` digits exactly if
the number needs them. -/
theorem exists_isNumeral_toDigits (n : Nat) :
    ∃ ds, IsNumeral (Nat.toDigits 10 n) ds ∧ Nat.ofDigits 10 ds.reverse = n ∧
      ∀ k, 0 < k → (ds.length ≤ k ↔ n < 10 ^ k) := by
  induction n using Nat.strongRecOn with
  | ind n ih =>
      rw [Nat.toDigits_eq_if (by decide)]
      split
      · next small =>
          refine ⟨[n], .digit (decimalValue?_digitChar small), by simp, fun k positive => ?_⟩
          have big : 10 ≤ 10 ^ k := Nat.le_pow positive
          rw [List.length_singleton]
          omega
      · next big =>
          obtain ⟨ds, numeral, value, length⟩ := ih (n / 10) (by omega)
          have last := decimalValue?_digitChar (Nat.mod_lt n (by decide : 0 < 10))
          refine ⟨ds ++ [n % 10], numeral.concat last, ?_, fun k positive => ?_⟩
          · rw [List.reverse_append, List.reverse_singleton, List.singleton_append,
              Nat.ofDigits_cons, value]
            exact Nat.mod_add_div n 10
          · rw [List.length_append, List.length_singleton]
            obtain ⟨k, rfl⟩ := Nat.exists_eq_add_one_of_ne_zero (Nat.ne_of_gt positive)
            rw [Nat.pow_succ, ← Nat.div_lt_iff_lt_mul (by decide : 0 < 10), Nat.add_le_add_iff_right]
            rcases Nat.eq_zero_or_pos k with rfl | positive
            · have some := numeral.length_pos
              omega
            · exact length k positive

theorem natural?_toDigits (n : Nat) :
    natural? (Nat.toDigits 10 n) = if n < 10 ^ digitLimit then some n else none := by
  obtain ⟨ds, numeral, value, length⟩ := exists_isNumeral_toDigits n
  rw [natural?, numeral.digits?_eq]
  change (if ds.length ≤ digitLimit then some (ofDigits ds) else none) = _
  rw [ofDigits_eq, value]
  exact if_congr (length digitLimit (by decide)) rfl rfl

theorem toList_toString (n : Int) :
    (toString n).toList = (if n < 0 then ['-'] else []) ++ Nat.toDigits 10 n.natAbs := by
  cases n with
  | ofNat n => simp [Int.toString_eq_repr, Int.repr, Nat.repr]
  | negSucc n => simp [Int.toString_eq_repr, Int.repr, Nat.repr]

/-- An integer in decimal is read back, unless it has too many digits. -/
theorem integer?_toString (n : Int) :
    integer? (toString n).toList = if n.natAbs < 10 ^ digitLimit then some n else none := by
  obtain ⟨ds, numeral, _⟩ := exists_isNumeral_toDigits n.natAbs
  have solid := numeral.isBlank_eq_false
  rw [toList_toString]
  split
  · next negative =>
      have trimmed := trimBlanks_eq_self (List.cons_ne_nil '-' (Nat.toDigits 10 n.natAbs))
        (List.forall_mem_cons.mpr ⟨by decide, solid⟩)
      simp only [integer?, List.singleton_append, trimmed, natural?_toDigits]
      split
      · exact congrArg some (by omega : -(n.natAbs : Int) = n)
      · rfl
  · next nonneg =>
      have trimmed := trimBlanks_eq_self numeral.ne_nil solid
      rw [← trimmed] at numeral
      rw [List.nil_append, integer?_of_isNumeral numeral, trimmed, natural?_toDigits]
      split
      · exact congrArg some (by omega : (n.natAbs : Int) = n)
      · rfl

end Chip8.Text
