import Chip8.Proofs.KeymapGrammar

/-!
Which keymaps are reported as wrong.

A text that is no keymap is reported by one of three errors of the parser itself, for its count of
entries, for a piece that is no integer or for a code that comes twice. As it was built, the parser
does not look whether an integer is a character before it asks for the lowercase one. So there is a
fourth way to fail, and its error is that of the character look-up: it takes place exactly if lowercase
is asked for and the first piece that is wrong is an integer without a lowercase character
(`reports_unless_uncased`).
-/

namespace Chip8

/-! ### Integers without a lowercase character -/

/-- Why an integer has no lowercase character: it does not fit in a signed 32-bit word, it fits but is
no character, or its lowercase form has two characters. -/
inductive Text.Uncased (n : Int) : Fault → Prop where
  | codeTooLarge (outside : n < -0x80000000 ∨ 0x80000000 ≤ n) : Uncased n .codeTooLarge
  | notACharacter (fits : -0x80000000 ≤ n ∧ n < 0x80000000) (outside : n < 0 ∨ 0x10FFFF < n) :
      Uncased n .notACharacter
  | longLowercase (dotted : n = 0x130) : Uncased n .longLowercase

theorem Text.lowercaseCode_eq_error_iff {n : Int} {cause : Fault} :
    lowercaseCode n = .error cause ↔ Uncased n cause := by
  constructor
  · intro failed
    unfold lowercaseCode at failed
    split at failed
    · next outside =>
        cases failed
        exact .codeTooLarge outside
    · split at failed
      · next fits outside =>
          cases failed
          exact .notACharacter (by omega) outside
      · split at failed
        · next dotted =>
            cases failed
            exact .longLowercase dotted
        · cases failed
  · intro uncased
    cases uncased with
    | codeTooLarge outside => exact if_pos outside
    | notACharacter fits outside =>
        have inWord : ¬ (n < -0x80000000 ∨ 0x80000000 ≤ n) := by omega
        rw [lowercaseCode, if_neg inWord, if_pos outside]
    | longLowercase dotted =>
        subst dotted
        rfl

namespace Keymap

variable {lower : Bool} {text : String}

/-! ### Errors -/

/-- The errors that the parser has for texts that are no keymaps. -/
def Reported (error : KeymapError) : Prop :=
  error = .wrongCount ∨ error = .notIntegers ∨ error = .duplicate

theorem reported_iff {error : KeymapError} : Reported error ↔ ∀ cause, error ≠ .caseless cause := by
  cases error <;> simp [Reported]

/-- A text of sixteen entries that is asked for in lowercase, where the first piece that is wrong is an
integer without a lowercase character: all pieces before it are codes that are all different. -/
def Escapes (lower : Bool) (text : String) (cause : Fault) : Prop :=
  lower = true ∧ (written text).length = 16 ∧
    ∃ earlier piece later codes n, (written text).flatten = earlier ++ piece :: later ∧
      List.Forall₂ (IsCode true) earlier codes ∧ codes.Nodup ∧
      Text.Denotes piece n ∧ Text.Uncased n cause

theorem parse_eq_caseless_iff {cause : Fault} :
    parse text lower = .error (.caseless cause) ↔ Escapes lower text cause := by
  rw [parse_eq_error_iff_firstFails]
  constructor
  · rintro (⟨_, unequal⟩ | ⟨count, earlier, piece, later, codes, order, areCodes, nodup, fails⟩)
    · cases unequal
    · cases fails with
      | caseless denotes isLower caseless =>
          subst isLower
          exact ⟨rfl, count, earlier, piece, later, codes, _, order, areCodes, nodup, denotes,
            Text.lowercaseCode_eq_error_iff.mp caseless⟩
  · rintro ⟨rfl, count, earlier, piece, later, codes, n, order, areCodes, nodup, denotes, uncased⟩
    have caseless := Text.lowercaseCode_eq_error_iff.mpr uncased
    exact .inr ⟨count, earlier, piece, later, codes, order, areCodes, nodup,
      .caseless denotes rfl caseless⟩

/-- Where all integers are characters with a lowercase character, no error escapes. -/
theorem Cased.not_escapes (cased : Cased lower text) (cause : Fault) : ¬ Escapes lower text cause := by
  rintro ⟨isLower, _, earlier, piece, later, _, n, order, _, _, denotes, uncased⟩
  obtain ⟨c, folds⟩ := cased isLower piece (by simp [order]) n denotes
  have folds : Text.lowercaseCode n = .ok c := folds
  rw [Text.lowercaseCode_eq_error_iff.mpr uncased] at folds
  cases folds

/-- **A wrong keymap is reported unless a code has no lowercase character.** Parsing a text makes a
keymap or ends with an error of the parser itself, unless lowercase is asked for and the first piece
that is wrong is an integer without a lowercase character. Then the error of the character look-up
escapes, which tells why there is none. Nothing escapes where lowercase is not asked for, or where all
integers are characters that have a lowercase character. -/
theorem reports_unless_uncased (text : String) (lower : Bool) :
    ((∃ keymap, parse text lower = .ok keymap) ∨
      (∃ error, Reported error ∧ parse text lower = .error error) ↔
        ∀ cause, ¬ Escapes lower text cause) ∧
    (∀ cause, parse text lower = .error (.caseless cause) ↔ Escapes lower text cause) ∧
    (Cased lower text → ∀ cause, ¬ Escapes lower text cause) := by
  refine ⟨?_, fun cause => parse_eq_caseless_iff, fun cased => cased.not_escapes⟩
  simp only [← parse_eq_caseless_iff]
  cases parsed : parse text lower with
  | ok keymap => simp
  | error error => simp [reported_iff]

/-- A negative code is an integer like any other for a window. For a terminal it is no character, and
that is not reported as a wrong keymap. -/
theorem negative_code_escapes :
    let text := "-1,1,2,3,4,5,6,7,8,9,10,11,12,13,14,15"
    (∃ keymap, parse text false = .ok keymap) ∧
      parse text true = .error (.caseless .notACharacter) ∧ ¬ Reported (.caseless .notACharacter) := by
  intro text
  obtain ⟨_, escapes, _⟩ := reports_unless_uncased text true
  obtain ⟨count, order, accepted⟩ : (written text).length = 16 ∧
      (written text).flatten = [] ++ ['-', '1'] :: (written text).flatten.drop 1 ∧
      (parse text false).toOption.isSome := by decide +kernel
  have denotes : Text.Denotes ['-', '1'] (-1) := Text.integer?_eq_some_iff.mp rfl
  refine ⟨?_, (escapes .notACharacter).mpr ⟨rfl, count, [], _, _, [], -1, order, .nil, .nil, denotes,
    .notACharacter (by decide) (by decide)⟩, by simp [Reported]⟩
  cases parsed : parse text false with
  | ok keymap => exact ⟨keymap, rfl⟩
  | error error =>
      rw [parsed] at accepted
      cases accepted

end Keymap

end Chip8
