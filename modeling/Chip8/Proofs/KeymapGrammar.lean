import Chip8.Keymap
import Chip8.Proofs.Numerals
import Mathlib.Data.List.Forall2

/-!
Which texts are keymaps.

A keymap text has sixteen entries between commas, and each entry has pieces between slashes
(`written`). Parsing accepts it exactly if every piece denotes an integer and no code comes twice,
within an entry or across entries; the keymap then binds each code to the slot of its entry, and
nothing else. Otherwise the count of entries, or else the first piece in reading order that is wrong,
decides the error (`Refused`). Sixteen lists of different integers that are written in decimal are
read back as they were (`written_render`), unless an integer has more digits than may be read.
-/

namespace Chip8

theorem Text.pieces_eq_splitOn (separator : Char) (text : List Char) :
    pieces separator text = text.splitOn separator := by
  induction text with
  | nil => rfl
  | cons c rest ih =>
      rw [pieces, List.splitOn, List.splitOnP_cons_eq_if_modifyHead, ← List.splitOn, ← ih]
      by_cases here : c = separator
      · simp [here]
      · rw [if_neg here, if_neg (by simpa using here)]
        cases cut : pieces separator rest with
        | nil => exact absurd cut (pieces_ne_nil separator rest)
        | cons piece others => rfl

/-- A loop that fails does so at one element, behind those that it got past. -/
theorem foldlM_eq_error_iff {α σ ε : Type} {next : σ → α → Except ε σ} {list : List α} {state : σ}
    {error : ε} :
    list.foldlM next state = .error error ↔
      ∃ earlier a later reached, list = earlier ++ a :: later ∧
        earlier.foldlM next state = .ok reached ∧ next reached a = .error error := by
  induction list generalizing state with
  | nil =>
      constructor
      · intro failed
        cases failed
      · rintro ⟨earlier, a, later, _, same, _⟩
        simp at same
  | cons first rest ih =>
      rw [List.foldlM_cons]
      constructor
      · intro failed
        cases step : next state first with
        | error cause =>
            rw [step] at failed
            cases failed
            exact ⟨[], first, rest, state, rfl, rfl, step⟩
        | ok after =>
            rw [step] at failed
            obtain ⟨earlier, a, later, reached, rfl, went, fails⟩ := ih.mp failed
            refine ⟨first :: earlier, a, later, reached, rfl, ?_, fails⟩
            rw [List.foldlM_cons, step]
            exact went
      · rintro ⟨earlier, a, later, reached, same, went, fails⟩
        cases earlier with
        | nil =>
            obtain ⟨rfl, rfl⟩ := List.cons.inj same
            cases went
            rw [fails]
            rfl
        | cons first' earlier =>
            obtain ⟨rfl, rfl⟩ := List.cons.inj same
            rw [List.foldlM_cons] at went
            cases step : next state first with
            | error cause =>
                rw [step] at went
                cases went
            | ok after =>
                rw [step] at went
                exact ih.mpr ⟨earlier, a, later, reached, rfl, went, fails⟩

namespace Keymap

variable {lower : Bool} {piece : List Char} {c : Int} {keymap keymap' : Keymap} {slot : Digit}

/-! ### Codes -/

/-- The code that an integer of a keymap text stands for: with `lower` that of its lowercase
character, if it is one. -/
def Folds (lower : Bool) (n c : Int) : Prop :=
  if lower then Text.lowercaseCode n = .ok c else n = c

def IsCode (lower : Bool) (piece : List Char) (c : Int) : Prop :=
  ∃ n, Text.Denotes piece n ∧ Folds lower n c

theorem code_eq_ok_iff : code lower piece = .ok c ↔ IsCode lower piece c := by
  simp only [IsCode, ← Text.integer?_eq_some_iff, code]
  cases Text.integer? piece with
  | none => simp
  | some n =>
      simp only [Option.some.injEq, exists_eq_left', Folds]
      cases lower with
      | false => simp
      | true => cases Text.lowercaseCode n <;> simp

theorem code_eq_error_iff {error : KeymapError} :
    code lower piece = .error error ↔
      (∀ n, ¬ Text.Denotes piece n) ∧ error = .notIntegers ∨
      ∃ n cause, Text.Denotes piece n ∧ lower = true ∧ Text.lowercaseCode n = .error cause ∧
        error = .caseless cause := by
  simp only [← Text.integer?_eq_some_iff, code]
  cases Text.integer? piece with
  | none => simp [eq_comm]
  | some n =>
      cases lower with
      | false => simp
      | true =>
          cases folded : Text.lowercaseCode n with
          | error cause => simp [folded, @eq_comm _ error]
          | ok c => simp [folded]

theorem IsCode.unique {c' : Int} (isCode : IsCode lower piece c) (isCode' : IsCode lower piece c') :
    c = c' := by
  rw [← code_eq_ok_iff] at isCode isCode'
  exact Except.ok.inj (isCode.symm.trans isCode')

/-! ### Binding one piece after the other -/

/-- Binds the code of a piece to a slot. -/
def bindPiece (lower : Bool) (keymap : Keymap) (slotted : List Char × Digit) :
    Except KeymapError Keymap := do
  keymap.bind (← code lower slotted.1) slotted.2

theorem slot?_bound (keymap : Keymap) (c c' : Int) (slot : Digit) :
    ({ bindings := (c, slot) :: keymap.bindings } : Keymap).slot? c' =
      if c' = c then some slot else keymap.slot? c' := by
  rw [slot?, List.lookup_cons]
  by_cases same : c' = c
  · simp [same]
  · rw [beq_eq_false_iff_ne.mpr same, if_neg same, slot?]

theorem bindPiece_of_error {error : KeymapError} (read : code lower piece = .error error) :
    bindPiece lower keymap (piece, slot) = .error error := by
  rw [bindPiece, read]
  rfl

/-- A code is bound if it is free. -/
theorem bindPiece_of_ok (read : code lower piece = .ok c) :
    bindPiece lower keymap (piece, slot) =
      if keymap.slot? c = none then .ok { bindings := (c, slot) :: keymap.bindings }
      else .error .duplicate := by
  rw [bindPiece, read]
  change keymap.bind c slot = _
  rw [Keymap.bind]
  cases keymap.slot? c <;> rfl

theorem bindPiece_eq_ok_iff :
    bindPiece lower keymap (piece, slot) = .ok keymap' ↔
      ∃ c, IsCode lower piece c ∧ keymap.slot? c = none ∧
        keymap' = { bindings := (c, slot) :: keymap.bindings } := by
  simp only [← code_eq_ok_iff]
  constructor
  · intro bound
    cases read : code lower piece with
    | error cause =>
        rw [bindPiece_of_error read] at bound
        cases bound
    | ok c =>
        rw [bindPiece_of_ok read] at bound
        split at bound
        · next free => exact ⟨c, rfl, free, (Except.ok.inj bound).symm⟩
        · cases bound
  · rintro ⟨c, read, free, rfl⟩
    rw [bindPiece_of_ok read, if_pos free]

theorem bindPiece_eq_error_iff {error : KeymapError} :
    bindPiece lower keymap (piece, slot) = .error error ↔
      code lower piece = .error error ∨
      (∃ c, IsCode lower piece c ∧ keymap.slot? c ≠ none) ∧ error = .duplicate := by
  simp only [← code_eq_ok_iff]
  constructor
  · intro failed
    cases read : code lower piece with
    | error cause =>
        rw [bindPiece_of_error read] at failed
        exact .inl (congrArg Except.error (Except.error.inj failed))
    | ok c =>
        rw [bindPiece_of_ok read] at failed
        split at failed
        · cases failed
        · next bound => exact .inr ⟨⟨c, rfl, bound⟩, (Except.error.inj failed).symm⟩
  · rintro (read | ⟨⟨c, read, bound⟩, rfl⟩)
    · exact bindPiece_of_error read
    · rw [bindPiece_of_ok read, if_neg bound]

variable {pieces : List (List Char × Digit)}

/-- All pieces are bound if they have different codes that are free yet. -/
theorem exists_foldlM_eq_ok_iff :
    (∃ keymap', pieces.foldlM (bindPiece lower) keymap = .ok keymap') ↔
      ∃ codes, List.Forall₂ (IsCode lower) (pieces.map Prod.fst) codes ∧ codes.Nodup ∧
        ∀ c ∈ codes, keymap.slot? c = none := by
  induction pieces generalizing keymap with
  | nil => simp [pure, Except.pure]
  | cons first rest ih =>
      obtain ⟨piece, slot⟩ := first
      rw [List.foldlM_cons, List.map_cons]
      constructor
      · rintro ⟨keymap', went⟩
        cases step : bindPiece lower keymap (piece, slot) with
        | error cause =>
            rw [step] at went
            cases went
        | ok after =>
            rw [step] at went
            obtain ⟨c, isCode, free, rfl⟩ := bindPiece_eq_ok_iff.mp step
            obtain ⟨codes, areCodes, nodup, allFree⟩ := ih.mp ⟨_, went⟩
            have apart : ∀ c' ∈ codes, c' ≠ c ∧ keymap.slot? c' = none := by
              intro c' member
              have := allFree c' member
              rw [slot?_bound] at this
              split at this
              · cases this
              · next other => exact ⟨other, this⟩
            exact ⟨c :: codes, .cons isCode areCodes,
              List.nodup_cons.mpr ⟨fun member => (apart c member).1 rfl, nodup⟩,
              List.forall_mem_cons.mpr ⟨free, fun c' member => (apart c' member).2⟩⟩
      · rintro ⟨codes, areCodes, nodup, allFree⟩
        obtain ⟨c, others, isCode, areOthers, rfl⟩ := List.forall₂_cons_left_iff.mp areCodes
        obtain ⟨absent, nodupOthers⟩ := List.nodup_cons.mp nodup
        obtain ⟨free, othersFree⟩ := List.forall_mem_cons.mp allFree
        rw [bindPiece_eq_ok_iff.mpr ⟨c, isCode, free, rfl⟩]
        refine ih.mpr ⟨others, areOthers, nodupOthers, fun c' member => ?_⟩
        rw [slot?_bound, if_neg (by rintro rfl; exact absent member)]
        exact othersFree c' member

/-- Binding pieces adds their codes, each for its slot, and nothing else. -/
theorem slot?_of_foldlM (went : pieces.foldlM (bindPiece lower) keymap = .ok keymap') :
    keymap'.slot? c = some slot ↔
      keymap.slot? c = some slot ∨ ∃ piece, (piece, slot) ∈ pieces ∧ IsCode lower piece c := by
  induction pieces generalizing keymap with
  | nil =>
      cases went
      simp
  | cons first rest ih =>
      obtain ⟨piece, slot'⟩ := first
      rw [List.foldlM_cons] at went
      cases step : bindPiece lower keymap (piece, slot') with
      | error cause =>
          rw [step] at went
          cases went
      | ok after =>
          rw [step] at went
          obtain ⟨c', isCode, free, rfl⟩ := bindPiece_eq_ok_iff.mp step
          rw [ih went, slot?_bound]
          by_cases same : c = c'
          · subst same
            have only : ∀ piece', (piece', slot) ∈ (piece, slot') :: rest → IsCode lower piece' c →
                slot' = slot ∨ ∃ piece, (piece, slot) ∈ rest ∧ IsCode lower piece c := by
              intro piece' member isCode'
              rcases List.mem_cons.mp member with here | later
              · exact .inl (congrArg Prod.snd here).symm
              · exact .inr ⟨piece', later, isCode'⟩
            rw [if_pos rfl, free, Option.some.injEq]
            constructor
            · rintro (rfl | ⟨piece', member, isCode'⟩)
              · exact .inr ⟨piece, List.mem_cons_self, isCode⟩
              · exact .inr ⟨piece', List.mem_cons_of_mem _ member, isCode'⟩
            · rintro (bound | ⟨piece', member, isCode'⟩)
              · cases bound
              · exact only piece' member isCode'
          · rw [if_neg same]
            refine or_congr_right ⟨?_, ?_⟩
            · rintro ⟨piece', member, isCode'⟩
              exact ⟨piece', List.mem_cons_of_mem _ member, isCode'⟩
            · rintro ⟨piece', member, isCode'⟩
              rcases List.mem_cons.mp member with here | later
              · obtain ⟨rfl, rfl⟩ := Prod.mk.inj here
                exact absurd (isCode'.unique isCode) same
              · exact ⟨piece', later, isCode'⟩

/-! ### Whole texts -/

/-- The pieces of a keymap text, entry by entry. -/
def written (text : String) : List (List (List Char)) :=
  (text.toList.splitOn ',').map (List.splitOn '/')

theorem pieces_written (text : String) :
    (Text.pieces ',' text.toList).map (Text.pieces '/') = written text := by
  rw [written, Text.pieces_eq_splitOn, funext (Text.pieces_eq_splitOn '/')]

theorem length_pieces (text : String) :
    (Text.pieces ',' text.toList).length = (written text).length := by
  rw [← pieces_written, List.length_map]

theorem parse_of_count {text : String} (sixteen : (written text).length = 16) :
    parse text lower = (slotted (Text.pieces ',' text.toList)).foldlM (bindPiece lower) {} :=
  if_neg (not_not.mpr ((length_pieces text).trans sixteen))

theorem parse_of_wrongCount {text : String} (wrong : (written text).length ≠ 16) :
    parse text lower = .error .wrongCount :=
  if_pos (by rwa [length_pieces])

theorem map_fst_slotted (text : String) :
    (slotted (Text.pieces ',' text.toList)).map Prod.fst = (written text).flatten := by
  rw [← pieces_written]
  generalize Text.pieces ',' text.toList = entries
  calc (slotted entries).map Prod.fst
      = entries.zipIdx.flatMap fun entry => Text.pieces '/' entry.1 := by
        simp [slotted, List.map_flatMap, Function.comp_def]
    _ = (entries.zipIdx.map Prod.fst).flatMap (Text.pieces '/') := (List.flatMap_map _ _ _).symm
    _ = (entries.map (Text.pieces '/')).flatten := by
        rw [List.zipIdx_map_fst, List.flatMap_def]

/-- Each entry gives its pieces to its own slot. -/
theorem mem_slotted_iff {text : String} (sixteen : (written text).length = 16) :
    (piece, slot) ∈ slotted (Text.pieces ',' text.toList) ↔
      ∃ entry, (written text)[slot.val]? = some entry ∧ piece ∈ entry := by
  simp only [slotted, List.mem_flatMap, List.mem_zipIdx_iff_getElem?, List.mem_map, Prod.exists,
    Prod.mk.injEq, ← pieces_written, List.getElem?_map, Option.map_eq_some_iff]
  constructor
  · rintro ⟨entry, n, found, _, member, rfl, rfl⟩
    have below : n < 16 := by
      rw [← sixteen, ← length_pieces]
      exact (List.getElem?_eq_some_iff.mp found).1
    have same : (Digit.ofNat n).val = n := Nat.mod_eq_of_lt below
    exact ⟨_, ⟨entry, by rw [same]; exact found, rfl⟩, member⟩
  · rintro ⟨_, ⟨entry, found, rfl⟩, member⟩
    exact ⟨entry, slot.val, found, piece, member, rfl, Fin.ext (Nat.mod_eq_of_lt slot.below)⟩

theorem exists_parse_eq_ok_iff {text : String} :
    (∃ keymap, parse text lower = .ok keymap) ↔
      (written text).length = 16 ∧
        ∃ codes, List.Forall₂ (IsCode lower) (written text).flatten codes ∧ codes.Nodup := by
  by_cases sixteen : (written text).length = 16
  · have free (codes : List Int) : ∀ c ∈ codes, ({} : Keymap).slot? c = none := fun _ _ => rfl
    rw [parse_of_count sixteen, exists_foldlM_eq_ok_iff, map_fst_slotted, and_iff_right sixteen]
    refine exists_congr fun codes => and_congr_right fun _ => ?_
    rw [and_iff_left (free codes)]
  · rw [parse_of_wrongCount sixteen]
    refine iff_of_false ?_ fun ⟨count, _⟩ => sixteen count
    rintro ⟨keymap, parsed⟩
    cases parsed

theorem slot?_of_parse {text : String} (parsed : parse text lower = .ok keymap) :
    keymap.slot? c = some slot ↔
      ∃ entry, (written text)[slot.val]? = some entry ∧ ∃ piece ∈ entry, IsCode lower piece c := by
  obtain ⟨sixteen, _⟩ := exists_parse_eq_ok_iff.mp ⟨keymap, parsed⟩
  rw [parse_of_count sixteen] at parsed
  rw [slot?_of_foldlM parsed]
  simp only [mem_slotted_iff sixteen]
  constructor
  · rintro (unbound | ⟨piece, ⟨entry, found, member⟩, isCode⟩)
    · cases unbound
    · exact ⟨entry, found, piece, member, isCode⟩
  · rintro ⟨entry, found, piece, member, isCode⟩
    exact .inr ⟨piece, ⟨entry, found, member⟩, isCode⟩

/-! ### Errors -/

theorem mem_iff_of_areCodes {pieces : List (List Char)} {codes : List Int}
    (areCodes : List.Forall₂ (IsCode lower) pieces codes) :
    c ∈ codes ↔ ∃ piece ∈ pieces, IsCode lower piece c := by
  induction areCodes with
  | nil => simp
  | @cons piece c' _ _ isCode _ ih =>
      have first : c = c' ↔ IsCode lower piece c :=
        ⟨fun same => same ▸ isCode, fun isCode' => isCode'.unique isCode⟩
      rw [List.mem_cons, ih, first]
      simp

theorem bound_iff {codes : List Int} (went : pieces.foldlM (bindPiece lower) {} = .ok keymap)
    (areCodes : List.Forall₂ (IsCode lower) (pieces.map Prod.fst) codes) :
    keymap.slot? c ≠ none ↔ c ∈ codes := by
  rw [mem_iff_of_areCodes areCodes, Option.ne_none_iff_exists']
  simp only [slot?_of_foldlM went, List.mem_map, Prod.exists, exists_and_right, exists_eq_right]
  constructor
  · rintro ⟨slot, unbound | ⟨piece, member, isCode⟩⟩
    · cases unbound
    · exact ⟨piece, ⟨slot, member⟩, isCode⟩
  · rintro ⟨piece, ⟨slot, member⟩, isCode⟩
    exact ⟨slot, .inr ⟨piece, member, isCode⟩⟩

/-- With `lower`, every integer of the text is a character that has a lowercase character. -/
def Cased (lower : Bool) (text : String) : Prop :=
  lower = true → ∀ piece ∈ (written text).flatten, ∀ n, Text.Denotes piece n → ∃ c, Folds true n c

/-- Why a text is no keymap. In the last two cases all pieces before the one that is wrong are
codes, and they are all different. -/
inductive Refused (lower : Bool) (text : String) : KeymapError → Prop where
  | wrongCount (count : (written text).length ≠ 16) : Refused lower text .wrongCount
  | notIntegers {earlier later : List (List Char)} {piece : List Char} {codes : List Int}
      (count : (written text).length = 16)
      (order : (written text).flatten = earlier ++ piece :: later)
      (areCodes : List.Forall₂ (IsCode lower) earlier codes) (nodup : codes.Nodup)
      (noInteger : ∀ n, ¬ Text.Denotes piece n) : Refused lower text .notIntegers
  | duplicate {earlier later : List (List Char)} {piece : List Char} {codes : List Int} {c : Int}
      (count : (written text).length = 16)
      (order : (written text).flatten = earlier ++ piece :: later)
      (areCodes : List.Forall₂ (IsCode lower) earlier codes) (nodup : codes.Nodup)
      (isCode : IsCode lower piece c) (again : c ∈ codes) : Refused lower text .duplicate

/-- What can be wrong about a piece behind others that have these codes. -/
inductive Fails (lower : Bool) (codes : List Int) (piece : List Char) : KeymapError → Prop where
  | notIntegers (noInteger : ∀ n, ¬ Text.Denotes piece n) : Fails lower codes piece .notIntegers
  | caseless {n : Int} {cause : Fault} (denotes : Text.Denotes piece n) (isLower : lower = true)
      (caseless : Text.lowercaseCode n = .error cause) : Fails lower codes piece (.caseless cause)
  | duplicate {c : Int} (isCode : IsCode lower piece c) (again : c ∈ codes) :
      Fails lower codes piece .duplicate

theorem bindPiece_eq_error_iff_fails {codes : List Int} (bound : ∀ c, keymap.slot? c ≠ none ↔ c ∈ codes)
    {error : KeymapError} :
    bindPiece lower keymap (piece, slot) = .error error ↔ Fails lower codes piece error := by
  rw [bindPiece_eq_error_iff, code_eq_error_iff]
  simp only [bound]
  constructor
  · rintro ((⟨noInteger, rfl⟩ | ⟨n, cause, denotes, isLower, caseless, rfl⟩) | ⟨⟨c, isCode, again⟩, rfl⟩)
    · exact .notIntegers noInteger
    · exact .caseless denotes isLower caseless
    · exact .duplicate isCode again
  · intro fails
    cases fails with
    | notIntegers noInteger => exact .inl (.inl ⟨noInteger, rfl⟩)
    | caseless denotes isLower caseless => exact .inl (.inr ⟨_, _, denotes, isLower, caseless, rfl⟩)
    | duplicate isCode again => exact .inr ⟨⟨_, isCode, again⟩, rfl⟩

/-- Some piece is wrong in this way, and all pieces before it are codes that are all different. -/
def FirstFails (lower : Bool) (text : String) (error : KeymapError) : Prop :=
  ∃ earlier piece later codes, (written text).flatten = earlier ++ piece :: later ∧
    List.Forall₂ (IsCode lower) earlier codes ∧ codes.Nodup ∧ Fails lower codes piece error

/-- The error comes from the first piece that is wrong. -/
theorem foldlM_eq_error_iff_firstFails {text : String} {error : KeymapError} :
    (slotted (Text.pieces ',' text.toList)).foldlM (bindPiece lower) {} = .error error ↔
      FirstFails lower text error := by
  have flat := map_fst_slotted text
  generalize slotted (Text.pieces ',' text.toList) = pieces at flat
  rw [foldlM_eq_error_iff]
  constructor
  · rintro ⟨earlier, ⟨piece, slot⟩, later, reached, rfl, went, failed⟩
    rw [List.map_append, List.map_cons] at flat
    obtain ⟨codes, areCodes, nodup, _⟩ := exists_foldlM_eq_ok_iff.mp ⟨reached, went⟩
    have fails := (bindPiece_eq_error_iff_fails fun c => bound_iff went areCodes).mp failed
    exact ⟨_, piece, _, codes, flat.symm, areCodes, nodup, fails⟩
  · rintro ⟨earlier, piece, later, codes, order, areCodes, nodup, fails⟩
    -- The pieces in front of the wrong one are bound, and it is the next.
    obtain ⟨front, rest, rfl, rfl, behind⟩ := List.map_eq_append_iff.mp (flat.trans order)
    obtain ⟨⟨_, slot⟩, back, rfl, rfl, rfl⟩ := List.map_eq_cons_iff.mp behind
    obtain ⟨reached, went⟩ : ∃ reached, front.foldlM (bindPiece lower) {} = .ok reached :=
      exists_foldlM_eq_ok_iff.mpr ⟨codes, areCodes, nodup, fun _ _ => rfl⟩
    exact ⟨front, _, back, reached, rfl, went,
      (bindPiece_eq_error_iff_fails fun c => bound_iff went areCodes).mpr fails⟩

theorem parse_eq_error_iff_firstFails {text : String} {error : KeymapError} :
    parse text lower = .error error ↔
      (written text).length ≠ 16 ∧ error = .wrongCount ∨
      (written text).length = 16 ∧ FirstFails lower text error := by
  by_cases sixteen : (written text).length = 16
  · rw [parse_of_count sixteen, foldlM_eq_error_iff_firstFails]
    simp [sixteen]
  · rw [parse_of_wrongCount sixteen, Except.error.injEq]
    simp [sixteen, eq_comm]

theorem parse_eq_error_iff {text : String} (cased : Cased lower text) {error : KeymapError} :
    parse text lower = .error error ↔ Refused lower text error := by
  rw [parse_eq_error_iff_firstFails]
  constructor
  · rintro (⟨wrong, rfl⟩ | ⟨count, earlier, piece, later, codes, order, areCodes, nodup, fails⟩)
    · exact .wrongCount wrong
    · cases fails with
      | notIntegers noInteger => exact .notIntegers count order areCodes nodup noInteger
      | duplicate isCode again => exact .duplicate count order areCodes nodup isCode again
      | caseless denotes isLower caseless =>
          obtain ⟨c, folds⟩ := cased isLower piece (by simp [order]) _ denotes
          have folds : Text.lowercaseCode _ = .ok c := folds
          rw [folds] at caseless
          cases caseless
  · intro refused
    cases refused with
    | wrongCount wrong => exact .inl ⟨wrong, rfl⟩
    | notIntegers count order areCodes nodup noInteger =>
        exact .inr ⟨count, _, _, _, _, order, areCodes, nodup, .notIntegers noInteger⟩
    | duplicate count order areCodes nodup isCode again =>
        exact .inr ⟨count, _, _, _, _, order, areCodes, nodup, .duplicate isCode again⟩

/-- The three messages tell which of these errors it was. -/
theorem Refused.message_iff {text : String} {error : KeymapError} (refused : Refused lower text error) :
    (error.message =
        "Incorrect number of keys defined -- 16 required.  Use commas to split numbers" ↔
      (written text).length ≠ 16) ∧
    (error.message = "Defined keys are not all integer values" ↔ error = .notIntegers) ∧
    (error.message = "Duplicate keys defined" ↔ error = .duplicate) := by
  cases refused with
  | wrongCount count => exact ⟨iff_of_true rfl count, by decide, by decide⟩
  | notIntegers count => exact ⟨iff_of_false (by decide) (absurd count), by decide, by decide⟩
  | duplicate count => exact ⟨iff_of_false (by decide) (absurd count), by decide, by decide⟩

/-! ### Written keymaps -/

/-- A keymap text with these codes in its entries, in decimal. -/
def render (entries : List (List Int)) : String :=
  ",".intercalate (entries.map fun codes => "/".intercalate (codes.map toString))

theorem notMem_toString {separator : Char} (none : Text.decimalValue? separator = none)
    (noGap : separator ≠ '_') (noSign : separator ≠ '-') (n : Int) :
    separator ∉ (toString n).toList := by
  obtain ⟨ds, numeral, _⟩ := Text.exists_isNumeral_toDigits n.natAbs
  have absent := numeral.notMem none noGap
  rw [Text.toList_toString]
  split <;> simp [noSign, absent]

theorem notMem_intercalate {c separator : Char} (other : c ≠ separator) {parts : List (List Char)}
    (absent : ∀ part ∈ parts, c ∉ part) : c ∉ [separator].intercalate parts := by
  induction parts with
  | nil => simp
  | cons part rest ih =>
      obtain ⟨notHere, notLater⟩ := List.forall_mem_cons.mp absent
      cases rest with
      | nil => simpa using notHere
      | cons next rest =>
          rw [List.intercalate_cons_cons]
          simp [notHere, other, ih notLater]

/-- What was written between the separators is found between them. -/
theorem written_render {entries : List (List Int)} (some : entries ≠ [])
    (filled : ∀ codes ∈ entries, codes ≠ []) :
    written (render entries) = entries.map fun codes => codes.map fun n => (toString n).toList := by
  have noSlash : ∀ n : Int, '/' ∉ (toString n).toList := notMem_toString rfl (by simp) (by simp)
  have noComma : ∀ n : Int, ',' ∉ (toString n).toList := notMem_toString rfl (by simp) (by simp)
  have text : (render entries).toList = [','].intercalate
      (entries.map fun codes => ['/'].intercalate (codes.map fun n => (toString n).toList)) := by
    simp [render, String.toList_intercalate, Function.comp_def]
  rw [written, text, List.splitOn_intercalate]
  · rw [List.map_map]
    refine List.map_congr_left fun codes member => ?_
    refine List.splitOn_intercalate '/' ?_ (by simpa using filled codes member)
    simpa using fun n _ => noSlash n
  · intro entry member
    obtain ⟨codes, _, rfl⟩ := List.mem_map.mp member
    refine notMem_intercalate (by simp) fun part member => ?_
    obtain ⟨n, _, rfl⟩ := List.mem_map.mp member
    exact noComma n
  · simpa using some

theorem isCode_toString_iff {n : Int} :
    IsCode lower (toString n).toList c ↔ n.natAbs < 10 ^ Text.digitLimit ∧ Folds lower n c := by
  simp only [IsCode, ← Text.integer?_eq_some_iff, Text.integer?_toString]
  split
  · next short => simp [short]
  · next long => simp [long]

theorem areCodes_toString {integers folded : List Int}
    (short : ∀ n ∈ integers, n.natAbs < 10 ^ Text.digitLimit)
    (folds : List.Forall₂ (Folds lower) integers folded) :
    List.Forall₂ (IsCode lower) (integers.map fun n => (toString n).toList) folded := by
  induction folds with
  | nil => exact .nil
  | cons fold folds ih =>
      obtain ⟨first, rest⟩ := List.forall_mem_cons.mp short
      exact .cons (isCode_toString_iff.mpr ⟨first, fold⟩) (ih rest)

/-- Different codes that are not too long are read back as they were written. -/
theorem parse_render {entries : List (List Int)} (sixteen : entries.length = 16)
    (filled : ∀ codes ∈ entries, codes ≠ [])
    (short : ∀ codes ∈ entries, ∀ n ∈ codes, n.natAbs < 10 ^ Text.digitLimit)
    {folded : List Int} (folds : List.Forall₂ (Folds lower) entries.flatten folded)
    (nodup : folded.Nodup) :
    ∃ keymap, parse (render entries) lower = .ok keymap ∧ ∀ c slot, keymap.slot? c = some slot ↔
      ∃ codes, entries[slot.val]? = some codes ∧ ∃ n ∈ codes, Folds lower n c := by
  have some : entries ≠ [] := by
    rintro rfl
    cases sixteen
  have areWritten := written_render some filled
  have allShort : ∀ n ∈ entries.flatten, n.natAbs < 10 ^ Text.digitLimit := by
    intro n member
    obtain ⟨codes, inEntries, inCodes⟩ := List.mem_flatten.mp member
    exact short codes inEntries n inCodes
  have areCodes := areCodes_toString allShort folds
  rw [List.map_flatten, ← areWritten] at areCodes
  obtain ⟨keymap, parsed⟩ := exists_parse_eq_ok_iff.mpr
    ⟨by rw [areWritten, List.length_map, sixteen], folded, areCodes, nodup⟩
  refine ⟨keymap, parsed, fun c slot => ?_⟩
  rw [slot?_of_parse parsed, areWritten]
  simp only [List.getElem?_map, Option.map_eq_some_iff]
  constructor
  · rintro ⟨_, ⟨codes, found, rfl⟩, piece, member, isCode⟩
    obtain ⟨n, inCodes, rfl⟩ := List.mem_map.mp member
    exact ⟨codes, found, n, inCodes, (isCode_toString_iff.mp isCode).2⟩
  · rintro ⟨codes, found, n, inCodes, fold⟩
    have isShort := short codes (List.mem_of_getElem? found) n inCodes
    exact ⟨_, ⟨codes, found, rfl⟩, _, List.mem_map.mpr ⟨n, inCodes, rfl⟩,
      isCode_toString_iff.mpr ⟨isShort, fold⟩⟩

/-- An integer with too many digits is none to the parser. -/
theorem parse_render_of_long {n : Int} (long : 10 ^ Text.digitLimit ≤ n.natAbs)
    {later : List (List Int)} (fifteen : later.length = 15) (filled : ∀ codes ∈ later, codes ≠ []) :
    parse (render ([n] :: later)) false = .error .notIntegers := by
  have areWritten := written_render (List.cons_ne_nil [n] later)
    (List.forall_mem_cons.mpr ⟨List.cons_ne_nil n [], filled⟩)
  have cased : Cased false (render ([n] :: later)) := fun isLower => nomatch isLower
  have count : (written (render ([n] :: later))).length = 16 := by
    rw [areWritten, List.length_map, List.length_cons, fifteen]
  have order := congrArg List.flatten areWritten
  refine (parse_eq_error_iff cased).mpr (.notIntegers count order .nil List.nodup_nil fun k => ?_)
  rw [← Text.integer?_eq_some_iff, Text.integer?_toString, if_neg (Nat.not_lt.mpr long)]
  exact nofun

/-- **Parsing accepts exactly the grammar.** A text is a keymap exactly if it has sixteen entries
whose pieces all denote integers, with codes that are all different; it then binds each code to the
slot of its entry and nothing else. If it is none, the count or else the first piece that is wrong
decides the error, and the message tells which it was. Codes that were written in decimal are read back,
if none of them has more digits than may be read. With `lower`, all that holds of the codes of lowercase
characters. -/
theorem parse_accepts_grammar (lower : Bool) :
    (∀ text, Cased lower text →
      ((∃ keymap, parse text lower = .ok keymap) ↔
        (written text).length = 16 ∧
          ∃ codes, List.Forall₂ (IsCode lower) (written text).flatten codes ∧ codes.Nodup) ∧
      (∀ keymap, parse text lower = .ok keymap → ∀ c slot, keymap.slot? c = some slot ↔
        ∃ entry, (written text)[slot.val]? = some entry ∧ ∃ piece ∈ entry, IsCode lower piece c) ∧
      (∀ error, parse text lower = .error error ↔ Refused lower text error) ∧
      ∀ error, parse text lower = .error error →
        (error.message =
            "Incorrect number of keys defined -- 16 required.  Use commas to split numbers" ↔
          (written text).length ≠ 16) ∧
        (error.message = "Defined keys are not all integer values" ↔ error = .notIntegers) ∧
        (error.message = "Duplicate keys defined" ↔ error = .duplicate)) ∧
    ∀ entries : List (List Int), entries.length = 16 → (∀ codes ∈ entries, codes ≠ []) →
      (∀ codes ∈ entries, ∀ n ∈ codes, n.natAbs < 10 ^ Text.digitLimit) →
      (∃ folded, List.Forall₂ (Folds lower) entries.flatten folded ∧ folded.Nodup) →
      ∃ keymap, parse (render entries) lower = .ok keymap ∧
        ∀ c slot, keymap.slot? c = some slot ↔
          ∃ codes, entries[slot.val]? = some codes ∧ ∃ n ∈ codes, Folds lower n c := by
  constructor
  · intro text cased
    exact ⟨exists_parse_eq_ok_iff, fun keymap parsed c slot => slot?_of_parse parsed,
      fun error => parse_eq_error_iff cased,
      fun error failed => ((parse_eq_error_iff cased).mp failed).message_iff⟩
  · rintro entries sixteen filled short ⟨folded, folds, nodup⟩
    exact parse_render sixteen filled short folds nodup

/-- Two texts with lowercase letters: the first has one letter twice, the second is sixteen lists. -/
theorem parse_accepts_grammar_letters :
    let text := "65/ 9_7,1,2,3,4,5,6,7,8,9,10,11,12,13,14,15"
    let entries : List (List Int) := [65, 98] :: (List.range' 1 15).map fun (n : Nat) => [(n : Int)]
    Cased true text ∧ parse text true = .error .duplicate ∧
      ∃ keymap, parse (render entries) true = .ok keymap ∧ keymap.slot? 97 = some 0 := by
  intro text entries
  obtain ⟨areCodes, count, order⟩ : (∀ piece ∈ (written text).flatten, (code true piece).isOk) ∧
      (written text).length = 16 ∧ (written text).flatten =
        [['6', '5']] ++ [' ', '9', '_', '7'] :: (written text).flatten.drop 2 := by decide +kernel
  have cased : Cased true text := by
    intro _ piece member n denotes
    cases read : code true piece with
    | error cause =>
        have isOk := areCodes piece member
        rw [read] at isOk
        cases isOk
    | ok c =>
        obtain ⟨n', denotes', folds⟩ := code_eq_ok_iff.mp read
        rw [← Text.integer?_eq_some_iff] at denotes denotes'
        exact ⟨c, Option.some.inj (denotes.symm.trans denotes') ▸ folds⟩
  have first : IsCode true ['6', '5'] 97 := code_eq_ok_iff.mp rfl
  have second : IsCode true [' ', '9', '_', '7'] 97 := code_eq_ok_iff.mp rfl
  obtain ⟨accepts, reads⟩ := parse_accepts_grammar true
  refine ⟨cased, ((accepts text cased).2.2.1 .duplicate).mpr ?_, ?_⟩
  · have single : [(97 : Int)].Nodup := List.nodup_cons.mpr ⟨List.not_mem_nil, .nil⟩
    exact .duplicate count order (.cons first .nil) single second List.mem_cons_self
  · obtain ⟨filled, folds, nodup, small⟩ : (∀ codes ∈ entries, codes ≠ []) ∧
        (∀ n ∈ entries.flatten, Text.lowercaseCode n = .ok (Text.lowercase n.toNat)) ∧
        (entries.flatten.map fun n => (Text.lowercase n.toNat : Int)).Nodup ∧
        ∀ codes ∈ entries, ∀ n ∈ codes, n.natAbs < 10 ^ 2 := by decide +kernel
    have short : 10 ^ 2 ≤ 10 ^ Text.digitLimit := Nat.pow_le_pow_right (by decide) (by decide)
    obtain ⟨keymap, parsed, bound⟩ := reads entries rfl filled
      (fun codes member n inCodes => Nat.lt_of_lt_of_le (small codes member n inCodes) short)
      ⟨_, List.forall₂_map_right_iff.mpr (List.forall₂_same.mpr folds), nodup⟩
    exact ⟨keymap, parsed, (bound 97 0).mpr ⟨_, rfl, 65, List.mem_cons_self, rfl⟩⟩

/-- One digit more than may be read: the text has sixteen entries with different integers in decimal,
and is no keymap. -/
theorem long_code_is_refused :
    let later : List (List Int) := (List.range' 1 15).map fun (n : Nat) => [(n : Int)]
    let entries : List (List Int) := [10 ^ Text.digitLimit] :: later
    entries.length = 16 ∧ (∀ codes ∈ entries, codes ≠ []) ∧ entries.flatten.Nodup ∧
      parse (render entries) false = .error .notIntegers := by
  intro later entries
  obtain ⟨filled, nodup, small⟩ : (∀ codes ∈ later, codes ≠ []) ∧ later.flatten.Nodup ∧
      ∀ n ∈ later.flatten, n.natAbs < 10 ^ 2 := by decide
  have long : 10 ^ Text.digitLimit ≤ (10 ^ Text.digitLimit : Int).natAbs := by
    simp only [Int.natAbs_pow, Int.reduceAbs, Nat.le_refl]
  have absent : (10 ^ Text.digitLimit : Int) ∉ later.flatten := fun member => by
    have short : 10 ^ 2 ≤ 10 ^ Text.digitLimit := Nat.pow_le_pow_right (by decide) (by decide)
    exact absurd (small _ member) (Nat.not_lt.mpr (Nat.le_trans short long))
  exact ⟨rfl, List.forall_mem_cons.mpr ⟨List.cons_ne_nil _ _, filled⟩,
    List.nodup_cons.mpr ⟨absent, nodup⟩, parse_render_of_long long rfl filled⟩

end Keymap

end Chip8
