import Chip8.Proofs.WellFormed
import Chip8.Sound
import Mathlib.Algebra.Order.Floor.Ring
import Mathlib.Algebra.Order.Field.Rat
import Mathlib.Data.Rat.Floor
import Mathlib.Data.List.Sort
import Mathlib.Tactic.FieldSimp
import Mathlib.Tactic.Linarith

/-!
Stretching a pattern into samples, without rounding.

Two numbers are cut down to integers on their own: how many samples there are, and which bit each of them
falls into. They fit together. Position `p` falls into bit `⌊p * f / 44100⌋` (`bitAt`), and a position
below `⌊N * 44100 / f⌋` falls into one of `N` bits (`bitAt_lt`), so no sample is missed and none is looked
up outside the pattern. The bits of the positions never go down (`bitAt_mono`), so each bit is one run.
-/

namespace Chip8

namespace Waveform

variable {pattern : Array UInt8} {frequency : Rat} {p q k : Nat}

/-- The bits of a pattern in the order they are played, the most significant bit of each byte first. -/
def bits (pattern : List UInt8) : List Bool :=
  pattern.flatMap fun byte => (List.range 8).map fun i => byte.toNat.testBit (7 - i)

/-- The number of the bit that a position falls into. -/
def bitAt (frequency : Rat) (p : Nat) : Nat := (p * frequency / 44100).floor.toNat

/-- The number of samples that `count` bits are stretched into. -/
def samplesOf (count : Nat) (frequency : Rat) : Int := (count * 44100 / frequency).floor

/-- The bits that the first `length` positions fall into. -/
def bitsHeard (frequency : Rat) (length : Nat) : List Nat :=
  (List.range length).map (bitAt frequency)

/-! ### Bits of a pattern -/

@[simp] theorem length_bits (pattern : List UInt8) : (bits pattern).length = 8 * pattern.length := by
  induction pattern with
  | nil => rfl
  | cons byte rest ih =>
      rw [bits, List.flatMap_cons, List.length_append, ← bits, ih]
      simp only [List.length_map, List.length_range, List.length_cons]
      omega

/-- The byte of a bit, and its place there counted from the most significant bit. -/
theorem getElem?_bits (pattern : List UInt8) (j : Nat) :
    (bits pattern)[j]? = pattern[j / 8]?.map fun byte => byte.toNat.testBit (7 - j % 8) := by
  induction pattern generalizing j with
  | nil => rfl
  | cons byte rest ih =>
      rw [bits, List.flatMap_cons, ← bits]
      by_cases first : j < 8
      · rw [List.getElem?_append_left (by simpa using first), Nat.div_eq_of_lt first, Nat.mod_eq_of_lt first]
        simp [first]
      · obtain ⟨i, rfl⟩ := Nat.exists_eq_add_of_le' (Nat.not_lt.mp first)
        rw [List.getElem?_append_right (by simp), Nat.add_div_right i (by decide), Nat.add_mod_right]
        simpa using ih i

/-! ### Cutting down to integers -/

theorem truncate_of_nonneg {x : Rat} (nonneg : 0 ≤ x) : Scalar.truncate x = .ok x.floor := by
  show Except.ok (if x < 0 then _ else _) = _
  rw [if_neg (not_lt.mpr nonneg)]

theorem floor_div_eight (x : Rat) : (x / 8).floor = x.floor / 8 := by
  exact_mod_cast Int.floor_div_natCast x 8

theorem floor_modEight (x : Rat) : (Scalar.modEight x).floor = x.floor % 8 := by
  have whole : Scalar.modEight x = x - ((8 * (x / 8).floor : Int) : Rat) := by
    rw [Int.cast_mul]
    rfl
  have cut : (x - ((8 * (x / 8).floor : Int) : Rat)).floor = x.floor - 8 * (x / 8).floor :=
    Int.floor_sub_intCast x _
  rw [whole, cut, floor_div_eight]
  omega

theorem modEight_nonneg (x : Rat) : 0 ≤ Scalar.modEight x := by
  have small : ((x / 8).floor : Rat) ≤ x / 8 := Rat.floor_le _
  show 0 ≤ x - 8 * ((x / 8).floor : Rat)
  linarith

/-! ### Where a position falls -/

/-- A position falls into bit `k` if it is between the ends of the bit. -/
theorem bitAt_eq_iff (positive : 0 < frequency) :
    bitAt frequency p = k ↔ k * 44100 ≤ p * frequency ∧ p * frequency < (k + 1) * 44100 := by
  have nonneg : (0 : Rat) ≤ p * frequency / 44100 := by positivity
  have lower : (k : Int) ≤ (p * frequency / 44100).floor ↔ (k : Rat) * 44100 ≤ p * frequency := by
    rw [Rat.le_floor_iff, Int.cast_natCast, le_div_iff₀ (by norm_num)]
  have upper : (p * frequency / 44100).floor < (k + 1 : Nat) ↔ p * frequency < ((k : Rat) + 1) * 44100 := by
    rw [Rat.floor_lt_iff, Int.cast_natCast, Nat.cast_succ, div_lt_iff₀ (by norm_num)]
  have floored : 0 ≤ (p * frequency / 44100).floor := Rat.le_floor_iff.mpr (by simpa using nonneg)
  rw [← lower, ← upper, bitAt]
  omega

theorem bitAt_mono (positive : 0 < frequency) (order : p ≤ q) :
    bitAt frequency p ≤ bitAt frequency q := by
  have further : (p : Rat) * frequency / 44100 ≤ q * frequency / 44100 := by gcongr
  exact Int.toNat_le_toNat (Rat.floor_monotone further)

/-- The samples end inside the pattern. -/
theorem bitAt_lt {count : Nat} (positive : 0 < frequency) (before : (p : Int) < samplesOf count frequency) :
    bitAt frequency p < count := by
  have within : ((p + 1 : Nat) : Rat) ≤ count * 44100 / frequency := by
    have := Rat.le_floor_iff.mp (show ((p + 1 : Nat) : Int) ≤ samplesOf count frequency by omega)
    simpa using this
  rw [le_div_iff₀ positive, Nat.cast_succ] at within
  obtain ⟨lower, -⟩ := (bitAt_eq_iff positive).mp (rfl : bitAt frequency p = _)
  have scaled : (bitAt frequency p : Rat) * 44100 < count * 44100 := by linarith
  exact_mod_cast lt_of_mul_lt_mul_right scaled (by norm_num)

/-- Bits that last for two samples or longer are all heard: even the last one, whose end is cut down. -/
theorem exists_bitAt {count : Nat} (positive : 0 < frequency) (slow : frequency ≤ 22050)
    (inside : k < count) : ∃ p : Nat, (p : Int) < samplesOf count frequency ∧ bitAt frequency p = k := by
  -- The first position that is not before the bit.
  obtain ⟨p, reached, first⟩ : ∃ p : Nat,
      (k : Rat) * 44100 / frequency ≤ p ∧ (p : Rat) < k * 44100 / frequency + 1 :=
    ⟨⌈(k : Rat) * 44100 / frequency⌉₊, Nat.le_ceil _, Nat.ceil_lt_add_one (by positivity)⟩
  have start : (k : Rat) * 44100 ≤ p * frequency := (div_le_iff₀ positive).mp reached
  have soon : (p : Rat) * frequency < k * 44100 + frequency := by
    have := (mul_lt_mul_iff_left₀ positive).mpr first
    rwa [add_mul, div_mul_cancel₀ _ (ne_of_gt positive), one_mul] at this
  refine ⟨p, ?_, (bitAt_eq_iff positive).mpr ⟨start, by linarith⟩⟩
  have next : ((k + 1 : Nat) : Rat) ≤ count := by exact_mod_cast inside
  rw [Nat.cast_succ] at next
  have room : ((p + 1 : Nat) : Int) ≤ samplesOf count frequency := by
    rw [samplesOf, Rat.le_floor_iff, Int.cast_natCast, Nat.cast_succ, le_div_iff₀ positive]
    linarith
  omega

/-! ### Runs -/

/-- One run for each of `keys`. -/
def runs (keys : List Nat) (lengthOf : Nat → Nat) : List Nat :=
  keys.flatMap fun k => List.replicate (lengthOf k) k

theorem count_runs {keys : List Nat} (distinct : keys.Nodup) (lengthOf : Nat → Nat) (k : Nat) :
    (runs keys lengthOf).count k = if k ∈ keys then lengthOf k else 0 := by
  induction keys with
  | nil => rfl
  | cons key rest ih =>
      obtain ⟨fresh, distinct⟩ := List.nodup_cons.mp distinct
      rw [runs, List.flatMap_cons, List.count_append, ← runs, ih distinct, List.count_replicate]
      by_cases same : key = k
      · subst same
        simp [fresh]
      · simp [same, Ne.symm same]

theorem runs_sorted {keys : List Nat} (sorted : keys.Pairwise (· < ·)) (lengthOf : Nat → Nat) :
    (runs keys lengthOf).Pairwise (· ≤ ·) := by
  refine List.pairwise_flatMap.mpr ⟨fun k _ => List.pairwise_replicate.mpr (.inr (Nat.le_refl k)), ?_⟩
  refine sorted.imp fun {a b} order x inA y inB => ?_
  rw [List.eq_of_mem_replicate inA, List.eq_of_mem_replicate inB]
  exact Nat.le_of_lt order

/-- Numbers that never go down are runs of equal ones. -/
theorem eq_runs {numbers : List Nat} {count : Nat} (sorted : numbers.Pairwise (· ≤ ·))
    (small : ∀ k ∈ numbers, k < count) :
    numbers = runs (List.range count) fun k => numbers.count k := by
  refine List.Perm.eq_of_pairwise' sorted (runs_sorted List.pairwise_lt_range _) ?_
  refine List.perm_iff_count.mpr fun k => ?_
  rw [count_runs List.nodup_range]
  split
  · rfl
  · next missing =>
      exact List.count_eq_zero.mpr fun member => missing (List.mem_range.mpr (small k member))

/-! ### Samples -/

/-- The sample at a position is the level of the bit it falls into. -/
theorem sample_eq (positive : 0 < frequency) (pattern : Array UInt8) (p : Nat) :
    sample pattern (44100 / frequency) p =
      match (bits pattern.toList)[bitAt frequency p]? with
      | some set => .ok (if set then 0xFF else 0x00)
      | none => .error .outOfRange := by
  have nonneg : (0 : Rat) ≤ p * frequency / 44100 := by positivity
  have place : (p : Rat) / (44100 / frequency) = p * frequency / 44100 := by field_simp
  obtain ⟨j, floored⟩ : ∃ j : Nat, (p * frequency / 44100).floor = j :=
    Int.eq_ofNat_of_zero_le (Rat.le_floor_iff.mpr (by simpa using nonneg))
  have byte : Scalar.truncate ((p : Rat) / (44100 / frequency) / Scalar.ofNat 8) = .ok (j / 8 : Int) := by
    rw [place, ← floored, ← floor_div_eight]
    exact truncate_of_nonneg (div_nonneg nonneg (show (0 : Rat) ≤ 8 by norm_num))
  have bit : Scalar.truncate (Scalar.modEight ((p : Rat) / (44100 / frequency))) = .ok (j % 8 : Int) := by
    rw [place, ← floored, ← floor_modEight]
    exact truncate_of_nonneg (modEight_nonneg _)
  have number : Scalar.ofInt (p : Int) = (.ok (p : Rat) : Except Fault Rat) := rfl
  have fallen : bitAt frequency p = j := by rw [bitAt, floored, Int.toNat_natCast]
  have within : ((j : Int) / 8).toNat = j / 8 := by omega
  have counted : (7 - (j : Int) % 8).toNat = 7 - j % 8 := by omega
  rw [sample, number, fallen, getElem?_bits, Array.getElem?_toList]
  simp only [ok_bind, byte, bit, within, counted]
  cases pattern[j / 8]? with
  | none => rfl
  | some found => rfl

/-- A size that is not negative is a length if there is room for it. -/
theorem length_of_nonneg {size : Int} (nonneg : 0 ≤ size) :
    Bytes.length size =
      if size ≤ Bytes.longest then .ok size.toNat
      else .error (if size < Bytes.sizeLimit then .outOfMemory else .sizeTooLarge) := by
  have wide : Bytes.longest < Bytes.sizeLimit := by decide
  have narrow : -Bytes.sizeLimit < 0 := by decide
  unfold Bytes.length
  split_ifs <;> first | rfl | omega

theorem samplesOf_nonneg (positive : 0 < frequency) (count : Nat) : 0 ≤ samplesOf count frequency := by
  have nonneg : (0 : Rat) ≤ count * 44100 / frequency := by positivity
  exact Rat.le_floor_iff.mpr (by simpa using nonneg)

/-- A pattern is stretched by finding room for the samples and then making each. -/
theorem resample_eq (positive : 0 < frequency) (pattern : Array UInt8) :
    resample pattern frequency =
      (Bytes.length (samplesOf (8 * pattern.size) frequency) >>= fun length =>
        (List.range length).mapM (sample pattern (44100 / frequency))) := by
  have nonzero : Scalar.isZero frequency = false := by
    show (frequency == 0) = false
    simpa using ne_of_gt positive
  have factor : (Scalar.ofNat playbackFrequency : Rat) = 44100 := rfl
  have number : Scalar.ofInt (pattern.size * 8 : Int) = (.ok (pattern.size * 8 : Int) : Except Fault Rat) :=
    rfl
  have product : ((pattern.size * 8 : Int) : Rat) * (44100 / frequency) =
      (8 * pattern.size : Nat) * 44100 / frequency := by
    push_cast
    ring
  have size := truncate_of_nonneg (x := ((8 * pattern.size : Nat) : Rat) * 44100 / frequency) (by positivity)
  rw [resample, nonzero, factor, number]
  simp only [ok_bind, product, size]
  rfl

/-- Samples that are all made are the list of them. -/
theorem mapM_ok {α β : Type} {f : α → Except Fault β} {g : α → β} {items : List α}
    (made : ∀ item ∈ items, f item = .ok (g item)) : items.mapM f = .ok (items.map g) := by
  induction items with
  | nil => rfl
  | cons item rest ih =>
      rw [List.mapM_cons, made item List.mem_cons_self,
        ih fun item member => made item (List.mem_cons_of_mem _ member)]
      rfl

/-- What the samples of a pattern have to be. -/
structure Resampled (pattern : Array UInt8) (frequency : Rat) (samples : List UInt8) : Prop where
  length : (samples.length : Int) = samplesOf (8 * pattern.size) frequency
  level : ∀ p < samples.length, ∃ set, (bits pattern.toList)[bitAt frequency p]? = some set ∧
    samples[p]? = some (if set then 0xFF else 0x00)
  /-- The bits are in order, and the samples of each are next to each other. -/
  order : bitsHeard frequency samples.length =
    runs (List.range (8 * pattern.size)) fun k => (bitsHeard frequency samples.length).count k
  every : frequency ≤ 22050 → ∀ k < 8 * pattern.size, k ∈ bitsHeard frequency samples.length

theorem resampled_of_level {samples : List UInt8} (positive : 0 < frequency)
    (length : (samples.length : Int) = samplesOf (8 * pattern.size) frequency)
    (level : ∀ p < samples.length, ∃ set, (bits pattern.toList)[bitAt frequency p]? = some set ∧
      samples[p]? = some (if set then 0xFF else 0x00)) :
    Resampled pattern frequency samples where
  length := length
  level := level
  order := by
    refine eq_runs ?_ fun k member => ?_
    · refine List.pairwise_map.mpr (List.pairwise_lt_range.imp fun order => ?_)
      exact bitAt_mono positive (Nat.le_of_lt order)
    · obtain ⟨p, inside, rfl⟩ := List.mem_map.mp member
      have before := List.mem_range.mp inside
      exact bitAt_lt positive (by omega)
  every := fun slow k inside => by
    obtain ⟨p, before, fallen⟩ := exists_bitAt positive slow inside
    exact List.mem_map.mpr ⟨p, List.mem_range.mpr (by omega), fallen⟩

/-- Samples for which there is room are all made. -/
theorem resample_ok (positive : 0 < frequency)
    (fits : samplesOf (8 * pattern.size) frequency ≤ Bytes.longest) :
    ∃ samples, resample pattern frequency = .ok samples ∧ Resampled pattern frequency samples := by
  have nonneg := samplesOf_nonneg positive (8 * pattern.size)
  rw [resample_eq positive, length_of_nonneg nonneg, if_pos fits, ok_bind]
  generalize length : (samplesOf (8 * pattern.size) frequency).toNat = count
  -- Every position falls inside the pattern.
  have inside : ∀ p < count, ∃ set, (bits pattern.toList)[bitAt frequency p]? = some set := by
    intro p before
    have within : bitAt frequency p < 8 * pattern.size := bitAt_lt positive (by omega)
    exact ⟨_, List.getElem?_eq_getElem (by simpa using within)⟩
  let level (p : Nat) : UInt8 :=
    if (bits pattern.toList)[bitAt frequency p]?.getD false then 0xFF else 0x00
  refine ⟨(List.range count).map level, mapM_ok fun p member => ?_, resampled_of_level positive ?_ ?_⟩
  · obtain ⟨set, found⟩ := inside p (List.mem_range.mp member)
    rw [sample_eq positive]
    simp only [level, found]
    rfl
  · rw [List.length_map, List.length_range]
    omega
  · intro p before
    rw [List.length_map, List.length_range] at before
    obtain ⟨set, found⟩ := inside p before
    exact ⟨set, found, by simp [level, before, found]⟩

/-- **Resampling never leaves the pattern.** Whatever the pattern and the frequency are, samples for which
there is room are all made. There are `⌊N * 44100 / f⌋` of them for `N` bits, and each is on or off as the
bit is that it falls into; the bits are in order, in one run each, and no bit is left out at 22050 bits per
second or less. Where there is no room for the samples, the search for it is what fails. -/
theorem resample_stretches (positive : 0 < frequency) (pattern : Array UInt8) :
    (samplesOf (8 * pattern.size) frequency ≤ Bytes.longest →
      ∃ samples, resample pattern frequency = .ok samples ∧ Resampled pattern frequency samples) ∧
    (Bytes.longest < samplesOf (8 * pattern.size) frequency →
      resample pattern frequency = .error
        (if samplesOf (8 * pattern.size) frequency < Bytes.sizeLimit then .outOfMemory
          else .sizeTooLarge)) := by
  refine ⟨resample_ok positive, fun large => ?_⟩
  rw [resample_eq positive, length_of_nonneg (samplesOf_nonneg positive _), if_neg (by omega)]
  rfl

/-- The tone of the buzzer: all 128 bits of the pattern are heard in its 1411 samples. -/
theorem tone_stretches :
    (0 : Rat) < 4000 ∧ samplesOf (8 * defaultPattern.toArray.size) 4000 ≤ Bytes.longest ∧
      ∃ samples, resample defaultPattern.toArray (4000 : Rat) = .ok samples ∧
        samples.length = 1411 ∧ ∀ k < 128, k ∈ bitsHeard 4000 samples.length := by
  have positive : (0 : Rat) < 4000 := by decide
  have size : samplesOf (8 * defaultPattern.toArray.size) 4000 = 1411 := by decide +kernel
  have fits : samplesOf (8 * defaultPattern.toArray.size) 4000 ≤ Bytes.longest := by
    rw [size]
    decide
  obtain ⟨samples, made, resampled⟩ := (resample_stretches positive defaultPattern.toArray).1 fits
  have length := resampled.length
  exact ⟨positive, fits, samples, made, by omega, resampled.every (by decide)⟩

/-- One byte that is played too slowly: the samples of its bits do not fit in memory, and there are none. -/
theorem slow_byte_is_refused :
    (0 : Rat) < 1 / 2 ^ 60 ∧
      resample #[0xFF] (1 / 2 ^ 60 : Rat) = .error .sizeTooLarge ∧
      ¬ ∃ samples, resample #[0xFF] (1 / 2 ^ 60 : Rat) = .ok samples ∧
        (samples.length : Int) = samplesOf 8 (1 / 2 ^ 60) := by
  have refused : resample #[0xFF] (1 / 2 ^ 60 : Rat) = .error .sizeTooLarge := by decide +kernel
  refine ⟨by decide +kernel, refused, ?_⟩
  rintro ⟨samples, made, -⟩
  rw [refused] at made
  cases made

end Waveform

/-- Over the rationals, the tone of the buzzer can be made. -/
theorem Sound.tone_rat : ∃ sound, (Sound.create Rat .wave).sound = .ok sound := by
  have fits : Waveform.samplesOf (8 * Waveform.defaultPattern.toArray.size) 4000 ≤ Bytes.longest := by
    decide +kernel
  obtain ⟨samples, made, _⟩ := Waveform.resample_ok (by decide) fits
  have frequency : (Scalar.ofNat Waveform.defaultPatternFrequency : Rat) = 4000 := rfl
  exact ⟨{ kind := .wave }, by simp only [Sound.create, frequency, made]⟩

end Chip8
