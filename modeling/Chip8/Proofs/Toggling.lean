import Chip8.Proofs.Picture
import Chip8.Proofs.Sprite
import Mathlib.Data.List.Induction

/-!
The framebuffer as a table of parities.

Whatever was done to a new framebuffer, a pixel is lit exactly if it was toggled an odd number of times
since the screen was last cleared, wherever outside the screen the toggles were aimed. That is what
every reader sees: the rows, a single pixel, and the answer of the next toggle. The mark for a change
tells whether anything was toggled or cleared since it was last asked for (`Follows.act` for one
action, `pixels_are_parities` for all).
-/

namespace Chip8

namespace Framebuffer

/-! ### Using a framebuffer -/

inductive Action where
  | toggle (x y : Int)
  | clear
  /-- Asks whether the picture has changed since the last time. -/
  | ask
  deriving DecidableEq

/-- Does one thing; a toggle and a question also have an answer. -/
def act (fb : Framebuffer) : Action → Except Fault (Option Bool × Framebuffer)
  | .toggle x y => do
      let (lit, fb) ← fb.xorPixel x y
      return (some lit, fb)
  | .clear => do
      let fb ← fb.clear
      return (none, fb)
  | .ask =>
      let (changed, fb) := fb.popChanged
      return (some changed, fb)

/-- Does one thing after the other, and collects the answers. -/
def actAll (fb : Framebuffer) : List Action → Except Fault (List (Option Bool) × Framebuffer)
  | [] => return ([], fb)
  | action :: rest => do
      let (answer, fb) ← fb.act action
      let (answers, fb) ← fb.actAll rest
      return (answer :: answers, fb)

/-! ### What the history tells

The oldest action comes first. -/

/-- The actions since the last `mark`, or all of them, the newest first. -/
def since (mark : Action) (history : List Action) : List Action :=
  history.reverse.takeWhile fun action => action ≠ mark

/-- Whether an action toggles the pixel at `(px, py)` of a screen of this size, both axes wrapped. -/
def toggles (width height px py : Int) : Action → Bool
  | .toggle x y => x % width = px % width && y % height = py % height
  | _ => false

/-- Whether a pixel was toggled an odd number of times since the last clear. -/
def Flipped (width height : Int) (history : List Action) (px py : Int) : Prop :=
  (since .clear history).countP (toggles width height px py) % 2 = 1

instance (width height : Int) (history : List Action) (px py : Int) :
    Decidable (Flipped width height history px py) := by
  unfold Flipped; infer_instance

/-- Whether nobody has asked yet, or anything else was done since. -/
def Changed (history : List Action) : Prop := .ask ∉ history ∨ since .ask history ≠ []

instance (history : List Action) : Decidable (Changed history) := by
  unfold Changed; infer_instance

/-- The picture that a history leaves: one byte for each pixel, row after row. -/
def picture (width height : Int) (history : List Action) : List (List UInt8) :=
  (List.range height.toNat).map fun (py : Nat) => (List.range width.toNat).map fun (px : Nat) =>
    if Flipped width height history px py then 1 else 0

/-- What an action answers after a history. -/
def answer (width height : Int) (history : List Action) : Action → Option Bool
  | .toggle x y => some (Flipped width height history x y)
  | .clear => none
  | .ask => some (Changed history)

variable {width height : Int} {history : List Action} {fb : Framebuffer}

theorem since_append_singleton (mark : Action) (history : List Action) (action : Action) :
    since mark (history ++ [action]) = if action = mark then [] else action :: since mark history := by
  rw [since, List.reverse_append, List.reverse_singleton, List.singleton_append,
    List.takeWhile_cons]
  by_cases same : action = mark
  · simp [same]
  · simp [same, since]

theorem since_append (mark : Action) (earlier later : List Action) :
    since mark (earlier ++ later) =
      if mark ∈ later then since mark later else later.reverse ++ since mark earlier := by
  induction later using List.reverseRecOn with
  | nil => simp
  | append_singleton later action ih =>
      rw [← List.append_assoc, since_append_singleton, since_append_singleton, ih]
      by_cases same : action = mark
      · simp [same]
      · by_cases inside : mark ∈ later <;> simp [same, Ne.symm same, inside]

theorem flipped_clear (width height : Int) (history : List Action) (px py : Int) :
    ¬ Flipped width height (history ++ [.clear]) px py := by
  rw [Flipped, since_append_singleton, if_pos rfl, List.countP_nil]
  decide

theorem flipped_ask (width height : Int) (history : List Action) (px py : Int) :
    Flipped width height (history ++ [.ask]) px py ↔ Flipped width height history px py := by
  rw [Flipped, since_append_singleton, if_neg (by decide), List.countP_cons]
  rfl

/-- A toggle turns the parity of the pixel that it reaches. -/
theorem flipped_toggle (width height : Int) (history : List Action) (x y px py : Int) :
    Flipped width height (history ++ [.toggle x y]) px py ↔
      if x % width = px % width ∧ y % height = py % height then ¬ Flipped width height history px py
      else Flipped width height history px py := by
  rw [Flipped, since_append_singleton, if_neg (by simp), List.countP_cons, toggles, Flipped]
  by_cases here : x % width = px % width ∧ y % height = py % height
  · simp only [here, decide_true, Bool.and_self, if_true, true_and]
    omega
  · rw [if_neg here]
    have elsewhere : (decide (x % width = px % width) && decide (y % height = py % height)) = false := by
      simpa using here
    simp only [elsewhere, Bool.false_eq_true, if_false, Nat.add_zero]

theorem changed_append_singleton (history : List Action) (action : Action) :
    Changed (history ++ [action]) ↔ action ≠ .ask := by
  rw [Changed, since_append_singleton]
  by_cases asked : action = .ask <;> simp [asked]

/-- Only how often each pixel is toggled between two clears matters. -/
theorem flipped_of_perm {before middle middle' later : List Action} (perm : middle.Perm middle')
    (uncleared : .clear ∉ middle) (px py : Int) :
    Flipped width height (before ++ middle ++ later) px py ↔
      Flipped width height (before ++ middle' ++ later) px py := by
  have uncleared' : .clear ∉ middle' := fun member => uncleared (perm.mem_iff.mpr member)
  have counts : (since .clear (before ++ middle)).countP (toggles width height px py) =
      (since .clear (before ++ middle')).countP (toggles width height px py) := by
    rw [since_append, since_append, if_neg uncleared, if_neg uncleared', List.countP_append,
      List.countP_append, List.countP_reverse, List.countP_reverse, perm.countP_eq]
  rw [Flipped, Flipped, since_append _ (before ++ middle), since_append _ (before ++ middle')]
  split
  · rfl
  · rw [List.countP_append, List.countP_append, counts]

/-! ### Where the pixels are kept -/

/-- No two pixels share a cell. -/
theorem place_eq_iff (formed : fb.WellFormed) {x y x' y' : Int} :
    fb.place x y = fb.place x' y' ↔ x % fb.width = x' % fb.width ∧ y % fb.height = y' % fb.height := by
  have nonneg := (location_bounds formed x y).1
  have nonneg' := (location_bounds formed x' y').1
  have wide : fb.width ≠ 0 := Int.ne_of_gt formed.width_pos
  constructor
  · intro same
    have same : fb.location x y = fb.location x' y' := by
      unfold place at same
      omega
    have column : x % fb.width = x' % fb.width := by
      have := congrArg (· % fb.width) same
      simpa only [location, Int.mul_add_emod_self_right, Int.emod_emod] using this
    refine ⟨column, Int.eq_of_mul_eq_mul_right wide ?_⟩
    rw [location, location, column] at same
    exact (Int.add_left_inj _).mp same
  · rintro ⟨column, row⟩
    rw [place, place, location, location, column, row]

/-! ### One action -/

/-- A framebuffer of this size that shows what the history tells. -/
structure Follows (width height : Int) (history : List Action) (fb : Framebuffer) : Prop where
  formed : fb.WellFormed
  wide : fb.width = width
  high : fb.height = height
  room : width * height ≤ Bytes.longest
  pixels : ∀ x y : Int, fb.vram.byte (fb.place x y) = if Flipped width height history x y then 1 else 0
  changed : fb.changed = decide (Changed history)

theorem follows_create (wide : 0 < width) (high : 0 < height) (created : create width height = .ok fb) :
    Follows width height [] fb := by
  have positive : ¬ (width ≤ 0 ∨ height ≤ 0) := by omega
  rw [create, if_neg positive] at created
  obtain ⟨vram, blank, made⟩ := exists_of_bind_eq_ok created
  obtain ⟨nonneg, room, rfl⟩ := Ram.create_eq_ok_iff.mp blank
  cases made
  have size : ((width * height).toNat : Int) = width * height := Int.toNat_of_nonneg nonneg
  refine ⟨⟨wide, high, ⟨Array.size_replicate, ?_, ?_⟩, fun i => .inl (Ram.byte_replicate _ _ _ i)⟩,
    rfl, rfl, room, fun x y => Ram.byte_replicate _ _ _ _, rfl⟩
  · rw [size]
  · rw [size]

theorem Follows.toggle (follows : Follows width height history fb) (x y : Int) :
    ∃ after, fb.xorPixel x y = .ok (decide (Flipped width height history x y), after) ∧
      Follows width height (history ++ [.toggle x y]) after := by
  have formed := follows.formed
  refine ⟨_, ?_, formed.toggled [fb.place x y], follows.wide, follows.high, follows.room, ?_, ?_⟩
  · rw [xorPixel_eq formed, follows.pixels]
    by_cases flipped : Flipped width height history x y <;> simp [flipped]
  · intro x' y'
    have inside : fb.place x' y' < (fb.width * fb.height).toNat := by
      have := location_bounds formed x' y'
      unfold place
      omega
    have reached : [fb.place x y].count (fb.place x' y') % 2 = 1 ↔
        x % width = x' % width ∧ y % height = y' % height := by
      rw [← follows.wide, ← follows.high, ← place_eq_iff formed, List.count_singleton]
      by_cases here : fb.place x y = fb.place x' y' <;> simp [here]
    change (fb.toggled _).vram.byte (fb.place x' y') = _
    rw [byte_toggled formed _ inside, follows.pixels]
    simp only [reached, flipped_toggle]
    split
    · by_cases flipped : Flipped width height history x' y' <;> simp [flipped]
    · rfl
  · have marked : Changed (history ++ [.toggle x y]) := by simp [changed_append_singleton]
    simp [toggled, marked]

theorem Follows.cleared (follows : Follows width height history fb) :
    ∃ after, fb.clear = .ok after ∧ Follows width height (history ++ [.clear]) after := by
  have formed := follows.formed
  have room : (fb.width * fb.height).toNat ≤ 0x100000000 := by
    have := follows.room
    rw [← follows.wide, ← follows.high] at this
    simp only [Bytes.longest] at this
    omega
  refine ⟨_, clear_eq formed room, ⟨formed.width_pos, formed.height_pos,
    formed.vram.of_cells (by simpa using formed.vram.cells), fun i => .inl (Ram.byte_zeroed _ i)⟩,
    follows.wide, follows.high, follows.room, fun x y => ?_, ?_⟩
  · rw [if_neg (flipped_clear width height history x y)]
    exact Ram.byte_zeroed _ _
  · have marked : Changed (history ++ [.clear]) := by simp [changed_append_singleton]
    simp [marked]

theorem Follows.asked (follows : Follows width height history fb) :
    fb.popChanged.1 = decide (Changed history) ∧
      Follows width height (history ++ [.ask]) fb.popChanged.2 := by
  have formed := follows.formed
  refine ⟨follows.changed, ⟨formed.width_pos, formed.height_pos, formed.vram, formed.binary⟩,
    follows.wide, follows.high, follows.room, fun x y => ?_, ?_⟩
  · simp only [flipped_ask]
    exact follows.pixels x y
  · have unmarked : ¬ Changed (history ++ [.ask]) := by simp [changed_append_singleton]
    simp [popChanged, unmarked]

/-- One action never fails, answers what the history tells, and becomes a part of it. -/
theorem Follows.act (follows : Follows width height history fb) (action : Action) :
    ∃ after, fb.act action = .ok (answer width height history action, after) ∧
      Follows width height (history ++ [action]) after := by
  cases action with
  | toggle x y =>
      obtain ⟨after, toggled, follows'⟩ := follows.toggle x y
      exact ⟨after, by rw [Framebuffer.act, toggled]; rfl, follows'⟩
  | clear =>
      obtain ⟨after, cleared, follows'⟩ := follows.cleared
      exact ⟨after, by rw [Framebuffer.act, cleared]; rfl, follows'⟩
  | ask =>
      obtain ⟨told, follows'⟩ := follows.asked
      exact ⟨_, congrArg (fun told => Except.ok (some told, fb.popChanged.2)) told, follows'⟩

/-! ### Whole histories -/

/-- What each action answers, given the actions that went before all of them. -/
def answers (width height : Int) (earlier : List Action) : List Action → List (Option Bool)
  | [] => []
  | action :: rest =>
      answer width height earlier action :: answers width height (earlier ++ [action]) rest

theorem Follows.actAll (follows : Follows width height history fb) (actions : List Action) :
    ∃ after, fb.actAll actions = .ok (answers width height history actions, after) ∧
      Follows width height (history ++ actions) after := by
  induction actions generalizing history fb with
  | nil => exact ⟨fb, rfl, by rwa [List.append_nil]⟩
  | cons action rest ih =>
      obtain ⟨between, acted, followsBetween⟩ := follows.act action
      obtain ⟨after, actedAll, followsAfter⟩ := ih followsBetween
      rw [List.append_assoc, List.singleton_append] at followsAfter
      refine ⟨after, ?_, followsAfter⟩
      simp only [Framebuffer.actAll, acted, ok_bind, actedAll]
      rfl

/-! ### What the readers see -/

/-- Inside the screen nothing wraps. -/
theorem location_inside {px py : Nat} (left : px < fb.width) (above : py < fb.height) :
    fb.location px py = py * fb.width + px := by
  rw [location, Int.emod_eq_of_lt (Int.natCast_nonneg px) left,
    Int.emod_eq_of_lt (Int.natCast_nonneg py) above]

theorem place_inside {px py : Nat} (left : px < fb.width) (above : py < fb.height) :
    fb.place px py = py * fb.width.toNat + px := by
  obtain ⟨width, wide⟩ := Int.eq_ofNat_of_zero_le (show 0 ≤ fb.width by omega)
  rw [place, location_inside left above, wide, Int.toNat_natCast]
  exact Int.toNat_natCast (py * width + px)

theorem Follows.rows (follows : Follows width height history fb) :
    fb.rows = picture width height history := by
  rw [rows_eq follows.formed.shaped, picture, follows.wide, follows.high]
  refine List.map_congr_left fun py above => List.map_congr_left fun px left => ?_
  rw [List.mem_range, ← follows.wide] at left
  rw [List.mem_range, ← follows.high] at above
  rw [← follows.pixels, place_inside (by omega) (by omega), follows.wide]

theorem Follows.pixel (follows : Follows width height history fb) {px py : Nat} (left : px < width)
    (above : py < height) :
    fb.pixel px py = .ok (if Flipped width height history px py then 1 else 0) := by
  rw [← follows.wide] at left
  rw [← follows.high] at above
  have bounds := location_bounds follows.formed px py
  rw [← follows.pixels, Framebuffer.pixel, place]
  rw [location_inside left above] at bounds ⊢
  exact Ram.read_eq follows.formed.vram bounds.1 bounds.2

theorem exists_create_iff (wide : 0 < width) (high : 0 < height) :
    (∃ fb, create width height = .ok fb) ↔ width * height ≤ Bytes.longest := by
  constructor
  · rintro ⟨fb, created⟩
    exact (follows_create wide high created).room
  · intro room
    have positive : ¬ (width ≤ 0 ∨ height ≤ 0) := by omega
    have nonneg : 0 ≤ width * height := Int.mul_nonneg (Int.le_of_lt wide) (Int.le_of_lt high)
    rw [create, if_neg positive, Ram.create_eq_ok_iff.mpr ⟨nonneg, room, rfl⟩]
    exact ⟨_, rfl⟩

/-- **The pixels of a framebuffer are parities.** A framebuffer of any size that there is room for can
be made. Toggling, clearing and asking then never fail, in any order and wherever the toggles are aimed.
A pixel is lit exactly if it was toggled an odd number of times since the last clear: the rows show that
and so does a single pixel, a toggle answers what it was before, and a question answers whether
anything was toggled or cleared since the last one. So the order of what is done between two clears
does not matter for the picture. -/
theorem pixels_are_parities (wide : 0 < width) (high : 0 < height) :
    ((∃ fb, create width height = .ok fb) ↔ width * height ≤ Bytes.longest) ∧
    ∀ fb, create width height = .ok fb →
      (∀ history, ∃ after, fb.actAll history = .ok (answers width height [] history, after) ∧
        after.rows = picture width height history ∧
        ∀ px py : Nat, px < width → py < height →
          after.pixel px py = .ok (if Flipped width height history px py then 1 else 0)) ∧
      ∀ before middle middle' later, middle.Perm middle' → .clear ∉ middle →
        ∃ told told' after after',
          fb.actAll (before ++ middle ++ later) = .ok (told, after) ∧
          fb.actAll (before ++ middle' ++ later) = .ok (told', after') ∧ after.rows = after'.rows := by
  refine ⟨exists_create_iff wide high, fun fb created => ?_⟩
  have start := follows_create wide high created
  refine ⟨fun history => ?_, fun before middle middle' later perm uncleared => ?_⟩
  · obtain ⟨after, acted, follows⟩ := start.actAll history
    exact ⟨after, acted, follows.rows, fun px py left above => follows.pixel left above⟩
  · obtain ⟨after, acted, follows⟩ := start.actAll (before ++ middle ++ later)
    obtain ⟨after', acted', follows'⟩ := start.actAll (before ++ middle' ++ later)
    refine ⟨_, _, after, after', acted, acted', ?_⟩
    rw [follows.rows, follows'.rows, picture, picture]
    simp only [List.nil_append, flipped_of_perm perm uncleared]

/-- Two toggles that wrap to one corner undo each other, and the second question finds nothing new. -/
theorem pixels_are_parities_corner :
    let history : List Action := [.toggle 4 5, .toggle (-4) 10, .toggle (-3) 8, .ask, .ask]
    ∃ fb after, create 4 5 = .ok fb ∧
      fb.actAll history =
        .ok ([some false, some true, some false, some true, some false], after) ∧
      after.rows = [[0, 0, 0, 0], [0, 0, 0, 0], [0, 0, 0, 0], [0, 1, 0, 0], [0, 0, 0, 0]] ∧
      after.pixel 1 3 = .ok 1 := by
  intro history
  have wide : (0 : Int) < 4 := by decide
  have high : (0 : Int) < 5 := by decide
  obtain ⟨room, law⟩ := pixels_are_parities wide high
  obtain ⟨fb, created⟩ := room.mpr (by decide)
  obtain ⟨after, acted, rows, pixel⟩ := (law fb created).1 history
  exact ⟨fb, after, created, acted, rows.trans (by decide), pixel 1 3 (by decide) (by decide)⟩

end Framebuffer

end Chip8
