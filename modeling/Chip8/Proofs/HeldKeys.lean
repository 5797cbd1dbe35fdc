import Chip8.Inputs.Keyboard
import Mathlib.Data.Set.Card

/-!
The keys that are held down on the keyboard of a window.

A keyboard does not know which keys are held: all it keeps is a count for each slot. The count
follows every press and release of a key of that slot, but never falls below zero
(`Keyboard.held_handleAll`). As long as presses and releases of each key take turns, that makes it
the number of the keys of the slot that are held (`Keyboard.held_eq_ncard`), wherever polls cut the
events into batches (`Keyboard.held_keys_counted`). Escape is left out: its release asks to quit
and is not counted.
-/

namespace Chip8

/-! ### What happened to a key -/

namespace KeyEvent

/-- Whether an event presses a key (`true`) or releases it (`false`); none if it does neither. -/
def edge? (code : Int) : KeyEvent → Option Bool
  | .down key => if key = code then some true else none
  | .up key => if key = code then some false else none
  | _ => none

/-- The presses and releases of a key. -/
def edges (code : Int) (events : List KeyEvent) : List Bool := events.filterMap (edge? code)

/-- Whether a key is held after some events: it was pressed and not released again. -/
def Holds (code : Int) (events : List KeyEvent) : Prop := (edges code events).getLast? = some true

def AsksToQuit (event : KeyEvent) : Prop := event = .close ∨ event = .up Keyboard.escape

instance : DecidablePred AsksToQuit := fun _ => inferInstanceAs (Decidable (_ ∨ _))

end KeyEvent

/-- Presses and releases take turns, and `next` comes first. -/
def TakeTurns (next : Bool) : List Bool → Prop
  | [] => True
  | edge :: rest => edge = next ∧ TakeTurns (!next) rest

instance decidableTakeTurns : (next : Bool) → (edges : List Bool) → Decidable (TakeTurns next edges)
  | _, [] => inferInstanceAs (Decidable True)
  | next, edge :: rest =>
      have := decidableTakeTurns (!next) rest
      inferInstanceAs (Decidable (edge = next ∧ TakeTurns (!next) rest))

/-- The edge behind others is the opposite of the last of them. -/
theorem takeTurns_append_singleton {next edge : Bool} {edges : List Bool} :
    TakeTurns next (edges ++ [edge]) ↔
      TakeTurns next edges ∧ edge = (edges.getLast?.map (!·)).getD next := by
  induction edges generalizing next with
  | nil => simp [TakeTurns]
  | cons first rest ih =>
      rw [List.cons_append, TakeTurns, TakeTurns, ih, and_assoc]
      refine and_congr_right fun same => and_congr_right fun _ => ?_
      subst same
      rw [List.getLast?_cons]
      cases rest.getLast? <;> rfl

namespace KeyEvent

variable {code : Int} {events : List KeyEvent} {event : KeyEvent}

theorem edge?_down (code : Int) : edge? code (.down code) = some true := if_pos rfl

theorem edge?_up (code : Int) : edge? code (.up code) = some false := if_pos rfl

theorem edges_append_singleton :
    edges code (events ++ [event]) = edges code events ++ (edge? code event).toList := by
  rw [edges, List.filterMap_append, edges]
  cases said : edge? code event with
  | none => rw [List.filterMap_cons_none said]; rfl
  | some edge => rw [List.filterMap_cons_some said]; rfl

/-- An event about another key, or about none, leaves a key as it is. -/
theorem holds_of_edge?_eq_none (none : edge? code event = none) :
    Holds code (events ++ [event]) ↔ Holds code events := by
  rw [Holds, edges_append_singleton, none, Option.toList_none, List.append_nil, Holds]

theorem holds_of_edge?_eq_some {edge : Bool} (said : edge? code event = some edge) :
    Holds code (events ++ [event]) ↔ edge = true := by
  rw [Holds, edges_append_singleton, said, Option.toList_some, List.getLast?_concat,
    Option.some.injEq]

/-- In turn, only a key that is not held is pressed, and only one that is held is released. -/
theorem holds_iff_of_takeTurns {edge : Bool} (said : edge? code event = some edge)
    (turns : TakeTurns true (edges code (events ++ [event]))) :
    Holds code events ↔ edge = false := by
  rw [edges_append_singleton, said, Option.toList_some, takeTurns_append_singleton] at turns
  obtain ⟨_, rfl⟩ := turns
  rw [Holds]
  cases (edges code events).getLast? with
  | none => simp
  | some last => cases last <;> simp

theorem takeTurns_init (turns : TakeTurns true (edges code (events ++ [event]))) :
    TakeTurns true (edges code events) := by
  rw [edges_append_singleton] at turns
  cases said : edge? code event with
  | none => rwa [said, Option.toList_none, List.append_nil] at turns
  | some edge =>
      rw [said, Option.toList_some, takeTurns_append_singleton] at turns
      exact turns.1

end KeyEvent

namespace Keyboard

open KeyEvent

variable {k : Keyboard} {event : KeyEvent} {events : List KeyEvent} {slot : Digit}

/-! ### One event -/

/-- What an event adds to the count of a slot. -/
def change (keymap : Keymap) (slot : Digit) : KeyEvent → Int
  | .down code => if keymap.slot? code = some slot then 1 else 0
  | .up code => if code ≠ escape ∧ keymap.slot? code = some slot then -1 else 0
  | _ => 0

/-- The count of a slot after an event. It follows presses and releases, but not below zero. -/
def recount (keymap : Keymap) (slot : Digit) (count : Int) (event : KeyEvent) : Int :=
  max 0 (count + change keymap slot event)

theorem keymap_handle (k : Keyboard) (event : KeyEvent) : (k.handle event).2.keymap = k.keymap := by
  cases event with
  | down code =>
      simp only [handle, press]
      split <;> rfl
  | up code =>
      simp only [handle, release]
      split
      · rfl
      · split <;> rfl
  | close => rfl
  | other => rfl

theorem held_press (k : Keyboard) (code : Int) (slot : Digit) :
    (k.press code).held.get slot =
      k.held.get slot + if k.keymap.slot? code = some slot then 1 else 0 := by
  unfold press
  cases mapped : k.keymap.slot? code with
  | none => simp
  | some other =>
      simp only [Digit.get_set, Option.some.injEq]
      split
      · next same => rw [same]
      · rfl

theorem held_release (k : Keyboard) (code : Int) (slot : Digit) :
    (k.release code).held.get slot =
      k.held.get slot - if k.keymap.slot? code = some slot then 1 else 0 := by
  unfold release
  cases mapped : k.keymap.slot? code with
  | none => simp
  | some other =>
      simp only [Digit.get_set, Option.some.injEq]
      split
      · next same => rw [same]
      · rfl

/-- Handling an event recounts every slot. -/
theorem held_handle (k : Keyboard) (event : KeyEvent) (slot : Digit) :
    ((k.handle event).2.held.get slot : Int) =
      recount k.keymap slot (k.held.get slot) event := by
  cases event with
  | down code =>
      rw [handle, held_press, recount, change]
      split <;> omega
  | up code =>
      rw [handle, recount, change]
      by_cases quits : code = escape
      · simp only [quits, if_true, ne_eq, not_true_eq_false, false_and, if_false]
        omega
      · simp only [quits, if_false, ne_eq, not_false_eq_true, true_and, held_release]
        split <;> omega
  | close =>
      simp only [handle, recount, change]
      omega
  | other =>
      simp only [handle, recount, change]
      omega

theorem handle_fst (k : Keyboard) (event : KeyEvent) :
    (k.handle event).1 = decide event.AsksToQuit := by
  cases event with
  | down code => simp [handle, AsksToQuit]
  | up code =>
      rw [handle]
      split
      · next quits => simp [AsksToQuit, quits]
      · next stays => simp [AsksToQuit, stays]
  | close => simp [handle, AsksToQuit]
  | other => simp [handle, AsksToQuit]

/-! ### Many events -/

theorem handleAll_append (k : Keyboard) (earlier later : List KeyEvent) :
    (k.handleAll (earlier ++ later)).2 = ((k.handleAll earlier).2.handleAll later).2 := by
  induction earlier generalizing k with
  | nil => rfl
  | cons event rest ih => exact ih (k.handle event).2

theorem keymap_handleAll (k : Keyboard) (events : List KeyEvent) :
    (k.handleAll events).2.keymap = k.keymap := by
  induction events generalizing k with
  | nil => rfl
  | cons event rest ih => exact (ih (k.handle event).2).trans (keymap_handle k event)

/-- A batch asks to quit if one of its events does. -/
theorem handleAll_fst (k : Keyboard) (events : List KeyEvent) :
    (k.handleAll events).1 = true ↔ ∃ event ∈ events, event.AsksToQuit := by
  induction events generalizing k with
  | nil => simp [handleAll]
  | cons event rest ih =>
      rw [List.exists_mem_cons_iff, ← ih (k.handle event).2, handleAll]
      simp only [Bool.or_eq_true, handle_fst, decide_eq_true_eq]

/-- Whatever the events, the count of a slot is recounted at each of them. -/
theorem held_handleAll (k : Keyboard) (events : List KeyEvent) (slot : Digit) :
    ((k.handleAll events).2.held.get slot : Int) =
      events.foldl (recount k.keymap slot) (k.held.get slot) := by
  induction events generalizing k with
  | nil => rfl
  | cons event rest ih =>
      rw [List.foldl_cons, ← held_handle k event slot, ← keymap_handle k event]
      exact ih (k.handle event).2

theorem held_start (keymap : Keymap) (slot : Digit) : ({ keymap } : Keyboard).held.get slot = 0 :=
  Vector.getElem_replicate _

/-- Events that ask to quit count for no slot. -/
theorem foldl_recount_filter (keymap : Keymap) (slot : Digit) (events : List KeyEvent) {count : Int}
    (nonneg : 0 ≤ count) :
    (events.filter fun event => ¬ event.AsksToQuit).foldl (recount keymap slot) count =
      events.foldl (recount keymap slot) count := by
  induction events generalizing count with
  | nil => rfl
  | cons event rest ih =>
      have next : 0 ≤ recount keymap slot count event := Int.le_max_left ..
      by_cases quits : event.AsksToQuit
      · have same : recount keymap slot count event = count := by
          rcases quits with rfl | rfl
          · simp only [recount, change]
            omega
          · simp only [recount, change, ne_eq, not_true_eq_false, false_and, if_false]
            omega
        rw [List.filter_cons_of_neg (by simpa using quits), List.foldl_cons, same]
        exact ih nonneg
      · rw [List.filter_cons_of_pos (by simpa using quits), List.foldl_cons, List.foldl_cons]
        exact ih next

/-- Events on a keyboard that nothing was done with. -/
theorem held_append_singleton (keymap : Keymap) (events : List KeyEvent) (event : KeyEvent)
    (slot : Digit) :
    ((({ keymap } : Keyboard).handleAll (events ++ [event])).2.held.get slot : Int) =
      recount keymap slot ((({ keymap } : Keyboard).handleAll events).2.held.get slot) event := by
  have recounted := held_handle (({ keymap } : Keyboard).handleAll events).2 event slot
  rw [keymap_handleAll] at recounted
  rw [handleAll_append]
  exact recounted

/-! ### Keys that are held -/

/-- The keys of a slot that are held after some events. -/
def heldKeys (keymap : Keymap) (slot : Digit) (events : List KeyEvent) : Set Int :=
  {code | keymap.slot? code = some slot ∧ Holds code events}

/-- A key that is pressed joins those held, if it is one of the slot. -/
theorem heldKeys_down (keymap : Keymap) (slot : Digit) (events : List KeyEvent) (code : Int) :
    heldKeys keymap slot (events ++ [.down code]) =
      if keymap.slot? code = some slot then insert code (heldKeys keymap slot events)
      else heldKeys keymap slot events := by
  have other {key : Int} (differs : key ≠ code) : edge? key (.down code) = none :=
    if_neg fun same => differs same.symm
  ext key
  by_cases same : key = code
  · subst same
    split
    · next mapped => simp [heldKeys, mapped, holds_of_edge?_eq_some (edge?_down _)]
    · next unmapped => simp [heldKeys, unmapped]
  · have stays : Holds key (events ++ [.down code]) ↔ Holds key events :=
      holds_of_edge?_eq_none (other same)
    split <;> simp [heldKeys, stays, same]

/-- A key that is released leaves those held. -/
theorem heldKeys_up (keymap : Keymap) (slot : Digit) (events : List KeyEvent) (code : Int) :
    heldKeys keymap slot (events ++ [.up code]) = heldKeys keymap slot events \ {code} := by
  have other {key : Int} (differs : key ≠ code) : edge? key (.up code) = none :=
    if_neg fun same => differs same.symm
  ext key
  by_cases same : key = code
  · subst same
    simp [heldKeys, holds_of_edge?_eq_some (edge?_up _)]
  · have stays : Holds key (events ++ [.up code]) ↔ Holds key events :=
      holds_of_edge?_eq_none (other same)
    simp [heldKeys, stays, same]

theorem heldKeys_of_edgeless (keymap : Keymap) (slot : Digit) (events : List KeyEvent)
    (edgeless : ∀ code, edge? code event = none) :
    heldKeys keymap slot (events ++ [event]) = heldKeys keymap slot events := by
  ext code
  rw [heldKeys, heldKeys, Set.mem_ofPred_eq, Set.mem_ofPred_eq,
    holds_of_edge?_eq_none (edgeless code)]

theorem heldKeys_nil (keymap : Keymap) (slot : Digit) : heldKeys keymap slot [] = ∅ :=
  Set.eq_empty_of_forall_notMem fun _ ⟨_, held⟩ => by cases held

/-- **Counts are numbers of held keys** while the presses and releases of every key take turns. -/
theorem held_eq_ncard (keymap : Keymap) (slot : Digit)
    (turns : ∀ code, TakeTurns true (edges code events)) (stays : .up escape ∉ events) :
    (heldKeys keymap slot events).Finite ∧
      (({ keymap } : Keyboard).handleAll events).2.held.get slot =
        (heldKeys keymap slot events).ncard := by
  induction events using List.reverseRecOn with
  | nil =>
      rw [heldKeys_nil, Set.ncard_empty]
      exact ⟨Set.finite_empty, held_start keymap slot⟩
  | append_singleton events event ih =>
      obtain ⟨finite, counted⟩ :=
        ih (fun code => takeTurns_init (turns code)) fun member => stays (by simp [member])
      have recounted := held_append_singleton keymap events event slot
      rw [counted, recount] at recounted
      cases event with
      | down code =>
          have free : ¬ Holds code events := fun held => by
            have released := (holds_iff_of_takeTurns (edge?_down code) (turns code)).mp held
            cases released
          rw [heldKeys_down]
          rw [change] at recounted
          split
          · next mapped =>
              rw [if_pos mapped] at recounted
              have fresh : code ∉ heldKeys keymap slot events := fun member => free member.2
              rw [Set.ncard_insert_of_notMem fresh finite]
              exact ⟨finite.insert code, by omega⟩
          · next unmapped =>
              rw [if_neg unmapped] at recounted
              exact ⟨finite, by omega⟩
      | up code =>
          have held : Holds code events :=
            (holds_iff_of_takeTurns (edge?_up code) (turns code)).mpr rfl
          have counts : code ≠ escape := by
            rintro rfl
            exact stays (by simp)
          rw [heldKeys_up]
          rw [change] at recounted
          refine ⟨finite.sdiff, ?_⟩
          by_cases mapped : keymap.slot? code = some slot
          · rw [if_pos ⟨counts, mapped⟩] at recounted
            have member : code ∈ heldKeys keymap slot events := ⟨mapped, held⟩
            rw [Set.ncard_sdiff_singleton_of_mem member]
            omega
          · rw [if_neg fun both => mapped both.2] at recounted
            have elsewhere : code ∉ heldKeys keymap slot events := fun member => mapped member.1
            rw [Set.sdiff_singleton_eq_self elsewhere]
            omega
      | close =>
          rw [heldKeys_of_edgeless keymap slot events fun _ => rfl]
          simp only [change] at recounted
          exact ⟨finite, by omega⟩
      | other =>
          rw [heldKeys_of_edgeless keymap slot events fun _ => rfl]
          simp only [change] at recounted
          exact ⟨finite, by omega⟩

/-! ### Polls -/

/-- A keyboard after some polls. -/
def polled (k : Keyboard) : (polls : Nat) → Keyboard
  | 0 => k
  | polls + 1 => (k.polled polls).poll.2

/-- The batch that a poll handles; a poll behind the last batch finds nothing. -/
def batchAt (k : Keyboard) (polls : Nat) : List KeyEvent := (k.pending[polls]?).getD []

/-- Everything that happened until some polls were made. -/
def handled (k : Keyboard) (polls : Nat) : List KeyEvent := (k.pending.take polls).flatten

theorem handled_succ (k : Keyboard) (polls : Nat) :
    k.handled (polls + 1) = k.handled polls ++ k.batchAt polls := by
  rw [handled, List.take_add_one, List.flatten_append, handled, batchAt]
  cases k.pending[polls]? with
  | none => rfl
  | some batch => exact congrArg _ (List.append_nil batch)

theorem press_pending (k : Keyboard) (pending : List (List KeyEvent)) (code : Int) :
    ({ k with pending } : Keyboard).press code = { k.press code with pending } := by
  simp only [press]
  split <;> rfl

theorem release_pending (k : Keyboard) (pending : List (List KeyEvent)) (code : Int) :
    ({ k with pending } : Keyboard).release code = { k.release code with pending } := by
  simp only [release]
  split <;> rfl

/-- What is still to come does not matter to what is handled. -/
theorem handleAll_pending (k : Keyboard) (pending : List (List KeyEvent))
    (events : List KeyEvent) :
    ({ k with pending } : Keyboard).handleAll events =
      ((k.handleAll events).1, { (k.handleAll events).2 with pending }) := by
  induction events generalizing k with
  | nil => rfl
  | cons event rest ih =>
      have first : ({ k with pending } : Keyboard).handle event =
          ((k.handle event).1, { (k.handle event).2 with pending }) := by
        cases event with
        | down code => rw [handle, handle, press_pending]
        | up code =>
            simp only [handle, release_pending]
            split <;> rfl
        | close => rfl
        | other => rfl
      simp only [handleAll, first, ih]

/-- A poll handles its batch. -/
theorem poll_eq (k : Keyboard) :
    k.poll = ((k.handleAll (k.batchAt 0)).1,
      { (k.handleAll (k.batchAt 0)).2 with pending := k.pending.tail }) := by
  obtain ⟨keymap, held, pending⟩ := k
  cases pending with
  | nil => rfl
  | cons batch rest => exact handleAll_pending ⟨keymap, held, batch :: rest⟩ rest batch

/-- Polls handle one batch after the other. -/
theorem polled_eq (k : Keyboard) (polls : Nat) :
    k.polled polls =
      { (k.handleAll (k.handled polls)).2 with pending := k.pending.drop polls } := by
  induction polls with
  | zero =>
      obtain ⟨keymap, held, pending⟩ := k
      rfl
  | succ polls ih =>
      have batch : (k.polled polls).batchAt 0 = k.batchAt polls := by
        rw [ih, batchAt, batchAt, List.getElem?_drop]
        rfl
      have rest : (k.polled polls).pending.tail = k.pending.drop (polls + 1) := by
        rw [ih, List.tail_drop]
      rw [polled, poll_eq, batch, rest, handled_succ, handleAll_append]
      rw [ih, handleAll_pending]

/-- After polls of a new keyboard, it has handled all that happened before them. -/
theorem polled_start (keymap : Keymap) (batches : List (List KeyEvent)) (polls : Nat) :
    ({ keymap, pending := batches } : Keyboard).polled polls =
      { (({ keymap } : Keyboard).handleAll (batches.take polls).flatten).2 with
        pending := batches.drop polls } := by
  have handles := handleAll_pending { keymap } batches (batches.take polls).flatten
  rw [polled_eq, handled]
  dsimp only at handles ⊢
  rw [handles]

theorem getElem?_keyStates (k : Keyboard) (slot : Digit) :
    k.keyStates[slot.val]? = some (decide (0 < k.held.get slot)) := by
  have sized : slot.val < k.held.toList.length := by simp
  rw [keyStates, List.getElem?_map, List.getElem?_eq_getElem sized]
  rfl

/-- **The keypad follows the keys that are held.** Whatever the keymap and however the events
come in batches, after any number of polls

* the count of a slot has followed all presses and releases of its keys, except for the release
  of the escape key, but was never below zero;
* if the presses and releases of every key took turns and escape was not released, the count of a
  slot is the number of its keys that are held, and the slot is down exactly if one of them is;
* the next poll asks to quit exactly if its batch has an event that does, and counts all other
  events of the batch. -/
theorem held_keys_counted (keymap : Keymap) (batches : List (List KeyEvent)) (polls : Nat) :
    let start : Keyboard := { keymap, pending := batches }
    let past := (batches.take polls).flatten
    let batch := (batches[polls]?).getD []
    let k := start.polled polls
    (∀ slot, (k.held.get slot : Int) = past.foldl (recount keymap slot) 0) ∧
    ((∀ code, TakeTurns true (edges code past)) → .up escape ∉ past →
      ∀ slot, k.held.get slot = (heldKeys keymap slot past).ncard ∧
        (k.keyStates[slot.val]? = some true ↔
          ∃ code, keymap.slot? code = some slot ∧ Holds code past)) ∧
    (k.poll.1 = true ↔ .close ∈ batch ∨ .up escape ∈ batch) ∧
    ∀ slot, (k.poll.2.held.get slot : Int) =
      (batch.filter fun event => ¬ event.AsksToQuit).foldl (recount keymap slot)
        (k.held.get slot) := by
  intro start past batch k
  have reached : k = _ := polled_start keymap batches polls
  have held (slot : Digit) :
      k.held.get slot = (({ keymap } : Keyboard).handleAll past).2.held.get slot := by
    rw [reached]
  have next : k.batchAt 0 = batch := by
    rw [reached, batchAt, List.getElem?_drop]
    rfl
  have mapped : k.keymap = keymap := by
    rw [reached]
    exact keymap_handleAll { keymap } past
  refine ⟨fun slot => ?_, fun turns stays slot => ?_, ?_, fun slot => ?_⟩
  · have recounted := held_handleAll { keymap } past slot
    rw [held_start] at recounted
    rw [held]
    exact recounted
  · obtain ⟨finite, counted⟩ := held_eq_ncard keymap slot turns stays
    have counts : k.held.get slot = (heldKeys keymap slot past).ncard := (held slot).trans counted
    refine ⟨counts, ?_⟩
    rw [getElem?_keyStates, counts, Option.some.injEq, decide_eq_true_eq, Set.ncard_pos finite]
    exact Iff.rfl
  · rw [poll_eq, next, handleAll_fst]
    constructor
    · rintro ⟨event, member, rfl | rfl⟩
      · exact .inl member
      · exact .inr member
    · rintro (closed | released)
      · exact ⟨_, closed, .inl rfl⟩
      · exact ⟨_, released, .inr rfl⟩
  · rw [foldl_recount_filter keymap slot batch (Int.natCast_nonneg _), poll_eq, next, ← mapped]
    exact held_handleAll k batch slot

/-- Two keys of slot 4 are pressed, one in each of two batches; the first is released behind an
event that asks to quit. -/
theorem held_keys_counted_shared :
    let keymap : Keymap := { bindings := [(113, 4), (97, 4)] }
    let batches : List (List KeyEvent) := [[.down 97], [.down 113, .close, .up 97]]
    let start : Keyboard := { keymap, pending := batches }
    (start.polled 1).poll.1 = true ∧ (start.polled 1).held.get 4 = 1 ∧
      (start.polled 2).held.get 4 = (heldKeys keymap 4 batches.flatten).ncard ∧
      (start.polled 2).held.get 4 = 1 ∧
      ∃ code, keymap.slot? code = some 4 ∧ Holds code batches.flatten := by
  intro keymap batches start
  have turns (code : Int) : TakeTurns true (edges code batches.flatten) := by
    by_cases first : code = 97
    · subst first
      decide
    · by_cases second : code = 113
      · subst second
        decide
      · have untouched : edges code batches.flatten = [] := by
          simp [batches, edges, edge?, Ne.symm first, Ne.symm second]
        rw [untouched]
        trivial
  have stays : .up escape ∉ batches.flatten := by decide
  obtain ⟨_, _, quits, _⟩ := held_keys_counted keymap batches 1
  obtain ⟨recounted, counted, _⟩ := held_keys_counted keymap batches 2
  obtain ⟨count, down⟩ := counted turns stays 4
  have one : (start.polled 2).held.get 4 = 1 := Int.ofNat_inj.mp (recounted 4)
  refine ⟨quits.mpr (.inl (by decide)), rfl, count, one, down.mp ?_⟩
  rw [getElem?_keyStates, one]
  rfl

end Keyboard

end Chip8
