import Chip8.Proofs.Polling
import Mathlib.Data.List.Basic

/-!
The queue between the reader of a terminal and the polls.

However the reader, the polls and the wish to stop come in between each other, slots are lost only
where the queue was full, and all others come out in the order in which their characters were read.
The wish to quit is never lost: the reader waits with it for room and reads nothing more, so it is
the last entry of all (`Exchange.queue_hands_over`).

A character is accounted for from the moment it is received (`Exchange.Accounted`), and the first
one that asks to quit is the last one that is received (`Exchange.QuitsLast`). The rest follows
from the order of the queue.
-/

namespace Chip8.Exchange

open Keystroke QueueEntry

variable {τ : Type}

/-! ### Entries behind the wish to quit -/

theorem map_slot_slots {entries : List QueueEntry} (stays : .quit ∉ entries) :
    (slots entries).map .slot = entries := by
  induction entries with
  | nil => rfl
  | cons entry rest ih =>
      rw [List.mem_cons, not_or] at stays
      cases entry with
      | slot slot => exact congrArg (QueueEntry.slot slot :: ·) (ih stays.2)
      | quit => exact absurd rfl stays.1

theorem quitIsLast_sublist {entries fewer : List QueueEntry} (last : QuitIsLast entries)
    (sub : fewer.Sublist entries) : QuitIsLast fewer := by
  obtain ⟨keys, rfl | rfl⟩ := last
  · obtain ⟨fewerKeys, _, rfl⟩ := List.sublist_map_iff.mp sub
    exact ⟨fewerKeys, .inl rfl⟩
  · obtain ⟨front, back, rfl, frontSub, backSub⟩ := List.sublist_append_iff.mp sub
    obtain ⟨fewerKeys, _, rfl⟩ := List.sublist_map_iff.mp frontSub
    rcases List.sublist_singleton.mp backSub with rfl | rfl
    · exact ⟨fewerKeys, .inl (List.append_nil _)⟩
    · exact ⟨fewerKeys, .inr rfl⟩

/-! ### Nothing is lost before it is put -/

/-- The entries for the characters received are those put so far and the one in hand. -/
structure Accounted (keymap : Keymap) (x : Exchange τ) : Prop where
  mapped : x.keystrokes.keymap = keymap
  entries : (received x.log).filterMap (entryOf keymap) =
    (offers x.log).map (·.1) ++ x.keystrokes.reader.inHand

namespace Accounted

variable {keymap : Keymap} {x y : Exchange τ} {act : Act τ}

theorem extend (accounted : Accounted keymap x) {later : List (Event τ)}
    (log : y.log = x.log ++ later) (same : y.keystrokes.keymap = x.keystrokes.keymap)
    (flow : x.keystrokes.reader.inHand ++ (received later).filterMap (entryOf keymap) =
      (offers later).map (·.1) ++ y.keystrokes.reader.inHand) : Accounted keymap y where
  mapped := same.trans accounted.mapped
  entries := by
    rw [log, received_append, List.filterMap_append, accounted.entries, List.append_assoc, flow,
      offers_append, List.map_append, List.append_assoc]

/-- A character that is received is in hand if it means an entry. -/
theorem receive (accounted : Accounted keymap x) {char : Int} (log : y.log = x.log ++ [.received char])
    (same : y.keystrokes.keymap = x.keystrokes.keymap) (turn : x.keystrokes.reader = .receiving)
    (hand : y.keystrokes.reader.inHand = (entryOf x.keystrokes.keymap char).toList) :
    Accounted keymap y := by
  refine accounted.extend log same ?_
  rw [turn, hand, accounted.mapped]
  change [char].filterMap (entryOf keymap) = (entryOf keymap char).toList
  cases means : entryOf keymap char <;> simp [means]

theorem start [Scalar τ] (keymap : Keymap) (now : τ) : Accounted keymap (start keymap now) :=
  ⟨rfl, rfl⟩

theorem step [Scalar τ] (step : Step x act y) (accounted : Accounted keymap x) :
    Accounted keymap y := by
  cases step with
  | idle => exact accounted
  | ticked => exact ⟨accounted.mapped, accounted.entries⟩
  | checked turn =>
      refine ⟨accounted.mapped, accounted.entries.trans ?_⟩
      rw [turn]
      dsimp only
      split <;> rfl
  | restarted free => exact ⟨accounted.mapped, accounted.entries.trans (by rw [free]; rfl)⟩
  | wanted turn means => exact accounted.receive rfl rfl turn (by rw [means]; rfl)
  | ignored turn means => exact accounted.receive rfl rfl turn (by rw [means]; rfl)
  | failed turn _ _ means => exact accounted.receive rfl rfl turn (by rw [means]; rfl)
  | @queued entry turn _ =>
      refine accounted.extend rfl rfl ?_
      rw [turn]
      dsimp only
      split <;> rfl
  | dropped turn _ => exact accounted.extend rfl rfl (by rw [turn]; rfl)
  | stopped => exact accounted.extend rfl rfl (List.append_nil _)
  | emptied => exact accounted.extend rfl rfl (List.append_nil _)
  | quitOut => exact accounted.extend rfl rfl (List.append_nil _)
  | slotOut next =>
      obtain ⟨unmoved, _, unread⟩ := looking_still x.deadline x.now
      refine accounted.extend rfl rfl ?_
      change _ ++ (received (looking x.deadline x.now)).filterMap _ =
        (offers (looking x.deadline x.now)).map _ ++ _
      rw [unmoved, unread]
      exact List.append_nil _

end Accounted

/-! ### Nothing is received behind the wish to quit -/

/-- How far the reader has come. -/
inductive QuitsLast (x : Exchange τ) : Prop where
  | reading (stays : ∀ char ∈ received x.log, ¬ Quits char)
  /-- The reader waits with the wish to quit, or has put it. -/
  | quitting {earlier : List Int} {char : Int} (last : received x.log = earlier ++ [char])
      (quits : Quits char) (stays : ∀ char ∈ earlier, ¬ Quits char)
      (done : x.keystrokes.reader = .offering .quit ∨ x.keystrokes.reader = .ended)

namespace QuitsLast

variable {x y : Exchange τ} {act : Act τ} {later : List (Event τ)}

/-- Events that are no characters. The reader puts the wish to quit, or stays where it is. -/
theorem still (quitsLast : QuitsLast x) (log : y.log = x.log ++ later) (unread : received later = [])
    (next : x.keystrokes.reader = .offering .quit ∨ x.keystrokes.reader = .ended →
      y.keystrokes.reader = .offering .quit ∨ y.keystrokes.reader = .ended) : QuitsLast y := by
  have same : received y.log = received x.log := by
    rw [log, received_append, unread, List.append_nil]
  cases quitsLast with
  | reading stays => exact .reading (same ▸ stays)
  | quitting last quits stays done => exact .quitting (same.trans last) quits stays (next done)

/-- A reader that goes on reading has not met the wish to quit. -/
theorem stays (quitsLast : QuitsLast x) (notQuit : x.keystrokes.reader ≠ .offering .quit)
    (notEnded : x.keystrokes.reader ≠ .ended) : ∀ char ∈ received x.log, ¬ Quits char := by
  cases quitsLast with
  | reading stays => exact stays
  | quitting _ _ _ done => exact absurd done (not_or.mpr ⟨notQuit, notEnded⟩)

theorem receive (quitsLast : QuitsLast x) {char : Int} (log : y.log = x.log ++ [.received char])
    (turn : x.keystrokes.reader = .receiving)
    (next : Quits char → y.keystrokes.reader = .offering .quit) : QuitsLast y := by
  have stays := quitsLast.stays (by simp [turn]) (by simp [turn])
  have chars : received y.log = received x.log ++ [char] := by
    rw [log, received_append]
    rfl
  by_cases quits : Quits char
  · exact .quitting chars quits stays (.inl (next quits))
  · refine .reading fun other member => ?_
    rw [chars, List.mem_append, List.mem_singleton] at member
    rcases member with member | rfl
    · exact stays other member
    · exact quits

theorem step [Scalar τ] (once : act ≠ .restart) (step : Step x act y) (quitsLast : QuitsLast x) :
    QuitsLast y := by
  cases step with
  | idle => exact quitsLast
  | ticked => exact quitsLast.still (List.append_nil _).symm rfl id
  | restarted => exact absurd rfl once
  | checked turn =>
      exact .reading (quitsLast.stays (by simp [turn]) (by simp [turn]))
  | @wanted char entry turn means =>
      refine quitsLast.receive rfl turn fun quits => ?_
      rw [entryOf, if_pos quits] at means
      cases means
      rfl
  | ignored turn means =>
      refine quitsLast.receive rfl turn fun quits => ?_
      rw [entryOf, if_pos quits] at means
      cases means
  | failed turn _ _ means =>
      refine quitsLast.receive rfl turn fun quits => ?_
      rw [entryOf, if_pos quits] at means
      cases means
  | @queued entry turn _ =>
      -- A reader that is done has nothing but the wish to quit to put, and ends with it.
      refine quitsLast.still rfl rfl ?_
      rw [turn]
      rintro (same | ended)
      · cases same
        exact .inr rfl
      · cases ended
  | dropped turn _ =>
      refine quitsLast.still rfl rfl ?_
      rw [turn]
      rintro (same | ended)
      · cases same
      · cases ended
  | stopped => exact quitsLast.still rfl rfl id
  | emptied => exact quitsLast.still rfl rfl id
  | quitOut => exact quitsLast.still rfl rfl id
  | slotOut => exact quitsLast.still rfl (looking_still x.deadline x.now).2.2 id

/-- No character comes behind one that asks to quit. -/
theorem nothing_behind (quitsLast : QuitsLast x) {earlier later : List Int} {char : Int}
    (chars : received x.log = earlier ++ char :: later) (quits : Quits char) : later = [] := by
  cases quitsLast with
  | reading stays =>
      rw [chars] at stays
      exact absurd quits (stays char (by simp))
  | @quitting front last chars' _ stays _ =>
      rcases List.eq_nil_or_concat later with rfl | ⟨init, end', rfl⟩
      · rfl
      · have same : earlier ++ char :: init ++ [end'] = front ++ [last] := by
          rw [← chars', chars, List.concat_eq_append, List.append_assoc, List.cons_append]
        have front' := (List.append_inj' same rfl).1
        exact absurd quits (stays char (by simp [← front']))

end QuitsLast

/-- The wish to quit is the last of the entries that characters mean. -/
theorem quitIsLast_entries {x : Exchange τ} (quitsLast : QuitsLast x) (keymap : Keymap) :
    QuitIsLast ((received x.log).filterMap (entryOf keymap)) := by
  have slotsOnly {chars : List Int} (stays : ∀ char ∈ chars, ¬ Quits char) :
      (slots (chars.filterMap (entryOf keymap))).map .slot = chars.filterMap (entryOf keymap) := by
    refine map_slot_slots fun member => ?_
    obtain ⟨char, received, means⟩ := List.mem_filterMap.mp member
    exact stays char received (entryOf_eq_quit.mp means)
  cases quitsLast with
  | reading stays => exact ⟨_, .inl (slotsOnly stays).symm⟩
  | @quitting earlier char last quits stays _ =>
      refine ⟨slots (earlier.filterMap (entryOf keymap)), .inr ?_⟩
      rw [slotsOnly stays, last, List.filterMap_append,
        List.filterMap_cons_some (entryOf_eq_quit.mpr quits)]
      rfl

theorem quit_mem_inHand {reader : Reader} : .quit ∈ reader.inHand ↔ reader = .offering .quit := by
  cases reader with
  | offering entry => simp [Reader.inHand, eq_comm]
  | _ => simp [Reader.inHand]

/-- The wish to quit is accepted whenever it is put. -/
theorem FirstInFirstOut.quit_mem_accepted {x : Exchange τ} (inOrder : FirstInFirstOut x) :
    .quit ∈ accepted x.log ↔ .quit ∈ (offers x.log).map (·.1) := by
  simp only [accepted, List.mem_map, List.mem_filter, decide_eq_true_eq]
  constructor
  · rintro ⟨offer, ⟨member, _⟩, quit⟩
    exact ⟨offer, member, quit⟩
  · rintro ⟨⟨entry, found⟩, member, quit⟩
    dsimp only at quit
    subst quit
    exact ⟨_, ⟨member, inOrder.quits member⟩, rfl⟩

/-! ### Slots -/

def slotOffer? : QueueEntry × Nat → Option (Digit × Nat)
  | (.slot key, found) => some (key, found)
  | (.quit, _) => none

/-- The slots put or dropped, each with how many entries the queue held. -/
def slotOffers (log : List (Event τ)) : List (Digit × Nat) := (offers log).filterMap slotOffer?

theorem map_slotOffers (log : List (Event τ)) :
    (slotOffers log).map (·.1) = slots ((offers log).map (·.1)) := by
  rw [slotOffers, List.map_filterMap, slots, List.filterMap_map]
  refine List.filterMap_congr fun offer _ => ?_
  obtain ⟨_ | _, found⟩ := offer <;> rfl

/-- Those that found room are accepted. -/
theorem map_filter_slotOffers (log : List (Event τ)) :
    ((slotOffers log).filter (·.2 ≠ Keystrokes.queueSize)).map (·.1) = slots (accepted log) := by
  rw [slotOffers, accepted, List.filter_filterMap, List.map_filterMap, slots, List.filterMap_map,
    List.filterMap_filter]
  refine List.filterMap_congr fun offer _ => ?_
  obtain ⟨_ | _, found⟩ := offer
  · by_cases full : found = Keystrokes.queueSize <;> simp [slotOffer?, slot?, full]
  · simp [slotOffer?, slot?]

theorem slots_entryOf (keymap : Keymap) (chars : List Int) :
    slots (chars.filterMap (entryOf keymap)) = chars.filterMap (slotOf keymap) := by
  rw [slots, List.filterMap_filterMap]
  refine List.filterMap_congr fun char _ => ?_
  unfold entryOf
  split
  · next quits => rw [slotOf, if_pos quits]; rfl
  · cases slotOf keymap char <;> rfl

/-! ### The end of the reader -/

/-- What a reader ends for. -/
def Ends (x : Exchange τ) : Prop :=
  x.keystrokes.reader = .ended → x.keystrokes.stopped = true ∨
    .quit ∈ (offers x.log).map (·.1) ∨
      ∃ char ∈ received x.log, 0 ≤ char ∧ ∃ fault, Text.lowercaseCode char = .error fault

namespace Ends

variable {x y : Exchange τ} {act : Act τ} {later : List (Event τ)}

theorem start [Scalar τ] (keymap : Keymap) (now : τ) : Ends (start keymap now) := nofun

theorem still (ends : Ends x) (log : y.log = x.log ++ later)
    (stopped : x.keystrokes.stopped = true → y.keystrokes.stopped = true)
    (reader : y.keystrokes.reader = .ended → x.keystrokes.reader = .ended) : Ends y := by
  intro ended
  rw [log, offers_append, received_append, List.map_append]
  rcases ends (reader ended) with stop | quit | ⟨char, member, caseless⟩
  · exact .inl (stopped stop)
  · exact .inr (.inl (List.mem_append_left _ quit))
  · exact .inr (.inr ⟨char, List.mem_append_left _ member, caseless⟩)

theorem step [Scalar τ] (step : Step x act y) (ends : Ends x) : Ends y := by
  cases step with
  | idle => exact ends
  | ticked => exact ends.still (List.append_nil _).symm id id
  | restarted => nofun
  | checked turn =>
      intro ended
      dsimp only at ended
      split at ended
      · next stopped => exact .inl stopped
      · nomatch ended
  | wanted => nofun
  | ignored => nofun
  | dropped => nofun
  | @failed char fault _ nonneg caseless =>
      intro _
      rw [received_append]
      exact .inr (.inr ⟨char, List.mem_append_right _ List.mem_cons_self, nonneg, fault, caseless⟩)
  | @queued entry turn _ =>
      intro ended
      dsimp only at ended
      split at ended
      · next quits =>
          rw [offers_append, List.map_append, quits]
          exact .inr (.inl (List.mem_append_right _ List.mem_cons_self))
      · nomatch ended
  | stopped => exact ends.still rfl (fun _ => rfl) id
  | emptied => exact ends.still rfl id id
  | quitOut => exact ends.still rfl id id
  | slotOut => exact ends.still rfl id id

end Ends

/-! ### The wish to stop -/

def Event.isStop : Event τ → Bool
  | .stopped => true
  | _ => false

/-- What is seen from the first wish to stop on. -/
def sinceStop (log : List (Event τ)) : List (Event τ) := log.dropWhile fun event => !event.isStop

theorem sinceStop_append (log later : List (Event τ)) :
    sinceStop (log ++ later) =
      if sinceStop log = [] then sinceStop later else sinceStop log ++ later := by
  rw [sinceStop, List.dropWhile_append, sinceStop, sinceStop]
  simp only [List.isEmpty_iff]

/-- How many characters the reader is about to receive without another look whether to stop. -/
def committed : Reader → Nat
  | .receiving => 1
  | _ => 0

theorem committed_le (reader : Reader) : committed reader ≤ 1 := by
  cases reader with
  | receiving => exact Nat.le_refl 1
  | _ => exact Nat.zero_le 1

/-- A reader looks whether to stop before each character, so one character at most gets through. -/
def StopsSoon (x : Exchange τ) : Prop :=
  sinceStop x.log = [] ∨ x.keystrokes.stopped = true ∧
    (received (sinceStop x.log)).length + committed x.keystrokes.reader ≤ 1

namespace StopsSoon

variable {x y : Exchange τ} {act : Act τ} {later : List (Event τ)}

theorem extend (soon : StopsSoon x) (log : y.log = x.log ++ later) (silent : sinceStop later = [])
    (stopped : y.keystrokes.stopped = x.keystrokes.stopped)
    (few : (received later).length + committed y.keystrokes.reader ≤
      committed x.keystrokes.reader) : StopsSoon y := by
  rw [StopsSoon, log, sinceStop_append]
  by_cases none : sinceStop x.log = []
  · exact .inl (by rw [if_pos none, silent])
  · obtain ⟨known, soon⟩ := soon.resolve_left none
    rw [if_neg none, received_append, List.length_append]
    exact .inr ⟨stopped.trans known, by omega⟩

theorem step [Scalar τ] (step : Step x act y) (soon : StopsSoon x) : StopsSoon y := by
  cases step with
  | idle => exact soon
  | ticked => exact soon
  | checked turn =>
      rcases soon with none | ⟨known, few⟩
      · exact .inl none
      · refine .inr ⟨known, ?_⟩
        rw [turn] at few
        dsimp only
        rw [if_pos known]
        exact few
  | restarted => exact soon.extend (List.append_nil _).symm rfl rfl (Nat.zero_le _)
  | wanted turn => exact soon.extend rfl rfl rfl (by rw [turn]; exact Nat.le_refl 1)
  | ignored turn => exact soon.extend rfl rfl rfl (by rw [turn]; exact Nat.le_refl 1)
  | failed turn => exact soon.extend rfl rfl rfl (by rw [turn]; exact Nat.le_refl 1)
  | @queued entry =>
      refine soon.extend rfl rfl rfl ?_
      dsimp only
      split <;> exact Nat.zero_le _
  | dropped => exact soon.extend rfl rfl rfl (Nat.zero_le _)
  | emptied => exact soon.extend rfl rfl rfl (Nat.le_of_eq (Nat.zero_add _))
  | quitOut => exact soon.extend rfl rfl rfl (Nat.le_of_eq (Nat.zero_add _))
  | slotOut =>
      refine soon.extend rfl ?_ rfl ?_
      · cases x.deadline <;> rfl
      · change (received (looking x.deadline x.now)).length + _ ≤ _
        rw [(looking_still x.deadline x.now).2.2]
        exact Nat.le_of_eq (Nat.zero_add _)
  | stopped =>
      refine .inr ⟨rfl, ?_⟩
      rw [sinceStop_append]
      split
      · exact Nat.le_trans (Nat.le_of_eq (Nat.zero_add _)) (committed_le _)
      · next some =>
          rw [received_append, List.length_append]
          exact (soon.resolve_left some).2

end StopsSoon

/-! ### Characters that mean nothing, and the wish to quit -/

/-- A character that stands for no slot, and does not ask to quit. -/
def Meaningless (keymap : Keymap) (char : Int) : Prop :=
  char < 0 ∨ ∃ code, Text.lowercaseCode char = .ok code ∧ code ≠ 27 ∧ code ≠ 3 ∧
    keymap.slot? code = none

theorem classify_of_meaningless {keymap : Keymap} {char : Int} (none : Meaningless keymap char) :
    classify keymap char = .ok .ignored := by
  rcases none with negative | ⟨code, lower, notEscape, notInterrupt, unmapped⟩
  · exact if_pos negative
  · rw [classify, lower]
    split
    · rfl
    · have stays : ¬ quitCodes.contains code = true := by simp [quitCodes, notEscape, notInterrupt]
      change (if quitCodes.contains code = true then Except.ok Keystroke.quit else _) = _
      rw [if_neg stays, unmapped]
      rfl

section Due

variable [Scalar τ] {x : Exchange τ}

/-- Nothing but the log tells of a character that means nothing. -/
theorem receive_of_meaningless (turn : x.keystrokes.reader = .checking)
    (goesOn : x.keystrokes.stopped = false) {char : Int}
    (none : Meaningless x.keystrokes.keymap char) :
    (x.perform .check).perform (.receive char) =
      { x with log := x.log ++ [.received char] } := by
  have checks : x.keystrokes.check = { x.keystrokes with reader := .receiving } := by
    simp [Keystrokes.check, turn, goesOn]
  have receives : x.keystrokes.check.receive char = .ok x.keystrokes := by
    have turned : x.keystrokes.check.reader = .receiving := by rw [checks]
    have classified : classify x.keystrokes.check.keymap char = .ok .ignored := by
      rw [checks]
      exact classify_of_meaningless none
    rw [Keystrokes.receive_of_ok turned classified, checks, Keystroke.next, ← turn]
  rw [perform, perform, receives]
  exact if_pos (by rw [checks])

/-- What becomes of the wish to quit that a reader has in hand. -/
structure QuitWaits (x : Exchange τ) : Prop where
  room : x.keystrokes.queue.length < Keystrokes.queueSize → (x.perform .put).keystrokes =
    { x.keystrokes with queue := x.keystrokes.queue ++ [.quit], reader := .ended }
  full : Keystrokes.queueSize ≤ x.keystrokes.queue.length → x.perform .put = x
  /-- Meanwhile nothing is received. -/
  waits : x.perform .check = x ∧ ∀ char, x.perform (.receive char) = x

theorem quitWaits (turn : x.keystrokes.reader = .offering .quit) : QuitWaits x where
  room room := by
    have fits : x.keystrokes.hasRoom = true := decide_eq_true room
    change x.keystrokes.put = _
    rw [Keystrokes.put, turn]
    exact if_pos fits
  full full := by
    have waits : ¬ x.keystrokes.hasRoom = true := fun fits =>
      Nat.not_lt.mpr full (of_decide_eq_true fits)
    refine perform_put ?_
    rw [offering, turn]
    exact if_pos ⟨rfl, waits⟩
  waits := by
    refine ⟨?_, fun char => ?_⟩
    · rw [perform, check_of_ne (by simp [turn])]
    · exact if_neg (by simp [turn])

end Due

/-! ### The queue as a whole -/

/-- What the queue hands over from a reader to the polls, after some acts. -/
structure HandsOver [Scalar τ] (keymap : Keymap) (x : Exchange τ) : Prop where
  bounded : x.keystrokes.queue.length ≤ 16
  /-- The slots of the characters received are put in order; the last may still be in hand. -/
  offered : (received x.log).filterMap (slotOf keymap) =
    (slotOffers x.log).map (·.1) ++ slots x.keystrokes.reader.inHand
  /-- All come out in order, but for those whose put found sixteen entries. -/
  delivered : slots (taken x.log) ++ slots x.keystrokes.queue =
    ((slotOffers x.log).filter (·.2 ≠ 16)).map (·.1)
  /-- A character that means nothing leaves no trace. -/
  traceless : x.keystrokes.reader = .checking → x.keystrokes.stopped = false →
    ∀ char, Meaningless keymap char → (x.perform .check).perform (.receive char) =
      { x with log := x.log ++ [.received char] }
  /-- The wish to quit is never lost. -/
  quit : (∃ char ∈ received x.log, Quits char) ↔
    x.keystrokes.reader = .offering .quit ∨ .quit ∈ taken x.log ++ x.keystrokes.queue
  quitWaits : x.keystrokes.reader = .offering .quit → QuitWaits x
  /-- It is put once at most, behind all slots. -/
  quitLast : QuitIsLast (taken x.log ++ x.keystrokes.queue)
  /-- Nothing is received behind it. -/
  nothingBehind : ∀ earlier char later, received x.log = earlier ++ char :: later → Quits char →
    later = []
  /-- Apart from the wish to quit, only one to stop ends a reader of characters with lowercase
  forms. -/
  goesOn : (∀ char ∈ received x.log, 0 ≤ char → ∃ code, Text.lowercaseCode char = .ok code) →
    x.keystrokes.reader = .ended →
      x.keystrokes.stopped = true ∨ .quit ∈ taken x.log ++ x.keystrokes.queue
  /-- After a wish to stop one character at most is received. -/
  stopsSoon : (received (sinceStop x.log)).length ≤ 1
  /-- What is taken out is taken by polls, and each answers whether it took the wish to quit. -/
  polled : (polls x.log).all.reverse.flatMap (·.took) = taken x.log
  answers : ∀ poll ∈ (polls x.log).past, poll.answer = some (decide (.quit ∈ poll.took))
  /-- What is read or polled at once is such a run. -/
  reads : offering x.keystrokes = [] → ∀ chars,
    ReadBy (reading chars) x chars (x.keystrokes.readAll chars)
  polls : x.deadline = none → PolledByTakes x

/-- **The queue loses slots only where it is full, and the wish to quit never.** This holds for one
reader, however its steps, the steps of the polls and the wishes to stop come in between each
other. -/
theorem queue_hands_over [Scalar τ] (keymap : Keymap) (now : τ) (acts : List (Act τ))
    (once : .restart ∉ acts) : HandsOver keymap ((start keymap now).performAll acts) := by
  have inOrder : FirstInFirstOut ((start keymap now).performAll acts) :=
    performAll_keeps (fun _ => FirstInFirstOut.step) (firstInFirstOut_start keymap now)
  have accounted : Accounted keymap ((start keymap now).performAll acts) :=
    performAll_keeps (fun _ => Accounted.step) (Accounted.start keymap now)
  have quitsLast : QuitsLast ((start keymap now).performAll acts) :=
    performAll_keeps (fun member => QuitsLast.step fun same => once (same ▸ member))
      (.reading fun _ member => absurd member List.not_mem_nil)
  have ends : Ends ((start keymap now).performAll acts) :=
    performAll_keeps (fun _ => Ends.step) (Ends.start keymap now)
  have soon : StopsSoon ((start keymap now).performAll acts) :=
    performAll_keeps (fun _ => StopsSoon.step) (.inl rfl)
  have fair : PollsRegular ((start keymap now).performAll acts) :=
    performAll_keeps (fun _ => PollsRegular.step) (PollsRegular.start keymap now)
  generalize (start keymap now).performAll acts = x at *
  have entries := accounted.entries
  have accepts := inOrder.quit_mem_accepted
  rw [inOrder.ordered] at accepts
  refine
    { bounded := inOrder.fits
      offered := ?_
      delivered := ?_
      traceless := ?_
      quit := ?_
      quitWaits := quitWaits
      quitLast := ?_
      nothingBehind := fun _ _ _ => quitsLast.nothing_behind
      goesOn := ?_
      stopsSoon := ?_
      polled := flatMap_took x.log
      answers := fun poll member =>
        (fair.regular poll (List.mem_cons_of_mem _ member)).answer (fair.finished poll member)
      reads := readBy_reading x
      polls := polledByTakes x }
  · rw [map_slotOffers, ← slots_append, ← entries, slots_entryOf]
  · rw [← slots_append, ← inOrder.ordered, ← map_filter_slotOffers]
    rfl
  · intro turn goesOn char none
    exact receive_of_meaningless turn goesOn (accounted.mapped.symm ▸ none)
  · rw [accepts, ← quit_mem_inHand, or_comm, ← List.mem_append, ← entries]
    simp only [List.mem_filterMap, entryOf_eq_quit]
  · -- What the queue accepts is part of what is put, and that of what was received.
    refine quitIsLast_sublist (quitIsLast_entries quitsLast keymap) ?_
    rw [entries, ← inOrder.ordered, accepted]
    exact (List.filter_sublist.map _).trans (List.sublist_append_left _ _)
  · intro caseful ended
    rcases ends ended with stopped | quit | ⟨char, member, nonneg, fault, caseless⟩
    · exact .inl stopped
    · exact .inr (accepts.mpr quit)
    · obtain ⟨code, lower⟩ := caseful char member nonneg
      rw [lower] at caseless
      cases caseless
  · rcases soon with none | ⟨_, few⟩
    · rw [none]
      exact Nat.zero_le 1
    · omega

/-- Sixteen slots fill the queue and the next one is dropped. The wish to quit waits until a poll has
taken one out. -/
theorem queue_hands_over_crowded :
    let keymap : Keymap := { bindings := [(49, 1), (50, 2)] }
    let acts : List (Act Rat) := reading (List.replicate 16 49 ++ [50, 27]) ++ [.take, .put]
    let x := (start keymap 0).performAll acts
    .restart ∉ acts ∧ HandsOver keymap x ∧
      slots (taken x.log) ++ slots x.keystrokes.queue = List.replicate 16 1 ∧
      .quit ∈ taken x.log ++ x.keystrokes.queue := by
  intro keymap acts x
  have once : .restart ∉ acts := by simp [acts, reading]
  have handsOver := queue_hands_over keymap 0 acts once
  have read : received x.log = List.replicate 16 49 ++ [50, 27] := by decide +kernel
  have put : slotOffers x.log = (List.range 16).map (1, ·) ++ [(2, 16)] := by decide +kernel
  have free : x.keystrokes.reader = .ended := by decide +kernel
  refine ⟨once, handsOver, ?_, ?_⟩
  · rw [handsOver.delivered, put]
    rfl
  · refine (handsOver.quit.mp ⟨27, by rw [read]; simp, by decide⟩).resolve_left ?_
    rw [free]
    simp

end Chip8.Exchange
