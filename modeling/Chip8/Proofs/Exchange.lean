import Chip8.Inputs.Keystrokes

/-!
What a reader of a terminal and the polls do with the queue between them, one small step after the
other.

The reader and the polls run side by side, so an exchange (`Exchange`) is a list of acts in any
order: each is one operation on the queue, one look whether to stop, or one character. What can be
seen of it goes into a log. An act that is not due leaves everything as it is; whatever else an act
can do is listed in `Exchange.Step`. So facts about exchanges are proved by cases on it, and carried
to runs by `Exchange.performAll_keeps`. The first of them is that the queue is first in, first out
(`Exchange.FirstInFirstOut`).
-/

namespace Chip8

namespace Exchange

/-- What can be seen of an exchange. -/
inductive Event (τ : Type) where
  | received (char : Int)
  /-- An entry was put, or dropped, when the queue held so many. -/
  | offered (entry : QueueEntry) (found : Nat)
  | took (entry : QueueEntry)
  | looked (time : τ)
  | answered (quit : Bool)
  | stopped

/-- What is done next: by the reader, by a poll, or to them. -/
inductive Act (τ : Type) where
  | check
  | receive (char : Int)
  | put
  /-- A reader that does not wait for room starts anew. -/
  | restart
  | take
  | stop
  | clock (now : τ)

end Exchange

structure Exchange (τ : Type) where
  keystrokes : Keystrokes τ
  /-- Of the poll under way, once a slot came out. -/
  deadline : Option τ := none
  now : τ
  /-- The oldest event comes first. -/
  log : List (Exchange.Event τ) := []

/-! ### What characters mean -/

namespace Keystroke

/-- The lowercase code of a character. A negative code stands for no character. -/
def letter? (char : Int) : Option Int :=
  if char < 0 then none else (Text.lowercaseCode char).toOption

def Quits (char : Int) : Prop := letter? char = some 27 ∨ letter? char = some 3

instance : DecidablePred Quits := fun _ => inferInstanceAs (Decidable (_ ∨ _))

/-- The slot that a character presses. -/
def slotOf (keymap : Keymap) (char : Int) : Option Digit :=
  if Quits char then none else (letter? char).bind keymap.slot?

/-- What the reader hands over for a character. -/
def entryOf (keymap : Keymap) (char : Int) : Option QueueEntry :=
  if Quits char then some .quit else (slotOf keymap char).map .slot

variable {keymap : Keymap} {char : Int}

theorem entryOf_eq_quit : entryOf keymap char = some .quit ↔ Quits char := by
  unfold entryOf
  split
  · next quits => simp [quits]
  · next stays => simp [stays]

/-- Whatever a character means is what is handed over for it. -/
theorem classify_eq (keymap : Keymap) (char : Int) :
    (∃ fault, classify keymap char = .error fault ∧ 0 ≤ char ∧
      Text.lowercaseCode char = .error fault ∧ entryOf keymap char = none) ∨
    (classify keymap char = .ok .ignored ∧ entryOf keymap char = none) ∨
    (classify keymap char = .ok .quit ∧ entryOf keymap char = some .quit) ∨
    ∃ key, classify keymap char = .ok (.slot key) ∧ entryOf keymap char = some (.slot key) := by
  by_cases negative : char < 0
  · have letter : letter? char = none := if_pos negative
    exact .inr (.inl ⟨if_pos negative, by simp [entryOf, slotOf, Quits, letter]⟩)
  cases lower : Text.lowercaseCode char with
  | error fault =>
      have letter : letter? char = none := by
        rw [letter?, if_neg negative, lower]
        rfl
      refine .inl ⟨fault, ?_, Int.not_lt.mp negative, rfl, ?_⟩
      · rw [classify, if_neg negative, lower]
        rfl
      · simp [entryOf, slotOf, Quits, letter]
  | ok code =>
      have letter : letter? char = some code := by
        rw [letter?, if_neg negative, lower]
        rfl
      have asks : Quits char ↔ code = 27 ∨ code = 3 := by simp [Quits, letter]
      have listed : code ∈ quitCodes ↔ code = 27 ∨ code = 3 := by simp [quitCodes]
      by_cases quits : code = 27 ∨ code = 3
      · refine .inr (.inr (.inl ⟨?_, entryOf_eq_quit.mpr (asks.mpr quits)⟩))
        rw [classify, if_neg negative, lower]
        simp [listed.mpr quits, bind, Except.bind, pure, Except.pure]
      · have stays : ¬ Quits char := fun quit => quits (asks.mp quit)
        have entry : entryOf keymap char = (keymap.slot? code).map .slot := by
          rw [entryOf, if_neg stays, slotOf, if_neg stays, letter, Option.bind_some]
        cases mapped : keymap.slot? code with
        | none =>
            rw [mapped] at entry
            refine .inr (.inl ⟨?_, entry⟩)
            rw [classify, if_neg negative, lower]
            simp [mt listed.mp quits, mapped, bind, Except.bind, pure, Except.pure]
        | some key =>
            rw [mapped] at entry
            refine .inr (.inr (.inr ⟨key, ?_, entry⟩))
            rw [classify, if_neg negative, lower]
            simp [mt listed.mp quits, mapped, bind, Except.bind, pure, Except.pure]

/-- What a reader does next that has received a character. -/
def next : Keystroke → Reader
  | .slot key => .offering (.slot key)
  | .quit => .offering .quit
  | .ignored => .checking

end Keystroke

namespace Keystrokes

variable {τ : Type} {k : Keystrokes τ} {char : Int}

theorem receive_of_ok (turn : k.reader = .receiving) {keystroke : Keystroke}
    (classified : Keystroke.classify k.keymap char = .ok keystroke) :
    k.receive char = .ok { k with reader := keystroke.next } := by
  cases keystroke <;> simp [receive, turn, classified, Keystroke.next, bind, Except.bind, pure,
    Except.pure]

theorem receive_of_error (turn : k.reader = .receiving) {fault : Fault}
    (classified : Keystroke.classify k.keymap char = .error fault) :
    k.receive char = .error fault := by
  simp [receive, turn, classified, bind, Except.bind]

end Keystrokes

/-- The entry that a reader is about to put. -/
def Reader.inHand : Reader → List QueueEntry
  | .offering entry => [entry]
  | _ => []

namespace QueueEntry

def slot? : QueueEntry → Option Digit
  | .slot key => some key
  | .quit => none

/-- The slots among some entries. -/
def slots (entries : List QueueEntry) : List Digit := entries.filterMap slot?

/-- Slots, and perhaps the wish to quit behind them. -/
def QuitIsLast (entries : List QueueEntry) : Prop :=
  ∃ keys : List Digit, entries = keys.map .slot ∨ entries = keys.map .slot ++ [.quit]

theorem slots_append (entries later : List QueueEntry) :
    slots (entries ++ later) = slots entries ++ slots later := List.filterMap_append

end QueueEntry

namespace Exchange

open Keystroke (entryOf)

variable {τ : Type}

/-! ### Views of a log -/

namespace Event

def char? : Event τ → Option Int
  | .received char => some char
  | _ => none

def offer? : Event τ → Option (QueueEntry × Nat)
  | .offered entry found => some (entry, found)
  | _ => none

def took? : Event τ → Option QueueEntry
  | .took entry => some entry
  | _ => none

end Event

/-- The characters received. -/
def received (log : List (Event τ)) : List Int := log.filterMap Event.char?

/-- The entries put or dropped, each with how many the queue held. -/
def offers (log : List (Event τ)) : List (QueueEntry × Nat) := log.filterMap Event.offer?

/-- The entries that found room. -/
def accepted (log : List (Event τ)) : List QueueEntry :=
  ((offers log).filter (·.2 ≠ Keystrokes.queueSize)).map (·.1)

/-- The entries that polls took out. -/
def taken (log : List (Event τ)) : List QueueEntry := log.filterMap Event.took?

section Append

variable (log later : List (Event τ))

theorem received_append : received (log ++ later) = received log ++ received later :=
  List.filterMap_append

theorem offers_append : offers (log ++ later) = offers log ++ offers later :=
  List.filterMap_append

theorem accepted_append : accepted (log ++ later) = accepted log ++ accepted later := by
  rw [accepted, offers_append, List.filter_append, List.map_append, accepted, accepted]

theorem taken_append : taken (log ++ later) = taken log ++ taken later :=
  List.filterMap_append

end Append

/-! ### Polls -/

/-- What a poll did. It has no answer while it is under way. -/
structure Poll (τ : Type) where
  took : List QueueEntry := []
  /-- The times that it read off the clock. -/
  looks : List τ := []
  answer : Option Bool := none

/-- The poll under way, and those before it with the last one first. -/
structure Polls (τ : Type) where
  current : Poll τ := {}
  past : List (Poll τ) := []

namespace Polls

/-- All polls, the last one first. -/
def all (polls : Polls τ) : List (Poll τ) := polls.current :: polls.past

def note (polls : Polls τ) : Event τ → Polls τ
  | .took entry =>
      { polls with current := { polls.current with took := polls.current.took ++ [entry] } }
  | .looked time =>
      { polls with current := { polls.current with looks := polls.current.looks ++ [time] } }
  | .answered quit => ⟨{}, { polls.current with answer := some quit } :: polls.past⟩
  | .received _ | .offered _ _ | .stopped => polls

end Polls

/-- The polls that a log tells of. -/
def polls (log : List (Event τ)) : Polls τ := log.foldl Polls.note {}

theorem polls_append (log later : List (Event τ)) :
    polls (log ++ later) = later.foldl Polls.note (polls log) := List.foldl_append

/-! ### Acts -/

/-- What is seen of a poll that goes on: the first slot makes it look at the clock. -/
def looking (deadline : Option τ) (now : τ) : List (Event τ) :=
  match deadline with
  | none => [.looked now]
  | some _ => []

/-- A look at the clock moves nothing. -/
theorem looking_still (deadline : Option τ) (now : τ) :
    offers (looking deadline now) = [] ∧ taken (looking deadline now) = [] ∧
      received (looking deadline now) = [] := by
  cases deadline <;> exact ⟨rfl, rfl, rfl⟩

section Acts

variable [Scalar τ]

/-- A reader that nothing was read by, and a clock that shows `now`. -/
def start (keymap : Keymap) (now : τ) : Exchange τ where
  keystrokes := .create keymap
  now

/-- What is seen of an entry that is put. The wish to quit waits for room unseen. -/
def offering (k : Keystrokes τ) : List (Event τ) :=
  match k.reader with
  | .offering entry =>
      if entry = .quit ∧ ¬ k.hasRoom then [] else [.offered entry k.queue.length]
  | _ => []

def perform (x : Exchange τ) : Act τ → Exchange τ
  | .check => { x with keystrokes := x.keystrokes.check }
  | .receive char =>
      if x.keystrokes.reader = .receiving then
        match x.keystrokes.receive char with
        | .ok k => { x with keystrokes := k, log := x.log ++ [.received char] }
        | .error _ =>
            { x with
              keystrokes := { x.keystrokes with reader := .ended }
              log := x.log ++ [.received char] }
      else x
  | .put => { x with keystrokes := x.keystrokes.put, log := x.log ++ offering x.keystrokes }
  | .restart =>
      match x.keystrokes.reader with
      | .offering _ => x
      | _ => { x with keystrokes := { x.keystrokes with reader := .checking } }
  | .take =>
      let out : List (Event τ) := x.keystrokes.queue.head?.toList.map .took
      match x.keystrokes.take x.deadline x.now with
      | (.over quit, keystrokes) =>
          { x with keystrokes, deadline := none, log := x.log ++ out ++ [.answered quit] }
      | (.holds deadline, keystrokes) =>
          { x with
            keystrokes
            deadline := some deadline
            log := x.log ++ out ++ looking x.deadline x.now }
  | .stop => { x with keystrokes := x.keystrokes.shutdown, log := x.log ++ [.stopped] }
  | .clock now => { x with now }

def performAll (x : Exchange τ) (acts : List (Act τ)) : Exchange τ := acts.foldl perform x

/-! ### What an act can do -/

/-- All that an act can do to an exchange. -/
inductive Step (x : Exchange τ) : Act τ → Exchange τ → Prop where
  /-- The act is not due. -/
  | idle (act : Act τ) : Step x act x
  | checked (turn : x.keystrokes.reader = .checking) :
      Step x .check { x with
        keystrokes := { x.keystrokes with
          reader := if x.keystrokes.stopped then .ended else .receiving } }
  | wanted {char : Int} {entry : QueueEntry} (turn : x.keystrokes.reader = .receiving)
      (means : entryOf x.keystrokes.keymap char = some entry) :
      Step x (.receive char) { x with
        keystrokes := { x.keystrokes with reader := .offering entry }
        log := x.log ++ [.received char] }
  | ignored {char : Int} (turn : x.keystrokes.reader = .receiving)
      (means : entryOf x.keystrokes.keymap char = none) :
      Step x (.receive char) { x with
        keystrokes := { x.keystrokes with reader := .checking }
        log := x.log ++ [.received char] }
  /-- What has no lowercase form ends the reader. -/
  | failed {char : Int} {fault : Fault} (turn : x.keystrokes.reader = .receiving)
      (nonneg : 0 ≤ char) (caseless : Text.lowercaseCode char = .error fault)
      (means : entryOf x.keystrokes.keymap char = none) :
      Step x (.receive char) { x with
        keystrokes := { x.keystrokes with reader := .ended }
        log := x.log ++ [.received char] }
  | queued {entry : QueueEntry} (turn : x.keystrokes.reader = .offering entry)
      (room : x.keystrokes.queue.length < Keystrokes.queueSize) :
      Step x .put { x with
        keystrokes := { x.keystrokes with
          queue := x.keystrokes.queue ++ [entry]
          reader := if entry = .quit then .ended else .checking }
        log := x.log ++ [.offered entry x.keystrokes.queue.length] }
  | dropped {slot : Digit} (turn : x.keystrokes.reader = .offering (.slot slot))
      (full : Keystrokes.queueSize ≤ x.keystrokes.queue.length) :
      Step x .put { x with
        keystrokes := { x.keystrokes with reader := .checking }
        log := x.log ++ [.offered (.slot slot) x.keystrokes.queue.length] }
  | restarted (free : x.keystrokes.reader.inHand = []) :
      Step x .restart { x with keystrokes := { x.keystrokes with reader := .checking } }
  | emptied (nothing : x.keystrokes.queue = []) :
      Step x .take { x with deadline := none, log := x.log ++ [.answered false] }
  | quitOut {rest : List QueueEntry} (next : x.keystrokes.queue = .quit :: rest) :
      Step x .take { x with
        keystrokes := { x.keystrokes with queue := rest }
        deadline := none
        log := x.log ++ [.took .quit, .answered true] }
  | slotOut {slot : Digit} {rest : List QueueEntry}
      (next : x.keystrokes.queue = .slot slot :: rest) :
      Step x .take { x with
        keystrokes := { x.keystrokes with
          queue := rest
          expiry := x.keystrokes.expiry.set slot.val
            (x.deadline.getD (x.now + Keystrokes.holdTime)) slot.below }
        deadline := some (x.deadline.getD (x.now + Keystrokes.holdTime))
        log := x.log ++ .took (.slot slot) :: looking x.deadline x.now }
  | stopped :
      Step x .stop { x with
        keystrokes := { x.keystrokes with stopped := true }
        log := x.log ++ [.stopped] }
  | ticked (now : τ) : Step x (.clock now) { x with now }

theorem step_receive (x : Exchange τ) (char : Int) :
    Step x (.receive char) (x.perform (.receive char)) := by
  rw [perform]
  split
  · next turn =>
      rcases Keystroke.classify_eq x.keystrokes.keymap char with
        ⟨fault, classified, nonneg, caseless, means⟩ | ⟨classified, means⟩ |
          ⟨classified, means⟩ | ⟨key, classified, means⟩
      · rw [Keystrokes.receive_of_error turn classified]
        exact .failed turn nonneg caseless means
      · rw [Keystrokes.receive_of_ok turn classified]
        exact .ignored turn means
      · rw [Keystrokes.receive_of_ok turn classified]
        exact .wanted turn means
      · rw [Keystrokes.receive_of_ok turn classified]
        exact .wanted turn means
  · exact .idle _

theorem step_put (x : Exchange τ) : Step x .put (x.perform .put) := by
  have room : x.keystrokes.hasRoom = true ↔ x.keystrokes.queue.length < Keystrokes.queueSize :=
    decide_eq_true_iff
  rw [perform, Keystrokes.put, offering]
  cases turn : x.keystrokes.reader with
  | offering entry =>
      by_cases fits : x.keystrokes.hasRoom
      · cases entry with
        | slot slot => simpa [fits] using Step.queued turn (room.mp fits)
        | quit => simpa [fits] using Step.queued turn (room.mp fits)
      · cases entry with
        | slot slot => simpa [fits] using Step.dropped turn (Nat.not_lt.mp (mt room.mpr fits))
        | quit => simpa [fits] using Step.idle Act.put
  | checking => simpa using Step.idle Act.put
  | receiving => simpa using Step.idle Act.put
  | ended => simpa using Step.idle Act.put

variable {x : Exchange τ}

theorem take_nil (nothing : x.keystrokes.queue = []) :
    x.perform .take = { x with deadline := none, log := x.log ++ [.answered false] } := by
  simp [perform, Keystrokes.take, nothing]

theorem take_quit {rest : List QueueEntry} (next : x.keystrokes.queue = .quit :: rest) :
    x.perform .take =
      { x with
        keystrokes := { x.keystrokes with queue := rest }
        deadline := none
        log := x.log ++ [.took .quit, .answered true] } := by
  simp [perform, Keystrokes.take, next]

theorem take_slot {slot : Digit} {rest : List QueueEntry}
    (next : x.keystrokes.queue = .slot slot :: rest) :
    x.perform .take =
      { x with
        keystrokes := { x.keystrokes with
          queue := rest
          expiry := x.keystrokes.expiry.set slot.val
            (x.deadline.getD (x.now + Keystrokes.holdTime)) slot.below }
        deadline := some (x.deadline.getD (x.now + Keystrokes.holdTime))
        log := x.log ++ .took (.slot slot) :: looking x.deadline x.now } := by
  simp [perform, Keystrokes.take, next]

theorem step_take (x : Exchange τ) : Step x .take (x.perform .take) := by
  cases next : x.keystrokes.queue with
  | nil =>
      rw [take_nil next]
      exact .emptied next
  | cons entry rest =>
      cases entry with
      | slot slot =>
          rw [take_slot next]
          exact .slotOut next
      | quit =>
          rw [take_quit next]
          exact .quitOut next

theorem step_perform (x : Exchange τ) (act : Act τ) : Step x act (x.perform act) := by
  cases act with
  | check =>
      rw [perform, Keystrokes.check]
      split
      · next turn => exact .checked turn
      · exact .idle _
  | receive char => exact step_receive x char
  | put => exact step_put x
  | restart =>
      rw [perform]
      cases turn : x.keystrokes.reader with
      | offering entry => exact .idle _
      | checking => exact .restarted (by rw [turn]; rfl)
      | receiving => exact .restarted (by rw [turn]; rfl)
      | ended => exact .restarted (by rw [turn]; rfl)
  | take => exact step_take x
  | stop => exact .stopped
  | clock now => exact .ticked now

/-- What the step of every act keeps holds after the run. -/
theorem performAll_keeps {P : Exchange τ → Prop} {acts : List (Act τ)}
    (keeps : ∀ {x act y}, act ∈ acts → Step x act y → P x → P y) (start : P x) :
    P (x.performAll acts) := by
  induction acts generalizing x with
  | nil => exact start
  | cons act acts ih =>
      exact ih (fun member => keeps (List.mem_cons_of_mem act member))
        (keeps List.mem_cons_self (step_perform x act) start)

end Acts

/-! ### First in, first out -/

structure FirstInFirstOut (x : Exchange τ) : Prop where
  fits : x.keystrokes.queue.length ≤ Keystrokes.queueSize
  ordered : accepted x.log = taken x.log ++ x.keystrokes.queue
  /-- The wish to quit is only put where there is room. -/
  quits : ∀ {found}, (.quit, found) ∈ offers x.log → found ≠ Keystrokes.queueSize

theorem firstInFirstOut_start [Scalar τ] (keymap : Keymap) (now : τ) :
    FirstInFirstOut (start keymap now) :=
  ⟨Nat.zero_le _, rfl, fun member => nomatch member⟩

namespace FirstInFirstOut

variable {x y : Exchange τ} {act : Act τ}

/-- What goes into the queue and what comes out of it add up. -/
theorem extend (inOrder : FirstInFirstOut x) {later : List (Event τ)} (log : y.log = x.log ++ later)
    (flow : x.keystrokes.queue ++ accepted later = taken later ++ y.keystrokes.queue)
    (fits : y.keystrokes.queue.length ≤ Keystrokes.queueSize)
    (quits : ∀ {found}, (.quit, found) ∈ offers later → found ≠ Keystrokes.queueSize) :
    FirstInFirstOut y where
  fits
  ordered := by
    rw [log, accepted_append, taken_append, inOrder.ordered, List.append_assoc, flow,
      List.append_assoc]
  quits member := by
    rw [log, offers_append, List.mem_append] at member
    exact member.elim inOrder.quits quits

/-- Events that move no entry. -/
theorem still (inOrder : FirstInFirstOut x) {later : List (Event τ)} (log : y.log = x.log ++ later)
    (queue : y.keystrokes.queue = x.keystrokes.queue) (unmoved : offers later = [])
    (untaken : taken later = []) : FirstInFirstOut y :=
  inOrder.extend log (by rw [accepted, unmoved, untaken, queue]; exact List.append_nil _)
    (queue ▸ inOrder.fits) fun member => by rw [unmoved] at member; nomatch member

/-- The oldest entry is taken out. -/
theorem out (inOrder : FirstInFirstOut x) {later : List (Event τ)} {entry : QueueEntry}
    (log : y.log = x.log ++ later) (next : x.keystrokes.queue = entry :: y.keystrokes.queue)
    (unmoved : offers later = []) (takes : taken later = [entry]) : FirstInFirstOut y := by
  refine inOrder.extend log ?_ ?_ fun member => by rw [unmoved] at member; nomatch member
  · rw [accepted, unmoved, takes, next]
    exact List.append_nil _
  · have fits := inOrder.fits
    rw [next] at fits
    exact Nat.le_of_succ_le fits

theorem step [Scalar τ] (step : Step x act y) (inOrder : FirstInFirstOut x) : FirstInFirstOut y := by
  cases step with
  | idle => exact inOrder
  | checked => exact ⟨inOrder.fits, inOrder.ordered, inOrder.quits⟩
  | restarted => exact ⟨inOrder.fits, inOrder.ordered, inOrder.quits⟩
  | ticked => exact ⟨inOrder.fits, inOrder.ordered, inOrder.quits⟩
  | wanted => exact inOrder.still rfl rfl rfl rfl
  | ignored => exact inOrder.still rfl rfl rfl rfl
  | failed => exact inOrder.still rfl rfl rfl rfl
  | stopped => exact inOrder.still rfl rfl rfl rfl
  | emptied => exact inOrder.still rfl rfl rfl rfl
  | @queued entry turn room =>
      have found : x.keystrokes.queue.length ≠ Keystrokes.queueSize := Nat.ne_of_lt room
      refine inOrder.extend rfl ?_ ?_ ?_
      · simp [accepted, offers, Event.offer?, taken, Event.took?, found]
      · rw [List.length_append]
        exact room
      · intro found' member
        rcases List.mem_singleton.mp member with ⟨_, rfl⟩
        exact found
  | @dropped slot turn full =>
      have found : x.keystrokes.queue.length = Keystrokes.queueSize :=
        Nat.le_antisymm inOrder.fits full
      refine inOrder.extend rfl ?_ inOrder.fits ?_
      · simp [accepted, offers, Event.offer?, taken, Event.took?, found]
      · intro found' member
        nomatch List.mem_singleton.mp member
  | quitOut next => exact inOrder.out rfl next rfl rfl
  | @slotOut slot rest next =>
      obtain ⟨unmoved, untaken, _⟩ := looking_still x.deadline x.now
      exact inOrder.out rfl next unmoved (congrArg (QueueEntry.slot slot :: ·) untaken)

end FirstInFirstOut

end Exchange

end Chip8
