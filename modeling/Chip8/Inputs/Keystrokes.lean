import Chip8.Keymap
import Chip8.Scalar

/-!
The keyboard of a terminal: only characters arrive, and nothing tells when a key is released. So a
slot of the keypad counts as down for a fifth of a second after a poll has seen one of its
characters.

A reader waits for characters and hands over what they mean through a bounded queue, which the
polls take it from. The reader works in three steps: it looks whether it should stop, receives a
character, and puts an entry into the queue. Between any two of them there may be polls. A slot
that finds the queue full is dropped; the wish to quit waits for room, and nothing is read after
it.
-/

namespace Chip8

/-- What a character means. -/
inductive Keystroke where
  | slot (slot : Digit)
  | quit
  | ignored
  deriving DecidableEq, Repr

namespace Keystroke

/-- The escape character and the one for an interrupt. -/
def quitCodes : List Int := [27, 3]

/-- Characters are looked up in lowercase; a negative code stands for no character. -/
def classify (keymap : Keymap) (char : Int) : Except Fault Keystroke :=
  if char < 0 then .ok .ignored
  else do
    let code ← Text.lowercaseCode char
    if quitCodes.contains code then return .quit
    match keymap.slot? code with
    | some key => return .slot key
    | none => return .ignored

end Keystroke

/-- What the reader hands over. -/
inductive QueueEntry where
  | slot (slot : Digit)
  | quit
  deriving DecidableEq, Repr

/-- What the reader does next. -/
inductive Reader where
  /-- It looks whether it should stop. -/
  | checking
  /-- It receives a character. -/
  | receiving
  /-- It puts an entry into the queue. -/
  | offering (entry : QueueEntry)
  | ended
  deriving DecidableEq, Repr

structure Keystrokes (τ : Type) where
  keymap : Keymap
  /-- The time at which each slot stops being down. -/
  expiry : Vector τ 16
  /-- The oldest entry comes first. -/
  queue : List QueueEntry := []
  reader : Reader := .checking
  /-- Whether the reader has been asked to stop. -/
  stopped : Bool := false

/-- What a stretch of reading leaves behind: how many characters were received, and the fault that
stopped it, if one did. -/
structure Reading (τ : Type) where
  count : Nat
  keystrokes : Keystrokes τ
  fault : Option Fault := none

namespace Keystrokes

variable {τ : Type} [Scalar τ]

def queueSize : Nat := 16

/-- A slot stays down for this long. -/
def holdTime : τ := Scalar.ofNat 1 / Scalar.ofNat 5

def create (keymap : Keymap) : Keystrokes τ where
  keymap
  expiry := Vector.replicate 16 (Scalar.ofNat 0)

/-! ### The reader

Each step leaves a reader alone that is about to take another one. -/

def hasRoom (k : Keystrokes τ) : Bool := k.queue.length < queueSize

def check (k : Keystrokes τ) : Keystrokes τ :=
  match k.reader with
  | .checking => { k with reader := if k.stopped then .ended else .receiving }
  | _ => k

def receive (k : Keystrokes τ) (char : Int) : Except Fault (Keystrokes τ) :=
  match k.reader with
  | .receiving => do
      match ← Keystroke.classify k.keymap char with
      | .slot slot => return { k with reader := .offering (.slot slot) }
      | .quit => return { k with reader := .offering .quit }
      | .ignored => return { k with reader := .checking }
  | _ => .ok k

/-- Puts an entry into the queue. If it is full a slot is dropped, and the wish to quit stays where
it is. -/
def put (k : Keystrokes τ) : Keystrokes τ :=
  match k.reader with
  | .offering (.slot slot) =>
      let queue := if k.hasRoom then k.queue ++ [.slot slot] else k.queue
      { k with queue, reader := .checking }
  | .offering .quit =>
      if k.hasRoom then { k with queue := k.queue ++ [.quit], reader := .ended } else k
  | _ => k

/-- A reader that waits for room tries again; another one starts anew. -/
def resume (k : Keystrokes τ) : Keystrokes τ :=
  match k.reader with
  | .offering _ => k.put
  | _ => { k with reader := .checking }

/-- Lets the reader go on until the characters run out, it is stopped, waits for room or has put
the wish to quit into the queue, or meets something that is no character. -/
def readAll (k : Keystrokes τ) : List Int → Reading τ
  | [] => ⟨0, k, none⟩
  | char :: rest =>
      let k := k.check
      match k.reader with
      | .receiving =>
          match k.receive char with
          | .error fault => ⟨1, { k with reader := .ended }, some fault⟩
          | .ok k =>
              let after := k.put.readAll rest
              { after with count := after.count + 1 }
      | _ => ⟨0, k, none⟩

def feed (k : Keystrokes τ) (chars : List Int) : Reading τ := k.resume.readAll chars

/-- Asks the reader to stop. -/
def shutdown (k : Keystrokes τ) : Keystrokes τ := { k with stopped := true }

/-! ### Polls

A poll takes one entry after the other out of the queue, until the queue is empty or an entry asks
to quit. When the first slot comes out the poll looks at the clock, and all slots that it takes out
stay down up to one deadline. The reader may go on between any two entries. -/

/-- What taking one entry out comes to. -/
inductive Taken (τ : Type) where
  /-- The poll is over and tells whether to quit. -/
  | over (quit : Bool)
  /-- A slot came out, and the poll goes on. -/
  | holds (deadline : τ)

/-- Takes the oldest entry out. The poll has no deadline before its first slot. -/
def take (k : Keystrokes τ) (deadline : Option τ) (now : τ) : Taken τ × Keystrokes τ :=
  match k.queue with
  | [] => (.over false, k)
  | .quit :: queue => (.over true, { k with queue })
  | .slot slot :: queue =>
      let deadline := deadline.getD (now + holdTime)
      (.holds deadline, { k with queue, expiry := k.expiry.set slot.val deadline slot.below })

/-- Takes up to `entries` entries out, or fewer if the poll is over before. -/
def drain (now : τ) : (entries : Nat) → (deadline : Option τ) → Keystrokes τ → Bool × Keystrokes τ
  | 0, _, k => (false, k)
  | entries + 1, deadline, k =>
      match k.take deadline now with
      | (.over quit, k) => (quit, k)
      | (.holds deadline, k) => drain now entries (some deadline) k

/-- A poll while nothing is put into the queue. -/
def poll (k : Keystrokes τ) (now : τ) : Bool × Keystrokes τ := drain now k.queue.length none k

def keyStates (k : Keystrokes τ) (now : τ) : List Bool :=
  k.expiry.toList.map fun expiry => Scalar.less now expiry

end Keystrokes

end Chip8
