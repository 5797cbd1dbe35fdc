import Chip8.Choice
import Chip8.Sound

/-!
Frontends: which kind of display, inputs and sound a session uses.

A renderer is asked for by name or left open. Left open, a window is tried first and a terminal
next. Windows play sampled sound unless muted; terminals only ring a bell, and only if they are
told not to be mute.
-/

namespace Chip8

inductive Frontend where
  | window
  | terminal
  | headless
  deriving DecidableEq, Repr

namespace Frontend

/-- The name that a renderer is asked for by. -/
def spelling : Frontend → String
  | .window => "pygame"
  | .terminal => "curses"
  | .headless => "null"

def all : List Frontend := [.window, .terminal, .headless]

def parse (name : String) : Option Frontend := all.find? fun f => f.spelling == name

@[simp] theorem parse_spelling (f : Frontend) : parse f.spelling = some f := by
  cases f <;> decide

end Frontend

inductive StartupError where
  | windowMissing
  | terminalMissing
  | bothMissing
  | unknownRenderer (name : String)
  /-- A program that cannot be read, with the reason. -/
  | unreadable (name reason : String)
  | tooLarge (name : String)
  deriving DecidableEq, Repr

def StartupError.message : StartupError → String
  | .windowMissing => "PyGame does not appear to be installed."
  | .terminalMissing => "Curses (or Windows-Curses) does not appear to be installed."
  | .bothMissing => "Neither PyGame nor Curses (or Windows-Curses) appear to be installed."
  | .unknownRenderer name => "Unknown renderer '" ++ name ++ "'."
  | .unreadable name reason => "Unable to read '" ++ name ++ "': " ++ reason
  | .tooLarge name => "'" ++ name ++ "' is too large to fit in memory."

namespace Frontend

/-- Whether to be mute; a value that is struck out does not mute. -/
def isMute (mute : Choice Bool) (default : Bool) : Bool := (mute.resolve? default).getD false

def windowSound (mute : Choice Bool) : SoundKind :=
  if isMute mute false then .silent else .wave

def terminalSound (mute : Choice Bool) : SoundKind :=
  if isMute mute true then .silent else .bell

/-- How a name that is struck out is shown. -/
def blankName : String := "[]"

/-- The frontend and the sound to use, given which libraries are there. -/
def choose (renderer : Choice String) (mute : Choice Bool) (available : Frontend → Bool) :
    Except StartupError (Frontend × SoundKind) :=
  match renderer with
  | .unset =>
      if available .window then .ok (.window, windowSound mute)
      else if available .terminal then .ok (.terminal, terminalSound mute)
      else .error .bothMissing
  | .blank => .error (.unknownRenderer blankName)
  | .value name =>
      match parse name with
      | some .window =>
          if available .window then .ok (.window, windowSound mute) else .error .windowMissing
      | some .terminal =>
          if available .terminal then .ok (.terminal, terminalSound mute)
          else .error .terminalMissing
      | some .headless => .ok (.headless, .silent)
      | none => .error (.unknownRenderer name)

end Frontend

end Chip8
