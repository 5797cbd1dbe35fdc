import Chip8.CommandLine
import Chip8.Directory
import Chip8.Host.Run

/-!
A session: from the options to the end of the emulation. The frontend is chosen, the program is
read into a new machine, the display, the inputs and the sound are opened, and the host runs.
However it ends, the devices that were opened are closed again.
-/

namespace Chip8

/-- The options of a session, each of which may have been left out. A file name may be there and
yet say nothing. -/
structure Settings where
  filename : Option (Option String) := none
  debug : Option Bool := none
  strict : Option Bool := none
  clockSpeed : Option (Choice Int) := none
  renderer : Option (Choice String) := none
  scale : Option (Choice Int) := none
  mute : Option (Choice Bool) := none
  keymap : Option (Choice String) := none

/-- All options of a command line. -/
def Settings.ofOptions (options : Options) : Settings where
  filename := some (some options.filename)
  debug := options.debug
  strict := options.strict
  clockSpeed := some options.clockSpeed
  renderer := some options.renderer
  scale := some options.scale
  mute := some (options.mute.map (· != 0))
  keymap := some options.keymap

/-- Why a session ended, other than by the user. -/
inductive Failure where
  | startup (error : StartupError)
  /-- An option that is needed was left out. -/
  | missingOption
  /-- No file can have the name of the program. -/
  | impossibleName
  /-- The program has no name, and there is no default. -/
  | namelessProgram
  | keymap (error : KeymapError)
  | fault (cause : Fault)
  | clockEnded
  /-- The command line gave no options. -/
  | refused (refusal : Refusal)
  deriving DecidableEq, Repr

def Failure.ofStop : Stop → Failure
  | .fault cause => .fault cause
  | .clockEnded => .clockEnded

/-- What a session meets outside. -/
structure Surroundings (τ : Type) where
  available : Frontend → Bool
  read : String → Except ReadError (List UInt8)
  /-- The size of the terminal at each time of asking. -/
  sizes : Nat → Int × Int
  resizable : Bool := true
  /-- The characters that wait in the terminal. -/
  chars : List Int := []
  /-- What happens in the window until each poll. -/
  batches : List (List KeyEvent) := []
  clock : Clock τ
  timeOfDay : τ
  random : RandomSource

/-- What a session leaves behind. -/
structure Report where
  ending : Except Failure Unit
  console : Console := {}
  /-- The calls made on devices, in order. -/
  calls : List DeviceCall := []
  /-- How often the clock was read. -/
  reads : Nat := 0

namespace Session

variable {τ : Type} [Scalar τ]

/-- The value of an option that is needed. -/
def need {α : Type} : Option α → Except Failure α
  | some a => .ok a
  | none => .error .missingOption

def selectFrontend (settings : Settings) (around : Surroundings τ) :
    Except Failure (Frontend × SoundKind) := do
  let renderer ← need settings.renderer
  let mute ← need settings.mute
  (Frontend.choose renderer mute around.available).mapError .startup

def named : Option String → Except Failure String
  | some name => .ok name
  | none => .error .namelessProgram

def readProgram (name : String) (around : Surroundings τ) : Except Failure (List UInt8) :=
  match around.read name with
  | .ok program => .ok program
  | .error .zeroInName => .error .impossibleName
  | .error error => .error (.startup (.unreadable name error.reason))

/-- A new machine with the program in its memory. -/
def loadMachine (settings : Settings) (around : Surroundings τ) : Except Failure Machine := do
  let trace ← need settings.debug
  let strict ← need settings.strict
  let name ← named (← need settings.filename)
  let program ← readProgram name around
  let machine := Machine.create trace strict around.random
  let machine := { machine with console := machine.console.print banner }
  match machine.loadProgram program with
  | .ok machine => .ok machine
  | .error .memoryOverflow => .error (.startup (.tooLarge name))
  | .error fault => .error (.fault fault)

def openDisplay (frontend : Frontend) (scale : Choice Int) (around : Surroundings τ) :
    Display.Opening :=
  match frontend with
  | .headless => Display.headless scale
  | .window => Display.window scale
  | .terminal => Display.terminal scale around.sizes around.resizable

/-- The text of the keymap; an empty one and one that is struck out stand for the default. -/
def keymapText (keymap : Choice String) : String :=
  match keymap with
  | .value text => if text.isEmpty then Keymap.defaultText else text
  | _ => Keymap.defaultText

/-- The inputs of a frontend. A terminal takes lowercase characters, and those that wait in it are
read at once. -/
def openInputs (frontend : Frontend) (keymap : Choice String) (around : Surroundings τ) :
    Except Failure (Inputs τ) := do
  let keymap ← (Keymap.parse (keymapText keymap) (frontend == .terminal)).mapError .keymap
  match frontend with
  | .headless => return .silent
  | .window => return .keyboard { keymap, pending := around.batches }
  | .terminal =>
      let reading := (Keystrokes.create keymap).feed around.chars
      match reading.fault with
      | some fault => .error (.fault fault)
      | none => return .keystrokes reading.keystrokes

/-- A host, or what kept it from being made, with the calls made on the way and those that have to
be made in the end. -/
structure Connection (τ : Type) where
  calls : List DeviceCall
  closing : List DeviceCall
  host : Except Failure (Host τ)

/-- Opens the inputs and the sound beside an open display. -/
def connect (settings : Settings) (around : Surroundings τ) (frontend : Frontend)
    (soundKind : SoundKind) (machine : Machine) (display : Display) : Connection τ :=
  let closing := display.shutdown.calls
  let inputs := do openInputs frontend (← need settings.keymap) around
  match inputs with
  | .error failure => ⟨[], closing, .error failure⟩
  | .ok inputs =>
      let opening := Sound.create τ soundKind
      match opening.sound with
      | .error fault => ⟨opening.calls, closing, .error (.fault fault)⟩
      | .ok sound =>
          let host := do
            let speed ← need settings.clockSpeed
            (Host.create machine display inputs sound speed around.clock
              around.timeOfDay).mapError .fault
          ⟨opening.calls, sound.shutdownCalls ++ closing, host⟩

/-- Everything up to the run. A display that fails to open is not closed. -/
def start (settings : Settings) (around : Surroundings τ) : Connection τ :=
  let prepared := do
    let (frontend, soundKind) ← selectFrontend settings around
    let machine ← loadMachine settings around
    let scale ← need settings.scale
    return (frontend, soundKind, machine, openDisplay frontend scale around)
  match prepared with
  | .error failure => ⟨[], [], .error failure⟩
  | .ok (frontend, soundKind, machine, opening) =>
      match opening.display with
      | .error fault => ⟨opening.calls, [], .error (.fault fault)⟩
      | .ok display =>
          let connection := connect settings around frontend soundKind machine display
          { connection with calls := opening.calls ++ connection.calls }

/-- Runs a host until the user quits; the answer tells why it ended otherwise. -/
def play (host : Host τ) : Except Failure Unit × Host τ :=
  match (Host.run none).run host with
  | .ok _ host => (.ok (), host)
  | .error stop host => (.error (.ofStop stop), host)

/-- A whole session. -/
def run (settings : Settings) (around : Surroundings τ) : Report :=
  let connection := start settings around
  match connection.host with
  | .error failure =>
      { ending := .error failure
        console := Console.print {} banner
        calls := connection.calls ++ connection.closing }
  | .ok host =>
      let (ending, host) := play host
      { ending
        console := host.machine.console
        calls := connection.calls ++ host.calls.reverse ++ connection.closing
        reads := host.clock.reads }

/-- A session whose options come from a command line. Without options nothing happens. -/
def runCommand (arguments : List String) (around : Surroundings τ) : Report :=
  match CommandLine.parse arguments with
  | .error refusal => { ending := .error (.refused refusal) }
  | .ok options => run (Settings.ofOptions options) around

end Session

end Chip8
