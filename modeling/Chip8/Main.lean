import Chip8.Ansi
import Chip8.Session

/-!
The command line program. It reads the program file, draws on the terminal with escape sequences
and goes by the real clock; everything else is decided by the session and the host. There is no
window here.

The host is run in slices of one pass. A slice has a clock that ends with the pass: it shows the time
at which the pass begins and, if the speed is capped, the time at which the next one is due. So a slice
waits for nothing, it breaks off for want of a further reading, and the next slice takes it up from
there, as in any series of runs on one host. Between the two, what the host has noted down is carried
out, and the real clock is waited for.
-/

namespace Chip8.Main

def usage : String := String.intercalate "\n" [
  "usage: chip8 [-h] [-d] [-s] [-c CLOCK_SPEED] [-r RENDERER] [--scale SCALE] [-m MUTE]",
  "             [-k KEYMAP] filename",
  "",
  "  filename           program to execute",
  "  -h, --help         show this text",
  "  -d, --debug        print a line before every instruction",
  "  -s, --strict       halt on unrecognised instructions instead of skipping them",
  "  -c, --clock_speed  instructions per second (default 700, 0 = uncapped)",
  "  -r, --renderer     pygame, curses or null",
  "  --scale            columns for each pixel in a terminal (default 2)",
  "  -m, --mute         0 = unmuted, 1 = muted",
  "  -k, --keymap       16 key codes, commas between them, alternatives joined by slashes"]

/-- The reason behind an error of the file system. -/
def readError (error : IO.Error) : ReadError :=
  match error with
  | .inappropriateType .. => .isDirectory
  | .resourceBusy .. => .isDirectory
  | .invalidArgument .. => .nameTooLong
  | _ => .missing

def readFile (name : String) : IO (Except ReadError (List UInt8)) := do
  try
    return .ok (← IO.FS.readBinFile name).toList
  catch error => return .error (readError error)

/-- Seconds, from an arbitrary start. -/
def seconds : IO Float := do
  return Float.ofNat (← IO.monoNanosNow) / 1000000000.0

def sizeFrom (name : String) (default : Int) : IO Int := do
  match ← IO.getEnv name with
  | some text => return ((Text.integer? text.toList).getD default)
  | none => return default

/-- Hands characters over until there are no more or one asks to quit. -/
partial def readKeys (input : IO.FS.Stream) (keys : IO.Ref (List Int)) : IO Unit := do
  let bytes ← input.read 1
  match bytes.toList with
  | [] => return
  | byte :: _ =>
      keys.modify fun waiting => waiting ++ [Int.ofNat byte.toNat]
      if Keystroke.quitCodes.contains (Int.ofNat byte.toNat) then return
      readKeys input keys

/-- Makes calls on the terminal. -/
def perform (pad : IO.Ref Ansi.Pad) (calls : List DeviceCall) : IO Unit := do
  let output ← IO.getStdout
  for call in calls do
    let (next, text) := Ansi.perform (← pad.get) call
    pad.set next
    output.putStr text
  output.flush

/-- Carries out what a host has noted down, and clears its notes. -/
def flush (pad : IO.Ref Ansi.Pad) (h : Host Float) : IO (Host Float) := do
  (← IO.getStdout).putStr (Console.text h.machine.console.printed)
  (← IO.getStderr).putStr (Console.text h.machine.console.reported)
  perform pad h.calls.reverse
  return { h with machine := { h.machine with console := {} }, calls := [], journal := [] }

/-- Feeds the characters that have arrived to the inputs. -/
def feed (keys : IO.Ref (List Int)) (h : Host Float) : IO (Host Float) := do
  match h.inputs with
  | .keystrokes k => return { h with inputs := .keystrokes (k.feed (← keys.swap [])).keystrokes }
  | _ => return h

/-- Waits for the real clock. -/
partial def waitUntil (deadline : Float) : IO Unit := do
  if (← seconds) < deadline then waitUntil deadline

/-- The readings of a pass that begins now and does not have to wait. -/
def passClock (now : Float) (interval : Option Float) : Clock Float :=
  match interval with
  | none => { reading := fun _ => now, remaining := 1 }
  | some interval => { reading := fun k => if k = 0 then now else now + interval, remaining := 2 }

/-- Plays slice after slice until the user quits or something fails. -/
partial def drive (pad : IO.Ref Ansi.Pad) (keys : IO.Ref (List Int)) (h : Host Float) :
    IO (Except Failure Unit) := do
  let h ← feed keys h
  let now ← seconds
  let (ending, h) := Session.play { h with clock := passClock now h.interval, timeOfDay := now }
  let h ← flush pad h
  match ending, h.interval with
  | .error .clockEnded, none => drive pad keys h
  | .error .clockEnded, some interval =>
      waitUntil (now + interval)
      drive pad keys h
  | ending, _ => return ending

def failureText (failure : Failure) : String :=
  match failure with
  | .startup error => error.message
  | .missingOption => "an option is missing"
  | .impossibleName => ReadError.zeroInName.reason
  | .namelessProgram => "no program is given"
  | .keymap error => error.message
  | .fault cause => cause.message
  | .clockEnded => "the clock has stopped"
  | .refused _ => usage

def runOptions (options : Options) : IO UInt32 := do
  IO.println banner
  let program ← readFile options.filename
  let size := (← sizeFrom "LINES" 24, ← sizeFrom "COLUMNS" 80)
  let seed := Int.ofNat (← IO.monoNanosNow)
  let around : Surroundings Float := {
    available := fun frontend => frontend == .terminal
    read := fun _ => program
    sizes := fun _ => size
    clock := { reading := fun _ => 0.0, remaining := 0 }
    timeOfDay := ← seconds
    random := { value := fun k => (seed + k) * 6364136223846793005 / 0x200000000 } }
  let connection := Session.start (Settings.ofOptions options) around
  let pad ← IO.mkRef ({} : Ansi.Pad)
  let keys ← IO.mkRef ([] : List Int)
  perform pad connection.calls
  let ending ← match connection.host with
    | .error failure => pure (.error failure)
    | .ok host =>
        if let .keystrokes _ := host.inputs then
          let _ ← IO.asTask (readKeys (← IO.getStdin) keys) .dedicated
        drive pad keys { host with machine := { host.machine with console := {} } }
  perform pad connection.closing
  match ending with
  | .ok () => return 0
  | .error failure =>
      IO.eprintln (failureText failure)
      return 1

end Chip8.Main

def main (args : List String) : IO UInt32 := do
  match Chip8.CommandLine.parse args with
  | .error .help =>
      IO.println Chip8.Main.usage
      return 0
  | .error .usage =>
      IO.eprintln Chip8.Main.usage
      return 2
  | .ok options => Chip8.Main.runOptions options
