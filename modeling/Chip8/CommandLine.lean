import Chip8.Choice
import Chip8.Frontend
import Chip8.Keymap

/-!
The command line: one file name and seven options.

An option has a long spelling, which may be cut short as long as no other begins the same way, and
mostly a short one. Short options may be joined, and a value may be joined to its option, with an
equals sign or, behind a short option, without. The value `--`, joined to an option, strikes out its
value. As an argument, `--` ends the options: nothing behind it is one. Nor are a lone dash,
negative numbers, and unknown words that contain a space.

All arguments are looked at before any is used, so a spelling that stands for several options is
refused first of all. Then the arguments are used from left to right, and asking for help ends that
with whatever is wrong behind it unseen.
-/

namespace Chip8

structure Options where
  filename : String
  debug : Bool := false
  strict : Bool := false
  clockSpeed : Choice Int := .unset
  renderer : Choice String := .unset
  scale : Choice Int := .unset
  mute : Choice Int := .unset
  keymap : Choice String := .value Keymap.defaultText
  deriving DecidableEq, Repr

/-- Why there are no options. -/
inductive Refusal where
  /-- The arguments are wrong. -/
  | usage
  /-- Help was asked for. -/
  | help
  deriving DecidableEq, Repr

namespace CommandLine

inductive Flag where
  | help
  | debug
  | strict
  | clockSpeed
  | renderer
  | scale
  | mute
  | keymap
  deriving DecidableEq, Repr

namespace Flag

def all : List Flag :=
  [.help, .debug, .strict, .clockSpeed, .renderer, .scale, .mute, .keymap]

def long : Flag → String
  | .help => "--help"
  | .debug => "--debug"
  | .strict => "--strict"
  | .clockSpeed => "--clock_speed"
  | .renderer => "--renderer"
  | .scale => "--scale"
  | .mute => "--mute"
  | .keymap => "--keymap"

def short : Flag → Option Char
  | .help => some 'h'
  | .debug => some 'd'
  | .strict => some 's'
  | .clockSpeed => some 'c'
  | .renderer => some 'r'
  | .scale => none
  | .mute => some 'm'
  | .keymap => some 'k'

def takesValue : Flag → Bool
  | .help | .debug | .strict => false
  | _ => true

def ofLong? (text : List Char) : Option Flag := all.find? fun flag => flag.long.toList == text

def ofShort? (letter : Char) : Option Flag := all.find? fun flag => flag.short == some letter

end Flag

/-! ### What an argument looks like -/

inductive Argument where
  /-- The file name, or the value of an option. -/
  | value
  | separator
  /-- An option, spelled long or short, perhaps with text joined to it. An equals sign between the
  option and the text is left out. -/
  | option (flag : Flag) (isLong : Bool) (joined : Option (List Char))
  /-- It looks like an option, but there is none of that name. -/
  | unknown
  deriving DecidableEq, Repr

/-- An option spelled in full, and whether that is its long spelling. -/
def spelledOut? (text : List Char) : Option (Flag × Bool) :=
  match text with
  | ['-', letter] => (Flag.ofShort? letter).map (·, false)
  | text => (Flag.ofLong? text).map (·, true)

/-- The text before the first equals sign, and the text behind it. -/
def splitEquals (text : List Char) : List Char × Option (List Char) :=
  match text.dropWhile (· != '=') with
  | [] => (text, none)
  | _ :: value => (text.takeWhile (· != '='), some value)

/-- All options that the text may stand for when its spelling is cut short or joined. -/
def candidates (text : List Char) : List Argument :=
  match text with
  | '-' :: '-' :: _ =>
      let (name, joined) := splitEquals text
      (Flag.all.filter fun flag => name.isPrefixOf flag.long.toList).map fun flag =>
        .option flag true joined
  | _ :: letter :: joined =>
      (Flag.ofShort? letter).toList.map fun flag => .option flag false (some joined)
  | _ => []

/-- One decimal digit or more. -/
def allDigits (text : List Char) : Bool :=
  !text.isEmpty && text.all fun c => (Text.decimalValue? c).isSome

/-- A minus sign before digits, with a point before the last of them or without. A line may end
behind it. -/
def looksNegative (text : List Char) : Bool :=
  let text := if text.getLast? = some '\n' then text.dropLast else text
  match text with
  | '-' :: digits =>
      allDigits digits ||
        (match digits.dropWhile fun c => (Text.decimalValue? c).isSome with
          | '.' :: rest => allDigits rest
          | _ => false)
  | _ => false

/-- An option joined by an equals sign to its full spelling. -/
def joinedByEquals? (text : List Char) : Option Argument :=
  match splitEquals text with
  | (name, some value) => (spelledOut? name).map fun (flag, isLong) =>
      .option flag isLong (some value)
  | (_, none) => none

def classify (text : List Char) : Except Refusal Argument :=
  if text.head? ≠ some '-' ∨ text.length = 1 then .ok .value
  else match spelledOut? text with
  | some (flag, isLong) => .ok (.option flag isLong none)
  | none =>
    match joinedByEquals? text with
    | some argument => .ok argument
    | none =>
      match candidates text with
      | [argument] => .ok argument
      | _ :: _ :: _ => .error .usage
      | [] => .ok (if looksNegative text || text.contains ' ' then .value else .unknown)

/-- Behind the first separator everything is a value. -/
def classifyAll : List (List Char) → Except Refusal (List (List Char × Argument))
  | [] => .ok []
  | text :: rest =>
      if text = ['-', '-'] then
        .ok ((text, .separator) :: rest.map fun text => (text, .value))
      else do
        let argument ← classify text
        let others ← classifyAll rest
        return (text, argument) :: others

/-! ### Joined options -/

/-- How an argument with options ends. -/
inductive Ending where
  | complete
  | withValue (flag : Flag) (value : List Char)
  /-- With an option that takes the next argument as its value. -/
  | needsValue (flag : Flag)
  deriving DecidableEq, Repr

/-- The options that one argument holds: some without a value, and how it ends. -/
structure Cluster where
  flags : List Flag
  ending : Ending
  deriving DecidableEq, Repr

namespace Cluster

/-- An option to which nothing is joined. -/
def single (flag : Flag) : Cluster :=
  if flag.takesValue then ⟨[], .needsValue flag⟩ else ⟨[flag], .complete⟩

def cons (flag : Flag) (cluster : Cluster) : Cluster :=
  { cluster with flags := flag :: cluster.flags }

/-- Text joined to a short option is its value, or further short options if it takes none. Only
the first of them may be followed by an equals sign that does not count. -/
def ofShort (flag : Flag) (text : List Char) : Except Refusal Cluster :=
  if flag.takesValue then .ok ⟨[], .withValue flag text⟩
  else match text with
  | [] => .error .usage
  | letter :: rest =>
      match Flag.ofShort? letter, rest with
      | none, _ => .error .usage
      | some next, [] => .ok (cons flag (single next))
      | some next, rest => do return cons flag (← ofShort next rest)

/-- Text joined to a long option is its value. -/
def ofLong (flag : Flag) (text : List Char) : Except Refusal Cluster :=
  if flag.takesValue then .ok ⟨[], .withValue flag text⟩ else .error .usage

def ofOption (flag : Flag) (isLong : Bool) : Option (List Char) → Except Refusal Cluster
  | none => .ok (single flag)
  | some joined => if isLong then ofLong flag joined else ofShort flag joined

end Cluster

/-! ### Going through the arguments -/

/-- What has been read so far. -/
structure Progress where
  options : Options := { filename := "" }
  filename : Option String := none
  /-- Whether the file name came before the last option so far. -/
  settled : Bool := false
  /-- Whether there was an argument that nothing takes. -/
  extra : Bool := false
  /-- Options to be set as soon as the last of them has the next argument as its value. -/
  waiting : Option (List Flag × Flag) := none

/-- The value that a text stands for, which `read` may refuse. -/
def readValue {α : Type} (read : List Char → Option α) (text : List Char) :
    Except Refusal (Choice α) :=
  if text = ['-', '-'] then .ok .blank
  else match read text with
  | some a => .ok (.value a)
  | none => .error .usage

/-- Mute is given as a digit. -/
def readMute (text : List Char) : Option Int :=
  (Text.integer? text).filter fun n => n == 0 || n == 1

def readRenderer (text : List Char) : Option String :=
  (Frontend.parse (String.ofList text)).map Frontend.spelling

/-- Sets an option that has no value. -/
def setFlag (options : Options) : Flag → Except Refusal Options
  | .help => .error .help
  | .debug => .ok { options with debug := true }
  | .strict => .ok { options with strict := true }
  | _ => .error .usage

/-- Sets an option to a value. -/
def setValue (options : Options) (flag : Flag) (text : List Char) : Except Refusal Options :=
  match flag with
  | .clockSpeed => do return { options with clockSpeed := ← readValue Text.integer? text }
  | .scale => do return { options with scale := ← readValue Text.integer? text }
  | .mute => do return { options with mute := ← readValue readMute text }
  | .renderer => do return { options with renderer := ← readValue readRenderer text }
  | .keymap => do return { options with keymap := ← readValue (some ∘ String.ofList) text }
  | _ => .error .usage

/-- The first value is the file name. -/
def takeValue (progress : Progress) (text : List Char) : Progress :=
  match progress.filename with
  | none => { progress with filename := some (String.ofList text) }
  | some _ => { progress with extra := true }

/-- Options have been set. -/
def settle (progress : Progress) (options : Options) : Progress :=
  { progress with options, settled := progress.filename.isSome, waiting := none }

def setFlags (progress : Progress) (flags : List Flag) : Except Refusal Options :=
  flags.foldlM setFlag progress.options

/-- Sets the options of an argument, or has them wait for a value. -/
def applyCluster (progress : Progress) (cluster : Cluster) : Except Refusal Progress :=
  match cluster.ending with
  | .complete => do return settle progress (← setFlags progress cluster.flags)
  | .withValue flag value => do
      let options ← setFlags progress cluster.flags
      return settle progress (← setValue options flag value)
  | .needsValue flag => .ok { progress with waiting := some (cluster.flags, flag) }

/-- Takes the next argument. A separator is of use only if the file name did not come before the
last option. -/
def step (progress : Progress) (next : List Char × Argument) : Except Refusal Progress :=
  let (text, argument) := next
  match progress.waiting, argument with
  | some (flags, flag), .value => do
      let options ← setFlags progress flags
      return settle progress (← setValue options flag text)
  | some _, _ => .error .usage
  | none, .value => .ok (takeValue progress text)
  | none, .separator => .ok { progress with extra := progress.extra || progress.settled }
  | none, .unknown => .ok { settle progress progress.options with extra := true }
  | none, .option flag isLong joined => do
      applyCluster progress (← Cluster.ofOption flag isLong joined)

/-- The options, once all arguments have been taken. -/
def conclude (progress : Progress) : Except Refusal Options :=
  match progress.waiting, progress.filename with
  | none, some filename =>
      if progress.extra then .error .usage else .ok { progress.options with filename }
  | _, _ => .error .usage

/-- Reads the arguments of a command line from left to right. -/
def parse (arguments : List String) : Except Refusal Options := do
  let arguments ← classifyAll (arguments.map String.toList)
  conclude (← arguments.foldlM step {})

end CommandLine

end Chip8
