/-!
The calls that displays and sounds make on the devices behind them. A device is known by nothing
but the calls it gets, in order.
-/

namespace Chip8

inductive DeviceCall where
  -- Without a device: what a headless display was asked to show
  | pixel (x y colour : Int)
  | refreshed (changed : Bool)
  -- Window
  | openWindow
  | caption (text : String)
  | windowSize (width height : Int)
  /-- A picture of three bytes for each pixel. -/
  | picture (rgb : List UInt8) (width height : Int)
  | stretch (width height : Int)
  | paste (x y : Int)
  | flip
  | closeWindow
  -- Terminal
  | openTerminal
  | echoOff
  /-- Keys arrive one by one. -/
  | keywise
  | cursor (visibility : Nat)
  | newPad (height width : Int)
  | write (row column : Int) (text : String) (reverse : Bool)
  /-- Shows the pad from a place in it on a rectangle of the screen. -/
  | showPad (padRow padColumn top left bottom right : Int)
  | clearScreen
  | showScreen
  | resizeScreen (height width : Int)
  /-- Keys arrive line by line. -/
  | linewise
  | echoOn
  | closeTerminal
  | beep
  -- Sound
  | prepareMixer (frequency size channels buffer changes : Int)
  | openMixer
  | loadSound (samples : List UInt8)
  | setVolume (tenths : Nat)
  | play (repeats : Int)
  | stop
  | closeMixer
  deriving DecidableEq, Repr

/-- Whether there is a device behind the call. -/
def DeviceCall.reachesDevice : DeviceCall → Bool
  | .pixel .. => false
  | .refreshed _ => false
  | _ => true

end Chip8
