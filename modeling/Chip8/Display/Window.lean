import Chip8.Bytes
import Chip8.DeviceCall
import Chip8.Layout

/-!
The picture of a window: three bytes for each pixel of the emulated screen, white or black,
stretched to the window when it is shown.
-/

namespace Chip8

structure Window where
  rgb : Array UInt8
  outputWidth : Int
  outputHeight : Int

namespace Window

def defaultScale : Int := 640

/-- The window is as wide as the scale says and half as high. -/
def create (scale : Int) : Window where
  rgb := #[]
  outputWidth := scale
  outputHeight := scale / 2

def openingCalls : List DeviceCall := [.openWindow, .caption appName]

def sizingCalls (scale : Int) : List DeviceCall := [.windowSize scale (scale / 2)]

/-- Unlit pixels are black, lit ones white. -/
def colours : Array (List UInt8) := #[[0x00, 0x00, 0x00], [0xFF, 0xFF, 0xFF]]

/-- A colour is a position among `colours`. -/
def colour? (colour : Int) : Option (List UInt8) :=
  (Bytes.index? colours.size colour).bind (colours[·]?)

/-- Where the bytes of a pixel start in a picture of the given width. -/
def location (width x y : Int) : Int := (y * width + x) * 3

/-- Paints a pixel of a picture of the given width. The colour is looked up first, then the place
has to hold three bytes. -/
def setPixel (window : Window) (width x y colour : Int) : Window × Option Fault :=
  match colour? colour with
  | none => (window, some .outOfRange)
  | some bytes =>
      let start := location width x y
      if Bytes.fits window.rgb start (start + 3) bytes.length then
        ({ window with
            rgb := Bytes.splice window.rgb (Bytes.cut window.rgb.size start) bytes }, none)
      else (window, some .blockSize)

/-- Shows a picture that has an area. -/
def refreshCalls (window : Window) (width height : Int) (changed : Bool) : List DeviceCall :=
  if changed && width != 0 && height != 0 then
    [.picture window.rgb.toList width height,
     .stretch window.outputWidth window.outputHeight, .paste 0 0, .flip]
  else []

end Window

end Chip8
