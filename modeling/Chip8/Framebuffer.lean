import Chip8.Layout
import Chip8.Ram

/-!
The framebuffer: one byte, 0 or 1, for each pixel, row after row. Pixels are toggled and both axes
wrap around. Whoever shows the picture asks whether it changed since it was last shown.
-/

namespace Chip8

structure Framebuffer where
  width : Int
  height : Int
  vram : Ram
  /-- Set by every toggle and every clear; a new framebuffer counts as changed. -/
  changed : Bool

namespace Framebuffer

/-- A dark framebuffer. -/
def create (width height : Int) : Except Fault Framebuffer :=
  if width ≤ 0 ∨ height ≤ 0 then .error .screenSize
  else do
    let vram ← Ram.create (width * height)
    return { width, height, vram, changed := true }

/-- The screen of the machine, dark. -/
def screen : Framebuffer where
  width := screenWidth
  height := screenHeight
  vram :=
    { cells := Array.replicate 2048 0
      top := screenWidth * screenHeight - 1
      size := screenWidth * screenHeight }
  changed := true

/-- Where the pixel at `(x, y)` is kept, both axes wrapped. -/
def location (fb : Framebuffer) (x y : Int) : Int :=
  (y % fb.height) * fb.width + x % fb.width

/-- The byte of a pixel; here the axes do not wrap. -/
def pixel (fb : Framebuffer) (x y : Int) : Except Fault UInt8 :=
  fb.vram.read (y * fb.width + x)

/-- The picture, one list of pixel bytes for each row. -/
def rows (fb : Framebuffer) : List (List UInt8) :=
  (List.range fb.height.toNat).map fun y => fb.vram.readBlock (Int.ofNat y * fb.width) fb.width

/-- Tells whether anything was drawn since the last call, and resets the mark. -/
def popChanged (fb : Framebuffer) : Bool × Framebuffer :=
  (fb.changed, { fb with changed := false })

end Framebuffer

/-- A computation on a framebuffer. -/
abbrev FramebufferM := FaultM Framebuffer

namespace FramebufferM

def onVram {α : Type} (computation : RamM α) : FramebufferM α :=
  FaultM.onPart Framebuffer.vram (fun fb vram => { fb with vram }) computation

def clear : FramebufferM Unit := do
  onVram RamM.clear
  modify fun fb => { fb with changed := true }

/-- Toggles a pixel; the answer tells whether it was lit before. -/
def xorPixel (x y : Int) : FramebufferM Bool := do
  let fb ← get
  let place := fb.location x y
  let pixel ← ofExcept (fb.vram.read place)
  onVram (RamM.write place (pixel ^^^ 1).toNat)
  modify fun fb => { fb with changed := true }
  return pixel != 0

end FramebufferM

namespace Framebuffer

def clear (fb : Framebuffer) : Except Fault Framebuffer := FramebufferM.clear.final fb

def xorPixel (fb : Framebuffer) (x y : Int) : Except Fault (Bool × Framebuffer) :=
  (FramebufferM.xorPixel x y).result fb

end Framebuffer

end Chip8
