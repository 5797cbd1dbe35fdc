import Chip8.DeviceCall
import Chip8.Sound.Waveform

/-!
Sounds of the buzzer. The host says at each tick of the timers whether the buzzer is on. A wave
plays from the first tick that it is on to the first that it is off; a bell rings at every tick that
it is on.
-/

namespace Chip8

inductive SoundKind where
  | silent
  | wave
  | bell
  deriving DecidableEq, Repr

structure Sound where
  kind : SoundKind
  enabled : Bool := false

namespace Sound

/-- What the making of a sound leaves behind: the calls made, and the sound or the fault that
stopped it. -/
structure Opening where
  calls : List DeviceCall
  sound : Except Fault Sound

/-- The calls that open the mixer. -/
def mixerCalls : List DeviceCall :=
  [.prepareMixer Waveform.playbackFrequency 8 1 512 0, .openMixer]

/-- The samples of the wave are computed once, in the numbers of `τ`. -/
def create (τ : Type) [Scalar τ] (kind : SoundKind) : Opening :=
  match kind with
  | .silent => ⟨[], .ok { kind }⟩
  | .bell => ⟨[], .ok { kind }⟩
  | .wave =>
      match Waveform.resample Waveform.defaultPattern.toArray
          (Scalar.ofNat Waveform.defaultPatternFrequency : τ) with
      | .error fault => ⟨mixerCalls, .error fault⟩
      | .ok samples => ⟨mixerCalls ++ [.loadSound samples, .setVolume 1], .ok { kind }⟩

/-- The calls that a tick makes. A wave that is playing already is not started again. -/
def buzzerCalls (sound : Sound) (on : Bool) : List DeviceCall :=
  match sound.kind with
  | .silent => []
  | .bell => if on then [.beep] else []
  | .wave =>
      if on && !sound.enabled then [.play (-1)]
      else if !on && sound.enabled then [.stop]
      else []

def enableBuzzer (sound : Sound) (on : Bool) : Sound × List DeviceCall :=
  ({ sound with enabled := on }, sound.buzzerCalls on)

def shutdownCalls (sound : Sound) : List DeviceCall :=
  match sound.kind with
  | .wave => [.stop, .closeMixer]
  | _ => []

end Sound

end Chip8
