import Chip8.Main
import Chip8.Proofs.Subroutine
import Chip8.Proofs.Run
import Chip8.Proofs.Settings
import Chip8.Proofs.Tracing
import Chip8.Proofs.Noninterference
import Chip8.Proofs.Strictness
import Chip8.Proofs.Loop
import Chip8.Proofs.Timers
import Chip8.Proofs.Protocol
import Chip8.Proofs.Splitting
import Chip8.Proofs.TimerRate
import Chip8.Proofs.HeldKeys
import Chip8.Proofs.Refresh
import Chip8.Proofs.Moves
import Chip8.Proofs.RateLimit
import Chip8.Proofs.Closing
import Chip8.Proofs.InputQueue
import Chip8.Proofs.KeyHolding
import Chip8.Proofs.KeymapErrors
import Chip8.Proofs.Memory
import Chip8.Proofs.Redrawing
import Chip8.Proofs.Toggling
import Chip8.Proofs.Saving
import Chip8.Proofs.KeyWait
import Chip8.Proofs.PadLayout
import Chip8.Proofs.Performance
import Chip8.Proofs.Dump
import Chip8.Proofs.Dispatch
import Chip8.Proofs.Resampling
import Chip8.Proofs.Buzzer
