import Chip8.FileTree
import Chip8.Instruction.Inverse
import Chip8.Keypad
import Chip8.Main
import Chip8.Memory.Hexdump
import Chip8.Proofs.Bare.Safety
import Chip8.Proofs.FatalFault
import Chip8.Proofs.Mirror
import Chip8.Proofs.Tone
import Chip8.Proofs.Restart
import Chip8.Proofs.Subroutine
import Chip8.Proofs.Clocks
import Chip8.Proofs.Patterns
import Chip8.Proofs.KeyWait
import Chip8.Proofs.Countdown
import Chip8.Proofs.Footprint
import Chip8.Proofs.UnreadMemory
import Chip8.Proofs.Frames
import Chip8.Proofs.Setup
import Chip8.Proofs.Schedule
import Chip8.Proofs.KeyDelivery
import Chip8.Proofs.Watch
import Chip8.Proofs.Arithmetic
import Chip8.Proofs.Blit
import Chip8.Proofs.Disassembly
import Chip8.Proofs.ListedProgram
import Chip8.Proofs.FatalReport
import Chip8.Proofs.LatestByte
import Chip8.Proofs.StoreLoad
import Chip8.Proofs.Overlay
import Chip8.Proofs.ProgramCounter
import Chip8.Proofs.Assembler
import Chip8.Proofs.WindowText
import Chip8.Proofs.ScreenViews
import Chip8.Proofs.TraceHistory
import Chip8.Proofs.HeldKeys
