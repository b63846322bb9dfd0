import Chip8.Main
import Chip8.PeriodicTask
import Chip8.Proofs.Keypad.Cancellation
import Chip8.Proofs.Keypad.Delivery
import Chip8.Proofs.Keypad.Holding
import Chip8.Proofs.Machine.Drawing
import Chip8.Proofs.Machine.Errors
import Chip8.Proofs.Machine.Frame
import Chip8.Proofs.Machine.Halting
import Chip8.Proofs.Machine.ProgramCounter
import Chip8.Proofs.Machine.Soundness
import Chip8.Proofs.Machine.Subroutine
import Chip8.Proofs.Machine.Surroundings
import Chip8.Proofs.PeriodicTask.Stopping
import Chip8.Proofs.PeriodicTask.WholeStop
import Chip8.Proofs.Session.LifeCycle
import Chip8.Proofs.Session.Refinement
import Chip8.Proofs.Session.Shown
import Chip8.Proofs.Timers.Countdown
import Chip8.Proofs.Machine.Arithmetic
import Chip8.Proofs.Machine.BlockTransfer
import Chip8.Proofs.Machine.DrawingOrder
import Chip8.Proofs.Machine.IndexRegister
import Chip8.Proofs.Machine.Glyphs
import Chip8.Proofs.Screen.Framebuffer
import Chip8.Proofs.Machine.DumpLines
import Chip8.Proofs.Machine.MemoryRows
import Chip8.Proofs.Machine.Listing
import Chip8.Proofs.Machine.Dump
import Chip8.Proofs.Machine.Fetching
import Chip8.Proofs.Instruction.Encoding
import Chip8.Proofs.Screen.Points
