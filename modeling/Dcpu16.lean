import Dcpu16.Command
import Dcpu16.Debugger.Screen
import Dcpu16.Emulator
import Dcpu16.Main
import Dcpu16.Proofs.Arithmetic.LongAddition
import Dcpu16.Proofs.Assembly.Labels
import Dcpu16.Proofs.Assembly.Relocation
import Dcpu16.Proofs.Assembly.RoundTrip
import Dcpu16.Proofs.Assembly.Written
import Dcpu16.Proofs.Command.AssembledImage
import Dcpu16.Proofs.Command.DiskFile
import Dcpu16.Proofs.Cycle.Accounting
import Dcpu16.Proofs.Cycle.DeviceTime
import Dcpu16.Proofs.Cycle.Runs
import Dcpu16.Proofs.Cycle.WholeSteps
import Dcpu16.Proofs.Debugger.Breakpoints
import Dcpu16.Proofs.Device.Clock.Ticks
import Dcpu16.Proofs.Device.Drive.Changes
import Dcpu16.Proofs.Device.Drive.Store
import Dcpu16.Proofs.Instruction.Boundaries
import Dcpu16.Proofs.Interrupts.Fire
import Dcpu16.Proofs.Interrupts.Order
import Dcpu16.Proofs.Interrupts.Reentry
import Dcpu16.Proofs.Interrupts.Return
import Dcpu16.Proofs.Arithmetic.LongSubtraction
import Dcpu16.Proofs.Arithmetic.DivisionByZero
import Dcpu16.Proofs.Cycle.FailedTests
import Dcpu16.Proofs.Instruction.Destinations
import Dcpu16.Proofs.Cycle.ReservedWords
import Dcpu16.Proofs.Instruction.Stack
import Dcpu16.Proofs.Cycle.Overflow
import Dcpu16.Proofs.Device.Drive.Transfers
import Dcpu16.Proofs.Device.Turning
import Dcpu16.Proofs.Device.Contract
import Dcpu16.Proofs.Assembly.Bracketed
import Dcpu16.Proofs.Assembly.Strings
import Dcpu16.Proofs.Assembly.SignedNumerals
import Dcpu16.Proofs.Assembly.LetterCase
import Dcpu16.Proofs.Assembly.Edits
import Dcpu16.Proofs.Listing
import Dcpu16.Proofs.Windows
