import ColorComputer.Bus.FlatMemory
import ColorComputer.Bus.Traced
import ColorComputer.Console
import ColorComputer.Machine.Probe
import ColorComputer.Proofs.Likeness.Basic
import ColorComputer.Proofs.Likeness.Operand
import ColorComputer.Proofs.Likeness.Instruction
import ColorComputer.Proofs.Likeness.Invariant
import ColorComputer.Proofs.Move
import ColorComputer.Proofs.Budget
import ColorComputer.Proofs.Likeness.Step
import ColorComputer.Proofs.Emulation
import ColorComputer.Proofs.Mode
import ColorComputer.Proofs.Exception
import ColorComputer.Proofs.Stack
import ColorComputer.Proofs.Return
import ColorComputer.Proofs.Timeline
import ColorComputer.Proofs.Watch
import ColorComputer.Proofs.Request
import ColorComputer.Proofs.Program
import ColorComputer.Proofs.Conservation
import ColorComputer.Proofs.Punctuality
import ColorComputer.Proofs.Lateness
import ColorComputer.Proofs.Happening
import ColorComputer.Proofs.Reset
import ColorComputer.Proofs.Service
import ColorComputer.Proofs.Timer
import ColorComputer.Proofs.Chronicle
import ColorComputer.Proofs.Restart
import ColorComputer.Proofs.Hidden
import ColorComputer.Proofs.Codes
import ColorComputer.Proofs.Aliasing
import ColorComputer.Proofs.DevicePage
import ColorComputer.Proofs.Looking
import ColorComputer.Proofs.Mapping
import ColorComputer.Proofs.Touched
import ColorComputer.Proofs.Custody
import ColorComputer.Proofs.Start
import ColorComputer.Proofs.Spending
import ColorComputer.Proofs.Tally
import ColorComputer.Proofs.Store
import ColorComputer.Proofs.PushPull
import ColorComputer.Proofs.Trap
import ColorComputer.Proofs.Limbs
import ColorComputer.Proofs.Division
import ColorComputer.Proofs.Transfer
import ColorComputer.Proofs.Decimal
import ColorComputer.Proofs.Comparison
import ColorComputer.Proofs.RegisterCodes
import ColorComputer.Proofs.Coverage
import ColorComputer.Proofs.PinnedPage
import ColorComputer.Proofs.Edges
import ColorComputer.Proofs.Latches
import ColorComputer.Proofs.Banks
import ColorComputer.Proofs.Departure
import ColorComputer.Proofs.ModeRegister
