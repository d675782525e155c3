import ColorComputer.Cpu.Step
import ColorComputer.Machine.Board
import ColorComputer.Scheduler

/-!
# The circuit

The processor on the board, with the queue of samples: everything that moves while the scheduler
lets time pass. Devices reach the processor over two lines that they share. An event at a device
latches a request at once; after each run of the processor the levels of both lines are taken over,
so that a source that was served lets go of its line.
-/

namespace ColorComputer

/-- Processor, board and samples. -/
structure Circuit where
  cpu : Cpu
  board : Board
  samples : SampleQueue

namespace Circuit

/-- Take over the levels of the interrupt lines from the board. -/
def syncLines (c : Circuit) : Circuit :=
  { c with
    cpu := (c.cpu.setLevel .irq c.board.irqLevel).setLevel .firq c.board.firqLevel }

/-- Latch a request on each line that a source drives anew. -/
def assertRaised (cpu : Cpu) (raised : Raised) : Cpu :=
  let cpu := if raised.irq then cpu.assert .irq else cpu
  if raised.firq then cpu.assert .firq else cpu

/-- A source of the GIME happens. -/
def raise (c : Circuit) (source : Byte) : Circuit :=
  let (raised, gime) := c.board.gime.raise source
  { c with board := { c.board with gime := gime }, cpu := assertRaised c.cpu raised }

/-- Latch a request on each line that an adapter drives. -/
def assertAdapters (c : Circuit) : Circuit :=
  let cpu := if c.board.pia0.interrupt then c.cpu.assert .irq else c.cpu
  { c with cpu := if c.board.pia1.interrupt then cpu.assert .firq else cpu }

/-- Run the processor for a budget of cycles. Tells how many it used. -/
def runCycles (c : Circuit) (budget : Nat) : Nat × Circuit :=
  match c with
  | ⟨cpu, board, samples⟩ =>
    match cpu.run board budget with
    | ⟨cpu, board, used⟩ => (used, syncLines ⟨cpu, board, samples⟩)

/-- Put the sample heard now into the queue. -/
def takeSample (c : Circuit) : Circuit :=
  { c with samples := c.samples.push c.board.sample }

/-- The change of the timer that was not told yet. -/
def takeTimerUpdate {τ : Type} [Duration τ] (c : Circuit) : Option (TimerUpdate τ) × Circuit :=
  let (update, gime) := c.board.gime.takeTimerUpdate (τ := τ)
  (update, { c with board := { c.board with gime := gime } })

/-- The circuit as the scheduler drives it. -/
def host (τ : Type) [Duration τ] : Host Circuit τ where
  runCpu budget c := c.runCycles budget
  sample := takeSample
  timerExpired c := c.raise Gime.sourceTimer
  timerUpdate := takeTimerUpdate
  multiplier c := c.board.multiplier

/-- The level that marks the end of a line changes. It falls at the end of a line, which is an event
for the GIME; a cartridge in the port gets the same edges. -/
def driveLine (c : Circuit) (level : Bool) : Circuit :=
  let inserted := c.board.cartridge.isSome
  let board := { c.board with pia0 := c.board.pia0.setCA1 level }
  let board := if inserted then { board with pia1 := board.pia1.setCB1 level } else board
  let c := { c with board := board }
  if level then c
  else
    let c := c.raise Gime.sourceLine
    let c := if inserted then c.raise Gime.sourceCartridge else c
    c.assertAdapters

/-- The level that marks the end of a field changes. It falls in the last line. -/
def driveField (c : Circuit) (level : Bool) : Circuit :=
  let c := { c with board := { c.board with pia0 := c.board.pia0.setCB1 level } }
  if level then c else (c.raise Gime.sourceField).assertAdapters

/-- Reset the board, forget the samples that wait, and reset the processor. -/
def reset (c : Circuit) : Circuit :=
  let (cpu, board) := c.cpu.reset c.board.reset
  ⟨cpu, board, c.samples.clear⟩

end Circuit

end ColorComputer
