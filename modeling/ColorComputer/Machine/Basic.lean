import ColorComputer.Cpu.Probe
import ColorComputer.Machine.Circuit
import ColorComputer.Machine.Configuration
import ColorComputer.Output.Frame

/-!
# The machine

The circuit with the scheduler that lets time pass in it, the frame that the host presents and the
count of fields drawn. A field is 262 lines. Each line is an active part, then a pulse of five
microseconds during which the line level is low. The field level is low during the active part of the
last line.
-/

namespace ColorComputer

/-- A machine that measures time in `τ`. -/
structure Machine (τ : Type) where
  circuit : Circuit
  scheduler : Scheduler τ
  frame : Frame
  /-- Fields drawn since the last reset. -/
  frames : Nat

namespace Machine

variable {τ : Type} [Duration τ]

/-- Lines in a field. -/
def linesPerField : Nat := 262

/-- The time for which the line level is low. -/
def pulse : τ := Duration.ofNat 5000

/-- Reset everything. The frame stays until it is painted again. -/
def reset (m : Machine τ) : Machine τ where
  circuit := m.circuit.reset
  scheduler := m.scheduler.reset
  frame := m.frame
  frames := 0

/-- A machine of a configuration that has no fault, reset and ready to run. -/
def build (c : Configuration) (panel : Panel) : Machine τ :=
  reset
    { circuit := ⟨.fresh c.cpu, .fresh (.fresh c.ram c.rom) panel, .empty⟩
      scheduler := .fresh c.audioRate c.overclock
      frame := .black
      frames := 0 }

/-- The machine of a configuration, or the fault of the configuration. -/
def ofConfiguration (c : Configuration) (panel : Panel) :
    Except ConfigurationFault (Machine τ) :=
  match c.fault? with
  | some fault => .error fault
  | none => .ok (build c panel)

/-- Change the circuit. -/
def mapCircuit (m : Machine τ) (f : Circuit → Circuit) : Machine τ :=
  match m with
  | ⟨circuit, scheduler, frame, frames⟩ => ⟨f circuit, scheduler, frame, frames⟩

/-- Change the board. -/
def mapBoard (m : Machine τ) (f : Board → Board) : Machine τ :=
  m.mapCircuit fun
    | ⟨cpu, board, samples⟩ => ⟨cpu, f board, samples⟩

/-- Change the processor. -/
def mapCpu (m : Machine τ) (f : Cpu → Cpu) : Machine τ :=
  m.mapCircuit fun
    | ⟨cpu, board, samples⟩ => ⟨f cpu, board, samples⟩

/-- Change what the user touches. -/
def mapPanel (m : Machine τ) (f : Panel → Panel) : Machine τ :=
  m.mapBoard fun b => { b with panel := f b.panel }

/-! ### Time -/

/-- Let time pass. -/
def runSlice (m : Machine τ) (time : τ) : SliceEvents × Machine τ :=
  match m with
  | ⟨circuit, scheduler, frame, frames⟩ =>
    match scheduler.run (Circuit.host τ) circuit time with
    | ⟨events, scheduler, circuit⟩ => (events, ⟨circuit, scheduler, frame, frames⟩)

/-- Run the processor for a budget of cycles while no time passes. Tells how many it used. -/
def runCycles (m : Machine τ) (budget : Nat) : Nat × Machine τ :=
  match m with
  | ⟨circuit, scheduler, frame, frames⟩ =>
    match circuit.runCycles budget with
    | (used, circuit) => (used, ⟨circuit, scheduler, frame, frames⟩)

/-- Draw a line; the last one of a field drives the field level. -/
def runLine (m : Machine τ) (last : Bool) : SliceEvents × Machine τ :=
  let m := if last then m.mapCircuit (·.driveField false) else m
  let (active, m) := m.runSlice (Duration.line - pulse)
  let m := if last then m.mapCircuit (·.driveField true) else m
  let m := m.mapCircuit (·.driveLine false)
  let (blank, m) := m.runSlice pulse
  (active + blank, m.mapCircuit (·.driveLine true))

/-- Draw so many lines, the last of them the last one of the field. -/
def runLines : Nat → Machine τ → SliceEvents × Machine τ
  | 0, m => (.none, m)
  | left + 1, m =>
    let (events, m) := m.runLine (left = 0)
    let (rest, m) := runLines left m
    (events + rest, m)

/-- Draw a field and paint the frame in the colour of the border. -/
def runFrame (m : Machine τ) : SliceEvents × Machine τ :=
  let (events, m) := runLines linesPerField m
  (events,
    { m with frame := m.frame.paint m.circuit.board.gime.border, frames := m.frames + 1 })

/-! ### The cartridge port, the socket and the host -/

/-- What is in the cartridge port. -/
def cartridge (m : Machine τ) : Option Cartridge := m.circuit.board.cartridge

/-- Put a cartridge into the port. Whether to reset is for others to decide. -/
def insert (m : Machine τ) (cartridge : Cartridge) : Machine τ :=
  m.mapBoard fun b => { b with cartridge := some cartridge }

/-- Empty the cartridge port. -/
def eject (m : Machine τ) : Machine τ := m.mapBoard fun b => { b with cartridge := none }

/-- Put a processor into the socket. The same part again changes nothing. -/
def fit (m : Machine τ) (variant : Variant) : Machine τ :=
  m.mapCpu fun cpu => if cpu.variant = variant then cpu else cpu.fit variant

/-- Take samples into a buffer. -/
def drainInto (m : Machine τ) (buffer : List Int16) : Nat × List Int16 × Machine τ :=
  let (count, buffer, samples) := m.circuit.samples.drainInto buffer
  (count, buffer, m.mapCircuit fun c => { c with samples := samples })

/-- What an address shows. -/
def peek (m : Machine τ) (address : Word) : Byte := m.circuit.board.peek address

end Machine

end ColorComputer
