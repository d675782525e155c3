import ColorComputer.Proofs.Timeline

/-!
# Operations

All that can be done to a machine from outside, and all that can be seen of it. Beside the calls by
which it runs, a machine can be reset and another processor can be fitted into its socket; samples
are taken from it; and its bus and the pins of its processor can be reached.

* `Control` — what is done to a machine without reaching into it.
* `Operation` — what is done to a machine, with the `Answer` to it.
* `View` — what is seen of a machine.
-/

namespace ColorComputer

/-- What is done to a machine from outside without reaching into it. -/
inductive Control (τ : Type)
  | call (c : Call τ)
  | reset
  | fit (variant : Variant)

namespace Control

variable {τ : Type} [Duration τ]

/-- The machine after it was done. -/
def perform (m : Machine τ) : Control τ → Machine τ
  | call c => c.perform m
  | reset => m.reset
  | fit variant => m.fit variant

@[simp] theorem perform_call (m : Machine τ) (c : Call τ) : (call c).perform m = c.perform m := rfl

end Control

namespace Machine

variable {τ : Type} [Duration τ]

/-- The machine after one thing was done after the other. -/
def steer (m : Machine τ) (controls : List (Control τ)) : Machine τ :=
  controls.foldl Control.perform m

@[simp] theorem steer_nil (m : Machine τ) : m.steer [] = m := rfl

@[simp] theorem steer_cons (m : Machine τ) (control : Control τ) (rest : List (Control τ)) :
    m.steer (control :: rest) = (control.perform m).steer rest := rfl

end Machine

/-! ### Operations -/

/-- What is done to a machine from outside. -/
inductive Operation (τ : Type)
  | control (c : Control τ)
  /-- Samples are taken into a buffer. -/
  | drain (buffer : List Int16)
  /-- An address is read over the bus. -/
  | read (address : Word)
  /-- A byte is written over the bus. -/
  | write (address : Word) (value : Byte)
  /-- A line of the processor is driven active. -/
  | assert (line : Interrupt)
  /-- A line of the processor is released. -/
  | deassert (line : Interrupt)
  /-- The registers of the processor are set. -/
  | load (regs : Registers)

/-- What an operation answers. -/
inductive Answer
  | nothing
  | events (events : SliceEvents)
  | cycles (used : Nat)
  | cartridge (ejected : Option Cartridge)
  | samples (count : Nat) (buffer : List Int16)
  | byte (value : Byte)

/-- What a call answers. -/
def Call.answer {τ : Type} [Duration τ] (m : Machine τ) : Call τ → Answer
  | slice time => .events (m.runSlice time).1
  | frame => .events m.runFrame.1
  | cycles budget => .cycles (m.runCycles budget).1
  | eject => .cartridge m.cartridge
  | insert _ | touch _ => .nothing

/-- What a control answers. -/
def Control.answer {τ : Type} [Duration τ] (m : Machine τ) : Control τ → Answer
  | call c => c.answer m
  | reset | fit _ => .nothing

namespace Operation

variable {τ : Type} [Duration τ]

/-- The machine after an operation. -/
def perform (m : Machine τ) : Operation τ → Machine τ
  | control c => c.perform m
  | drain buffer => (m.drainInto buffer).2.2
  | read address => m.mapBoard fun b => (Bus.read b address).2
  | write address value => m.mapBoard fun b => Bus.write b address value
  | assert line => m.mapCpu (·.assert line)
  | deassert line => m.mapCpu (·.deassert line)
  | load regs => m.mapCpu fun cpu => { cpu with regs := regs }

/-- What an operation answers. -/
def answer (m : Machine τ) : Operation τ → Answer
  | control c => c.answer m
  | drain buffer => .samples (m.drainInto buffer).1 (m.drainInto buffer).2.1
  | read address => .byte (Bus.read m.circuit.board address).1
  | write _ _ | assert _ | deassert _ | load _ => .nothing

omit [Duration τ] in
/-- The operation paints the frame. -/
def paints : Operation τ → Bool
  | control (.call .frame) => true
  | _ => false

end Operation

namespace Machine

variable {τ : Type} [Duration τ]

/-- The machine after one operation after the other. -/
def after (m : Machine τ) (operations : List (Operation τ)) : Machine τ :=
  operations.foldl Operation.perform m

/-- What one operation after the other answers. -/
def answers (m : Machine τ) : List (Operation τ) → List Answer
  | [] => []
  | operation :: rest => operation.answer m :: (operation.perform m).answers rest

@[simp] theorem after_nil (m : Machine τ) : m.after [] = m := rfl

@[simp] theorem after_cons (m : Machine τ) (operation : Operation τ) (rest : List (Operation τ)) :
    m.after (operation :: rest) = (operation.perform m).after rest := rfl

theorem after_append (m : Machine τ) (first rest : List (Operation τ)) :
    m.after (first ++ rest) = (m.after first).after rest := List.foldl_append ..

end Machine

/-! ### Views -/

/-- What can be seen of a machine. -/
structure View (τ : Type) where
  registers : Registers
  variant : Variant
  wait : WaitState
  nmiArmed : Bool
  lines : InterruptLines
  totalCycles : Nat
  /-- What each address shows. -/
  memory : Word → Byte
  cartridge : Option Cartridge
  scheduler : Scheduler τ
  /-- The samples that wait. -/
  samples : List Int16
  dropped : Nat
  frames : Nat
  pixels : List Pixel

/-- What can be seen of the machine. -/
def Machine.view {τ : Type} (m : Machine τ) : View τ where
  registers := m.circuit.cpu.regs
  variant := m.circuit.cpu.variant
  wait := m.circuit.cpu.wait
  nmiArmed := m.circuit.cpu.nmiArmed
  lines := m.circuit.cpu.lines
  totalCycles := m.circuit.cpu.totalCycles
  memory := m.peek
  cartridge := m.cartridge
  scheduler := m.scheduler
  samples := m.circuit.samples.toList
  dropped := m.circuit.samples.dropped
  frames := m.frames
  pixels := m.frame.pixels

end ColorComputer
