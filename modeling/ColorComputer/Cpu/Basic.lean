import ColorComputer.Bus
import ColorComputer.Cpu.Interrupt
import ColorComputer.Cpu.Registers
import ColorComputer.Cpu.Variant

/-!
# The processor and its work on a bus

The state of the processor, and the primitive actions of which every instruction is made: fetch a
byte, read or write the bus, change the registers, charge cycles. An action runs on a core, which
is a processor, the bus it works on and the cycles charged so far.
-/

namespace ColorComputer

/-- Why the processor fetches instructions or does not. -/
inductive WaitState
  /-- It fetches. -/
  | running
  /-- `SYNC` stopped it until any line has a request. -/
  | sync
  /-- `CWAI` stacked the entire state and stopped it until a request may be served. -/
  | cwai
  deriving DecidableEq

/-- The state of the processor. -/
@[ext] structure Cpu where
  regs : Registers
  variant : Variant
  lines : InterruptLines
  /-- NMI waits until `S` has been loaded once. -/
  nmiArmed : Bool
  wait : WaitState
  /-- All cycles spent so far. -/
  totalCycles : Nat
  deriving DecidableEq

namespace Cpu

/-- A part fresh from the box: every register zero, running, nothing requested. -/
def fresh (variant : Variant) : Cpu where
  regs := .zeros
  variant := variant
  lines := .idle
  nmiArmed := false
  wait := .running
  totalCycles := 0

instance : Inhabited Cpu := ⟨fresh .motorola⟩

/-- The part runs in native mode. -/
def native (cpu : Cpu) : Bool := cpu.variant.extendedRegisters && cpu.regs.native

/-- The processor waits for an interrupt. -/
def waiting (cpu : Cpu) : Bool := cpu.wait != .running

/-- Change the registers. -/
def mapRegs (cpu : Cpu) (f : Registers → Registers) : Cpu :=
  match cpu with
  | ⟨regs, variant, lines, nmiArmed, wait, totalCycles⟩ =>
    ⟨f regs, variant, lines, nmiArmed, wait, totalCycles⟩

/-- Load a word register as an instruction does: loading `S` arms NMI. -/
def loadWord (cpu : Cpu) (name : WordRegister) (value : Word) : Cpu :=
  { cpu with
    regs := cpu.regs.setWord name value
    nmiArmed := cpu.nmiArmed || name = .s }

/-- Put another part into the socket. A part without a mode register clears it. -/
def fit (cpu : Cpu) (variant : Variant) : Cpu :=
  { cpu with
    variant := variant
    regs := if variant.extendedRegisters then cpu.regs else { cpu.regs with md := 0 } }

/-- Drive a line active and latch a request. -/
def assert (cpu : Cpu) (line : Interrupt) : Cpu := { cpu with lines := cpu.lines.assert line }

/-- Release a line. -/
def deassert (cpu : Cpu) (line : Interrupt) : Cpu := { cpu with lines := cpu.lines.deassert line }

/-- Drive a line to a level. -/
def setLevel (cpu : Cpu) (line : Interrupt) (active : Bool) : Cpu :=
  { cpu with lines := cpu.lines.setLevel line active }

end Cpu

/-- A processor at work: its state, its bus, and the cycles charged so far. -/
@[ext] structure Core (β : Type) where
  cpu : Cpu
  bus : β
  cycles : Nat

/-- An action of a processor on a bus of type `β`. -/
abbrev Exec (β : Type) := StateM (Core β)

namespace Exec

variable {β : Type}

/-- The processor as it is. -/
def processor : Exec β Cpu := fun core => (core.cpu, core)

/-- The registers as they are. -/
def registers : Exec β Registers := fun core => (core.cpu.regs, core)

/-- Change the processor. -/
def modifyCpu (f : Cpu → Cpu) : Exec β Unit := fun
  | ⟨cpu, bus, cycles⟩ => ((), ⟨f cpu, bus, cycles⟩)

/-- Change the registers. -/
def modifyRegs (f : Registers → Registers) : Exec β Unit := modifyCpu (·.mapRegs f)

/-- Replace the condition codes. -/
def setCodes (cc : ConditionCodes) : Exec β Unit := modifyRegs fun r => { r with cc := cc }

/-- Load a word register as an instruction does. -/
def loadWord (name : WordRegister) (value : Word) : Exec β Unit :=
  modifyCpu (·.loadWord name value)

/-- Go on at an address. -/
def jump (address : Word) : Exec β Unit := modifyRegs fun r => { r with pc := address }

/-- Go on at an offset from the program counter. -/
def jumpBy (offset : Word) : Exec β Unit := modifyRegs fun r => { r with pc := r.pc + offset }

/-- Charge cycles. -/
def charge (n : Nat) : Exec β Unit := fun
  | ⟨cpu, bus, cycles⟩ => ((), ⟨cpu, bus, cycles + n⟩)

/-- The processor runs in native mode. -/
def isNative : Exec β Bool := fun core => (core.cpu.native, core)

variable [Bus β]

/-- Read a byte from the bus. -/
def readByte (address : Word) : Exec β Byte := fun
  | ⟨cpu, bus, cycles⟩ =>
    let (value, bus) := Bus.read bus address
    (value, ⟨cpu, bus, cycles⟩)

/-- Write a byte to the bus. -/
def writeByte (address : Word) (value : Byte) : Exec β Unit := fun
  | ⟨cpu, bus, cycles⟩ => ((), ⟨cpu, Bus.write bus address value, cycles⟩)

/-- Read a word from the bus, high byte first. -/
def readWord (address : Word) : Exec β Word := do
  let high ← readByte address
  let low ← readByte (address + 1)
  return Word.ofBytes high low

/-- Write a word to the bus, high byte first. -/
def writeWord (address value : Word) : Exec β Unit := do
  writeByte address (Word.highByte value)
  writeByte (address + 1) (Word.lowByte value)

/-- Fetch the byte at the program counter. -/
def fetch : Exec β Byte := do
  let value ← readByte (← registers).pc
  jumpBy 1
  return value

/-- Fetch the word at the program counter, high byte first. -/
def fetchWord : Exec β Word := do
  let high ← fetch
  let low ← fetch
  return Word.ofBytes high low

end Exec

end ColorComputer
