import ColorComputer.Cpu.Stacking

/-!
# Exceptions

How the processor leaves the program for a handler: interrupts, software interrupts, and the traps
of the Hitachi part. Each pushes a frame on the system stack, masks what it masks and goes on at the
address found at its vector.
-/

namespace ColorComputer

/-- The reasons for a trap. -/
inductive Trap
  | undefinedInstruction
  | divisionByZero
  deriving DecidableEq

namespace Trap

/-- The bit of the mode register that remembers the trap. -/
def flag : Trap → Byte
  | undefinedInstruction => 0x40
  | divisionByZero => 0x80

/-- Where the address of the handler is found. -/
def vector : Word := 0xFFF0

end Trap

namespace Exec

variable {β : Type} [Bus β]

/-- Mask both interrupt requests. -/
def maskBoth : Exec β Unit :=
  modifyRegs fun r => { r with cc := { r.cc with firqMask := true, irqMask := true } }

/-- Mask the interrupt request only. -/
def maskIrq : Exec β Unit :=
  modifyRegs fun r => { r with cc := { r.cc with irqMask := true } }

/-- Go on at the address found at a vector. -/
def jumpThrough (vector : Word) : Exec β Unit := do
  jump (← readWord vector)

/-- Trap: remember why, stack the entire state, mask both requests. -/
def trap (reason : Trap) : Exec β Unit := do
  modifyRegs fun r => { r with md := r.md ||| reason.flag }
  pushEntire
  maskBoth
  jumpThrough Trap.vector
  charge (if ← isNative then 22 else 20)

/-- Run an instruction that is not defined, from the base page or from behind a page byte. -/
def undefinedInstruction (behindPageByte : Bool) : Exec β Unit := do
  if (← processor).variant.trapsUndefined then
    trap .undefinedInstruction
  else
    charge (if behindPageByte then 3 else 2)

/-- Software interrupt: stack the entire state; only the first kind masks requests. -/
def softwareInterrupt (which : SoftwareInterrupt) : Exec β Unit := do
  pushEntire
  if which.masks then maskBoth
  jumpThrough which.vector

/-- Stack what an interrupt stacks. After `CWAI` everything is stacked already. A fast interrupt
stacks the short frame unless the mode register asks for the entire state. -/
def stackForInterrupt (line : Interrupt) (wait : WaitState) : Exec β Unit := do
  let cpu ← processor
  if wait = .cwai then
    charge 7
  else if line != .firq || (cpu.variant.extendedRegisters && cpu.regs.firqEntire) then
    pushEntire
    charge (if ← isNative then 21 else 19)
  else
    pushShort
    charge 10

/-- Enter the handler of an interrupt: take the request, wake up, stack, mask, go on at the
handler. -/
def enterInterrupt (line : Interrupt) : Exec β Unit := do
  let wait := (← processor).wait
  modifyCpu fun cpu => { cpu with lines := cpu.lines.consume line, wait := .running }
  stackForInterrupt line wait
  if line = .irq then maskIrq else maskBoth
  jumpThrough line.vector

end Exec

end ColorComputer
