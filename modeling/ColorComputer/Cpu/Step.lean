import ColorComputer.Cpu.Execute
import ColorComputer.Cpu.Opcode

/-!
# Steps and runs

A step is one interrupt entry or one instruction; while the processor waits and nothing wakes it, a
step does nothing and costs nothing. A run is made of steps until a budget of cycles is used up, and
a processor that waits idles the rest of the budget away.

The cycles of a run are a number here, and those of a real run are summed in a word of 32 bits. That
is the same in every run of fewer than `2 ^ 32` cycles (`runWord?_eq_run`); of a longer one nothing
is said.

* `run_zero`: a budget of nothing runs nothing.
* `runUntil_of_le`: a run stops once its budget is used up.
-/

namespace ColorComputer

namespace Exec

variable {β : Type} [Bus β]

/-- Run the instruction with this opcode, or what stands for an undefined one. -/
def runOpcode (page : Page) (opcode : Byte) : Exec β Unit := do
  let cpu ← processor
  match Opcode.decode? page opcode with
  | some instruction =>
    if cpu.variant.executes instruction then
      charge (instruction.cost cpu.native)
      perform instruction
    else
      undefinedInstruction (page != .base)
  | none => undefinedInstruction (page != .base)

/-- Fetch an instruction and run it. -/
def runInstruction : Exec β Unit := do
  let opcode ← fetch
  if opcode = 0x10 then
    runOpcode .page10 (← fetch)
  else if opcode = 0x11 then
    runOpcode .page11 (← fetch)
  else
    runOpcode .base opcode

/-- Any request ends `SYNC`, masked or not. -/
def endSync : Exec β Unit :=
  modifyCpu fun cpu =>
    if cpu.wait = .sync && cpu.lines.anyPending then { cpu with wait := .running } else cpu

/-- Enter the handler of the request to serve next, or else run an instruction, unless waiting. -/
def act : Exec β Unit := do
  endSync
  let cpu ← processor
  match cpu.lines.highest cpu.regs.cc cpu.nmiArmed with
  | some line => enterInterrupt line
  | none => if cpu.wait = .running then runInstruction

end Exec

namespace Cpu

variable {β : Type} [Bus β]

/-- One interrupt entry or one instruction. The cycles of the result are what it cost. -/
def step (cpu : Cpu) (bus : β) : Core β :=
  match (Exec.act.run ⟨cpu, bus, 0⟩).2 with
  | ⟨cpu, bus, cost⟩ => ⟨{ cpu with totalCycles := cpu.totalCycles + cost }, bus, cost⟩

/-- Steps until the cycles of the core reach the budget. -/
def runUntil (budget : Nat) (core : Core β) : Core β :=
  match core with
  | ⟨cpu, bus, used⟩ =>
    if used < budget then
      match step cpu bus with
      | ⟨cpu, bus, 0⟩ =>
        ⟨{ cpu with totalCycles := cpu.totalCycles + (budget - used) }, bus, budget⟩
      | ⟨cpu, bus, cost + 1⟩ => runUntil budget ⟨cpu, bus, used + (cost + 1)⟩
    else
      ⟨cpu, bus, used⟩
termination_by budget - core.cycles

/-- Whole steps until a budget of cycles is used up. The cycles of the result are what was used,
which may exceed the budget by the tail of the last step. -/
def run (cpu : Cpu) (bus : β) (budget : Nat) : Core β := runUntil budget ⟨cpu, bus, 0⟩

theorem runUntil_of_le {budget : Nat} {core : Core β} (h : budget ≤ core.cycles) :
    runUntil budget core = core := by
  rw [runUntil.eq_def]
  simp [Nat.not_lt.2 h]

theorem run_zero (cpu : Cpu) (bus : β) : run cpu bus 0 = ⟨cpu, bus, 0⟩ :=
  runUntil_of_le (Nat.zero_le _)

/-- Where the address of the first instruction is found. -/
def resetVector : Word := 0xFFFE

/-- Pull the reset pin: clear the registers, mask both requests, forget all requests, and go on at
the address found at the reset vector. The cycles spent so far still count. -/
def reset (cpu : Cpu) (bus : β) : Cpu × β :=
  let (start, bus) := Bus.readWord bus resetVector
  ({ regs :=
      { Registers.zeros with
        pc := start
        cc := { ConditionCodes.clear with firqMask := true, irqMask := true } }
     variant := cpu.variant
     lines := .idle
     nmiArmed := false
     wait := .running
     totalCycles := cpu.totalCycles }, bus)

end Cpu

end ColorComputer
