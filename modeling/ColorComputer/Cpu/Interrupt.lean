import ColorComputer.Cpu.ConditionCodes

/-!
# Interrupt lines

Each of the three inputs has a level (`asserted`) and an unserved request (`pending`). Asserting a
line latches a request; the processor consumes the request when it enters the handler. Releasing
IRQ or FIRQ withdraws a request that was not served yet. NMI reacts to the edge, so its request
outlives the level.

* `highest_eq_some_iff`: the line served is the first in the order NMI, FIRQ, IRQ that has a request
  and is eligible.
-/

namespace ColorComputer

/-- The three interrupt inputs. -/
inductive Interrupt
  | nmi
  | firq
  | irq
  deriving DecidableEq

namespace Interrupt

/-- Where the address of the handler is found. -/
def vector : Interrupt → Word
  | nmi => 0xFFFC
  | firq => 0xFFF6
  | irq => 0xFFF8

/-- The condition code bit that makes the line wait; nothing masks NMI. -/
def maskBit : Interrupt → Option Byte
  | nmi => none
  | firq => some 0x40
  | irq => some 0x10

/-- A request may be served: NMI once it is armed, the others while their mask is clear. -/
def eligible (line : Interrupt) (cc : ConditionCodes) (armed : Bool) : Bool :=
  match line with
  | nmi => armed
  | firq => !cc.firqMask
  | irq => !cc.irqMask

end Interrupt

/-- The state of one input. -/
@[ext] structure InterruptLine where
  asserted : Bool
  pending : Bool
  deriving DecidableEq

/-- The state of the three inputs. -/
@[ext] structure InterruptLines where
  nmi : InterruptLine
  firq : InterruptLine
  irq : InterruptLine
  deriving DecidableEq

namespace InterruptLines

/-- All lines released, nothing requested. -/
def idle : InterruptLines := ⟨⟨false, false⟩, ⟨false, false⟩, ⟨false, false⟩⟩

instance : Inhabited InterruptLines := ⟨idle⟩

/-- The state of one line. -/
def get (lines : InterruptLines) : Interrupt → InterruptLine
  | .nmi => lines.nmi
  | .firq => lines.firq
  | .irq => lines.irq

/-- Replace the state of one line. -/
def set (lines : InterruptLines) (line : Interrupt) (state : InterruptLine) : InterruptLines :=
  match line with
  | .nmi => { lines with nmi := state }
  | .firq => { lines with firq := state }
  | .irq => { lines with irq := state }

/-- Drive a line active and latch a request. -/
def assert (lines : InterruptLines) (line : Interrupt) : InterruptLines :=
  lines.set line ⟨true, true⟩

/-- Release a line. Only the request of NMI survives. -/
def deassert (lines : InterruptLines) (line : Interrupt) : InterruptLines :=
  lines.set line ⟨false, line = .nmi && (lines.get line).pending⟩

/-- Drive a line to a level. Only a change of level does anything. -/
def setLevel (lines : InterruptLines) (line : Interrupt) (active : Bool) : InterruptLines :=
  if active = (lines.get line).asserted then lines
  else if active then lines.assert line
  else lines.deassert line

/-- Take a request off a line; the level stays. -/
def consume (lines : InterruptLines) (line : Interrupt) : InterruptLines :=
  lines.set line ⟨(lines.get line).asserted, false⟩

/-- Some line has a request, masked or not. -/
def anyPending (lines : InterruptLines) : Bool :=
  lines.nmi.pending || lines.firq.pending || lines.irq.pending

/-- A line has a request that may be served. -/
def ready (lines : InterruptLines) (cc : ConditionCodes) (armed : Bool) (line : Interrupt) : Bool :=
  (lines.get line).pending && line.eligible cc armed

/-- The request to serve next: of those that may be served, the first of NMI, FIRQ, IRQ. -/
def highest (lines : InterruptLines) (cc : ConditionCodes) (armed : Bool) : Option Interrupt :=
  [Interrupt.nmi, .firq, .irq].find? (lines.ready cc armed)

@[simp] theorem get_set_self (lines : InterruptLines) (line : Interrupt) (state : InterruptLine) :
    (lines.set line state).get line = state := by
  cases line <;> rfl

theorem get_set_of_ne (lines : InterruptLines) {line other : Interrupt} (state : InterruptLine)
    (h : other ≠ line) : (lines.set line state).get other = lines.get other := by
  cases line <;> cases other <;> first | rfl | exact absurd rfl h

end InterruptLines

/-- A line comes before another in the order of service. -/
def Interrupt.precedes : Interrupt → Interrupt → Bool
  | .nmi, .firq => true
  | .nmi, .irq => true
  | .firq, .irq => true
  | _, _ => false

theorem Interrupt.forall_iff {p : Interrupt → Prop} :
    (∀ line, p line) ↔ p .nmi ∧ p .firq ∧ p .irq :=
  ⟨fun h => ⟨h _, h _, h _⟩, fun ⟨hn, hf, hi⟩ line => by cases line <;> assumption⟩

/-- The line served is ready, and no line before it is. -/
theorem InterruptLines.highest_eq_some_iff (lines : InterruptLines) (cc : ConditionCodes)
    (armed : Bool) (line : Interrupt) :
    lines.highest cc armed = some line ↔
      lines.ready cc armed line = true ∧
        ∀ other, other.precedes line = true → lines.ready cc armed other = false := by
  rw [Interrupt.forall_iff]
  unfold highest
  cases hn : lines.ready cc armed .nmi <;> cases hf : lines.ready cc armed .firq <;>
    cases hi : lines.ready cc armed .irq <;> cases line <;>
    simp [List.find?, hn, hf, hi, Interrupt.precedes]

end ColorComputer
