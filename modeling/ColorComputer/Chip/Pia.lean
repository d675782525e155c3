import ColorComputer.Reading

/-!
# The peripheral interface adapter

Two ports of eight pins. Each has an output register, a direction register (1 makes a pin an
output), a control register of six bits, an input C1 that sets a flag on its active edge, and a line
C2 with a flag of its own. Control bit 2 chooses whether the data address shows the direction
register or the pins; reading the pins clears both flags of that port.

Nothing in this machine drives C2 from outside, so its flag stays clear; a port carries the proof.
The levels that the outside world puts on the pins are not part of the chip: a read is given them.

* `flag_setC1`: an edge sets the flag when the control register asks for it at that moment.
* `interrupt_eq`: the flag of C1 alone raises the interrupt output.
* `peek_eq_read`: looking at a register shows what reading it would return.
-/

namespace ColorComputer

/-- One of the two ports. -/
@[ext] structure Port where
  output : Byte
  direction : Byte
  control : BitVec 6
  /-- The active edge of C1 was seen since the pins were last read. -/
  flag : Bool
  /-- The active edge of C2 was seen since the pins were last read. -/
  flag2 : Bool
  /-- The level of C1. -/
  c1 : Bool
  /-- No edge of C2 ever comes in. -/
  flag2_clear : flag2 = false
  deriving DecidableEq

namespace Port

/-- The port after reset: everything clear, C1 taken for high. -/
def reset : Port := ⟨0, 0, 0, false, false, true, rfl⟩

/-- Control bit 0: the flag raises the interrupt output. -/
def interruptEnabled (p : Port) : Bool := p.control.getLsbD 0

/-- Control bit 1: the active edge of C1 is the rising one. -/
def risingEdge (p : Port) : Bool := p.control.getLsbD 1

/-- Control bit 2: the data address shows the pins. -/
def pinsSelected (p : Port) : Bool := p.control.getLsbD 2

/-- Control bit 3: the flag of C2, as an input, raises the interrupt output. -/
def interrupt2Enabled (p : Port) : Bool := p.control.getLsbD 3

/-- Control bit 5: C2 is an output. -/
def c2Output (p : Port) : Bool := p.control.getLsbD 5

/-- The control register as it reads: the flags of C1 and C2 in bits 7 and 6. -/
def controlByte (p : Port) : Byte := BitVec.ofBool p.flag ++ BitVec.ofBool p.flag2 ++ p.control

/-- Write the control register; the two high bits are not writable. Where C2 becomes an output its
flag is lost. -/
def writeControl (p : Port) (value : Byte) : Port :=
  { p with
    control := value.setWidth 6
    flag2 := if (value.setWidth 6).getLsbD 5 then false else p.flag2
    flag2_clear := by rw [p.flag2_clear, ite_self] }

/-- Moving C1 to this level is its active edge. -/
def isActiveEdge (p : Port) (level : Bool) : Bool :=
  if p.risingEdge then !p.c1 && level else p.c1 && !level

/-- Drive C1 to a level. -/
def setC1 (p : Port) (level : Bool) : Port :=
  { p with flag := p.flag || p.isActiveEdge level, c1 := level }

/-- The level on C2: what control bit 3 says if C2 is an output under manual control, else high. -/
def c2 (p : Port) : Bool :=
  if p.c2Output && p.control.getLsbD 4 then p.control.getLsbD 3 else true

/-- The interrupt output. -/
def interrupt (p : Port) : Bool :=
  p.flag && p.interruptEnabled || p.flag2 && !p.c2Output && p.interrupt2Enabled

/-- The levels on the pins, given what the outside world drives. -/
def pins (p : Port) (outside : Byte) : Byte :=
  p.output &&& p.direction ||| outside &&& ~~~p.direction

/-- The levels that the port itself drives; an input pin is pulled high. -/
def driven (p : Port) : Byte := p.pins 0xFF

/-- What the data address shows. -/
def peekData (p : Port) (outside : Byte) : Byte :=
  if p.pinsSelected then p.pins outside else p.direction

/-- Both flags cleared. -/
def acknowledged (p : Port) : Port := { p with flag := false, flag2 := false, flag2_clear := rfl }

/-- Read the data address. Reading the pins clears both flags. -/
def readData (p : Port) (outside : Byte) : Byte × Port :=
  if p.pinsSelected then (p.pins outside, p.acknowledged) else (p.direction, p)

/-- The port after its data address was read. -/
def afterReadData (p : Port) : Port := if p.pinsSelected then p.acknowledged else p

/-- Write the data address. -/
def writeData (p : Port) (value : Byte) : Port :=
  if p.pinsSelected then { p with output := value } else { p with direction := value }

theorem readData_eq (p : Port) (outside : Byte) :
    p.readData outside = (p.peekData outside, p.afterReadData) := by
  unfold readData peekData afterReadData
  split <;> rfl

/-- An edge sets the flag when the control register asks for it at that moment. -/
theorem flag_setC1 (p : Port) (level : Bool) :
    (p.setC1 level).flag = (p.flag || p.isActiveEdge level) := rfl

/-- The flag of C1 alone raises the interrupt output. -/
theorem interrupt_eq (p : Port) : p.interrupt = (p.flag && p.interruptEnabled) := by
  rw [interrupt, p.flag2_clear, Bool.false_and, Bool.false_and, Bool.or_false]

end Port

/-- The two ports. -/
@[ext] structure Pia where
  a : Port
  b : Port
  deriving DecidableEq

namespace Pia

/-- The levels that the outside world drives on the pins of both ports. -/
structure Outside where
  a : Byte
  b : Byte

/-- Nothing is connected: every pin is pulled high. -/
def Outside.open : Outside := ⟨0xFF, 0xFF⟩

/-- Both ports after reset. -/
def reset : Pia := ⟨.reset, .reset⟩

instance : Inhabited Pia := ⟨reset⟩

/-- What a register shows: data and control of port A, data and control of port B. -/
def peek (pia : Pia) (outside : Outside) (register : BitVec 2) : Byte :=
  match register with
  | 0 => pia.a.peekData outside.a
  | 1 => pia.a.controlByte
  | 2 => pia.b.peekData outside.b
  | 3 => pia.b.controlByte

/-- Read a register. -/
def read (pia : Pia) (outside : Outside) (register : BitVec 2) : Byte × Pia :=
  match register with
  | 0 =>
    let (value, a) := pia.a.readData outside.a
    (value, { pia with a := a })
  | 1 => (pia.a.controlByte, pia)
  | 2 =>
    let (value, b) := pia.b.readData outside.b
    (value, { pia with b := b })
  | 3 => (pia.b.controlByte, pia)

/-- The chip after a register was read. -/
def afterRead (pia : Pia) (register : BitVec 2) : Pia :=
  match register with
  | 0 => { pia with a := pia.a.afterReadData }
  | 2 => { pia with b := pia.b.afterReadData }
  | _ => pia

/-- Write a register. -/
def write (pia : Pia) (register : BitVec 2) (value : Byte) : Pia :=
  match register with
  | 0 => { pia with a := pia.a.writeData value }
  | 1 => { pia with a := pia.a.writeControl value }
  | 2 => { pia with b := pia.b.writeData value }
  | 3 => { pia with b := pia.b.writeControl value }

/-- Drive C1 of port A to a level. -/
def setCA1 (pia : Pia) (level : Bool) : Pia := { pia with a := pia.a.setC1 level }

/-- Drive C1 of port B to a level. -/
def setCB1 (pia : Pia) (level : Bool) : Pia := { pia with b := pia.b.setC1 level }

/-- Either interrupt output is active. -/
def interrupt (pia : Pia) : Bool := pia.a.interrupt || pia.b.interrupt

/-- A read returns what looking at the register shows, and leaves the chip without the flag of the
port whose pins were read. -/
theorem read_eq (pia : Pia) (outside : Outside) (register : BitVec 2) :
    pia.read outside register = (pia.peek outside register, pia.afterRead register) := by
  unfold read peek afterRead
  split
  · rw [Port.readData_eq]
    rfl
  · rfl
  · rw [Port.readData_eq]
    rfl
  · rfl

/-- Looking at a register shows what reading it would return. -/
theorem peek_eq_read (pia : Pia) (outside : Outside) (register : BitVec 2) :
    pia.peek outside register = (pia.read outside register).1 := by
  rw [read_eq]

/-- Every path of the chip. -/
def probeTable : ProbeTable Pia :=
  [ProbeTable.entry "cra" fun pia => .byte pia.a.controlByte,
   ProbeTable.entry "crb" fun pia => .byte pia.b.controlByte,
   ProbeTable.entry "ddra" fun pia => .byte pia.a.direction,
   ProbeTable.entry "ddrb" fun pia => .byte pia.b.direction,
   ProbeTable.entry "ora" fun pia => .byte pia.a.output,
   ProbeTable.entry "orb" fun pia => .byte pia.b.output,
   ProbeTable.entry "irqa" fun pia => .flag pia.a.interrupt,
   ProbeTable.entry "irqb" fun pia => .flag pia.b.interrupt,
   ProbeTable.entry "ca2" fun pia => .flag pia.a.c2,
   ProbeTable.entry "cb2" fun pia => .flag pia.b.c2]

instance : Probe Pia := probeTable.toProbe

end Pia

end ColorComputer
