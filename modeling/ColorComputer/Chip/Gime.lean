import ColorComputer.Duration
import ColorComputer.Reading

/-!
# The GIME's interrupts, timer and video registers

The chip latches interrupt sources for two lines, each with enables of its own behind a master
enable. Reading the latch of a line returns the sources latched and clears them. A twelve-bit timer
counts down at one of two rates; whoever counts for it asks for changes and gets each at most once.

* `peek_eq_read`: looking at a register shows what reading it would return.
* `write_cases`: all that a write can do.
* `irqLatched_raise`, `firqLatched_raise`: a source is latched where it is enabled, and only there.
-/

namespace ColorComputer

/-- A change to the timer. -/
inductive TimerUpdate (τ : Type)
  /-- The timer stops. -/
  | stop
  /-- The timer counts down from this time. -/
  | period (time : τ)

/-- The lines that a source drives anew. -/
@[ext] structure Raised where
  irq : Bool
  firq : Bool
  deriving DecidableEq

/-- The registers of the chip. -/
@[ext] structure Gime where
  init0 : Byte
  init1 : Byte
  irqEnable : BitVec 6
  firqEnable : BitVec 6
  irqLatched : Byte
  firqLatched : Byte
  timer : BitVec 12
  /-- The timer was changed since the last time a change was taken. -/
  timerChanged : Bool
  video : Vector Byte 8
  palette : Vector (BitVec 6) 16
  deriving DecidableEq

namespace Gime

/-- The chip after reset. -/
def reset : Gime where
  init0 := 0
  init1 := 0
  irqEnable := 0
  firqEnable := 0
  irqLatched := 0
  firqLatched := 0
  timer := 0
  timerChanged := false
  video := .replicate 8 0
  palette := .replicate 16 0

instance : Inhabited Gime := ⟨reset⟩

/-! ### Interrupt sources -/

/-- The timer counted down to zero. -/
def sourceTimer : Byte := 0x20

/-- A line ends. -/
def sourceLine : Byte := 0x10

/-- A field ends. -/
def sourceField : Byte := 0x08

/-- The cartridge asks for attention. -/
def sourceCartridge : Byte := 0x01

/-- Bit 5 of INIT0 enables the IRQ line. -/
def irqMaster (g : Gime) : Bool := g.init0.getLsbD 5

/-- Bit 4 of INIT0 enables the FIRQ line. -/
def firqMaster (g : Gime) : Bool := g.init0.getLsbD 4

/-- A source is enabled for the IRQ line. -/
def raisesIrq (g : Gime) (source : Byte) : Bool :=
  g.irqMaster && g.irqEnable.setWidth 8 &&& source != 0

/-- A source is enabled for the FIRQ line. -/
def raisesFirq (g : Gime) (source : Byte) : Bool :=
  g.firqMaster && g.firqEnable.setWidth 8 &&& source != 0

/-- A source happens: it is latched for each line for which it is enabled. -/
def raise (g : Gime) (source : Byte) : Raised × Gime :=
  let irq := g.raisesIrq source
  let firq := g.raisesFirq source
  (⟨irq, firq⟩,
    { g with
      irqLatched := if irq then g.irqLatched ||| source else g.irqLatched
      firqLatched := if firq then g.firqLatched ||| source else g.firqLatched })

/-- The chip drives the IRQ line. -/
def irqActive (g : Gime) : Bool := g.irqLatched != 0

/-- The chip drives the FIRQ line. -/
def firqActive (g : Gime) : Bool := g.firqLatched != 0

/-! ### Registers -/

/-- What a register shows. The latches and the palette can be seen, nothing else can. -/
def peek (g : Gime) (address : Word) : Byte :=
  if address = 0xFF92 then g.irqLatched
  else if address = 0xFF93 then g.firqLatched
  else if 0xFFB0 ≤ address ∧ address ≤ 0xFFBF then
    (g.palette.get (address.setWidth 4).toFin).setWidth 8
  else 0xFF

/-- Read a register. The sources in a latch are taken out of it. -/
def read (g : Gime) (address : Word) : Byte × Gime :=
  if address = 0xFF92 then (g.irqLatched, { g with irqLatched := 0 })
  else if address = 0xFF93 then (g.firqLatched, { g with firqLatched := 0 })
  else (g.peek address, g)

/-- The chip after a register was read. -/
def afterRead (g : Gime) (address : Word) : Gime :=
  if address = 0xFF92 then { g with irqLatched := 0 }
  else if address = 0xFF93 then { g with firqLatched := 0 }
  else g

/-- Bit 5 of INIT1 selects the fast clock for the timer. -/
def fastTimer (init1 : Byte) : Bool := init1.getLsbD 5

/-- Write INIT1. Choosing another clock changes a timer that is set, and starts none. -/
def writeInit1 (g : Gime) (value : Byte) : Gime :=
  { g with
    init1 := value
    timerChanged := g.timerChanged || (fastTimer g.init1 != fastTimer value && g.timer != 0) }

/-- Write a register. -/
def write (g : Gime) (address : Word) (value : Byte) : Gime :=
  if address = 0xFF90 then { g with init0 := value }
  else if address = 0xFF91 then g.writeInit1 value
  else if address = 0xFF92 then { g with irqEnable := value.setWidth 6 }
  else if address = 0xFF93 then { g with firqEnable := value.setWidth 6 }
  else if address = 0xFF94 then
    { g with timer := value.setWidth 4 ++ g.timer.setWidth 8, timerChanged := true }
  else if address = 0xFF95 then
    { g with timer := g.timer.extractLsb' 8 4 ++ value, timerChanged := true }
  else if 0xFF98 ≤ address ∧ address ≤ 0xFF9F then
    { g with video := g.video.set (address.setWidth 3).toNat value (address.setWidth 3).isLt }
  else if 0xFFB0 ≤ address ∧ address ≤ 0xFFBF then
    { g with
      palette := g.palette.set (address.setWidth 4).toNat (value.setWidth 6)
        (address.setWidth 4).isLt }
  else g

/-- One of the video registers. -/
def videoRegister (g : Gime) (index : BitVec 3) : Byte := g.video.get index.toFin

/-- The colour of the border, two bits each of red, green and blue. -/
def border (g : Gime) : BitVec 6 := (g.videoRegister 2).setWidth 6

/-! ### The timer -/

/-- The time of one tick: of the crystal at the fast rate, of a line at the slow one. -/
def tick {τ : Type} [Duration τ] (g : Gime) : τ :=
  if fastTimer g.init1 then Duration.second / Duration.crystalHertz else Duration.line

/-- The time between two expiries. -/
def timerPeriod {τ : Type} [Duration τ] (g : Gime) : τ :=
  Duration.ofNat (g.timer.toNat + 1) * g.tick

/-- The change of the timer that was not taken yet, if there is one. A timer set to zero stops. -/
def takeTimerUpdate {τ : Type} [Duration τ] (g : Gime) : Option (TimerUpdate τ) × Gime :=
  if g.timerChanged then
    (some (if g.timer = 0 then .stop else .period g.timerPeriod), { g with timerChanged := false })
  else (none, g)

/-! ### Laws -/

/-- A read returns what looking at the register shows, and leaves the chip without what was taken out
of a latch. -/
theorem read_eq (g : Gime) (address : Word) :
    g.read address = (g.peek address, g.afterRead address) := by
  unfold read afterRead
  by_cases h92 : address = 0xFF92
  · simp [peek, h92]
  · rw [if_neg h92, if_neg h92]
    by_cases h93 : address = 0xFF93
    · simp [peek, h93]
    · rw [if_neg h93, if_neg h93]

/-- Looking at a register shows what reading it would return. -/
theorem peek_eq_read (g : Gime) (address : Word) : g.peek address = (g.read address).1 := by
  rw [read_eq]

/-- All that a write can do. -/
@[elab_as_elim]
theorem write_cases {motive : Gime → Prop} (g : Gime) (address : Word) (value : Byte)
    (init0 : address = 0xFF90 → motive { g with init0 := value })
    (init1 : address = 0xFF91 → motive (g.writeInit1 value))
    (irqEnable : address = 0xFF92 → motive { g with irqEnable := value.setWidth 6 })
    (firqEnable : address = 0xFF93 → motive { g with firqEnable := value.setWidth 6 })
    (timer : ∀ timer, motive { g with timer := timer, timerChanged := true })
    (video : ∀ video, motive { g with video := video })
    (palette : ∀ palette, motive { g with palette := palette })
    (nothing : motive g) : motive (g.write address value) := by
  unfold write
  refine iteInduction init0 fun _ => ?_
  refine iteInduction init1 fun _ => ?_
  refine iteInduction irqEnable fun _ => ?_
  refine iteInduction firqEnable fun _ => ?_
  refine iteInduction (fun _ => timer _) fun _ => ?_
  refine iteInduction (fun _ => timer _) fun _ => ?_
  refine iteInduction (fun _ => video _) fun _ => ?_
  exact iteInduction (fun _ => palette _) fun _ => nothing

theorem irqLatched_raise (g : Gime) (source : Byte) :
    (g.raise source).2.irqLatched =
      if g.raisesIrq source then g.irqLatched ||| source else g.irqLatched := rfl

theorem firqLatched_raise (g : Gime) (source : Byte) :
    (g.raise source).2.firqLatched =
      if g.raisesFirq source then g.firqLatched ||| source else g.firqLatched := rfl

/-- Every path of the chip. -/
def probeTable : ProbeTable Gime :=
  [ProbeTable.entry "init0" fun g => .byte g.init0,
   ProbeTable.entry "init1" fun g => .byte g.init1,
   ProbeTable.entry "irq.enable" fun g => .byte (g.irqEnable.setWidth 8),
   ProbeTable.entry "irq.latched" fun g => .byte g.irqLatched,
   ProbeTable.entry "firq.enable" fun g => .byte (g.firqEnable.setWidth 8),
   ProbeTable.entry "firq.latched" fun g => .byte g.firqLatched,
   ProbeTable.entry "timer" fun g => .word (g.timer.setWidth 16),
   ProbeTable.entry "timer.period" fun g => .count (Duration.count (g.timerPeriod (τ := Float))),
   ProbeTable.entry "border" fun g => .byte (g.border.setWidth 8)]

instance : Probe Gime := probeTable.toProbe

end Gime

end ColorComputer
