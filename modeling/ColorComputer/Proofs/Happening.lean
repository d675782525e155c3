import ColorComputer.Proofs.Budget
import ColorComputer.Proofs.Operation

/-!
# Happenings

All that can happen to a board: accesses over the bus, sources of interrupts, the levels of the
adapters' inputs, a change of the cartridge, what the user does, a reset. A machine that runs does
nothing else to its board, so that what these keep, a machine keeps while it runs.

* `Board.write_cases` — all that a write over the bus can come to.
* `Board.through` — a board after one happening after the other.
* `Board.Steady.circuit` — what the happenings of a run keep is kept by all that a circuit does.
* `Circuit.Steady.runFrame` — and so by the calls by which a machine runs.
* `Board.Lasting.through`, `Board.Lasting.perform` — what every happening keeps holds from then on,
  and an operation on a machine keeps it of the machine's board.
-/

namespace ColorComputer

/-! ### Accesses -/

/-- An access over the bus. -/
inductive Transaction
  | read (address : Word)
  | write (address : Word) (value : Byte)
  | readWord (address : Word)
  | writeWord (address value : Word)
  deriving DecidableEq

/-- The board after an access. -/
def Transaction.serve (b : Board) : Transaction → Board
  | read address => (Bus.read b address).2
  | write address value => Bus.write b address value
  | readWord address => (Bus.readWord b address).2
  | writeWord address value => Bus.writeWord b address value

/-- What holds of every outcome of a write over the bus holds of the board after it. The map takes
its part of what is written to the GIME and to the selector. -/
@[elab_as_elim]
theorem Board.write_cases (b : Board) (a : Word) (v : Byte) {motive : Board → Prop}
    (memory : isDevice a = false → motive (b.writeMemory a v))
    (pia0 : motive { b with pia0 := b.pia0.write (a.setWidth 2) v })
    (pia1 : motive { b with pia1 := b.pia1.write (a.setWidth 2) v })
    (bank : motive { b with cartridge := b.cartridge.map (·.setBank v) })
    (gime : ∀ f, motive ({ b with gime := b.gime.write a v }.mapMmu f))
    (task : ∀ f, motive (b.mapMmu f))
    (selector : ∀ f bits, motive { b.mapMmu f with selector := bits })
    (nothing : motive b) : motive (Bus.write b a v) := by
  show motive (if isDevice a then b.writeDevice a v else b.writeMemory a v)
  cases hd : isDevice a with
  | false => exact memory hd
  | true =>
    rw [if_pos rfl, writeDevice]
    cases Device.ofAddress a with
    | pia0 => exact pia0
    | pia1 => exact pia1
    | bank => exact bank
    | gime =>
      dsimp only
      unfold shareGimeWrite
      repeat' split
      · exact gime _
      · exact gime _
      · exact gime _
      · exact gime id
    | task => exact task _
    | selector => exact selector _ _
    | vector | unwired => exact nothing

/-! ### Ports -/

/-- The four ports of the two adapters. -/
inductive Side
  | firstA | firstB | secondA | secondB
  deriving DecidableEq

namespace Board

/-- One of the four ports. -/
def port (b : Board) : Side → Port
  | .firstA => b.pia0.a
  | .firstB => b.pia0.b
  | .secondA => b.pia1.a
  | .secondB => b.pia1.b

/-- Drive C1 of a port to a level. -/
def driveC1 (b : Board) (side : Side) (level : Bool) : Board :=
  match side with
  | .firstA => { b with pia0 := b.pia0.setCA1 level }
  | .firstB => { b with pia0 := b.pia0.setCB1 level }
  | .secondA => { b with pia1 := b.pia1.setCA1 level }
  | .secondB => { b with pia1 := b.pia1.setCB1 level }

/-- A source of the GIME happens. -/
def raise (b : Board) (source : Byte) : Board := { b with gime := (b.gime.raise source).2 }

/-- The change of the timer was told. -/
def tellTimer (b : Board) : Board := { b with gime := { b.gime with timerChanged := false } }

end Board

/-! ### What the user does -/

/-- What the user does. -/
inductive Touch
  | key (row column : Nat) (down : Bool)
  | axis (stick : Stick) (which : Axis) (value : Byte)
  | button (stick : Stick) (which : Button) (down : Bool)
  /-- Everything is let go. -/
  | release
  deriving DecidableEq

/-- The panel after the user did something. -/
def Touch.apply (p : Panel) : Touch → Panel
  | key row column down => p.setKey row column down
  | axis stick which value => p.setAxis stick which value
  | button stick which down => p.setButton stick which down
  | release => .released

/-! ### Happenings -/

/-- What can happen to a board. -/
inductive Happening
  | access (t : Transaction)
  /-- A source of the GIME happens. -/
  | raise (source : Byte)
  /-- C1 of a port is driven to a level. -/
  | drive (side : Side) (level : Bool)
  /-- The change of the timer is told to the scheduler. -/
  | timer
  /-- The cartridge port is filled or emptied. -/
  | port (cartridge : Option Cartridge)
  | touch (t : Touch)
  | reset

namespace Board

/-- The board after a happening. -/
def occur (b : Board) : Happening → Board
  | .access t => t.serve b
  | .raise source => b.raise source
  | .drive side level => b.driveC1 side level
  | .timer => b.tellTimer
  | .port cartridge => { b with cartridge := cartridge }
  | .touch t => { b with panel := t.apply b.panel }
  | .reset => b.reset

/-- The board after one happening after the other. -/
def through (b : Board) (history : List Happening) : Board := history.foldl occur b

@[simp] theorem through_concat (b : Board) (history : List Happening) (happening : Happening) :
    b.through (history ++ [happening]) = (b.through history).occur happening := by
  simp [through]

/-! ### What the happenings of a run keep -/

/-- A property of boards that is kept by all that a machine does to its board while it runs. -/
structure Steady (P : Board → Prop) : Prop where
  read : ∀ {b}, P b → ∀ a, P (Bus.read b a).2
  write : ∀ {b}, P b → ∀ a v, P (Bus.write b a v)
  raise : ∀ {b}, P b → ∀ source, P (b.raise source)
  drive : ∀ {b}, P b → ∀ side level, P (b.driveC1 side level)
  timer : ∀ {b}, P b → P b.tellTimer

namespace Steady

variable {P : Board → Prop} (hP : Steady P)
include hP

theorem bus : BusInvariant P := ⟨hP.read, hP.write⟩

theorem serve {b : Board} (h : P b) (t : Transaction) : P (t.serve b) := by
  cases t with
  | read a => exact hP.read h a
  | write a v => exact hP.write h a v
  | readWord a => exact hP.read (hP.read h a) _
  | writeWord a v => exact hP.write (hP.write h a _) _ _

end Steady

/-- A property of boards that is kept by all that can happen. -/
structure Lasting (P : Board → Prop) : Prop extends Steady P where
  port : ∀ {b}, P b → ∀ cartridge, P { b with cartridge := cartridge }
  panel : ∀ {b}, P b → ∀ panel, P { b with panel := panel }
  reset : ∀ {b}, P b → P b.reset

namespace Lasting

variable {P : Board → Prop} (hP : Lasting P) {b : Board}
include hP

theorem occur (h : P b) (happening : Happening) : P (b.occur happening) := by
  cases happening with
  | access t => exact hP.serve h t
  | raise source => exact hP.raise h source
  | drive side level => exact hP.drive h side level
  | timer => exact hP.timer h
  | port cartridge => exact hP.port h cartridge
  | touch t => exact hP.panel h _
  | reset => exact hP.reset h

/-- What every happening keeps holds from then on. -/
theorem through (h : P b) (history : List Happening) : P (b.through history) := by
  induction history generalizing b with
  | nil => exact h
  | cons happening rest ih => exact ih (hP.occur h happening)

end Lasting

end Board

/-! ### Circuits -/

namespace Circuit

/-- A property of circuits that is kept by all that a circuit does while a machine runs. -/
structure Steady (Q : Circuit → Prop) : Prop where
  runCycles : ∀ {c}, Q c → ∀ budget, Q (c.runCycles budget).2
  takeSample : ∀ {c}, Q c → Q c.takeSample
  raise : ∀ {c}, Q c → ∀ source, Q (c.raise source)
  takeTimerUpdate : ∀ {c : Circuit} {τ : Type} [Duration τ], Q c →
    Q (c.takeTimerUpdate (τ := τ)).2
  driveLine : ∀ {c}, Q c → ∀ level, Q (c.driveLine level)
  driveField : ∀ {c}, Q c → ∀ level, Q (c.driveField level)

theorem board_takeTimerUpdate {τ : Type} [Duration τ] (c : Circuit) :
    (c.takeTimerUpdate (τ := τ)).2.board = c.board.tellTimer := by
  unfold takeTimerUpdate Gime.takeTimerUpdate Board.tellTimer
  dsimp only
  cases h : c.board.gime.timerChanged with
  | true => rfl
  | false => rw [if_neg Bool.false_ne_true, ← h]

/-- The level of a line reaches both adapters if there is a cartridge, and where it falls the
sources of the GIME happen. -/
theorem board_driveLine (c : Circuit) (level : Bool) : (c.driveLine level).board =
    let b := c.board.driveC1 .firstA level
    let b := if c.board.cartridge.isSome then b.driveC1 .secondB level else b
    if level then b
    else
      let b := b.raise Gime.sourceLine
      if c.board.cartridge.isSome then b.raise Gime.sourceCartridge else b := by
  unfold driveLine
  cases c.board.cartridge.isSome <;> cases level <;> rfl

theorem board_driveField (c : Circuit) (level : Bool) : (c.driveField level).board =
    let b := c.board.driveC1 .firstB level
    if level then b else b.raise Gime.sourceField := by
  cases level <;> rfl

end Circuit

/-- What is kept by all that a machine does to its board is kept by all that its circuit does. -/
theorem Board.Steady.circuit {P : Board → Prop} (hP : Board.Steady P) :
    Circuit.Steady fun c => P c.board where
  runCycles {c} h budget := Cpu.runUntil_kept hP.bus budget ⟨c.cpu, c.board, 0⟩ h
  takeSample h := h
  raise h source := hP.raise h source
  takeTimerUpdate {c} τ _ h := by
    rw [Circuit.board_takeTimerUpdate]
    exact hP.timer h
  driveLine {c} h level := by
    rw [Circuit.board_driveLine]
    have h1 := hP.drive h .firstA level
    have h2 := hP.drive h1 .secondB level
    cases c.board.cartridge.isSome <;> cases level
    · exact hP.raise h1 _
    · exact h1
    · exact hP.raise (hP.raise h2 _) _
    · exact h2
  driveField {c} h level := by
    rw [Circuit.board_driveField]
    have h1 := hP.drive h .firstB level
    cases level
    · exact hP.raise h1 _
    · exact h1

/-! ### Runs of a machine -/

namespace Stretch

variable {τ : Type}

/-- Neither the cartridge port nor what the user touches is concerned. -/
def Inside : Stretch τ → Prop
  | field _ | line _ | time _ | cycles _ => True
  | port _ | touch _ => False

theorem inside_line [Duration τ] (last : Bool) :
    ∀ stretch ∈ Machine.lineStretches (τ := τ) last, stretch.Inside := by
  cases last <;> simp [Machine.lineStretches, Inside]

/-- Lines are drawn without a hand from outside. -/
theorem inside_lines [Duration τ] (count : Nat) :
    ∀ stretch ∈ Machine.linesStretches (τ := τ) count, stretch.Inside := by
  induction count with
  | zero => simp [Machine.linesStretches]
  | succ left ih =>
    intro stretch h
    rcases List.mem_append.1 h with h | h
    · exact inside_line _ stretch h
    · exact ih stretch h

end Stretch

namespace Circuit.Steady

variable {Q : Circuit → Prop} (hQ : Steady Q) {τ : Type} [Duration τ] {m : Machine τ}
include hQ

/-- The scheduler keeps what the circuit that it drives keeps. -/
theorem alike : Host.Alike (fun c c' => c = c' ∧ Q c) (host τ) (host τ) where
  runCpu := by
    rintro c _ ⟨rfl, h⟩ budget
    exact ⟨rfl, rfl, hQ.runCycles h budget⟩
  sample := by
    rintro c _ ⟨rfl, h⟩
    exact ⟨rfl, hQ.takeSample h⟩
  timerExpired := by
    rintro c _ ⟨rfl, h⟩
    exact ⟨rfl, hQ.raise h Gime.sourceTimer⟩
  timerUpdate := by
    rintro c _ ⟨rfl, h⟩
    exact ⟨rfl, rfl, hQ.takeTimerUpdate h⟩
  multiplier := by
    rintro c _ ⟨rfl, h⟩
    rfl

theorem runSlice (h : Q m.circuit) (time : τ) : Q (m.runSlice time).2.circuit :=
  (hQ.alike.run (x := m.circuit) ⟨rfl, h⟩ m.scheduler time).host.2

theorem pass (h : Q m.circuit) {stretch : Stretch τ} (hs : stretch.Inside) :
    Q (m.pass stretch).circuit := by
  cases stretch with
  | field level => exact hQ.driveField h level
  | line level => exact hQ.driveLine h level
  | time time => exact hQ.runSlice h time
  | cycles budget => exact hQ.runCycles h budget
  | port cartridge => exact hs.elim
  | touch f => exact hs.elim

theorem play (h : Q m.circuit) {stretches : List (Stretch τ)} (hs : ∀ s ∈ stretches, s.Inside) :
    Q (m.play stretches).circuit := by
  induction stretches generalizing m with
  | nil => exact h
  | cons stretch rest ih =>
    have hp := hQ.pass h (hs stretch List.mem_cons_self)
    exact ih hp fun s hr => hs s (List.mem_cons_of_mem _ hr)

theorem runFrame (h : Q m.circuit) : Q m.runFrame.2.circuit := by
  rw [Machine.circuit_runFrame]
  exact hQ.play h (Stretch.inside_lines Machine.linesPerField)

end Circuit.Steady

/-! ### Machines -/

namespace Board.Lasting

variable {P : Board → Prop} (hP : Lasting P) {τ : Type} [Duration τ] {m : Machine τ}
include hP

/-- To be reset, a processor reads where it is to go on. -/
theorem circuitReset {c : Circuit} (h : P c.board) : P c.reset.board :=
  hP.serve (hP.reset h) (.readWord 0xFFFE)

theorem perform (h : P m.circuit.board) (operation : Operation τ) :
    P (operation.perform m).circuit.board := by
  cases operation with
  | control control =>
    cases control with
    | call call =>
      cases call with
      | slice time => exact hP.circuit.runSlice h time
      | frame =>
        dsimp only [Operation.perform, Control.perform, Call.perform]
        exact hP.circuit.runFrame h
      | cycles budget => exact hP.circuit.runCycles h budget
      | insert cartridge => exact hP.port h _
      | eject => exact hP.port h _
      | touch f => exact hP.panel h _
    | reset => exact hP.circuitReset h
    | fit variant => exact h
  | read address => exact hP.read h address
  | write address value => exact hP.write h address value
  | drain buffer => exact h
  | assert line => exact h
  | deassert line => exact h
  | load regs => exact h

end Board.Lasting

end ColorComputer
