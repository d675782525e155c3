import ColorComputer.Proofs.Budget
import ColorComputer.Proofs.Timeline

/-!
# Watching the lines

A machine is watched while it runs: every entry into a handler, every request of a device and every
time the levels are taken over is written down, the latest first. Watching changes nothing: the
circuit in a watched machine is the circuit that the machine has.

* `entriesUntil_advance` — the entries of a run are those of its steps.
* `Driven.alike` — the scheduler drives a watched circuit as it drives the circuit.
* `circuit_driveLine`, `circuit_driveField` — levels change in it as they do in the circuit.
-/

namespace ColorComputer

/-! ### Sources -/

/-- The GIME drives a line. -/
def Gime.drives (g : Gime) : Interrupt → Bool
  | .nmi => false
  | .firq => g.firqActive
  | .irq => g.irqActive

/-- The level that the board puts on a line. -/
def Board.level (b : Board) : Interrupt → Bool
  | .nmi => false
  | .firq => b.firqLevel
  | .irq => b.irqLevel

/-- What is wired to the lines: the outputs of both adapters and the latches of the GIME. -/
inductive Source
  | firstA | firstB | secondA | secondB | irqLatch | firqLatch
  deriving DecidableEq

namespace Source

/-- The line that a source drives. -/
def line : Source → Interrupt
  | firstA | firstB | irqLatch => .irq
  | secondA | secondB | firqLatch => .firq

/-- A source is active. -/
def active (b : Board) : Source → Bool
  | firstA => b.pia0.a.interrupt
  | firstB => b.pia0.b.interrupt
  | secondA => b.pia1.a.interrupt
  | secondB => b.pia1.b.interrupt
  | irqLatch => b.gime.irqActive
  | firqLatch => b.gime.firqActive

/-- The source is a latch of the GIME. -/
def isLatch : Source → Bool
  | irqLatch | firqLatch => true
  | _ => false

theorem line_ne_nmi (source : Source) : source.line ≠ .nmi := by
  cases source <;> decide

/-- An active source drives its line. -/
theorem level_of_active {b : Board} {source : Source} (h : source.active b = true) :
    b.level source.line = true := by
  cases source <;> simp_all [active, line, Board.level, Board.irqLevel, Board.firqLevel,
    Pia.interrupt]

theorem active_of_isLatch {source : Source} (h : source.isLatch = true) (b : Board) :
    source.active b = b.gime.drives source.line := by
  cases source <;> first | rfl | exact absurd h (by decide)

end Source

/-! ### Notices -/

/-- What is written down about the lines. -/
inductive Notice
  /-- The processor enters the handler of a line, and this is the board as it does. -/
  | entered (line : Interrupt) (board : Board)
  /-- An event at a device latches a request. -/
  | requested (line : Interrupt)
  /-- The levels were taken over, and this is the circuit that was left. -/
  | sampled (circuit : Circuit)

/-- The board at the most recent entry into the handler of a line, if there was one. -/
def lastEntry (line : Interrupt) : List Notice → Option Board
  | [] => none
  | .entered other board :: older => if other = line then some board else lastEntry line older
  | _ :: older => lastEntry line older

/-- The handler of a line was entered, and since then no event latched a request and the level was
never found low. -/
def held (line : Interrupt) : List Notice → Bool
  | [] => false
  | .entered other _ :: older => other = line || held line older
  | .requested other :: older => other ≠ line && held line older
  | .sampled circuit :: older => circuit.board.level line && held line older

/-! ### The entries of a run -/

/-- The line whose handler a move enters. -/
def Move.entry? : Move → Option Interrupt
  | enter line => some line
  | _ => none

namespace Cpu

variable {β : Type} [Bus β]

/-- The handlers that a run up to a budget enters, each with the bus as it does, the latest
first. -/
def entriesUntil (budget : Nat) (core : Core β) : List (Interrupt × β) :=
  match core with
  | ⟨cpu, bus, used⟩ =>
    if used < budget then
      match step cpu bus with
      | ⟨_, _, 0⟩ => []
      | ⟨next, after, cost + 1⟩ =>
        entriesUntil budget ⟨next, after, used + (cost + 1)⟩ ++
          cpu.move.entry?.toList.map fun line => (line, bus)
    else
      []
termination_by budget - core.cycles

theorem entriesUntil_of_le {budget : Nat} {core : Core β} (h : budget ≤ core.cycles) :
    entriesUntil budget core = [] := by
  rw [entriesUntil.eq_def]
  exact if_neg (Nat.not_lt.2 h)

theorem entriesUntil_idle {budget : Nat} {core : Core β} (hm : core.cpu.move = .idle) :
    entriesUntil budget core = [] := by
  rw [entriesUntil.eq_def]
  obtain ⟨cpu, bus, used⟩ := core
  dsimp only
  rw [step_idle hm]
  split <;> rfl

/-- The entries of a run are those of its steps. -/
theorem entriesUntil_advance {budget : Nat} {core : Core β} (hu : core.cycles < budget)
    (hm : core.cpu.move ≠ .idle) :
    entriesUntil budget core =
      entriesUntil budget ((core.cpu.step core.bus).after core.cycles) ++
        core.cpu.move.entry?.toList.map fun line => (line, core.bus) := by
  rw [entriesUntil.eq_def]
  obtain ⟨cpu, bus, used⟩ := core
  have hu' : used < budget := hu
  have hp : (cpu.step bus).cycles ≠ 0 := by
    rw [Ne, cycles_step_eq_zero_iff]
    exact hm
  dsimp only
  rw [if_pos hu']
  split
  · rename_i h
    rw [h] at hp
    exact absurd rfl hp
  · rename_i h
    rw [h]
    rfl

end Cpu

/-! ### A circuit that is watched -/

/-- A circuit, and what was written down about its lines. -/
structure Watched where
  circuit : Circuit
  log : List Notice

/-- What the entries of a run put into the log. -/
def entered (entries : List (Interrupt × Board)) : List Notice :=
  entries.map fun e => .entered e.1 e.2

/-- The requests that an event latches. -/
def requests (raised : Raised) : List Notice :=
  (if raised.firq then [.requested .firq] else []) ++
    if raised.irq then [.requested .irq] else []

namespace Watched

/-- Change the board where that is no event. -/
def mapBoard (w : Watched) (f : Board → Board) : Watched :=
  ⟨⟨w.circuit.cpu, f w.circuit.board, w.circuit.samples⟩, w.log⟩

/-- A source of the GIME happens. -/
def raise (w : Watched) (source : Byte) : Watched :=
  ⟨w.circuit.raise source, requests (w.circuit.board.gime.raise source).1 ++ w.log⟩

/-- Latch a request on each line that an adapter drives. -/
def assertAdapters (w : Watched) : Watched :=
  ⟨w.circuit.assertAdapters,
    requests ⟨w.circuit.board.pia0.interrupt, w.circuit.board.pia1.interrupt⟩ ++ w.log⟩

/-- Run the processor for a budget of cycles. -/
def runCycles (w : Watched) (budget : Nat) : Nat × Watched :=
  let entries := Cpu.entriesUntil budget ⟨w.circuit.cpu, w.circuit.board, 0⟩
  ((w.circuit.runCycles budget).1,
    ⟨(w.circuit.runCycles budget).2,
      .sampled (w.circuit.runCycles budget).2 ::
        entered entries ++ w.log⟩)

/-- The circuit as the scheduler drives it, watched. -/
def host (τ : Type) [Duration τ] : Host Watched τ where
  runCpu budget w := w.runCycles budget
  sample w := ⟨w.circuit.takeSample, w.log⟩
  timerExpired w := w.raise Gime.sourceTimer
  timerUpdate w :=
    let (update, circuit) := w.circuit.takeTimerUpdate (τ := τ)
    (update, ⟨circuit, w.log⟩)
  multiplier w := w.circuit.board.multiplier

/-- The level that marks the end of a line changes. -/
def driveLine (w : Watched) (level : Bool) : Watched :=
  let inserted := w.circuit.board.cartridge.isSome
  let w := w.mapBoard fun b => { b with pia0 := b.pia0.setCA1 level }
  let w := if inserted then w.mapBoard fun b => { b with pia1 := b.pia1.setCB1 level } else w
  if level then w
  else
    let w := w.raise Gime.sourceLine
    let w := if inserted then w.raise Gime.sourceCartridge else w
    w.assertAdapters

/-- The level that marks the end of a field changes. -/
def driveField (w : Watched) (level : Bool) : Watched :=
  let w := w.mapBoard fun b => { b with pia0 := b.pia0.setCB1 level }
  if level then w else (w.raise Gime.sourceField).assertAdapters

@[simp] theorem circuit_driveLine (w : Watched) (level : Bool) :
    (w.driveLine level).circuit = w.circuit.driveLine level := by
  unfold driveLine Circuit.driveLine
  cases w.circuit.board.cartridge.isSome <;> cases level <;> rfl

@[simp] theorem circuit_driveField (w : Watched) (level : Bool) :
    (w.driveField level).circuit = w.circuit.driveField level := by
  cases level <;> rfl

/-- A property of watched circuits that the actions of their host keep. -/
structure Driven (τ : Type) [Duration τ] (P : Watched → Prop) : Prop where
  runCycles : ∀ {w}, P w → ∀ budget, P (w.runCycles budget).2
  takeSample : ∀ {w}, P w → P ⟨w.circuit.takeSample, w.log⟩
  raiseTimer : ∀ {w}, P w → P (w.raise Gime.sourceTimer)
  takeTimerUpdate : ∀ {w}, P w → P ⟨(w.circuit.takeTimerUpdate (τ := τ)).2, w.log⟩

/-- The scheduler drives a watched circuit as it drives the circuit. -/
theorem Driven.alike {τ : Type} [Duration τ] {P : Watched → Prop} (hP : Driven τ P) :
    Host.Alike (fun w c => w.circuit = c ∧ P w) (host τ) (Circuit.host τ) where
  runCpu := by
    rintro w _ ⟨rfl, h⟩ budget
    exact ⟨rfl, rfl, hP.runCycles h budget⟩
  sample := by
    rintro w _ ⟨rfl, h⟩
    exact ⟨rfl, hP.takeSample h⟩
  timerExpired := by
    rintro w _ ⟨rfl, h⟩
    exact ⟨rfl, hP.raiseTimer h⟩
  timerUpdate := by
    rintro w _ ⟨rfl, h⟩
    exact ⟨rfl, rfl, hP.takeTimerUpdate h⟩
  multiplier := by
    rintro w _ ⟨rfl, h⟩
    rfl

end Watched

/-! ### A machine that is watched -/

namespace Machine

variable {τ : Type} [Duration τ]

/-- What is written down once a machine went through a stretch. -/
def watch (m : Machine τ) (log : List Notice) : Stretch τ → List Notice
  | .field level => (Watched.driveField ⟨m.circuit, log⟩ level).log
  | .line level => (Watched.driveLine ⟨m.circuit, log⟩ level).log
  | .time time => (m.scheduler.run (Watched.host τ) ⟨m.circuit, log⟩ time).host.log
  | .cycles budget => (Watched.runCycles ⟨m.circuit, log⟩ budget).2.log
  | .port _ | .touch _ => log

/-- What the actions of a host keep, time passing keeps. -/
theorem watch_time {P : Watched → Prop} (hP : Watched.Driven τ P) {m : Machine τ}
    {log : List Notice} (h : P ⟨m.circuit, log⟩) (time : τ) :
    P ⟨(m.pass (.time time)).circuit, m.watch log (.time time)⟩ := by
  obtain ⟨hc, hw⟩ := (hP.alike.run (x := ⟨m.circuit, log⟩) ⟨rfl, h⟩ m.scheduler time).host
  show P ⟨(m.scheduler.run (Circuit.host τ) m.circuit time).host, _⟩
  rw [← hc]
  exact hw

/-- What is written down once a machine went through stretches. -/
def watchAll (m : Machine τ) (log : List Notice) : List (Stretch τ) → List Notice
  | [] => log
  | stretch :: rest => (m.pass stretch).watchAll (m.watch log stretch) rest

/-- What is written down in a sequence of calls. -/
def history (m : Machine τ) (log : List Notice) : List (Call τ) → List Notice
  | [] => log
  | call :: rest => (call.perform m).history (m.watchAll log call.stretches) rest

end Machine

end ColorComputer
