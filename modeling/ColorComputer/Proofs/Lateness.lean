import Mathlib.Tactic.NormNum
import ColorComputer.Proofs.Bare
import ColorComputer.Proofs.Conservation
import ColorComputer.Proofs.Mirror

/-!
# Lines that are late

What holds of the lines as the processor sees them, from reset on: they are what they are, unless a
level that rose put a line up and the processor has not run since. A program that makes the first
adapter wait for the end of the pulse at the end of a line has such a line: at the end of a field.

* `run_unclocked` — time in which no sample and no expiry is due passes in one piece.
* `PulseEnd` — a program that is served in the last pulse of a field, and then waits for its end.
* `line_agrees_iff` — whenever the processor begins to run, which lines it sees as they are.
-/

namespace ColorComputer

/-! ### Time without ticks -/

namespace Scheduler

open Duration

variable {σ : Type} {host : Host σ Rat}

/-- A scheduler without countdowns. -/
def unclocked (drift pending : Rat) (overclock : Nat) : Scheduler Rat where
  drift := drift
  pending := pending
  timerPeriod := none
  untilTimer := 0
  samplePeriod := none
  untilSample := 0
  overclock := overclock

section

variable (drift time : Rat) (overclock : Nat) (x : σ)

theorem settled_unclocked : (unclocked drift time overclock).settled host x =
    (unclocked (((unclocked drift time overclock).settled host x).1.drift) 0 overclock,
      ((unclocked drift time overclock).runCpu host x time).2.2) := by
  have hl : (unclocked drift time overclock).pieceLength = time := rfl
  refine Prod.ext ?_ ?_
  · rw [settled_fst, hl]
    show unclocked _ (time - time) overclock = _
    rw [sub_self]
  · unfold settled passSample passTimer
    dsimp only
    rw [runCpu_eq]
    rfl

end

/-- Time in which no sample and no expiry is due passes in one piece. -/
theorem run_unclocked {drift time : Rat} {overclock budget : Nat} {x : σ} (ht : 1 ≤ time)
    (hb : ⌊(unclocked drift time overclock).owed host x⌋ = budget) (h₀ : 0 < budget)
    (hn : budget < 2 ^ 32) (hu : (host.timerUpdate (host.runCpu budget x).2).1 = none) :
    ((unclocked drift 0 overclock).run host x time).host =
        (host.timerUpdate (host.runCpu budget x).2).2 ∧
      ((unclocked drift 0 overclock).run host x time).scheduler =
        unclocked ((unclocked drift time overclock).owed host x - (host.runCpu budget x).1) 0
          overclock := by
  let s := unclocked drift time overclock
  have ho : 1 ≤ s.owed host x := by
    have h₁ : (1 : Int) ≤ ⌊s.owed host x⌋ := by
      rw [hb]
      exact_mod_cast h₀
    exact_mod_cast Int.le_floor.1 h₁
  have ha : s.asked host x = budget := by
    have h := s.asked_of_le x ho
    rw [hb] at h
    exact_mod_cast h
  obtain ⟨hr, hx⟩ := s.runCpu_of_le x ho (by rwa [ha])
  rw [ha] at hr hx
  have hs : s.settled host x = (unclocked (s.settled host x).1.drift 0 overclock,
      (host.runCpu budget x).2) := by
    rw [← hx]
    exact settled_unclocked drift time overclock x
  have hd : (s.settled host x).1.drift = s.owed host x - (host.runCpu budget x).1 := by
    rw [← s.used_add_drift host x, hr, add_sub_cancel_left]
  have hh : (s.piece host x).host = (host.timerUpdate (host.runCpu budget x).2).2 := by
    show (host.timerUpdate (s.settled host x).2).2 = _
    rw [hs]
  have hc : (s.piece host x).scheduler =
      unclocked (s.owed host x - (host.runCpu budget x).1) 0 overclock := by
    have hn : s.update host x = none := by
      show (host.timerUpdate (s.settled host x).2).1 = none
      rw [hs]
      exact hu
    rw [scheduler_piece, hn, ← hd]
    exact congrArg Prod.fst hs
  have hz : ({ unclocked drift 0 overclock with
      pending := (unclocked drift 0 overclock).pending + time } : Scheduler Rat) = s := by
    show unclocked drift (0 + time) overclock = s
    rw [zero_add]
  have hl : (unclocked drift 0 overclock).run host x time = advance host ⟨.none, s, x⟩ := by
    rw [run_once (hz ▸ (atMost_rat 1 time).mpr ht) ?_, hz]
    rw [hz, hc, due_eq_false]
    exact zero_lt_one
  rw [hl]
  exact ⟨hh, hc⟩

end Scheduler

/-! ### A field that ends in a late line -/

namespace PulseEnd

/-- A program that enables port B of the first adapter for rising edges and waits, and a handler
that enables port A too, clears the flags of both and waits: `COM $FF03`, `CWAI #$EF` and
`COM $FF01`, `COM $FF00`, `COM $FF02`, `CWAI #$FF`. -/
def code (offset : Nat) : UInt8 :=
  (List.lookup offset
    [(0, 0x73), (1, 0xFF), (2, 0x03), (3, 0x3C), (4, 0xEF),
      (16, 0x73), (17, 0xFF), (18, 0x01), (19, 0x73), (20, 0xFF), (21, 0x00),
      (22, 0x73), (23, 0xFF), (24, 0x02), (25, 0x3C), (26, 0xFF),
      (0x7FF8, 0x80), (0x7FF9, 0x10), (0x7FFE, 0x80)]).getD 0

/-- A processor that is fast enough to be done with the handler in a pulse. -/
def configuration : Configuration :=
  { Configuration.standard with rom := romOf code, audioRate := 0, overclock := 16 }

/-- The memory of the machine, which the program never changes. -/
def memory : Memory := .fresh .k128 (romOf code)

theorem rom_memory : memory.rom = romOf code := rfl

/-- How far the program has come: it waits in the stages `waiting` and `resting`, and is `due` to
enter the handler once port B saw its edge. -/
inductive Stage
  | start | armed | waiting | due | entered | enabled | cleared | released | resting
  deriving DecidableEq

namespace Stage

/-- The stage after a step. -/
def next : Stage → Stage
  | start => armed
  | armed => waiting
  | due => entered
  | entered => enabled
  | enabled => cleared
  | cleared => released
  | released => resting
  | stage => stage

/-- The cycles of a step. -/
def cost : Stage → Nat
  | start | due | entered | enabled | cleared => 7
  | armed | released => 20
  | waiting | resting => 0

/-- The cycles until the program waits. -/
def left : Stage → Nat
  | start => 27
  | armed | released => 20
  | due => 48
  | entered => 41
  | enabled => 34
  | cleared => 27
  | waiting | resting => 0

/-- The stage in which the program waits next. -/
def last : Stage → Stage
  | start | armed | waiting => waiting
  | _ => resting

/-- The stage is no wait. -/
def busy (stage : Stage) : Bool := stage.next != stage

def codes : Stage → ConditionCodes
  | start => { ConditionCodes.clear with firqMask := true, irqMask := true }
  | armed =>
    { ConditionCodes.clear with firqMask := true, irqMask := true, negative := true, carry := true }
  | waiting | due =>
    { ConditionCodes.clear with entire := true, firqMask := true, negative := true, carry := true }
  | entered =>
    { ConditionCodes.clear with
      entire := true, firqMask := true, irqMask := true, negative := true, carry := true }
  | enabled =>
    { ConditionCodes.clear with entire := true, firqMask := true, irqMask := true, carry := true }
  | cleared | released | resting =>
    { ConditionCodes.clear with
      entire := true, firqMask := true, irqMask := true, zero := true, carry := true }

def pc : Stage → Word
  | start => 0x8000
  | armed => 0x8003
  | waiting | due => 0x8005
  | entered => 0x8010
  | enabled => 0x8013
  | cleared => 0x8016
  | released => 0x8019
  | resting => 0x801B

def s : Stage → Word
  | start | armed => 0
  | waiting | due | entered | enabled | cleared | released => 0xFFF4
  | resting => 0xFFE8

def wait : Stage → WaitState
  | waiting | due | resting => .cwai
  | _ => .running

/-- The line goes up where port B sees its edge, and the entry takes the request. -/
def irq : Stage → InterruptLine
  | start | armed | waiting => ⟨false, false⟩
  | due => ⟨true, true⟩
  | _ => ⟨true, false⟩

def cpu (stage : Stage) (total : Nat) : Cpu where
  regs := { Registers.zeros with pc := stage.pc, s := stage.s, cc := stage.codes }
  variant := .motorola
  lines := { InterruptLines.idle with irq := stage.irq }
  nmiArmed := false
  wait := stage.wait
  totalCycles := total

/-- The control registers of the two ports. -/
def controls : Stage → BitVec 6 × BitVec 6
  | start => (0, 0)
  | armed | waiting | due | entered => (0, 0x3F)
  | _ => (0x3F, 0x3F)

/-- The flag of port A was not cleared. -/
def keepsA : Stage → Bool
  | cleared | released | resting => false
  | _ => true

/-- Port B saw its edge and its flag was not cleared. -/
def flagB : Stage → Bool
  | due | entered | enabled | cleared => true
  | _ => false

end Stage

/-- The first adapter, where port A has a flag unless the program cleared it. -/
def pia0 (stage : Stage) (flagA levelA levelB : Bool) : Pia :=
  ⟨.bare stage.controls.1 (stage.keepsA && flagA) levelA,
    .bare stage.controls.2 stage.flagB levelB⟩

def board (stage : Stage) (flagA levelA levelB : Bool) : Board :=
  .bare memory (pia0 stage flagA levelA levelB)

/-! #### Its steps -/

variable {stage : Stage} {flagA levelA levelB : Bool}

theorem shows_code {a : Word} {i : Nat} (hd : Board.isDevice a = false)
    (ht : memory.translate a = .rom i) (hi : i < systemRomSize) :
    Bus.Shows (board stage flagA levelA levelB) a (code i).toBitVec :=
  Board.bare_shows_code rom_memory hd ht hi

theorem shows_vector {a : Word} (ha : 0xFFF0 ≤ a) :
    Bus.Shows (board stage flagA levelA levelB) a
      (code (systemRomSize - 16 + a.toNat % 16)).toBitVec :=
  Board.bare_shows_vector rom_memory ha

theorem move_eq_idle_iff (stage : Stage) (total : Nat) :
    (stage.cpu total).move = .idle ↔ stage.busy = false := by
  cases stage <;> first | exact iff_of_true rfl rfl | exact iff_of_false nofun nofun

/-- Nothing is touched, and the level is above the axes that are in the middle. -/
theorem panelRows_enabled : (board .enabled flagA levelA levelB).panelRows = 0xFF := by
  have hd : (board .enabled flagA levelA levelB).pia0.b.driven = 0xFF := Port.driven_zero ..
  have hc : (board .enabled flagA levelA levelB).converter = 0x3F :=
    congrArg (BitVec.extractLsb' 2 6) (Port.driven_zero 0 false true)
  have hs : (board .enabled flagA levelA levelB).axisSelector = 3 := by
    show BitVec.ofBool (Port.bare 0x3F true levelB).c2 ++
      BitVec.ofBool (Port.bare 0x3F flagA levelA).c2 = (3 : BitVec 2)
    decide +revert
  rw [Board.panelRows, hd, hc, hs]
  show Panel.released.rows 0xFF 0x3F 3 = 0xFF
  decide

/-- A stage that is no wait makes a step to the next one. The handler finds the flag of port A set,
which `COM` complements away into an enabled port. -/
theorem step_stage (h : stage.busy = true) (hf : stage.flagB = true → flagA = true) (total : Nat) :
    (stage.cpu total).step (board stage flagA levelA levelB) =
      ⟨stage.next.cpu (total + stage.cost), board stage.next flagA levelA levelB,
        stage.cost⟩ := by
  cases stage with
  | start =>
    have h0 : Bus.Shows (board .start flagA levelA levelB) 0x8000 0x73 :=
      shows_code (i := 0) rfl (by decide) (by decide)
    have h1 : Bus.Shows (board .start flagA levelA levelB) 0x8001 0xFF :=
      shows_code (i := 1) rfl (by decide) (by decide)
    have h2 : Bus.Shows (board .start flagA levelA levelB) 0x8002 0x03 :=
      shows_code (i := 2) rfl (by decide) (by decide)
    have ha : Word.ofBytes 0xFF 0x03 = 0xFF03 := rfl
    have hr : Bus.read (board .start flagA levelA levelB) 0xFF03 =
        (0x00, board .start flagA levelA levelB) :=
      Prod.ext (Port.controlByte_zero false levelB) rfl
    rw [Cpu.step_com rfl rfl h0 h1 h2, ha, hr]
    dsimp only
    rfl
  | armed =>
    have h0 : Bus.Shows (board .armed flagA levelA levelB) 0x8003 0x3C :=
      shows_code (i := 3) rfl (by decide) (by decide)
    have h1 : Bus.Shows (board .armed flagA levelA levelB) 0x8004 0xEF :=
      shows_code (i := 4) rfl (by decide) (by decide)
    have hs : ((0 : Word).below 12).all (fun a => 0xFFE0 ≤ a) = true := by decide
    have hm : (Stage.armed.cpu total).move = .execute := rfl
    have hz : RegisterName.totalSize (Frame.entire (Stage.armed.cpu total).native) = 12 := rfl
    have hc : (Stage.armed.cpu total).regs.cc = Stage.armed.codes := rfl
    have hk : ({ Stage.armed.codes.keep 0xEF with entire := true } : ConditionCodes) =
        Stage.waiting.codes := by decide
    rw [Cpu.step_cwai hm rfl h0 h1 (Board.swallows_below hs), hz, hc, hk]
    rfl
  | due =>
    have h0 : Bus.Shows (board .due flagA levelA levelB) 0xFFF8 0x80 := shows_vector (by decide)
    have h1 : Bus.Shows (board .due flagA levelA levelB) 0xFFF9 0x10 := shows_vector (by decide)
    rw [Cpu.step_irq_of_cwai rfl rfl h0 h1]
    rfl
  | entered =>
    have h0 : Bus.Shows (board .entered flagA levelA levelB) 0x8010 0x73 :=
      shows_code (i := 16) rfl (by decide) (by decide)
    have h1 : Bus.Shows (board .entered flagA levelA levelB) 0x8011 0xFF :=
      shows_code (i := 17) rfl (by decide) (by decide)
    have h2 : Bus.Shows (board .entered flagA levelA levelB) 0x8012 0x01 :=
      shows_code (i := 18) rfl (by decide) (by decide)
    have ha : Word.ofBytes 0xFF 0x01 = 0xFF01 := rfl
    have hr : Bus.read (board .entered flagA levelA levelB) 0xFF01 =
        (0x80, board .entered flagA levelA levelB) := by
      refine Prod.ext ((Port.controlByte_zero flagA levelA).trans ?_) rfl
      rw [hf rfl]
      rfl
    rw [Cpu.step_com rfl rfl h0 h1 h2, ha, hr]
    dsimp only
    rfl
  | enabled =>
    have h0 : Bus.Shows (board .enabled flagA levelA levelB) 0x8013 0x73 :=
      shows_code (i := 19) rfl (by decide) (by decide)
    have h1 : Bus.Shows (board .enabled flagA levelA levelB) 0x8014 0xFF :=
      shows_code (i := 20) rfl (by decide) (by decide)
    have h2 : Bus.Shows (board .enabled flagA levelA levelB) 0x8015 0x00 :=
      shows_code (i := 21) rfl (by decide) (by decide)
    have ha : Word.ofBytes 0xFF 0x00 = 0xFF00 := rfl
    have hr : Bus.read (board .enabled flagA levelA levelB) 0xFF00 =
        (0xFF, board .cleared flagA levelA levelB) := by
      obtain ⟨hp, ha⟩ :=
        Port.readData_enabled (board .enabled flagA levelA levelB).panelRows flagA levelA
      rw [Board.read_eq]
      exact Prod.ext (hp.trans panelRows_enabled) (congrArg (fun a => Board.bare memory ⟨a, _⟩) ha)
    have hw : Bus.write (board .cleared flagA levelA levelB) 0xFF00 (~~~0xFF) =
        board .cleared flagA levelA levelB :=
      congrArg (fun a => Board.bare memory ⟨a, _⟩) (Port.writeData_enabled false levelA)
    rw [Cpu.step_com rfl rfl h0 h1 h2, ha, hr]
    dsimp only
    rw [hw]
    rfl
  | cleared =>
    have h0 : Bus.Shows (board .cleared flagA levelA levelB) 0x8016 0x73 :=
      shows_code (i := 22) rfl (by decide) (by decide)
    have h1 : Bus.Shows (board .cleared flagA levelA levelB) 0x8017 0xFF :=
      shows_code (i := 23) rfl (by decide) (by decide)
    have h2 : Bus.Shows (board .cleared flagA levelA levelB) 0x8018 0x02 :=
      shows_code (i := 24) rfl (by decide) (by decide)
    have ha : Word.ofBytes 0xFF 0x02 = 0xFF02 := rfl
    have hr : Bus.read (board .cleared flagA levelA levelB) 0xFF02 =
        (0xFF, board .released flagA levelA levelB) := by
      obtain ⟨hp, hb⟩ := Port.readData_enabled 0xFF true levelB
      rw [Board.read_eq]
      exact Prod.ext hp (congrArg (fun b => Board.bare memory ⟨_, b⟩) hb)
    have hw : Bus.write (board .released flagA levelA levelB) 0xFF02 (~~~0xFF) =
        board .released flagA levelA levelB :=
      congrArg (fun b => Board.bare memory ⟨_, b⟩) (Port.writeData_enabled false levelB)
    rw [Cpu.step_com rfl rfl h0 h1 h2, ha, hr]
    dsimp only
    rw [hw]
    rfl
  | released =>
    have h0 : Bus.Shows (board .released flagA levelA levelB) 0x8019 0x3C :=
      shows_code (i := 25) rfl (by decide) (by decide)
    have h1 : Bus.Shows (board .released flagA levelA levelB) 0x801A 0xFF :=
      shows_code (i := 26) rfl (by decide) (by decide)
    have hs : ((0xFFF4 : Word).below 12).all (fun a => 0xFFE0 ≤ a) = true := by decide
    have hm : (Stage.released.cpu total).move = .execute := rfl
    have hz : RegisterName.totalSize (Frame.entire (Stage.released.cpu total).native) = 12 := rfl
    have hc : (Stage.released.cpu total).regs.cc = Stage.released.codes := rfl
    have hk : ({ Stage.released.codes.keep 0xFF with entire := true } : ConditionCodes) =
        Stage.resting.codes := by decide
    have hp : (Stage.released.cpu total).regs.s = Stage.released.s := rfl
    have hv : Stage.released.s - BitVec.ofNat 16 12 = Stage.resting.s := by decide
    rw [Cpu.step_cwai hm rfl h0 h1 (Board.swallows_below hs), hz, hc, hk, hp, hv]
    rfl
  | waiting => exact absurd h (by decide)
  | resting => exact absurd h (by decide)

/-- A run that is long enough comes to the stage in which the program waits next, and waits there
for the rest of it. -/
theorem runUntil_stage (budget : Nat) (core : Core Board) :
    ∀ (stage : Stage) (total : Nat), core.cpu = stage.cpu total →
      core.bus = board stage flagA levelA levelB → (stage.flagB = true → flagA = true) →
      core.cycles + stage.left ≤ budget →
      Cpu.runUntil budget core = ⟨stage.last.cpu (total + (budget - core.cycles)),
        board stage.last flagA levelA levelB, budget⟩ := by
  refine Cpu.runUntil_induction budget ?_ ?_ ?_ core
  · intro core hu stage total hc hb _ hl
    obtain ⟨cpu, bus, used⟩ := core
    subst hc hb
    have hs : stage.last = stage := by
      have h0 : stage.left = 0 := by
        dsimp only at hu hl
        omega
      cases stage <;> first | rfl | cases h0
    have he : used = budget := by
      dsimp only at hu hl
      omega
    rw [Cpu.runUntil_of_le hu, hs, he, Nat.sub_self]
    rfl
  · intro core hu hm stage total hc hb _ _
    obtain ⟨cpu, bus, used⟩ := core
    subst hc hb
    have hs : stage.last = stage := by
      have h := (move_eq_idle_iff stage total).1 hm
      cases stage <;> first | rfl | exact absurd h (by decide)
    have he : used + (budget - used) = budget := by
      dsimp only at hu
      omega
    rw [Cpu.runUntil_idle hu hm, hs]
    show (⟨_, _, used + (budget - used)⟩ : Core Board) = _
    rw [he]
    rfl
  · intro core hu hm ih stage total hc hb hf hl
    obtain ⟨cpu, bus, used⟩ := core
    subst hc hb
    have hs : stage.busy = true := by
      rw [← Bool.not_eq_false]
      exact fun h => hm ((move_eq_idle_iff stage total).2 h)
    have hk : stage.next.flagB = true → stage.flagB = true := by
      cases stage <;> first | exact id | exact nofun
    have hn : stage.left = stage.cost + stage.next.left := by cases stage <;> rfl
    have ht : stage.next.last = stage.last := by cases stage <;> rfl
    rw [Cpu.runUntil_advance hu hm]
    dsimp only at ih hu hl ⊢
    rw [step_stage hs hf] at ih ⊢
    rw [ih stage.next _ rfl rfl (fun h => hf (hk h)) (by show used + stage.cost + _ ≤ _; omega), ht]
    have he : total + stage.cost + (budget - (used + stage.cost)) = total + (budget - used) := by
      omega
    exact congrArg (fun n => (⟨stage.last.cpu n, _, _⟩ : Core Board)) he

/-! #### The circuit it runs in -/

/-- The program waits, and the processor sees no line up. -/
def rest (stage : Stage) (total : Nat) : Cpu := { stage.last.cpu total with lines := .idle }

theorem interrupt_last (stage : Stage) :
    (pia0 stage.last flagA levelA levelB).interrupt = false := by
  cases stage <;> cases flagA <;> decide +revert

/-- The lines are down where the program waits. -/
theorem runCycles_stage {budget total : Nat} (hf : stage.flagB = true → flagA = true)
    (hl : stage.left ≤ budget) (samples : SampleQueue) :
    Circuit.runCycles ⟨stage.cpu total, board stage flagA levelA levelB, samples⟩ budget =
      (budget, ⟨rest stage (total + budget), board stage.last flagA levelA levelB, samples⟩) := by
  have hr : (stage.cpu total).run (board stage flagA levelA levelB) budget =
      ⟨stage.last.cpu (total + budget), board stage.last flagA levelA levelB, budget⟩ :=
    runUntil_stage budget ⟨stage.cpu total, board stage flagA levelA levelB, 0⟩ stage total rfl rfl
      hf (by rwa [Nat.zero_add])
  have hb : board stage.last flagA levelA levelB =
      .bare memory (pia0 stage.last flagA levelA levelB) := rfl
  rw [Circuit.runCycles_of_run hr, hb, Circuit.syncLines_bare, interrupt_last]
  cases stage <;> rfl

/-! #### Edges -/

/-- While the program waits, port A takes falling edges. -/
theorem setCA1_waiting (level : Bool) : (pia0 .waiting flagA levelA levelB).setCA1 level =
    pia0 .waiting (flagA || (levelA && !level)) level levelB := by
  decide +revert

theorem setCB1_falling :
    (pia0 .waiting flagA levelA levelB).setCB1 false = pia0 .waiting flagA levelA false := by
  decide +revert

theorem setCB1_rising :
    (pia0 .waiting flagA levelA false).setCB1 true = pia0 .due flagA levelA true := by
  decide +revert

theorem setCA1_due :
    (pia0 .due flagA true levelB).setCA1 false = pia0 .due true false levelB := by
  decide +revert

/-- The first adapter after the field: port A asks for an interrupt. -/
def unseen : Pia := ⟨.bare 0x3F true true, .bare 0x3F false true⟩

/-- When the program was served, port A takes rising edges. -/
theorem setCA1_resting : (pia0 .resting flagA false true).setCA1 true = unseen := by
  decide +revert

/-! #### The machine it runs in -/

/-- The program is started, and a field is drawn. -/
def controls : List (Control Rat) := [.call (.cycles 100), .call .frame]

/-- The machine is in such a circuit, and owes the processor less than a cycle. -/
structure At (m : Machine Rat) (cpu : Nat → Cpu) (board : Board) : Prop where
  circuit : ∃ total samples, m.circuit = ⟨cpu total, board, samples⟩
  scheduler : ∃ drift, m.scheduler = .unclocked drift 0 16 ∧ 0 ≤ drift ∧ drift < 1

/-- A pulse is long enough for the handler, and no part of a line is too long for the processor. -/
theorem owed_bounds {drift time : Rat} (h₀ : 0 ≤ drift) (h₁ : drift < 1) (ht : 5000 ≤ time)
    (ht' : time ≤ 1000000) :
    48 ≤ drift + time * Duration.cyclesPerNanosecond * (16 : Nat) ∧
      drift + time * Duration.cyclesPerNanosecond * (16 : Nat) ≤ 100000 := by
  have hl : (48 : Rat) ≤ 5000 * Duration.cyclesPerNanosecond * (16 : Nat) := by decide +kernel
  have hu : (1000000 : Rat) * Duration.cyclesPerNanosecond * (16 : Nat) ≤ 99999 := by
    decide +kernel
  have hc := Duration.cyclesPerNanosecond_pos
  constructor
  · have h : 5000 * Duration.cyclesPerNanosecond * ((16 : Nat) : Rat) ≤
        time * Duration.cyclesPerNanosecond * (16 : Nat) := by gcongr
    linarith only [h, hl, h₀]
  · have h : time * Duration.cyclesPerNanosecond * ((16 : Nat) : Rat) ≤
        1000000 * Duration.cyclesPerNanosecond * (16 : Nat) := by gcongr
    linarith only [h, hu, h₁]

namespace At

variable {m : Machine Rat}

/-- In the time of a pulse, or of the rest of a line, the program comes to where it waits next. -/
theorem time (stage : Stage) (h : At m stage.cpu (board stage flagA levelA levelB))
    (hf : stage.flagB = true → flagA = true) {time : Rat} (ht : 5000 ≤ time)
    (ht' : time ≤ 1000000) :
    At (m.pass (.time time)) (rest stage) (board stage.last flagA levelA levelB) := by
  obtain ⟨⟨total, samples, hc⟩, drift, hs, h₀, h₁⟩ := h
  let c : Circuit := ⟨stage.cpu total, board stage flagA levelA levelB, samples⟩
  let owed := (Scheduler.unclocked drift time 16).owed (Circuit.host Rat) c
  have ho : owed = drift + time * Duration.cyclesPerNanosecond * ((16 : Nat) : Rat) := by
    have hm : (Circuit.host Rat).multiplier c = 1 := Board.multiplier_bare memory _
    have hs : (Scheduler.unclocked drift time 16).speed (Circuit.host Rat) c = 16 := by
      rw [Scheduler.speed, hm]
      rfl
    show drift + time * Duration.cyclesPerNanosecond *
      (((Scheduler.unclocked drift time 16).speed (Circuit.host Rat) c : Nat) : Rat) = _
    rw [hs]
    rfl
  obtain ⟨hl, hu⟩ := owed_bounds h₀ h₁ ht ht'
  rw [← ho] at hl hu
  obtain ⟨budget, hb⟩ : ∃ budget : Nat, ⌊owed⌋ = budget :=
    Int.eq_ofNat_of_zero_le (Int.floor_nonneg.2 (le_trans (by norm_num) hl))
  have hl' : 48 ≤ budget := by
    have h : (48 : Int) ≤ ⌊owed⌋ := Int.le_floor.2 (by exact_mod_cast hl)
    omega
  have hu' : budget ≤ 100000 := by
    have h : ⌊owed⌋ ≤ (100000 : Int) := by
      exact_mod_cast (Int.floor_le owed).trans hu
    omega
  have hr : (Circuit.host Rat).runCpu budget c =
      (budget, ⟨rest stage (total + budget), board stage.last flagA levelA levelB, samples⟩) := by
    refine runCycles_stage hf (le_trans ?_ hl') samples
    cases stage <;> decide
  obtain ⟨hx, hd⟩ := Scheduler.run_unclocked (by linarith only [ht]) hb (by omega) (by omega) (by
    rw [hr]
    rfl)
  rw [hr] at hx hd
  have hb' : (budget : Rat) = ⌊owed⌋ := by
    rw [hb]
    rfl
  refine ⟨⟨total + budget, samples, ?_⟩, owed - budget, ?_, ?_, ?_⟩
  · show (m.scheduler.run (Circuit.host Rat) m.circuit time).host = _
    rw [hc, hs, hx]
    rfl
  · show (m.scheduler.run (Circuit.host Rat) m.circuit time).scheduler = _
    rw [hc, hs, hd]
  · rw [hb']
    exact sub_nonneg.2 (Int.floor_le owed)
  · rw [hb']
    linarith only [Int.lt_floor_add_one owed]

theorem map {f : Circuit → Circuit} {cpu cpu' : Nat → Cpu} {b b' : Board} (h : At m cpu b)
    (hf : ∀ total samples, f ⟨cpu total, b, samples⟩ = ⟨cpu' total, b', samples⟩) :
    At (m.mapCircuit f) cpu' b' := by
  obtain ⟨⟨total, samples, hc⟩, hs⟩ := h
  refine ⟨⟨total, samples, ?_⟩, hs⟩
  show f m.circuit = _
  rw [hc, hf]

/-- While the program waits, the edges that end a line leave no more than the flag of port A. -/
theorem line (h : At m (rest .waiting) (board .waiting flagA levelA levelB)) (level : Bool) :
    At (m.pass (.line level)) (rest .waiting)
      (board .waiting (flagA || (levelA && !level)) level levelB) := by
  refine h.map (f := (·.driveLine level)) fun total samples => ?_
  have hi : (pia0 .waiting (flagA || (levelA && !level)) level levelB).interrupt = false :=
    interrupt_last .waiting
  rw [board, Circuit.driveLine_bare, setCA1_waiting, hi, Bool.and_false]
  rfl

theorem fieldFalls (h : At m (rest .waiting) (board .waiting flagA levelA levelB)) :
    At (m.pass (.field false)) (rest .waiting) (board .waiting flagA levelA false) := by
  refine h.map (f := (·.driveField false)) fun total samples => ?_
  have hi : (pia0 .waiting flagA levelA false).interrupt = false :=
    interrupt_last .waiting
  rw [board, Circuit.driveField_bare, setCB1_falling, hi, Bool.and_false]
  rfl

/-- The level of the field rises, which sets the flag of port B, and then that of the lines falls,
which requests the interrupt. -/
theorem fieldRises (h : At m (rest .waiting) (board .waiting flagA true false)) :
    At ((m.pass (.field true)).pass (.line false)) Stage.due.cpu (board .due true false true) := by
  have hr : At (m.pass (.field true)) (rest .waiting) (board .due flagA true true) := by
    refine h.map (f := (·.driveField true)) fun total samples => ?_
    rw [board, Circuit.driveField_bare, setCB1_rising]
    rfl
  refine hr.map (f := (·.driveLine false)) fun total samples => ?_
  have hi : (pia0 .due true false true).interrupt = true := by decide
  rw [board, Circuit.driveLine_bare, setCA1_due, hi]
  rfl

/-- The end of the pulse sets the flag of port A, and the processor sees nothing of it. -/
theorem lineRises (h : At m (rest .resting) (board .resting flagA false true)) :
    At (m.pass (.line true)) (rest .resting) (.bare memory unseen) := by
  refine h.map (f := (·.driveLine true)) fun total samples => ?_
  rw [board, Circuit.driveLine_bare, setCA1_resting]
  rfl

theorem active (h : At m (rest .waiting) (board .waiting flagA levelA levelB)) :
    At (m.pass (.time (Duration.line - Machine.pulse))) (rest .waiting)
      (board .waiting flagA levelA levelB) :=
  time .waiting h nofun (by decide +kernel) (by decide +kernel)

theorem pulse (stage : Stage) (h : At m stage.cpu (board stage flagA levelA levelB))
    (hf : stage.flagB = true → flagA = true) :
    At (m.pass (.time Machine.pulse)) (rest stage) (board stage.last flagA levelA levelB) :=
  h.time stage hf (by decide +kernel) (by decide +kernel)

theorem otherLine (h : At m (rest .waiting) (board .waiting flagA true levelB)) :
    At (m.play (Machine.lineStretches false)) (rest .waiting)
      (board .waiting true true levelB) := by
  have h1 := (pulse .waiting (h.active.line false) nofun).line true
  have hf : ((flagA || (true && !false)) || (false && !true)) = true := by
    cases flagA <;> rfl
  rw [hf] at h1
  exact h1

theorem lastLine (h : At m (rest .waiting) (board .waiting flagA true true)) :
    At (m.play (Machine.lineStretches true)) (rest .resting) (.bare memory unseen) := by
  have h1 := h.fieldFalls.active.fieldRises.pulse .due fun _ => rfl
  exact h1.lineRises

theorem lines (n : Nat) (h : At m (rest .waiting) (board .waiting flagA true true)) :
    At (m.play (Machine.linesStretches (n + 1))) (rest .resting) (.bare memory unseen) := by
  induction n generalizing m flagA with
  | zero => exact h.lastLine
  | succ n ih => exact ih h.otherLine

theorem frame (h : At m (rest .waiting) (board .waiting flagA true true)) :
    ∃ total samples, (Call.frame.perform m).circuit =
      ⟨rest .resting total, .bare memory unseen, samples⟩ := by
  rw [Call.circuit_perform]
  exact (h.lines 261).circuit

theorem cycles (stage : Stage) (h : At m stage.cpu (board stage flagA levelA levelB))
    (hf : stage.flagB = true → flagA = true) {budget : Nat} (hl : stage.left ≤ budget) :
    At (m.pass (.cycles budget)) (rest stage) (board stage.last flagA levelA levelB) := by
  obtain ⟨⟨total, samples, hc⟩, hs⟩ := h
  refine ⟨⟨total + budget, samples, ?_⟩, hs⟩
  show (m.circuit.runCycles budget).2 = _
  rw [hc, runCycles_stage hf hl]

/-- After the field the first adapter drives the line, and the processor takes it to be down. -/
theorem not_agrees (h : At m Stage.start.cpu (board .start false true true)) :
    ¬ (m.steer controls).circuit.Agrees .irq := by
  have hw : At ((Call.cycles 100).perform m) (rest .waiting) (board .waiting false true true) :=
    cycles .start h nofun (by decide)
  obtain ⟨total, samples, hc⟩ := hw.frame
  rw [controls, Machine.steer_cons, Machine.steer_cons, Machine.steer_nil, Control.perform_call,
    Control.perform_call, Circuit.Agrees, hc]
  show false ≠ (unseen.interrupt || false)
  decide

end At

theorem at_reset {m : Machine Rat} (hm : m.circuit.board.memory.reset = memory)
    (hv : m.circuit.cpu.variant = .motorola) (hc : m.circuit.board.cartridge = none)
    (hp : m.circuit.board.panel = .released) (hs : m.scheduler.reset = .unclocked 0 0 16) :
    At m.reset Stage.start.cpu (board .start false true true) := by
  refine ⟨⟨m.circuit.cpu.totalCycles, m.circuit.samples.clear, ?_⟩, 0, hs, le_rfl, zero_lt_one⟩
  rw [Machine.circuit_reset_bare hm rom_memory hc hp, hv]
  rfl

theorem fault?_configuration : configuration.fault? = none := by
  have hr : configuration.rom = romOf code := rfl
  have ho : configuration.overclock = 16 := rfl
  rw [Configuration.fault?_eq_none_iff, hr, size_romOf, ho]
  exact ⟨rfl, by decide, by decide⟩

end PulseEnd

/-- From reset on, after whatever was done to the machine and whenever its processor began to run:
the processor takes a line to be up exactly if it is up, unless the line is late. -/
theorem line_agrees_iff {τ : Type} [Duration τ] (m : Machine τ) (controls : List (Control τ))
    {line : Interrupt} (hn : line ≠ .nmi) :
    ((m.reset.steer controls).circuit.Agrees line ↔
      late line (m.reset.sightings [] controls) = false) ∧
    ∀ newer c older, m.reset.sightings [] controls = newer ++ .running c :: older →
      (c.Agrees line ↔ late line older = false) := by
  have h := (Mirrored.reset (m := m) faithful_nil fun _ => rfl).steer controls
  exact ⟨(h.now line hn).agrees_iff,
    fun newer c older hl => (h.faithful newer c older hl line hn).agrees_iff⟩

/-- After the field that ends in a late line its processor is wrong about it, and right when it
begins to run. -/
theorem line_agrees_iff_pulseEnd : ∃ m : Machine Rat,
    Machine.ofConfiguration PulseEnd.configuration .released = .ok m ∧
    ¬ (m.reset.steer PulseEnd.controls).circuit.Agrees .irq ∧
    late .irq (m.reset.sightings [] PulseEnd.controls) = true ∧
    m.reset.sightings [] [.call (.cycles 100)] = [.sampled, .running m.reset.circuit] ∧
    (m.reset.circuit.Agrees .irq ↔ late .irq [] = false) := by
  let m : Machine Rat := Machine.build PulseEnd.configuration .released
  have ha : ¬ (m.reset.steer PulseEnd.controls).circuit.Agrees .irq :=
    (PulseEnd.at_reset rfl rfl rfl rfl rfl).not_agrees
  have hn : Interrupt.irq ≠ .nmi := by decide
  obtain ⟨hl, -⟩ := line_agrees_iff m PulseEnd.controls hn
  obtain ⟨-, hr⟩ := line_agrees_iff m [.call (.cycles 100)] hn
  refine ⟨m, Machine.ofConfiguration_of_fault?_eq_none PulseEnd.fault?_configuration .released, ha,
    ?_, rfl, hr [.sampled] _ [] rfl⟩
  rw [← Bool.not_eq_false]
  exact fun h => ha (hl.2 h)

/-- A machine that can be configured has a run after which its processor takes a line to be down
that is up. -/
theorem line_agrees_not_forall :
    ¬ ∀ (configuration : Configuration) (panel : Panel) (m : Machine Rat),
      Machine.ofConfiguration configuration panel = .ok m →
      ∀ (controls : List (Control Rat)) (line : Interrupt), line ≠ .nmi →
        (m.steer controls).circuit.Agrees line ∧
          ∀ newer c older, m.sightings [] controls = newer ++ .running c :: older →
            c.Agrees line := by
  intro h
  have ha := (h _ _ _
    (Machine.ofConfiguration_of_fault?_eq_none PulseEnd.fault?_configuration .released)
    PulseEnd.controls .irq (by decide)).1
  exact (PulseEnd.at_reset rfl rfl rfl rfl rfl).not_agrees ha

end ColorComputer
