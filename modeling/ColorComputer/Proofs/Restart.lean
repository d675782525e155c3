import Mathlib.Tactic.NormNum
import ColorComputer.Proofs.Bare
import ColorComputer.Proofs.Chronicle
import ColorComputer.Proofs.Conservation

/-!
# Stopping and restarting the timer

What the scheduler finds at the end of a piece governs the timer until the end of the next one. So
the timer never expires once the scheduler found it stopped, and a restart that the scheduler found
after a stop counts a whole period. What software writes within one piece is another matter: the
piece still ends with the expiry that was due, and a stop that was taken back by then is not seen.

* `timer_obeys` — what the timer does, by what the scheduler finds.
* `StopAndGo` — two programs that stop the timer in the piece in which it expires, of which one
  starts it again.
* `timer_not_obeys` — so what the timer does is not what software asked for.
-/

namespace ColorComputer

/-! ### Time in which nothing is due -/

namespace Scheduler

open Duration

variable {σ : Type} {host : Host σ Rat} {s : Scheduler Rat} {x : σ}

/-- Where nothing comes due, a piece takes all the time that is pending. -/
theorem pieceLength_of_lt (hs : s.samplePeriod = none)
    (ht : ∀ p, s.timerPeriod = some p → s.pending < s.untilTimer) : s.pieceLength = s.pending := by
  unfold pieceLength
  rw [hs]
  cases hp : s.timerPeriod with
  | none => rfl
  | some p => exact (least_rat _ _).trans (min_eq_left (ht p hp).le)

/-- Where less than a cycle is owed besides, that is all it does. -/
theorem settled_of_lt (hs : s.samplePeriod = none)
    (ht : ∀ p, s.timerPeriod = some p → s.pending < s.untilTimer) (ho : s.owed host x < 1) :
    s.settled host x = ({ s with
      drift := s.owed host x
      pending := 0
      untilTimer := if s.timerPeriod.isSome then s.untilTimer - s.pending else s.untilTimer },
      x) := by
  have hl := pieceLength_of_lt hs ht
  have hz : ∀ p, s.timerPeriod = some p →
      ¬ atMost (s.untilTimer - s.pending) (ofNat 0 : Rat) = true := by
    intro p hp
    rw [atMost_rat, ofNat_rat, Nat.cast_zero, not_le]
    exact sub_pos.2 (ht p hp)
  unfold settled
  dsimp only
  rw [s.runCpu_of_lt x ho]
  dsimp only
  unfold passSample passTimer
  dsimp only
  rw [hs]
  dsimp only
  rw [hl, sub_self]
  cases hp : s.timerPeriod with
  | none => rfl
  | some p =>
    dsimp only
    rw [if_neg (hz p hp)]
    rfl

theorem tick_of_lt (hs : s.samplePeriod = none)
    (ht : ∀ p, s.timerPeriod = some p → s.pending < s.untilTimer) :
    s.tick s.pieceLength .timer = [] := by
  rw [pieceLength_of_lt hs ht]
  unfold tick
  have hp : s.period? .timer = s.timerPeriod := rfl
  rw [hp]
  cases hc : s.timerPeriod with
  | none => rfl
  | some p =>
    refine if_neg ?_
    rw [atMost_rat, ofNat_rat, Nat.cast_zero, not_le]
    exact sub_pos.2 (ht p hc)

end Scheduler

/-! ### Programs that stop the timer in time -/

namespace StopAndGo

/-- A program that starts the timer, stops it, starts it `again` or not, and waits: `NEG $FF95`,
`COM $FF95`, `NEG $FF95` or `COM $FF95`, `CWAI #$FF`. The register reads as `$FF`. -/
def code (again : Bool) (offset : Nat) : UInt8 :=
  (List.lookup offset
    [(0, 0x70), (1, 0xFF), (2, 0x95), (3, 0x73), (4, 0xFF), (5, 0x95),
      (6, if again then 0x70 else 0x73), (7, 0xFF), (8, 0x95), (9, 0x3C), (10, 0xFF),
      (0x7FFE, 0x80)]).getD 0

def configuration (again : Bool) : Configuration :=
  { Configuration.standard with rom := romOf (code again), audioRate := 0 }

/-- The memory of the machine, which the program never changes. -/
def memory (again : Bool) : Memory := .fresh .k128 (romOf (code again))

variable {again : Bool}

theorem rom_memory : (memory again).rom = romOf (code again) := rfl

/-- How far the program has come. -/
inductive Stage
  | start | started | stopped | decided | waiting
  deriving DecidableEq

namespace Stage

/-- The stages that write the register. -/
def writes : Stage → Bool
  | start | started | stopped => true
  | decided | waiting => false

/-- The stage after a step. -/
def next : Stage → Stage
  | start => started
  | started => stopped
  | stopped => decided
  | decided | waiting => waiting

/-- The cycles of a step. -/
def cost : Stage → Nat
  | start | started | stopped => 7
  | decided => 20
  | waiting => 0

/-- The cycles until the program waits. -/
def left : Stage → Nat
  | start => 41
  | started => 34
  | stopped => 27
  | decided => 20
  | waiting => 0

/-- The stages at which the processor turns to what it does next, until it idles. -/
def rest : Stage → List Stage
  | start => [start, started, stopped, decided, waiting, waiting]
  | started => [started, stopped, decided, waiting, waiting]
  | stopped => [stopped, decided, waiting, waiting]
  | decided => [decided, waiting, waiting]
  | waiting => [waiting, waiting]

/-- Where the next instruction is in the ROM. -/
def offset : Stage → Nat
  | start => 0
  | started => 3
  | stopped => 6
  | decided => 9
  | waiting => 11

/-- By what the stage changes the register. -/
def operation (again : Bool) : Stage → Unary
  | start => .neg
  | stopped => if again then .neg else .com
  | _ => .com

/-- What the register holds. -/
def reload (again : Bool) : Stage → BitVec 12
  | start | stopped => 0
  | started => 1
  | decided | waiting => if again then 1 else 0

/-- What the registers ask of the timer. -/
def setting (again : Bool) (stage : Stage) : TimerSetting := ⟨stage.reload again, false⟩

/-- What the scheduler is told of that. -/
def update (again : Bool) (stage : Stage) : TimerUpdate Rat :=
  if stage.reload again = 0 then .stop else .period (stage.setting again).period

def codes (again : Bool) : Stage → ConditionCodes
  | start => { ConditionCodes.clear with firqMask := true, irqMask := true }
  | started => { ConditionCodes.clear with firqMask := true, irqMask := true, carry := true }
  | stopped =>
    { ConditionCodes.clear with firqMask := true, irqMask := true, carry := true, zero := true }
  | decided =>
    { ConditionCodes.clear with firqMask := true, irqMask := true, carry := true, zero := !again }
  | waiting =>
    { ConditionCodes.clear with
      entire := true, firqMask := true, irqMask := true, carry := true, zero := !again }

def s : Stage → Word
  | waiting => 0xFFF4
  | _ => 0

def wait : Stage → WaitState
  | waiting => .cwai
  | _ => .running

def pc (stage : Stage) : Word := 0x8000 + BitVec.ofNat 16 stage.offset

def cpu (again : Bool) (stage : Stage) (total : Nat) : Cpu where
  regs := { Registers.zeros with pc := stage.pc, s := stage.s, cc := stage.codes again }
  variant := .motorola
  lines := .idle
  nmiArmed := false
  wait := stage.wait
  totalCycles := total

end Stage

/-- A board on which nothing but the timer was used, and that may have something to tell. -/
def board (again : Bool) (stage : Stage) (changed : Bool) : Board :=
  { Board.bare (memory again) .reset with
    gime := { Gime.reset with timer := stage.reload again, timerChanged := changed } }

variable {stage : Stage} {changed : Bool}

theorem setting_board : (board again stage changed).gime.setting = stage.setting again :=
  congrArg (TimerSetting.mk (stage.reload again)) (show Gime.fastTimer 0 = false by decide)

/-! #### Its steps -/

theorem move_cpu (h : stage ≠ .waiting) (total : Nat) :
    (stage.cpu again total).move = .execute := by
  cases stage <;> first | rfl | exact absurd rfl h

theorem shows_code {i : Nat} (hi : i < 16) : Bus.Shows (board again stage changed)
    (0x8000 + BitVec.ofNat 16 i) (code again i).toBitVec := by
  have ht : ∀ i < 16, Board.isDevice (0x8000 + BitVec.ofNat 16 i) = false ∧
      Mmu.reset.translate .k128 (0x8000 + BitVec.ofNat 16 i) = .rom i := by
    decide
  rw [← Memory.romByte_of rom_memory (show i < systemRomSize by unfold systemRomSize; omega)]
  exact Board.shows_rom (ht i hi).1 (ht i hi).2

/-- The register reads as nothing, and takes what is written. -/
theorem access_register (changed : Bool) {v : Byte} {next : Stage}
    (hv : (stage.reload again).extractLsb' 8 4 ++ v = next.reload again) :
    Bus.read (board again stage changed) 0xFF95 = (0xFF, board again stage changed) ∧
      Bus.write (board again stage changed) 0xFF95 v = board again next true := by
  refine ⟨rfl, ?_⟩
  unfold board
  rw [← hv]
  rfl

theorem shows_next (i : Nat) (hi : stage.offset + i < 16) :
    Bus.Shows (board again stage changed) (stage.pc + BitVec.ofNat 16 i)
      (code again (stage.offset + i)).toBitVec := by
  have hp : stage.pc + BitVec.ofNat 16 i = 0x8000 + BitVec.ofNat 16 (stage.offset + i) := by
    rw [Stage.pc, BitVec.add_assoc, BitVec.ofNat_add_ofNat]
  rw [hp]
  exact shows_code hi

/-- The instruction of a stage that writes the register. -/
theorem code_writes (again : Bool) (h : stage.writes = true) :
    Opcode.decode? .base (code again stage.offset).toBitVec =
        some (.unaryMemory (stage.operation again) .extended) ∧
      (code again stage.offset).toBitVec ≠ 0x10 ∧ (code again stage.offset).toBitVec ≠ 0x11 ∧
      (code again (stage.offset + 1)).toBitVec = 0xFF ∧
      (code again (stage.offset + 2)).toBitVec = 0x95 := by
  revert h
  cases stage <;> cases again <;> decide

/-- What it makes of a register that reads as `$FF`. -/
theorem apply_writes (again : Bool) (h : stage.writes = true) :
    (stage.operation again).apply (stage.codes again) (0xFF : Byte) =
      (some ((stage.next.reload again).setWidth 8), stage.next.codes again) := by
  revert h
  cases stage <;> cases again <;> decide

theorem step_writes (h : stage.writes = true) (total : Nat) :
    (stage.cpu again total).step (board again stage changed) =
      ⟨stage.next.cpu again (total + 7), board again stage.next true, 7⟩ := by
  obtain ⟨hd, h10, h11, hh, hl⟩ := code_writes again h
  have hw : stage.wait = .running := by
    cases stage <;> first | rfl | cases h
  have hm : (stage.cpu again total).move = .execute :=
    move_cpu (fun hs => by rw [hs] at h; cases h) total
  have he : Variant.motorola.executes (.unaryMemory (stage.operation again) .extended) = true := by
    cases stage <;> cases again <;> rfl
  have hi : stage.offset + 2 < 16 := by
    cases stage <;> decide
  have h1 : Bus.Shows (board again stage changed) (stage.pc + 1) 0xFF := by
    rw [← hh]
    exact shows_next 1 (by omega)
  have h2 : Bus.Shows (board again stage changed) (stage.pc + 2) 0x95 := by
    rw [← hl]
    exact shows_next 2 hi
  have hv : (stage.reload again).extractLsb' 8 4 ++ (stage.next.reload again).setWidth 8 =
      stage.next.reload again := by
    cases stage <;> cases again <;> decide
  have ha : Word.ofBytes 0xFF 0x95 = 0xFF95 := rfl
  obtain ⟨hr, hs⟩ := access_register changed hv
  have ho : (stage.operation again).apply (stage.codes again)
      (Bus.read (board again stage changed) (Word.ofBytes 0xFF 0x95)).1 =
        (some ((stage.next.reload again).setWidth 8), stage.next.codes again) := by
    rw [ha, hr]
    exact apply_writes again h
  have h0 : Bus.Shows (board again stage changed) stage.pc (code again stage.offset).toBitVec :=
    shows_code (by omega)
  have hf := Cpu.step_unary hm hw h0 hd h10 h11 he h1 h2 ho
  have hk : (Instruction.unaryMemory (stage.operation again) .extended).cost
      (stage.cpu again total).native = 7 := rfl
  have hn : stage.pc + 3 = stage.next.pc ∧ stage.s = stage.next.s ∧
      stage.wait = stage.next.wait := by
    revert h
    cases stage <;> decide
  rw [hf, ha, hr, hs, hk]
  show (⟨{ Stage.cpu again stage (total + 7) with
    regs :=
      { Registers.zeros with pc := stage.pc + 3, s := stage.s, cc := stage.next.codes again } },
    board again stage.next true, 7⟩ : Core Board) = _
  unfold Stage.cpu
  rw [hn.1, hn.2.1, hn.2.2]

theorem step_decided (total : Nat) :
    (Stage.decided.cpu again total).step (board again .decided changed) =
      ⟨Stage.waiting.cpu again (total + 20), board again .waiting changed, 20⟩ := by
  have h0 : Bus.Shows (board again .decided changed) Stage.decided.pc 0x3C :=
    shows_code (i := 9) (by decide)
  have h1 : Bus.Shows (board again .decided changed) (Stage.decided.pc + 1) 0xFF :=
    shows_code (i := 10) (by decide)
  have hs : ((0 : Word).below 12).all (fun a => 0xFFE0 ≤ a) = true := by decide
  have hm : (Stage.decided.cpu again total).move = .execute := rfl
  have hz : RegisterName.totalSize (Frame.entire (Stage.decided.cpu again total).native) = 12 := rfl
  have hc : (Stage.decided.cpu again total).regs.cc = Stage.decided.codes again := rfl
  have hk : ({ (Stage.decided.codes again).keep 0xFF with entire := true } : ConditionCodes) =
      Stage.waiting.codes again := by
    cases again <;> decide
  rw [Cpu.step_cwai hm rfl h0 h1 (Board.swallows_below hs), hz, hc, hk]
  rfl

theorem step_stage (h : stage ≠ .waiting) (total : Nat) :
    (stage.cpu again total).step (board again stage changed) =
      ⟨stage.next.cpu again (total + stage.cost), board again stage.next (stage.writes || changed),
        stage.cost⟩ := by
  cases stage with
  | start | started | stopped => exact step_writes rfl total
  | decided => exact step_decided total
  | waiting => exact absurd rfl h

/-- While the program does not wait, a run goes on by a step. -/
theorem run_stage (again changed : Bool) (h : stage ≠ .waiting) {used budget : Nat}
    (hu : used < budget) (total : Nat) :
    Cpu.runUntil budget ⟨stage.cpu again total, board again stage changed, used⟩ =
        Cpu.runUntil budget ⟨stage.next.cpu again (total + stage.cost),
          board again stage.next (stage.writes || changed), used + stage.cost⟩ ∧
      Cpu.turnsUntil budget ⟨stage.cpu again total, board again stage changed, used⟩ =
        ⟨.step, stage.cpu again total, board again stage changed⟩ ::
          Cpu.turnsUntil budget ⟨stage.next.cpu again (total + stage.cost),
            board again stage.next (stage.writes || changed), used + stage.cost⟩ := by
  have hm : (stage.cpu again total).move ≠ .idle := by
    rw [move_cpu h]
    exact nofun
  have hs : (stage.cpu again total).step (board again stage changed) = _ := step_stage h total
  rw [Cpu.runUntil_advance hu hm, Cpu.turnsUntil_advance hu hm]
  dsimp only
  rw [hs]
  exact ⟨rfl, rfl⟩

/-! #### The circuit it runs in -/

/-- A run for the cycles of a step that writes the register. -/
theorem run_writes (h : stage.writes = true) (again changed : Bool) (total : Nat) :
    (stage.cpu again total).run (board again stage changed) 7 =
        ⟨stage.next.cpu again (total + 7), board again stage.next true, 7⟩ ∧
      Cpu.turnsUntil 7 ⟨stage.cpu again total, board again stage changed, 0⟩ =
        [⟨.step, stage.cpu again total, board again stage changed⟩] := by
  have hw : stage ≠ .waiting := by
    rintro rfl
    cases h
  have hc : stage.cost = 7 := by
    revert h
    cases stage <;> decide
  obtain ⟨hr, ht⟩ := run_stage again changed hw (show 0 < 7 by decide) total
  rw [h, hc, Bool.true_or, zero_add] at hr ht
  refine ⟨hr.trans (Cpu.runUntil_of_le le_rfl), ?_⟩
  rw [ht]
  exact congrArg _ (Cpu.turnsUntil_of_le le_rfl)

/-- A run that is long enough comes to the wait, and there it idles. -/
def Waits (again : Bool) (stage : Stage) : Prop :=
  ∀ (changed : Bool) (total used budget : Nat), used + stage.left < budget →
    (∃ later, (Cpu.runUntil budget
      ⟨stage.cpu again total, board again stage changed, used⟩).bus = board again .waiting later) ∧
    (Cpu.turnsUntil budget ⟨stage.cpu again total, board again stage changed, used⟩).map
      (fun turn => turn.bus.gime.setting) = stage.rest.map (Stage.setting again)

theorem waits_waiting (again : Bool) : Waits again .waiting := by
  intro changed total used budget hb
  have hm : (Stage.waiting.cpu again total).move = .idle := rfl
  rw [Cpu.runUntil_idle hb hm, Cpu.turnsUntil_idle hb hm]
  exact ⟨⟨changed, rfl⟩, by simp only [List.map_cons, List.map_nil, setting_board]; rfl⟩

theorem Waits.of_next (h : Waits again stage.next) (hs : stage ≠ .waiting) :
    Waits again stage := by
  intro changed total used budget hb
  have hl : stage.left = stage.cost + stage.next.left ∧ stage.rest = stage :: stage.next.rest := by
    cases stage <;> first | exact ⟨rfl, rfl⟩ | exact absurd rfl hs
  obtain ⟨hr, ht⟩ := run_stage again changed hs (show used < budget by omega) total
  obtain ⟨hn, hk⟩ := h (stage.writes || changed) (total + stage.cost) (used + stage.cost) budget
    (by omega)
  rw [hr, ht, hl.2, List.map_cons, hk, setting_board]
  exact ⟨hn, rfl⟩

theorem waits (again : Bool) (stage : Stage) : Waits again stage := by
  have hd : Waits again .decided := .of_next (waits_waiting again) (by decide)
  have hp : Waits again .stopped := .of_next hd (by decide)
  have hs : Waits again .started := .of_next hp (by decide)
  cases stage with
  | start => exact .of_next hs (by decide)
  | started => exact hs
  | stopped => exact hp
  | decided => exact hd
  | waiting => exact waits_waiting again

/-- The circuit in a stage of the program. -/
def stageCircuit (again : Bool) (stage : Stage) (changed : Bool) (total : Nat)
    (samples : SampleQueue) : Circuit :=
  ⟨stage.cpu again total, board again stage changed, samples⟩

/-- Nothing drives the lines. -/
theorem syncLines_stage (stage : Stage) (changed : Bool) (total : Nat) (samples : SampleQueue) :
    (stageCircuit again stage changed total samples).syncLines =
      stageCircuit again stage changed total samples := rfl

variable {samples : SampleQueue} {total : Nat}

theorem runCycles_writes (h : stage.writes = true) :
    (stageCircuit again stage changed total samples).runCycles 7 =
      (7, stageCircuit again stage.next true (total + 7) samples) := by
  rw [Circuit.runCycles_of_run (run_writes h again changed total).1]
  exact congrArg (Prod.mk 7) (syncLines_stage stage.next true (total + 7) samples)

theorem settings_writes (h : stage.writes = true) :
    (stageCircuit again stage changed total samples).settings 7 =
      [stage.next.setting again, stage.setting again] := by
  have ht := (run_writes h again changed total).2
  have hb : ((stageCircuit again stage changed total samples).runCycles 7).2.board =
      board again stage.next true := congrArg (fun r => r.2.board) (runCycles_writes h)
  unfold Circuit.settings
  rw [hb, setting_board]
  show _ :: ((Cpu.turnsUntil 7 ⟨stage.cpu again total, board again stage changed, 0⟩).map
    fun turn => turn.bus.gime.setting).reverse = _
  rw [ht, List.map_singleton, setting_board, List.reverse_singleton]

theorem settings_waits {budget : Nat} (hb : stage.left < budget) :
    (stageCircuit again stage changed total samples).settings budget =
      Stage.waiting.setting again :: (stage.rest.map (Stage.setting again)).reverse := by
  obtain ⟨⟨later, hr⟩, ht⟩ := waits again stage changed total 0 budget (by omega)
  have hs : ((stageCircuit again stage changed total samples).runCycles budget).2.board =
      ((stage.cpu again total).run (board again stage changed) budget).bus := rfl
  have hr : ((stage.cpu again total).run (board again stage changed) budget).bus =
      board again .waiting later := hr
  unfold Circuit.settings
  rw [hs, hr, setting_board]
  unfold stageCircuit
  dsimp only
  rw [ht]

/-! #### The machine it runs in -/

/-- The program starts the timer, the scheduler finds it started, some time passes, and then the
rest of its period. -/
def controls : List (Control Rat) :=
  [.call (.cycles 7), .call (.slice 1), .call (.slice 1), .call (.slice 127226)]

/-- The program starts the timer, stops it, and starts it again. Each time the scheduler finds what
it did, and then a whole period passes. -/
def patient : List (Control Rat) :=
  [.call (.cycles 7), .call (.slice 1), .call (.cycles 7), .call (.slice 1), .call (.cycles 7),
    .call (.slice 1), .call (.slice 127227)]

/-- A scheduler that takes no samples. -/
def clock (drift pending : Rat) (timerPeriod : Option Rat) (untilTimer : Rat) :
    Scheduler Rat :=
  ⟨drift, pending, timerPeriod, untilTimer, none, 0, 1⟩

/-- The time between two expiries of a timer that is set to one. -/
def period : Rat := (⟨1, false⟩ : TimerSetting).period

/-- The scheduler is told once of what the program did to the timer. -/
theorem takeTimerUpdate_stage (again : Bool) (stage : Stage) (changed : Bool) (total : Nat)
    (samples : SampleQueue) :
    (stageCircuit again stage changed total samples).takeTimerUpdate (τ := Rat) =
      (if changed then some (stage.update again) else none,
        stageCircuit again stage false total samples) := by
  cases changed with
  | false => rfl
  | true =>
    have hp : (board again stage true).gime.timerPeriod (τ := Rat) = (stage.setting again).period :=
      congrArg TimerSetting.period setting_board
    unfold Stage.update
    rw [← hp]
    rfl

theorem owed_stage {stage : Stage} {changed : Bool} (drift pending : Rat)
    (timerPeriod : Option Rat) (untilTimer : Rat) :
    (clock drift pending timerPeriod untilTimer).owed (Circuit.host Rat)
      (stageCircuit again stage changed total samples) =
      drift + (clock drift pending timerPeriod untilTimer).pieceLength *
        Duration.cyclesPerNanosecond := by
  have hm : (Circuit.host Rat).multiplier (stageCircuit again stage changed total samples) = 1 :=
    Board.multiplier_bare (memory again) .reset
  have hs : (clock drift pending timerPeriod untilTimer).speed (Circuit.host Rat)
      (stageCircuit again stage changed total samples) = 1 := by
    rw [Scheduler.speed, hm]
    rfl
  show drift + _ * Duration.cyclesPerNanosecond *
    (((clock drift pending timerPeriod untilTimer).speed (Circuit.host Rat)
      (stageCircuit again stage changed total samples) : Nat) : Rat) = _
  have h1 : (((1 : UInt32) : Nat) : Rat) = 1 := Nat.cast_one
  rw [hs, h1, mul_one]

/-- The machine is in such a circuit, with this scheduler. -/
structure At (m : Machine Rat) (again : Bool) (stage : Stage) (changed : Bool) (s : Scheduler Rat) :
    Prop where
  circuit : ∃ total samples, m.circuit = stageCircuit again stage changed total samples
  scheduler : m.scheduler = s

namespace At

variable {m : Machine Rat}

/-- A call whose time one piece uses up. -/
theorem once {drift time untilTimer : Rat} {timerPeriod : Option Rat}
    (h : At m again stage changed (clock drift 0 timerPeriod untilTimer)) (hd : 1 ≤ time)
    (hn : time - (clock drift time timerPeriod untilTimer).pieceLength < 1)
    (log : List TimerNote) : ∃ total samples,
    let s := clock drift time timerPeriod untilTimer
    let c := stageCircuit again stage changed total samples
    m.record log (.time time) = some (s.notesOfPiece c ++ log) ∧
      (m.pass (.time time)).circuit = (s.piece (Circuit.host Rat) c).host ∧
      (m.pass (.time time)).scheduler = (s.piece (Circuit.host Rat) c).scheduler := by
  obtain ⟨⟨total, samples, hc⟩, hs⟩ := h
  have hg : ({ m.scheduler with pending := m.scheduler.pending + time } : Scheduler Rat) =
      clock drift time timerPeriod untilTimer := by
    rw [hs]
    show clock drift (0 + time) timerPeriod untilTimer = _
    rw [zero_add]
  have hd : (clock drift time timerPeriod untilTimer).due = true :=
    (Duration.atMost_rat 1 time).mpr hd
  refine ⟨total, samples, ?_⟩
  have hr := Machine.record_once hg hd
    (by rwa [Scheduler.due_eq_false, Scheduler.pending_piece]) log
  rwa [hc] at hr

/-- A call that brings the scheduler to look at the timer, while it runs no step. -/
theorem wait {drift time untilTimer : Rat} {timerPeriod : Option Rat}
    (h : At m again stage changed (clock drift 0 timerPeriod untilTimer))
    (hd : 1 ≤ time) (ht : ∀ p, timerPeriod = some p → time < untilTimer)
    (ho : drift + time * Duration.cyclesPerNanosecond < 1) (log : List TimerNote) :
    m.record log (.time time) = some (.looked (stage.setting again) :: .passed time ::
      .had (stage.setting again) :: log) ∧
    At (m.pass (.time time)) again stage false
      ((clock (drift + time * Duration.cyclesPerNanosecond) 0 timerPeriod
        (if timerPeriod.isSome then untilTimer - time else untilTimer)).updateTimer
          (if changed then some (stage.update again) else none)) := by
  let s := clock drift time timerPeriod untilTimer
  have hl : s.pieceLength = time := Scheduler.pieceLength_of_lt rfl ht
  obtain ⟨total, samples, hr, hh, hs⟩ := h.once hd (by
    rw [hl, sub_self]
    exact zero_lt_one) log
  let c := stageCircuit again stage changed total samples
  have hw : s.owed (Circuit.host Rat) c = drift + time * Duration.cyclesPerNanosecond := by
    rw [owed_stage, hl]
  have ho : s.owed (Circuit.host Rat) c < 1 := hw.trans_lt ho
  have hq := Scheduler.settled_of_lt rfl ht ho
  have hu := takeTimerUpdate_stage again stage changed total samples
  have hx : (s.piece (Circuit.host Rat) c).host =
      stageCircuit again stage false total samples := by
    show (Circuit.takeTimerUpdate (τ := Rat) (s.settled (Circuit.host Rat) c).2).2 = _
    rw [hq, hu]
  have hz : (s.piece (Circuit.host Rat) c).scheduler =
      (clock (drift + time * Duration.cyclesPerNanosecond) 0 timerPeriod
        (if timerPeriod.isSome then untilTimer - time else untilTimer)).updateTimer
          (if changed then some (stage.update again) else none) := by
    show (s.settled (Circuit.host Rat) c).1.updateTimer
      (Circuit.takeTimerUpdate (τ := Rat) (s.settled (Circuit.host Rat) c).2).1 = _
    rw [hq, hu, hw]
    rfl
  have hk : s.notesOfPiece c = [.looked (stage.setting again), .passed time,
      .had (stage.setting again)] := by
    unfold Scheduler.notesOfPiece
    rw [Scheduler.timerInterrupts_piece, Scheduler.tick_of_lt rfl ht, s.asked_of_lt c ho, hx,
      hl, Nat.zero_min, c.settings_zero]
    show [TimerNote.looked (board again stage false).gime.setting, .passed time,
      .had (board again stage changed).gime.setting] = _
    rw [setting_board, setting_board]
  rw [hk] at hr
  exact ⟨hr, ⟨⟨total, samples, hh.trans hx⟩, hs.trans hz⟩⟩

/-- A call in which the timer expires, and by then the program has come to its wait. -/
theorem expire {drift left time p : Rat}
    (h : At m again stage false (clock drift 0 (some p) left)) (hd : 1 ≤ time)
    (hl : left ≤ time) (hn : time - left < 1)
    (ho : 42 ≤ drift + left * Duration.cyclesPerNanosecond) (log : List TimerNote) :
    m.record log (.time time) = some (.looked (Stage.waiting.setting again) :: .expired ::
      .passed left :: .had (Stage.waiting.setting again) ::
        ((stage.rest.map (Stage.setting again)).reverse.map .had ++ log)) := by
  let s := clock drift time (some p) left
  have hl : s.pieceLength = left := (Duration.least_rat _ _).trans (min_eq_right hl)
  obtain ⟨total, samples, hr, -⟩ := h.once hd (by rwa [hl]) log
  let c := stageCircuit again stage false total samples
  have ho : 42 ≤ s.owed (Circuit.host Rat) c := by
    rwa [owed_stage, hl]
  have ha : 42 ≤ s.asked (Circuit.host Rat) c := by
    have hf : (42 : Int) ≤ ⌊s.owed (Circuit.host Rat) c⌋ := Int.le_floor.2 (by exact_mod_cast ho)
    have hq : ((s.asked (Circuit.host Rat) c : Int) : Rat) = ⌊s.owed (Circuit.host Rat) c⌋ :=
      s.asked_of_le c (le_trans (by norm_num) ho)
    have hq : (s.asked (Circuit.host Rat) c : Int) = ⌊s.owed (Circuit.host Rat) c⌋ := by
      exact_mod_cast hq
    omega
  -- the program waits after 41 cycles at most, and from there on a run of any length does the same
  have hb : stage.left < min (s.asked (Circuit.host Rat) c) Scheduler.maxCycles := by
    have hs : stage.left ≤ 41 := by
      cases stage <;> decide
    exact lt_of_le_of_lt hs (lt_min ha (by decide))
  have ht : Ledger.ticks .timer (s.tick s.pieceLength .timer) = 1 := by
    have hz : Duration.atMost (left - s.pieceLength) (Duration.ofNat 0 : Rat) = true := by
      rw [hl, sub_self, Duration.atMost_rat, Duration.ofNat_rat, Nat.cast_zero]
    exact congrArg (Ledger.ticks .timer) (if_pos hz)
  have hk : s.notesOfPiece c = .looked (Stage.waiting.setting again) :: .expired :: .passed left ::
      .had (Stage.waiting.setting again) ::
        (stage.rest.map (Stage.setting again)).reverse.map .had := by
    unfold Scheduler.notesOfPiece
    rw [Scheduler.timerInterrupts_piece, ht, hl, s.setting_piece c,
      (List.cons.inj (settings_waits hb)).1, settings_waits hb]
    rfl
  rw [hk] at hr
  exact hr

/-- The program makes a step that writes the register. -/
theorem cycles {s : Scheduler Rat} (h : At m again stage changed s) (hw : stage.writes = true) :
    m.circuit.settings 7 = [stage.next.setting again, stage.setting again] ∧
      At (m.pass (.cycles 7)) again stage.next true s := by
  obtain ⟨⟨total, samples, hc⟩, hs⟩ := h
  rw [hc]
  refine ⟨settings_writes hw, ⟨total + 7, samples, ?_⟩, hs⟩
  show (m.circuit.runCycles 7).2 = _
  rw [hc, runCycles_writes hw]

end At

/-- What is written down about the program: the scheduler looks when the timer was started, twice,
and then when the timer has expired. -/
def log (again : Bool) : List TimerNote :=
  [.looked (Stage.waiting.setting again), .expired, .passed (period - 1),
    .had (Stage.waiting.setting again), .had (Stage.waiting.setting again),
    .had (Stage.waiting.setting again), .had (Stage.decided.setting again),
    .had (Stage.stopped.setting again), .had (Stage.started.setting again),
    .looked (Stage.started.setting again), .passed 1, .had (Stage.started.setting again),
    .looked (Stage.started.setting again), .passed 1, .had (Stage.started.setting again),
    .had (Stage.started.setting again), .had (Stage.start.setting again), .reset]

/-- The countdown begins with the period, of which a nanosecond passes before the last call. -/
theorem period_bounds : (1 : Rat) < period ∧ period - 1 ≤ 127226 ∧ 127226 - (period - 1) < 1 := by
  decide +kernel

/-- After the scheduler found the timer started again, its whole period passes in the last call. -/
theorem patient_bounds : (1 : Rat) < period ∧ period ≤ 127227 ∧ 127227 - period < 1 := by
  decide +kernel

/-- What is written down about a call in which the scheduler looks after a nanosecond. -/
def look (again : Bool) (stage : Stage) (log : List TimerNote) : List TimerNote :=
  .looked (stage.setting again) :: .passed 1 :: .had (stage.setting again) :: log

/-- What is written down about a step that writes the register. -/
def write (again : Bool) (stage : Stage) (log : List TimerNote) : List TimerNote :=
  .had (stage.next.setting again) :: .had (stage.setting again) :: log

/-- The program makes a step that writes the register, and a nanosecond later the scheduler finds
what it wrote. -/
theorem At.chronicle_write {m : Machine Rat} {drift untilTimer : Rat} {timerPeriod : Option Rat}
    (h : At m again stage changed (clock drift 0 timerPeriod untilTimer))
    (hw : stage.writes = true) (ht : ∀ p, timerPeriod = some p → 1 < untilTimer)
    (ho : drift + 1 * Duration.cyclesPerNanosecond < 1) : ∃ m' : Machine Rat,
      (∀ log rest, m.chronicle log (.call (.cycles 7) :: .call (.slice 1) :: rest) =
        m'.chronicle (look again stage.next (write again stage log)) rest) ∧
      At m' again stage.next false
        ((clock (drift + 1 * Duration.cyclesPerNanosecond) 0 timerPeriod
          (if timerPeriod.isSome then untilTimer - 1 else untilTimer)).updateTimer
            (some (stage.next.update again))) := by
  obtain ⟨hc, h1⟩ := h.cycles hw
  refine ⟨_, fun log rest => ?_, (h1.wait le_rfl ht ho []).2⟩
  rw [Machine.chronicle_cycles, hc]
  exact Machine.chronicle_slice (h1.wait le_rfl ht ho _).1 rest

theorem At.chronicle {m : Machine Rat} (h : At m again .start false (clock 0 0 none 0)) :
    m.chronicle [.reset] controls = some (log again) := by
  obtain ⟨hp, hl, hn⟩ := period_bounds
  obtain ⟨m1, hc, h1⟩ := h.chronicle_write rfl (fun _ hp => nomatch hp) (by decide +kernel)
  have h1 : At m1 again .started false
    (clock (0 + 1 * Duration.cyclesPerNanosecond) 0 (some period) period) := h1
  have hw := h1.wait le_rfl (fun _ _ => hp) (by decide +kernel)
  have h2 : At _ again .started false
    (clock (0 + 1 * Duration.cyclesPerNanosecond + 1 * Duration.cyclesPerNanosecond) 0
      (some period) (period - 1)) := (hw []).2
  have hr := h2.expire (by norm_num) hl hn (by decide +kernel)
  rw [controls, hc, Machine.chronicle_slice (hw _).1, Machine.chronicle_slice (hr _)]
  rfl

/-- What is written down about a program that starts the timer again. Before each expiry the
scheduler looked when the timer was started, when it was stopped, and when it was started again. -/
def patientLog : List TimerNote :=
  [.looked (Stage.waiting.setting true), .expired, .passed period,
    .had (Stage.waiting.setting true), .had (Stage.waiting.setting true),
    .had (Stage.waiting.setting true), .had (Stage.decided.setting true)] ++
  look true .decided (write true .stopped (look true .stopped (write true .started
    (look true .started (write true .start [.reset])))))

theorem At.chronicle_patient {m : Machine Rat} (h : At m true .start false (clock 0 0 none 0)) :
    m.chronicle [.reset] patient = some patientLog := by
  obtain ⟨hp, hl, hn⟩ := patient_bounds
  let owed : Rat := 1 * Duration.cyclesPerNanosecond
  obtain ⟨m1, hc1, h1⟩ := h.chronicle_write rfl (fun _ hp => nomatch hp) (by decide +kernel)
  have h1 : At m1 true .started false (clock (0 + owed) 0 (some period) period) := h1
  obtain ⟨m2, hc2, h2⟩ := h1.chronicle_write rfl (fun _ _ => hp) (by decide +kernel)
  have h2 : At m2 true .stopped false (clock (0 + owed + owed) 0 none 0) := h2
  obtain ⟨m3, hc3, h3⟩ := h2.chronicle_write rfl (fun _ hp => nomatch hp) (by decide +kernel)
  have h3 : At m3 true .decided false (clock (0 + owed + owed + owed) 0 (some period) period) := h3
  have hr := h3.expire (by norm_num) hl hn (by decide +kernel)
  rw [patient, hc1, hc2, hc3, Machine.chronicle_slice (hr _)]
  rfl

theorem at_reset {m : Machine Rat} (hm : m.circuit.board.memory.reset = memory again)
    (hv : m.circuit.cpu.variant = .motorola) (hc : m.circuit.board.cartridge = none)
    (hp : m.circuit.board.panel = .released) (hs : m.scheduler.reset = clock 0 0 none 0) :
    At m.reset again .start false (clock 0 0 none 0) := by
  have hs' : Word.ofBytes (code again 0x7FFE).toBitVec (code again 0x7FFF).toBitVec =
      Stage.start.pc := by
    cases again <;> decide
  refine ⟨⟨m.circuit.cpu.totalCycles, m.circuit.samples.clear, ?_⟩, hs⟩
  rw [Machine.circuit_reset_bare hm rom_memory hc hp, hv, hs']
  rfl

theorem fault?_configuration : (configuration again).fault? = none := by
  have hr : (configuration again).rom = romOf (code again) := rfl
  have ho : (configuration again).overclock = 1 := rfl
  rw [Configuration.fault?_eq_none_iff, hr, size_romOf, ho]
  exact ⟨rfl, by decide, by decide⟩

/-- The machine that runs the program. -/
def machine (again : Bool) : Machine Rat := Machine.build (configuration again) .released

theorem ofConfiguration_machine :
    Machine.ofConfiguration (configuration again) .released = .ok (machine again) :=
  Machine.ofConfiguration_of_fault?_eq_none fault?_configuration .released

theorem chronicle_machine : (machine again).chronicle [.reset] controls = some (log again) :=
  At.chronicle (at_reset rfl rfl rfl rfl rfl)

theorem chronicle_patient : (machine true).chronicle [.reset] patient = some patientLog :=
  At.chronicle_patient (at_reset rfl rfl rfl rfl rfl)

/-- The program that stops the timer for good sees it expire. -/
theorem not_stops : ¬ Chronicle.Stops (fun _ => True) (log false) := fun h =>
  h [_] _ rfl trivial rfl

/-- The program that starts the timer again sees it expire before the period is over. -/
theorem not_restarts :
    ¬ Chronicle.Restarts Chronicle.elapsed (fun setting _ => setting) (fun _ => True)
      (log true) := by
  intro h
  -- even the whole piece in which the timer was started again is shorter than the period
  have hz : ∀ setting, (TimerNote.had (Stage.waiting.setting true)).written? = some setting →
      setting.reload ≠ 0 := by
    rintro setting ⟨⟩
    decide
  have hp : period ≤ Chronicle.elapsed [.passed (period - 1), .had (Stage.waiting.setting true),
      .had (Stage.waiting.setting true), .had (Stage.waiting.setting true)] := by
    refine h [_] _ (Stage.decided.setting true) _ rfl (by decide) rfl ?_ trivial
    refine List.forall_mem_cons.2 ⟨⟨nofun, nofun⟩, fun n hn => ?_⟩
    obtain rfl : n = .had (Stage.waiting.setting true) := by simpa using hn
    exact ⟨nofun, hz⟩
  exact absurd hp (by decide +kernel)

end StopAndGo

theorem Duration.pos_of_periodOfRate? {rate : Nat} {period : Rat}
    (h : periodOfRate? rate = some period) : 0 < period := by
  unfold periodOfRate? at h
  split at h
  · cases h
  · rename_i hz
    cases h
    have hs : (0 : Rat) < second := by decide +kernel
    have hn : (0 : Rat) < (rate : Rat) := by exact_mod_cast Nat.pos_of_ne_zero hz
    exact div_pos hs hn

/-- Neither the timer nor the samples have a period of no time. -/
theorem exists_shortest (rate : Nat) : ∃ ε : Rat, 0 < ε ∧ ε ≤ Circuit.shortest ∧
    ∀ p, (Duration.periodOfRate? rate : Option Rat) = some p → ε ≤ p := by
  cases hr : (Duration.periodOfRate? rate : Option Rat) with
  | none => exact ⟨_, Circuit.shortest_pos, le_rfl, fun p hp => nomatch hp⟩
  | some period =>
    refine ⟨min Circuit.shortest period, lt_min Circuit.shortest_pos ?_, min_le_left _ _, ?_⟩
    · exact Duration.pos_of_periodOfRate? hr
    · rintro p ⟨⟩
      exact min_le_right _ _

/-- In a machine of a configuration all that is done is written down to its end, and at every time
the registers have the setting that was written last, and the scheduler counts with the one that it
found last.

The timer never expires while its register is zero, unless software wrote that zero since the
scheduler looked. Where software starts the timer after a stop that the scheduler found, in however
many writes, it expires no earlier than a whole period later, of the setting that the scheduler
finds. The time until it looks does not count. -/
theorem timer_obeys {configuration : Configuration} {panel : Panel} {m : Machine Rat}
    (hm : Machine.ofConfiguration configuration panel = .ok m) (controls : List (Control Rat)) :
    ∃ log, m.chronicle [.reset] controls = some log ∧
      (m.steer controls).circuit.board.gime.setting = Chronicle.shown TimerNote.written? log ∧
      (m.steer controls).scheduler.timerPeriod =
        (Chronicle.shown TimerNote.found? log).period? ∧
      (∀ note ∈ log, 0 ≤ note.time) ∧
      Chronicle.Stops Chronicle.FoundStop log ∧
      Chronicle.Restarts Chronicle.elapsedWhole Chronicle.foundFirst Chronicle.FoundStop log := by
  obtain ⟨ε, hε, hs, hp⟩ := exists_shortest configuration.audioRate
  have ht : Tracked ε m.scheduler m.circuit [.reset] := by
    unfold Machine.ofConfiguration at hm
    split at hm
    · cases hm
    · cases hm
      exact Tracked.reset hε hp trivial
  obtain ⟨log, hl, ht⟩ := ht.chronicle hε hs controls
  exact ⟨log, hl, ht.setting, ht.period, ht.sound.time_nonneg, ht.sound.stops,
    ht.sound.restarts⟩

/-- A machine whose program stops the timer and starts it again, while the scheduler looks each time.
The timer expires a whole period after the scheduler found it started again. -/
theorem timer_obeys_stopAndGo :
    Machine.ofConfiguration (StopAndGo.configuration true) .released =
      .ok (StopAndGo.machine true) ∧
    (StopAndGo.machine true).chronicle [.reset] StopAndGo.patient = some StopAndGo.patientLog ∧
    Chronicle.Stops Chronicle.FoundStop StopAndGo.patientLog ∧
    Chronicle.FoundStop (StopAndGo.patientLog.drop 11) ∧
    StopAndGo.period ≤ Chronicle.elapsedWhole ((StopAndGo.patientLog.drop 2).take 8) := by
  have hm : Machine.ofConfiguration (StopAndGo.configuration true) .released =
      .ok (StopAndGo.machine true) := StopAndGo.ofConfiguration_machine
  have hc : (StopAndGo.machine true).chronicle [.reset] StopAndGo.patient =
      some StopAndGo.patientLog := StopAndGo.chronicle_patient
  obtain ⟨log, hl, -, -, -, hs, hr⟩ := timer_obeys hm StopAndGo.patient
  cases hc.symm.trans hl
  have hf : Chronicle.FoundStop (StopAndGo.patientLog.drop 11) := fun _ => rfl
  refine ⟨hm, hc, hs, hf, ?_⟩
  have hk : ∀ n ∈ (StopAndGo.patientLog.drop 2).take 8, n ≠ .expired ∧
      ∀ s, n.written? = some s → s.reload ≠ 0 := by
    simp [StopAndGo.patientLog, StopAndGo.look, StopAndGo.write, TimerNote.written?,
      StopAndGo.Stage.setting, StopAndGo.Stage.reload]
  exact hr [_] _ (StopAndGo.Stage.decided.setting true) (StopAndGo.patientLog.drop 11) rfl
    (by decide) rfl hk hf

/-- Machines that can be configured have runs in which the timer does otherwise than software asked:
it expires although it was stopped, and it expires less than a period after it was stopped and
started again, even if all of the piece in which that was done is counted. -/
theorem timer_not_obeys :
    (¬ ∀ (configuration : Configuration) (panel : Panel) (m : Machine Rat),
      Machine.ofConfiguration configuration panel = .ok m →
      ∀ controls log, m.chronicle [.reset] controls = some log →
        Chronicle.Stops (fun _ => True) log) ∧
    ¬ ∀ (configuration : Configuration) (panel : Panel) (m : Machine Rat),
      Machine.ofConfiguration configuration panel = .ok m →
      ∀ controls log, m.chronicle [.reset] controls = some log →
        Chronicle.Restarts Chronicle.elapsed (fun setting _ => setting) (fun _ => True) log := by
  constructor
  · intro h
    exact StopAndGo.not_stops (h _ _ _ StopAndGo.ofConfiguration_machine _ _
      StopAndGo.chronicle_machine)
  · intro h
    exact StopAndGo.not_restarts (h _ _ _ StopAndGo.ofConfiguration_machine _ _
      StopAndGo.chronicle_machine)

end ColorComputer
