import Mathlib.Logic.Function.Iterate
import ColorComputer.Proofs.Exception
import ColorComputer.Proofs.Likeness.Age

/-!
# What a run spends

A step that costs nothing is the only sign that a processor is stopped, and a run takes it for one.
No instruction, no trap and no entry of a handler may therefore be free. Then a run makes steps while
its budget lasts, and is over either with the step that used the budget up or with the first step
that finds the processor stopped, when the rest of the budget is idled away.

* `Cpu.Stopped` — the processor waits, and nothing may wake it.
* `move_eq_idle_iff` — that is when it is idle.
* `runUntil_ends` — the two ways in which a run is over.
* `totalCycles_runUntil` — what a run spends is entered into the count.
* `blockTransfer_ends` — a block transfer counts its copies down to zero.
* `run_spends` — the contract of a run.
-/

namespace ColorComputer

/-! ### Stopped processors -/

theorem InterruptLines.highest_eq_none_iff (lines : InterruptLines) (cc : ConditionCodes)
    (armed : Bool) : lines.highest cc armed = none ↔ ∀ line, lines.ready cc armed line = false := by
  rw [Interrupt.forall_iff]
  simp [highest]

theorem InterruptLines.anyPending_eq_false_iff (lines : InterruptLines) :
    lines.anyPending = false ↔ ∀ line, (lines.get line).pending = false := by
  rw [Interrupt.forall_iff]
  simp [anyPending, get, and_assoc]

namespace Cpu

/-- The processor waits and nothing may wake it: any request would end `SYNC`, but only one that may
be served ends `CWAI`. -/
def Stopped (cpu : Cpu) : Prop :=
  match cpu.wait with
  | .running => False
  | .sync => ∀ line, (cpu.lines.get line).pending = false
  | .cwai => ∀ line, cpu.lines.ready cpu.regs.cc cpu.nmiArmed line = false

theorem highest_of_quiet {lines : InterruptLines} (h : ∀ line, (lines.get line).pending = false)
    (cc : ConditionCodes) (armed : Bool) : lines.highest cc armed = none := by
  rw [InterruptLines.highest_eq_none_iff]
  intro line
  rw [InterruptLines.ready, h line, Bool.false_and]

theorem move_eq_idle_iff (cpu : Cpu) : cpu.move = .idle ↔ cpu.Stopped := by
  have hidle : cpu.move = .idle ↔
      cpu.lines.highest cpu.regs.cc cpu.nmiArmed = none ∧ cpu.awake.wait ≠ .running := by
    unfold move
    cases cpu.lines.highest cpu.regs.cc cpu.nmiArmed with
    | some line => simp
    | none => by_cases h : cpu.awake.wait = .running <;> simp [h]
  rw [hidle]
  unfold Stopped
  cases hw : cpu.wait with
  | running => simp [awake_of_running hw, hw]
  | cwai => simp [awake_of_cwai hw, hw, InterruptLines.highest_eq_none_iff]
  | sync =>
    have hawake : cpu.awake.wait ≠ .running ↔ cpu.lines.anyPending = false := by
      unfold awake
      cases cpu.lines.anyPending <;> simp [hw]
    rw [hawake, InterruptLines.anyPending_eq_false_iff]
    exact ⟨And.right, fun h => ⟨highest_of_quiet h _ _, h⟩⟩

variable {β : Type} [Bus β]

/-- A step is free exactly when the processor is stopped, and then it changes nothing. -/
theorem cycles_step_eq_zero_iff_stopped (cpu : Cpu) (bus : β) :
    (cpu.step bus).cycles = 0 ↔ cpu.Stopped :=
  (cpu.cycles_step_eq_zero_iff bus).trans cpu.move_eq_idle_iff

end Cpu

/-! ### How a run is over -/

namespace Core

variable {β : Type} [Bus β]

/-- The cycles that the next step costs. -/
def cost (c : Core β) : Nat := (c.cpu.step c.bus).cycles

/-- One step further. -/
def next (c : Core β) : Core β := (c.cpu.step c.bus).after c.cycles

theorem cycles_next (c : Core β) : c.next.cycles = c.cycles + c.cost := rfl

/-- The core so many steps later. -/
def steps (c : Core β) (n : Nat) : Core β := next^[n] c

theorem steps_succ (c : Core β) (n : Nat) : c.steps (n + 1) = c.next.steps n :=
  Function.iterate_succ_apply next n c

theorem steps_succ_last (c : Core β) (n : Nat) : c.steps (n + 1) = (c.steps n).next :=
  Function.iterate_succ_apply' next n c

/-- A run up to a budget is over after so many steps. Each of them began within the budget, and none
was free but the last, in which case the rest of the budget is idled away. -/
structure Ends (budget : Nat) (c : Core β) (n : Nat) (last : Core β) : Prop where
  within : ∀ k ≤ n, (c.steps k).cycles < budget
  busy : ∀ k < n, 0 < (c.steps k).cost
  outcome :
    ((c.steps n).cost = 0 ∧ last = (c.steps n).idled (budget - (c.steps n).cycles)) ∨
    (0 < (c.steps n).cost ∧ last = c.steps (n + 1) ∧ budget ≤ last.cycles)

theorem Ends.next {budget : Nat} {c : Core β} {n : Nat} {last : Core β}
    (h : Ends budget c.next n last) (hu : c.cycles < budget) (hc : 0 < c.cost) :
    Ends budget c (n + 1) last where
  within
    | 0, _ => hu
    | k + 1, hk => by
      rw [steps_succ]
      exact h.within k (Nat.le_of_succ_le_succ hk)
  busy
    | 0, _ => hc
    | k + 1, hk => by
      rw [steps_succ]
      exact h.busy k (Nat.lt_of_succ_lt_succ hk)
  outcome := by
    rw [steps_succ, steps_succ]
    exact h.outcome

end Core

namespace Cpu

variable {β : Type} [Bus β]

theorem runUntil_ends (budget : Nat) (core : Core β) :
    core.cycles < budget → ∃ n, Core.Ends budget core n (runUntil budget core) := by
  refine runUntil_induction budget ?stop ?idle ?advance core
  case stop =>
    intro core h hu
    omega
  case idle =>
    intro core hu hm _
    have hc : core.cost = 0 := (cycles_step_eq_zero_iff _ _).2 hm
    refine ⟨0, ?_, ?_, .inl ⟨hc, runUntil_idle hu hm⟩⟩
    · intro k hk
      rwa [Nat.le_zero.1 hk]
    · intro k hk
      omega
  case advance =>
    intro core hu hm ih _
    have hc : 0 < core.cost := by
      rw [Nat.pos_iff_ne_zero, Core.cost, Ne, cycles_step_eq_zero_iff]
      exact hm
    rw [runUntil_advance hu hm]
    by_cases hn : core.next.cycles < budget
    · obtain ⟨n, h⟩ := ih hn
      exact ⟨n + 1, h.next hu hc⟩
    · have hl : runUntil budget core.next = core.next := runUntil_of_le (Nat.le_of_not_lt hn)
      refine ⟨0, ?_, ?_, .inr ⟨hc, hl, ?_⟩⟩
      · intro k hk
        rwa [Nat.le_zero.1 hk]
      · intro k hk
        omega
      · show budget ≤ (runUntil budget core.next).cycles
        rw [hl]
        exact Nat.le_of_not_lt hn

/-- What a run spends is entered into the count. -/
theorem totalCycles_runUntil (budget : Nat) (core : Core β) :
    (runUntil budget core).cpu.totalCycles + core.cycles =
      core.cpu.totalCycles + (runUntil budget core).cycles := by
  refine runUntil_induction budget ?_ ?_ ?_ core
  · intro core hu
    rw [runUntil_of_le hu]
  · intro core hu hm
    rw [runUntil_idle hu hm]
    show core.cpu.totalCycles + (budget - core.cycles) + core.cycles =
      core.cpu.totalCycles + (core.cycles + (budget - core.cycles))
    omega
  · intro core hu hm ih
    rw [runUntil_advance hu hm]
    have ht := totalCycles_step core.cpu core.bus
    have hn : ((core.cpu.step core.bus).after core.cycles).cycles =
      core.cycles + (core.cpu.step core.bus).cycles := rfl
    have hc : ((core.cpu.step core.bus).after core.cycles).cpu = (core.cpu.step core.bus).cpu := rfl
    rw [hn, hc] at ih
    omega

theorem totalCycles_run (cpu : Cpu) (bus : β) (budget : Nat) :
    (cpu.run bus budget).cpu.totalCycles = cpu.totalCycles + (cpu.run bus budget).cycles :=
  totalCycles_runUntil budget ⟨cpu, bus, 0⟩

end Cpu

/-! ### Blocks -/

namespace Exec

variable {β : Type} [Bus β]

/-- No part of `W` holds an address of a block transfer. -/
theorem ne_w_of_blockRegister? {code : Nat} {name : WordRegister}
    (h : blockRegister? code = some name) : name ≠ .w := by
  rintro rfl
  unfold blockRegister? at h
  split at h <;> cases h

variable {source target : WordRegister} (step : BlockStep)

section Counts

variable (hs : source ≠ .w) (ht : target ≠ .w)
include hs ht

theorem w_copyByte (c : Core β) :
    (copyByte source target step c).2.cpu.regs.w = c.cpu.regs.w - 1 := by
  have hw : ∀ u v, ((c.cpu.regs.setWord source u).setWord target v).w = c.cpu.regs.w := by
    intro u v
    exact (Registers.word_setWord_of_ne _ v ht.symm).trans
      (Registers.word_setWord_of_ne _ u hs.symm)
  refine (Registers.w_setW _ _).trans (congrArg (· - 1) ?_)
  exact hw _ _

/-- Each copy counts `W` down. -/
theorem toNat_w_copyBytes (n : Nat) (c : Core β) (hn : n ≤ c.cpu.regs.w.toNat) :
    (copyBytes source target step n c).2.cpu.regs.w.toNat + n = c.cpu.regs.w.toNat := by
  induction n generalizing c with
  | zero => rfl
  | succ n ih =>
    have h1 : (copyByte source target step c).2.cpu.regs.w.toNat = c.cpu.regs.w.toNat - 1 := by
      rw [w_copyByte step hs ht, BitVec.toNat_sub_of_le (by rw [BitVec.le_def]; show 1 ≤ _; omega)]
      rfl
    have h2 := ih (copyByte source target step c).2 (by omega)
    show (copyBytes source target step n (copyByte source target step c).2).2.cpu.regs.w.toNat +
      (n + 1) = _
    omega

end Counts

/-- A block transfer copies while `W` is not zero, and comes to zero. -/
theorem blockTransfer_ends (core : Core β)
    (hs : blockRegister? (core.nextByte.toNat / 16) = some source)
    (ht : blockRegister? (core.nextByte.toNat % 16) = some target) :
    let begun := (fetch core).2
    let copies := fun n => (copyBytes source target step n begun).2
    (∀ n < begun.cpu.regs.w.toNat, (copies n).cpu.regs.w ≠ 0) ∧
    (copies begun.cpu.regs.w.toNat).cpu.regs.w = 0 ∧
    (blockTransfer step core).2 = copies begun.cpu.regs.w.toNat := by
  intro begun copies
  have hw : ∀ n ≤ begun.cpu.regs.w.toNat,
      (copies n).cpu.regs.w.toNat + n = begun.cpu.regs.w.toNat := fun n =>
    toNat_w_copyBytes step (ne_w_of_blockRegister? hs) (ne_w_of_blockRegister? ht) n begun
  refine ⟨fun n hn h0 => ?_, ?_, ?_⟩
  · have hn' := hw n (Nat.le_of_lt hn)
    have hz : (copies n).cpu.regs.w.toNat = 0 := congrArg BitVec.toNat h0
    omega
  · have hn := hw _ (Nat.le_refl _)
    refine BitVec.eq_of_toNat_eq ?_
    show _ = 0
    omega
  · rw [blockTransfer_eq, hs, ht]
    rfl

end Exec

namespace Cpu

variable {β : Type} [Bus β]

/-- A budget of nothing does nothing. Any other is met: steps are made while it lasts, none of them
free; then either the step that uses it up is the last, and less than that step cost is spent beyond
the budget, or the processor is found stopped, and the rest is idled away. What is spent is entered
into the count. A step is free exactly when the processor is stopped, and then it changes nothing. No
step goes on for ever: one that copies a block copies while `W` is not zero, and comes to zero. -/
theorem run_spends (cpu : Cpu) (bus : β) (budget : Nat) :
    let start : Core β := ⟨cpu, bus, 0⟩
    let ran := cpu.run bus budget
    (budget = 0 → ran = start) ∧
    (0 < budget → ∃ n,
      (∀ k ≤ n, (start.steps k).cycles < budget) ∧ (∀ k < n, 0 < (start.steps k).cost) ∧
      (((start.steps n).cost = 0 ∧ ran.cycles = budget ∧
          ran = (start.steps n).idled (budget - (start.steps n).cycles)) ∨
        (0 < (start.steps n).cost ∧ budget ≤ ran.cycles ∧
          ran.cycles < budget + (start.steps n).cost ∧ ran = start.steps (n + 1)))) ∧
    ran.cpu.totalCycles = cpu.totalCycles + ran.cycles ∧
    ((cpu.step bus).cycles = 0 ↔ cpu.Stopped) ∧
    (cpu.Stopped → cpu.step bus = start) ∧
    (∀ (step : BlockStep) (core : Core β) (source target : WordRegister),
      Exec.blockRegister? (core.nextByte.toNat / 16) = some source →
      Exec.blockRegister? (core.nextByte.toNat % 16) = some target →
      let begun := (Exec.fetch core).2
      let copies := fun n => (Exec.copyBytes source target step n begun).2
      (∀ n < begun.cpu.regs.w.toNat, (copies n).cpu.regs.w ≠ 0) ∧
      (copies begun.cpu.regs.w.toNat).cpu.regs.w = 0 ∧
      (Exec.blockTransfer step core).2 = copies begun.cpu.regs.w.toNat) := by
  intro start ran
  refine ⟨?none, ?met, cpu.totalCycles_run bus budget, cpu.cycles_step_eq_zero_iff_stopped bus,
    fun h => step_idle (cpu.move_eq_idle_iff.2 h) bus, ?block⟩
  case none =>
    rintro rfl
    exact cpu.run_zero bus
  case met =>
    intro hb
    obtain ⟨n, h⟩ := runUntil_ends budget start hb
    have hn := h.within n (Nat.le_refl _)
    refine ⟨n, h.within, h.busy, ?_⟩
    rcases h.outcome with ⟨hc, hl⟩ | ⟨hc, hl, hle⟩
    · have hr : ran.cycles = (start.steps n).cycles + (budget - (start.steps n).cycles) :=
        congrArg Core.cycles hl
      exact .inl ⟨hc, by omega, hl⟩
    · have hr : ran.cycles = (start.steps n).cycles + (start.steps n).cost := by
        rw [← Core.cycles_next, ← Core.steps_succ_last]
        exact congrArg Core.cycles hl
      exact .inr ⟨hc, hle, by omega, hl⟩
  case block => exact fun step core source target hs ht => Exec.blockTransfer_ends step core hs ht

end Cpu

end ColorComputer
