import Mathlib.Algebra.GroupWithZero.Nat
import ColorComputer.Bus.Traced
import ColorComputer.Proofs.Move

/-!
# Budgets

A processor is given cycles in budgets, and the last step of a run may use more than was left. A
run can be cut anywhere: what is left to do after the first slice does not depend on where the cut
was, only on how far the run has come.

* `runUntil_idle`, `runUntil_advance` — the two ways in which a run goes on.
* `runWord?_eq_run` — a count that fits a word may be summed in one.
* `runUntil_kept` — a run keeps what reading and writing the bus keep.
* `runUntil_runUntil` — stopping on the way to a budget changes nothing.
* `run_slices` — a budget in slices, each overrun taken off the slice after it.
-/

namespace ColorComputer

namespace Core

variable {β : Type}

/-- The cycles that were used before, counted as well. -/
def after (c : Core β) (n : Nat) : Core β := ⟨c.cpu, c.bus, n + c.cycles⟩

/-- The core that waited for so many cycles. -/
def idled (c : Core β) (n : Nat) : Core β :=
  ⟨{ c.cpu with totalCycles := c.cpu.totalCycles + n }, c.bus, c.cycles + n⟩

theorem idled_idled (c : Core β) (m n : Nat) : (c.idled m).idled n = c.idled (m + n) := by
  show (⟨{ c.cpu with totalCycles := c.cpu.totalCycles + m + n }, c.bus, c.cycles + m + n⟩ :
    Core β) = _
  rw [Nat.add_assoc, Nat.add_assoc]
  rfl

theorem idled_after (c : Core β) (m n : Nat) : (c.after n).idled m = (c.idled m).after n := by
  show (⟨_, _, n + c.cycles + m⟩ : Core β) = ⟨_, _, n + (c.cycles + m)⟩
  rw [Nat.add_assoc]
  rfl

theorem after_after (c : Core β) (m n : Nat) : (c.after m).after n = c.after (n + m) := by
  show (⟨_, _, n + (m + c.cycles)⟩ : Core β) = ⟨_, _, n + m + c.cycles⟩
  rw [Nat.add_assoc]
  rfl

end Core

namespace Cpu

variable {β : Type} [Bus β]

/-! ### How a run goes on -/

theorem move_account (cpu : Cpu) (n : Nat) : { cpu with totalCycles := n }.move = cpu.move := by
  obtain ⟨regs, variant, lines, nmiArmed, wait, totalCycles⟩ := cpu
  unfold move awake
  dsimp only
  split
  · rfl
  · split <;> rfl

/-- A processor that waits idles the rest of the budget away. -/
theorem runUntil_idle {budget : Nat} {core : Core β} (hu : core.cycles < budget)
    (hm : core.cpu.move = .idle) :
    runUntil budget core = core.idled (budget - core.cycles) := by
  rw [runUntil.eq_def]
  obtain ⟨cpu, bus, used⟩ := core
  have hu' : used < budget := hu
  dsimp only
  rw [if_pos hu', step_idle hm]
  show (⟨_, _, _⟩ : Core β) = ⟨_, _, used + (budget - used)⟩
  rw [show used + (budget - used) = budget by omega]

/-- A processor that does not wait makes a step. -/
theorem runUntil_advance {budget : Nat} {core : Core β} (hu : core.cycles < budget)
    (hm : core.cpu.move ≠ .idle) :
    runUntil budget core =
      runUntil budget ((core.cpu.step core.bus).after core.cycles) := by
  rw [runUntil.eq_def]
  obtain ⟨cpu, bus, used⟩ := core
  have hu' : used < budget := hu
  have hp : (cpu.step bus).cycles ≠ 0 := by
    rw [Ne, cycles_step_eq_zero_iff]
    exact hm
  dsimp only
  rw [if_pos hu']
  split
  · rename_i h
    rw [h] at hp
    exact absurd rfl hp
  · rename_i h
    rw [h]
    rfl

/-- A run up to a budget stops, idles, or makes a step and goes on. -/
@[elab_as_elim]
theorem runUntil_induction (budget : Nat) {motive : Core β → Prop}
    (stop : ∀ core, budget ≤ core.cycles → motive core)
    (idle : ∀ core, core.cycles < budget → core.cpu.move = .idle → motive core)
    (advance : ∀ core, core.cycles < budget → core.cpu.move ≠ .idle →
      motive ((core.cpu.step core.bus).after core.cycles) → motive core) (core : Core β) :
    motive core := by
  induction hd : budget - core.cycles using Nat.strongRecOn generalizing core with
  | ind d ih =>
    by_cases hu : core.cycles < budget
    · by_cases hm : core.cpu.move = .idle
      · exact idle core hu hm
      · have hp : (core.cpu.step core.bus).cycles ≠ 0 := by
          rw [Ne, cycles_step_eq_zero_iff]
          exact hm
        refine advance core hu hm (ih _ ?_ _ rfl)
        show budget - (core.cycles + (core.cpu.step core.bus).cycles) < d
        omega
    · exact stop core (Nat.le_of_not_lt hu)

/-! ### Words -/

/-- The run with its cycles summed in a word of 32 bits. The sum may wrap round short of the budget,
and there is no result if it always does. -/
def runWord? (budget : UInt32) (cpu : Cpu) (bus : β) (used : UInt32) : Option (Core β) :=
  if used < budget then
    let next := cpu.step bus
    if next.cycles = 0 then
      some ((next.after used.toNat).idled (budget - used).toNat)
    else
      next.cpu |>.runWord? budget next.bus (used + .ofNat next.cycles)
  else
    some ⟨cpu, bus, used.toNat⟩
partial_fixpoint

/-- As long as the sum fits the word, that is the run. -/
theorem runWord?_eq (budget : UInt32) (core : Core β) :
    (runUntil budget.toNat core).cycles < 2 ^ 32 →
      core.cpu.runWord? budget core.bus (.ofNat core.cycles) =
        some (runUntil budget.toNat core) := by
  refine runUntil_induction budget.toNat ?_ ?_ ?_ core
  · intro core hu hf
    rw [runUntil_of_le hu] at hf ⊢
    rw [runWord?, if_neg fun h => Nat.not_lt.2 hu ((UInt32.ofNat_lt_iff hf).1 h),
      UInt32.toNat_ofNat_of_lt' hf]
  · intro core hu hm _
    have hf : core.cycles < 2 ^ 32 := Nat.lt_trans hu budget.toNat_lt
    have hw : UInt32.ofNat core.cycles < budget := (UInt32.ofNat_lt_iff hf).2 hu
    have hn : (core.cpu.step core.bus).after core.cycles = core := by
      rw [step_idle hm]
      rfl
    rw [runUntil_idle hu hm, runWord?, if_pos hw]
    dsimp only
    rw [if_pos ((cycles_step_eq_zero_iff _ _).2 hm), UInt32.toNat_sub_of_le _ _ (UInt32.le_of_lt hw),
      UInt32.toNat_ofNat_of_lt' hf, hn]
  · intro core hu hm ih hf
    have hw : UInt32.ofNat core.cycles < budget :=
      (UInt32.ofNat_lt_iff (Nat.lt_trans hu budget.toNat_lt)).2 hu
    rw [runUntil_advance hu hm] at hf ⊢
    rw [← ih hf, runWord?, if_pos hw]
    dsimp only
    rw [if_neg fun hz => hm ((cycles_step_eq_zero_iff _ _).1 hz), ← UInt32.ofNat_add]
    rfl

/-- A run that uses fewer than `2 ^ 32` cycles is the one whose cycles are summed in a word. -/
theorem runWord?_eq_run {budget : UInt32} {cpu : Cpu} {bus : β}
    (h : (run cpu bus budget.toNat).cycles < 2 ^ 32) :
    cpu.runWord? budget bus 0 = some (run cpu bus budget.toNat) :=
  runWord?_eq budget ⟨cpu, bus, 0⟩ h

/-! ### What a run keeps -/

/-- A step keeps what reading and writing keep. -/
theorem step_kept {B : β → Prop} (hB : BusInvariant B) (cpu : Cpu) {bus : β} (h : B bus) :
    B (cpu.step bus).bus := by
  rw [step_eq]
  exact Exec.kept_ofMove hB.core (fun h _ => h) cpu.move ⟨cpu.awake, bus, 0⟩ h

/-- So does a run. -/
theorem runUntil_kept {B : β → Prop} (hB : BusInvariant B) (budget : Nat) (core : Core β) :
    B core.bus → B (runUntil budget core).bus := by
  refine runUntil_induction budget ?_ ?_ ?_ core
  · intro core hu h
    rwa [runUntil_of_le hu]
  · intro core hu hm h
    rwa [runUntil_idle hu hm]
  · intro core hu hm ih h
    rw [runUntil_advance hu hm]
    exact ih (step_kept hB core.cpu h)

/-! ### Cutting a run -/

theorem le_cycles_runUntil (budget : Nat) (core : Core β) :
    budget ≤ (runUntil budget core).cycles := by
  refine runUntil_induction budget ?_ ?_ ?_ core
  · intro core h
    rwa [runUntil_of_le h]
  · intro core hu hm
    rw [runUntil_idle hu hm]
    show budget ≤ core.cycles + (budget - core.cycles)
    omega
  · intro core hu hm ih
    rwa [runUntil_advance hu hm]

/-- Stopping on the way to a budget changes nothing. -/
theorem runUntil_runUntil {first budget : Nat} (hle : first ≤ budget) (core : Core β) :
    runUntil budget (runUntil first core) = runUntil budget core := by
  refine runUntil_induction first ?_ ?_ ?_ core
  · intro core h
    rw [runUntil_of_le h]
  · intro core hu hm
    have hc : (core.idled (first - core.cycles)).cycles = first := by
      show core.cycles + (first - core.cycles) = first
      omega
    have hi : (core.idled (first - core.cycles)).cpu.move = .idle := (move_account _ _).trans hm
    rw [runUntil_idle hu hm, runUntil_idle (Nat.lt_of_lt_of_le hu hle) hm]
    by_cases hb : first < budget
    · rw [runUntil_idle (by rwa [hc]) hi, hc, Core.idled_idled,
        show first - core.cycles + (budget - first) = budget - core.cycles by omega]
    · rw [show budget = first by omega, runUntil_of_le (Nat.le_of_eq hc.symm)]
  · intro core hu hm ih
    rw [runUntil_advance hu hm, runUntil_advance (Nat.lt_of_lt_of_le hu hle) hm]
    exact ih

/-- A run does not depend on how much was used before it began. -/
theorem runUntil_after (n budget : Nat) (core : Core β) :
    runUntil (n + budget) (core.after n) = (runUntil budget core).after n := by
  refine runUntil_induction budget ?_ ?_ ?_ core
  · intro core h
    rw [runUntil_of_le h, runUntil_of_le]
    exact Nat.add_le_add_left h n
  · intro core hu hm
    have hc : (core.after n).cycles = n + core.cycles := rfl
    have hi : (core.after n).cpu.move = .idle := hm
    rw [runUntil_idle hu hm, runUntil_idle (by omega) hi, hc,
      show n + budget - (n + core.cycles) = budget - core.cycles by omega, Core.idled_after]
  · intro core hu hm ih
    have hc : (core.after n).cycles = n + core.cycles := rfl
    have hi : (core.after n).cpu.move ≠ .idle := hm
    rw [runUntil_advance hu hm, runUntil_advance (by omega) hi, ← ih, Core.after_after, hc]
    rfl

/-! ### Slices -/

/-- A second run after a first one, for what a budget leaves, if it leaves anything. -/
def runRest (budget : Nat) (first : Core β) : Core β :=
  if first.cycles < budget then
    (first.cpu.run first.bus (budget - first.cycles)).after first.cycles
  else
    first

/-- Run a budget in slices. What a slice used beyond its share is taken off the slice after it,
and what exceeds that too is carried on. The cycles are those of all slices. -/
def runSlices : List Nat → Nat → Core β → Core β
  | [], _, core => core
  | slice :: rest, overrun, core =>
    if overrun < slice then
      let ran := core.cpu.run core.bus (slice - overrun)
      runSlices rest (ran.cycles - (slice - overrun)) (ran.after core.cycles)
    else
      runSlices rest (overrun - slice) core

theorem runRest_eq (budget : Nat) (first : Core β) :
    runRest budget first = runUntil budget first := by
  unfold runRest
  split
  · rename_i h
    have hs := runUntil_after first.cycles (budget - first.cycles) ⟨first.cpu, first.bus, 0⟩
    rw [show first.cycles + (budget - first.cycles) = budget by omega] at hs
    exact hs.symm
  · rename_i h
    rw [runUntil_of_le (Nat.le_of_not_lt h)]

theorem runSlices_eq (slices : List Nat) (overrun due : Nat) (core : Core β)
    (hd : core.cycles = due + overrun) :
    runSlices slices overrun core = runUntil (due + slices.sum) core := by
  induction slices generalizing overrun due core with
  | nil =>
    rw [List.sum_nil, runUntil_of_le (by omega)]
    rfl
  | cons slice rest ih =>
    rw [List.sum_cons]
    unfold runSlices
    split
    · rename_i h
      have hr := runRest_eq (due + slice) core
      unfold runRest at hr
      rw [if_pos (by omega), show due + slice - core.cycles = slice - overrun by omega] at hr
      have hb : slice - overrun ≤ (core.cpu.run core.bus (slice - overrun)).cycles :=
        le_cycles_runUntil (slice - overrun) ⟨core.cpu, core.bus, 0⟩
      rw [ih _ (due + slice) _ ?_, hr, runUntil_runUntil (by omega), Nat.add_assoc]
      show core.cycles + (core.cpu.run core.bus (slice - overrun)).cycles = _
      omega
    · rename_i h
      rw [ih _ (due + slice) core (by omega), Nat.add_assoc]

/-- A budget may be cut into slices, in two or in any number of them. -/
theorem run_slices (cpu : Cpu) (bus : Traced β) :
    (∀ b1 b2, runRest (b1 + b2) (cpu.run bus b1) = cpu.run bus (b1 + b2)) ∧
    ∀ slices, runSlices slices 0 ⟨cpu, bus, 0⟩ = cpu.run bus slices.sum := by
  constructor
  · intro b1 b2
    rw [runRest_eq]
    exact runUntil_runUntil (Nat.le_add_right b1 b2) ⟨cpu, bus, 0⟩
  · intro slices
    have h := runSlices_eq slices 0 0 (⟨cpu, bus, 0⟩ : Core (Traced β)) rfl
    rw [Nat.zero_add] at h
    exact h

end Cpu

end ColorComputer
