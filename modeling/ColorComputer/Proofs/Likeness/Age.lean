import ColorComputer.Proofs.Budget
import ColorComputer.Proofs.Likeness.Invariant
import ColorComputer.Proofs.Likeness.Step

/-!
# The age of a processor

A processor counts the cycles that it spent in its life, and looks at the count in nothing that it
does. So a processor that is older by some cycles does the same, and stays older by as many.

* `Likeness.ageless` — the likeness of cores that differ in the count only.
* `totalCycles_step` — a step is entered into the count.
* `step_aged`, `run_aged` — an older processor makes the same steps and the same runs.
-/

namespace ColorComputer

namespace Cpu

/-- The processor with another count of the cycles it spent. -/
def counting (n : Nat) (cpu : Cpu) : Cpu := { cpu with totalCycles := n }

/-- The processor when it is older by so many cycles. -/
def aged (k : Nat) (cpu : Cpu) : Cpu := { cpu with totalCycles := cpu.totalCycles + k }

theorem readCoded_counting (n : Nat) (cpu : Cpu) (code : Nat) :
    (cpu.counting n).readCoded code = cpu.readCoded code := rfl

theorem writeCoded_counting (n : Nat) (cpu : Cpu) (code : Nat) (value : Datum) :
    (cpu.counting n).writeCoded code value = (cpu.writeCoded code value).counting n := by
  have hd : (cpu.counting n).variant = cpu.variant := rfl
  unfold writeCoded
  rw [hd]
  split <;> rfl

theorem transfer_counting (n : Nat) (cpu : Cpu) (source target : Nat) :
    (cpu.counting n).transfer source target = (cpu.transfer source target).counting n :=
  writeCoded_counting n cpu target (cpu.readCoded source)

theorem exchange_counting (n : Nat) (cpu : Cpu) (first second : Nat) :
    (cpu.counting n).exchange first second = (cpu.exchange first second).counting n := by
  unfold exchange
  rw [writeCoded_counting, writeCoded_counting, readCoded_counting, readCoded_counting]

theorem combine_counting (n : Nat) (cpu : Cpu) (operation : Binary) (source target : Nat) :
    (cpu.counting n).combine operation source target =
      (cpu.combine operation source target).counting n := by
  have hr : (cpu.counting n).regs = cpu.regs := rfl
  unfold combine
  rw [readCoded_counting, readCoded_counting, hr]
  dsimp only
  split
  · split
    · exact writeCoded_counting n { cpu with regs := { cpu.regs with cc := _ } } target _
    · rfl
  · split
    · exact writeCoded_counting n { cpu with regs := { cpu.regs with cc := _ } } target _
    · rfl

end Cpu

/-! ### The likeness -/

theorem CoreInvariant.nothing {β : Type} [Bus β] : CoreInvariant fun _ : Core β => True where
  cpu _ _ _ _ _ := trivial
  read _ _ := trivial
  write _ _ _ := trivial
  charge _ _ := trivial

/-- Cores that differ in nothing but the count of the cycles that their processors spent. Their
registers are like those of one core. -/
def Likeness.ageless (β : Type) [Bus β] : Likeness β where
  __ := Likeness.invariant (CoreInvariant.nothing : CoreInvariant fun _ : Core β => True)
  rel c d := ∃ n, d = c.mapCpu (·.counting n)
  regs := by
    rintro c _ ⟨n, rfl⟩
    rfl
  bus_eq := by
    rintro c _ ⟨n, rfl⟩
    rfl
  withRegs := by
    rintro c _ ⟨n, rfl⟩ r _ rfl
    exact ⟨n, rfl⟩
  load := by
    rintro c _ ⟨n, rfl⟩ _ _ _ _
    exact ⟨n, rfl⟩
  stop := by
    rintro c _ ⟨n, rfl⟩ _
    exact ⟨n, rfl⟩
  read := by
    rintro c _ ⟨n, rfl⟩ _
    exact ⟨n, rfl⟩
  write := by
    rintro c _ ⟨n, rfl⟩ _ _
    exact ⟨n, rfl⟩
  charge := by
    rintro c _ ⟨n, rfl⟩ _
    exact ⟨n, rfl⟩
  decode := by
    rintro c _ ⟨n, rfl⟩ p _
    exact ⟨rfl, fun _ _ => rfl⟩
  transfer := by
    rintro c _ ⟨n, rfl⟩ p _ _
    exact ⟨n, congrArg (fun cpu => (⟨cpu, c.bus, c.cycles⟩ : Core β))
      (Cpu.transfer_counting n c.cpu _ _)⟩
  exchange := by
    rintro c _ ⟨n, rfl⟩ p _ _
    exact ⟨n, congrArg (fun cpu => (⟨cpu, c.bus, c.cycles⟩ : Core β))
      (Cpu.exchange_counting n c.cpu _ _)⟩

namespace Likeness

variable {β : Type} [Bus β]

theorem framed_ageless : (ageless β).Framed where
  native := by
    rintro c _ ⟨n, rfl⟩
    rfl
  sees _ _ := rfl

theorem whole_ageless : (ageless β).Whole where
  sees _ := rfl
  index _ := trivial
  codes _ := trivial
  trapFlags h := by rw [h]
  mode := by
    rintro r _ rfl keep put
    rfl
  combine := by
    rintro c _ ⟨n, rfl⟩ operation p _
    exact ⟨n, congrArg (fun cpu => (⟨cpu, c.bus, c.cycles⟩ : Core β))
      (Cpu.combine_counting n c.cpu operation _ _)⟩

theorem attentive_ageless : (ageless β).Attentive where
  wait := by
    rintro c _ ⟨n, rfl⟩
    rfl
  lines := by
    rintro c _ ⟨n, rfl⟩
    rfl
  armed := by
    rintro c _ ⟨n, rfl⟩
    rfl
  firqEntire := by
    rintro c _ ⟨n, rfl⟩
    rfl
  react := by
    rintro c _ ⟨n, rfl⟩ lines
    exact ⟨n, rfl⟩
  settle := by
    rintro c _ ⟨n, rfl⟩
    exact ⟨n + c.cycles, rfl⟩

end Likeness

/-! ### Steps and runs -/

/-- No action enters cycles into the count. -/
theorem counting_eq {β : Type} [Bus β] (n : Nat) :
    CoreInvariant fun c : Core β => c.cpu.totalCycles = n where
  cpu h _ _ _ ht := ht.trans h
  read h _ := h
  write h _ _ := h
  charge h _ := h

/-- The core whose processor is older by so many cycles. -/
def Core.aged {β : Type} (k : Nat) (c : Core β) : Core β := c.mapCpu (·.aged k)

namespace Cpu

variable {β : Type} [Bus β]

/-- A step is entered into the count. -/
theorem totalCycles_step (cpu : Cpu) (bus : β) :
    (cpu.step bus).cpu.totalCycles = cpu.totalCycles + (cpu.step bus).cycles := by
  have hP : CoreInvariant fun c : Core β => c.cpu.totalCycles = cpu.totalCycles := counting_eq _
  have hk : Kept (fun c : Core β => c.cpu.totalCycles = cpu.totalCycles) (Exec.ofMove cpu.move) :=
    Exec.kept_ofMove hP (fun h _ => h) cpu.move
  rw [step_eq]
  show (Exec.ofMove cpu.move ⟨cpu.awake, bus, 0⟩).2.cpu.totalCycles + _ = _
  rw [hk ⟨cpu.awake, bus, 0⟩ (totalCycles_awake cpu)]
  rfl

/-- An older processor makes the same step, and stays older by as much. -/
theorem step_aged (k : Nat) (cpu : Cpu) (bus : β) :
    (cpu.aged k).step bus = (cpu.step bus).aged k := by
  have ht := totalCycles_step (cpu.aged k) bus
  obtain ⟨n, hs⟩ := Likeness.attentive_ageless.step
    (c := (⟨cpu, bus, 0⟩ : Core β)) (d := ⟨cpu.aged k, bus, 0⟩) ⟨cpu.totalCycles + k, rfl⟩ rfl rfl
    (fun _ _ _ _ => Likeness.framed_ageless)
    fun _ => Likeness.respects_runInstruction Likeness.framed_ageless Likeness.whole_ageless
      trivial (by rintro c _ ⟨n, rfl⟩; rfl) _ _
      (Likeness.attentive_ageless.awake ⟨cpu.totalCycles + k, rfl⟩)
  have hs' : (cpu.aged k).step bus = (cpu.step bus).mapCpu (·.counting n) := hs
  rw [hs'] at ht ⊢
  have hn : n = (cpu.step bus).cpu.totalCycles + k := by
    rw [totalCycles_step]
    have h : n = cpu.totalCycles + k + (cpu.step bus).cycles := ht
    omega
  rw [hn]
  rfl

theorem runUntil_aged (k budget : Nat) (core : Core β) :
    runUntil budget (core.aged k) = (runUntil budget core).aged k := by
  have hm : ∀ core : Core β, (core.aged k).cpu.move = core.cpu.move := fun core =>
    move_account core.cpu _
  refine runUntil_induction budget ?_ ?_ ?_ core
  · intro core hu
    have hu' : budget ≤ (core.aged k).cycles := hu
    rw [runUntil_of_le hu, runUntil_of_le hu']
  · intro core hu hi
    have hu' : (core.aged k).cycles < budget := hu
    rw [runUntil_idle hu hi, runUntil_idle hu' ((hm core).trans hi)]
    exact congrArg (fun n => (⟨{ core.cpu with totalCycles := n }, _, _⟩ : Core β))
      (Nat.add_right_comm ..)
  · intro core hu hi ih
    have hu' : (core.aged k).cycles < budget := hu
    rw [runUntil_advance hu hi, ← ih, runUntil_advance hu' (by rwa [hm])]
    exact congrArg (fun c => runUntil budget (Core.after c core.cycles))
      (step_aged k core.cpu core.bus)

/-- An older processor makes the same run, and stays older by as much. -/
theorem run_aged (k : Nat) (cpu : Cpu) (bus : β) (budget : Nat) :
    (cpu.aged k).run bus budget = (cpu.run bus budget).aged k :=
  runUntil_aged k budget ⟨cpu, bus, 0⟩

end Cpu

end ColorComputer
