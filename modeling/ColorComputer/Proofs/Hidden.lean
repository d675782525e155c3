import Mathlib.Data.List.Forall2
import ColorComputer.Proofs.Emulation
import ColorComputer.Proofs.Service

/-!
# Hidden registers

The Motorola part has no `E`, `F`, `V` and `MD`. Whatever a processor keeps there stays hidden while
this part is in the socket: no cost, no index form, no register code, no frame and no exception
depends on it, and nothing ever changes it.

* `meets_motorola` — whatever the Motorola part runs is covered by the veil.
* `Core.Secluded` — the relation of two cores that differ in hidden registers only.
* `Secluded.step`, `Secluded.runUntil` — steps and runs keep it.
* `course_secluded` — so do steps, runs and changes of the lines in any order.
-/

namespace ColorComputer

/-! ### What the Motorola part looks at -/

/-- No indexed postbyte leads the Motorola part to an extended register. -/
theorem isBase_of_mem_names (p : Byte) :
    ∀ n ∈ (Postbyte.decode .motorola p).form.names, n.isBase = true := by
  revert p
  decide +kernel

/-- No register code of the Motorola part names an extended register. -/
theorem sharedCode_motorola (code : Nat) : SharedCode .motorola .motorola code := by
  refine ⟨rfl, fun n hn => ?_⟩
  unfold CodedRegister.decode CodedRegister.hitachiOnly at hn
  split at hn <;> cases hn <;> rfl

theorem sharedCodes_motorola (s t : Nat) : SharedCodes .motorola .motorola s t :=
  ⟨sharedCode_motorola s, sharedCode_motorola t, Or.inl rfl⟩

/-- The Motorola part has no modes, so it is quiet whatever its hidden registers hold. -/
theorem quiet_motorola (g : Extras) : Quiet .motorola g :=
  ⟨fun h => Bool.noConfusion h, fun h => Bool.noConfusion h⟩

section Veil

variable {β : Type} [Bus β] {g h : Extras}

/-- The likeness of cores of the Motorola part that differ in hidden registers only. -/
def Likeness.seclusion (β : Type) [Bus β] (g h : Extras) : Likeness β :=
  .veil (quiet_motorola g) (quiet_motorola h)

/-- The veil covers every instruction that the Motorola part executes. -/
theorem permits_motorola {page : Page} {opcode : Byte} {i : Instruction}
    (hd : Opcode.decode? page opcode = some i) (he : Variant.motorola.executes i = true)
    (p : Byte) : (Likeness.seclusion β g h).Permits i p := by
  have hn : i.extended = false := Instruction.not_extended_of_motorola he
  refine ⟨fun _ => ⟨rfl, isBase_of_mem_names p⟩, fun _ => sharedCodes_motorola _ _,
    fun n hr => isBase_of_decode hd hn hr, fun hb => ?_, fun _ => trivial⟩
  rw [hn] at hb
  exact Bool.noConfusion hb

/-- What the Motorola part does not know it passes over. -/
theorem meets_unknown {c d : Core β} (hr : (Likeness.seclusion β g h).rel c d) (behind : Bool) :
    (Likeness.seclusion β g h).Meets (Exec.undefinedInstruction behind : Exec β Unit) c d := by
  have ht : ∀ e : Core β, e.cpu.variant = .motorola → e.cpu.variant.trapsUndefined = false := by
    intro e he
    rw [he]
    rfl
  unfold Likeness.Meets
  rw [Exec.undefinedInstruction_of_untrapped (ht c hr.1.left),
    Exec.undefinedInstruction_of_untrapped (ht d hr.1.right)]
  exact Likeness.respects_charge _ c d hr

/-- Whatever the Motorola part runs, known or not, is covered by the veil. -/
theorem meets_motorola {c d : Core β} (hr : (Likeness.seclusion β g h).rel c d) :
    (Likeness.seclusion β g h).Meets (Exec.runInstruction : Exec β Unit) c d := by
  obtain ⟨ho, hf⟩ := Likeness.respects_fetchOpcode c d hr
  unfold Likeness.Meets
  rw [Exec.runInstruction_eq, Exec.runInstruction_eq, ← ho, Exec.runOpcode_eq, Exec.runOpcode_eq,
    hf.1.left, hf.1.right]
  cases hn : Opcode.decode? (Exec.fetchOpcode c).1.1 (Exec.fetchOpcode c).1.2 with
  | none => exact meets_unknown hf _
  | some i =>
    dsimp only
    split
    · rename_i he
      exact Likeness.meets_perform ((Likeness.seclusion β g h).charge hf i.cost)
        (permits_motorola hn he _) (fun _ => Likeness.framed_veil _ _)
        fun hm => absurd hm (Core.not_remodes_of_motorola he)
    · exact meets_unknown hf _

end Veil

/-! ### Two cores with different secrets -/

/-- The processor without what its extended registers hold. -/
def Cpu.base (cpu : Cpu) : Cpu := { cpu with regs := cpu.regs.base }

/-- Cores of the Motorola part on equal buses that agree in everything but the extended registers,
which hold this on the left and that on the right. -/
structure Core.Secluded {β : Type} (g h : Extras) (c d : Core β) : Prop where
  part : c.cpu.variant = .motorola
  shown : c.cpu.base = d.cpu.base
  bus : c.bus = d.bus
  cycles : c.cycles = d.cycles
  left : c.cpu.regs.extras = g
  right : d.cpu.regs.extras = h

namespace Core.Secluded

variable {β : Type} [Bus β] {g h : Extras} {c d : Core β}

/-- Beside what the veil says, secluded cores have spent as much. -/
theorem iff_rel : c.Secluded g h d ↔ (Likeness.seclusion β g h).rel c d ∧
    c.cpu.totalCycles = d.cpu.totalCycles := by
  constructor
  · rintro ⟨hp, hs, hb, hc, hl, hr⟩
    simp only [Cpu.base, Cpu.mk.injEq] at hs
    obtain ⟨hregs, hv, hlines, ha, hw, ht⟩ := hs
    exact ⟨⟨⟨⟨hregs, hl, hr⟩, hp, hv ▸ hp, hlines, ha, hw⟩, hb, hc⟩, ht⟩
  · rintro ⟨⟨⟨⟨hregs, hl, hr⟩, hp, hq, hlines, ha, hw⟩, hb, hc⟩, ht⟩
    refine ⟨hp, ?_, hb, hc, hl, hr⟩
    simp only [Cpu.base, Cpu.mk.injEq]
    exact ⟨hregs, hp.trans hq.symm, hlines, ha, hw, ht⟩

/-- Secluded cores make the same move. -/
theorem move_eq (hs : c.Secluded g h d) : c.cpu.move = d.cpu.move :=
  (Likeness.attentive_veil _ _).move_eq (iff_rel.1 hs).1

/-- A step keeps the seclusion, whatever was counted before it. -/
theorem step (hs : c.Secluded g h d) :
    (c.cpu.step c.bus).Secluded g h (d.cpu.step d.bus) := by
  obtain ⟨hr, ht⟩ := iff_rel.1 hs
  have ha : (Likeness.seclusion β g h).Attentive := Likeness.attentive_veil _ _
  have h0 : (Likeness.seclusion β g h).rel (⟨c.cpu, c.bus, 0⟩ : Core β) ⟨d.cpu, d.bus, 0⟩ :=
    ⟨hr.1, hr.2.1, rfl⟩
  have hn := ha.step (c := ⟨c.cpu, c.bus, 0⟩) (d := ⟨d.cpu, d.bus, 0⟩) h0 rfl rfl
    (fun _ _ _ _ => Likeness.framed_veil _ _) fun _ => meets_motorola (ha.awake h0)
  refine iff_rel.2 ⟨hn, ?_⟩
  have hc : (c.cpu.step c.bus).cycles = (d.cpu.step d.bus).cycles := hn.2.2
  rw [Cpu.totalCycles_step, Cpu.totalCycles_step, ht, hc]

omit [Bus β] in
theorem after (hs : c.Secluded g h d) (n : Nat) : (c.after n).Secluded g h (d.after n) :=
  ⟨hs.part, hs.shown, hs.bus, congrArg (n + ·) hs.cycles, hs.left, hs.right⟩

theorem idled (hs : c.Secluded g h d) (n : Nat) : (c.idled n).Secluded g h (d.idled n) := by
  obtain ⟨hr, ht⟩ := iff_rel.1 hs
  exact iff_rel.2 ⟨⟨⟨hr.1.regs, hr.1.left, hr.1.right, hr.1.lines, hr.1.armed, hr.1.wait⟩, hr.2.1,
    congrArg (· + n) hr.2.2⟩, congrArg (· + n) ht⟩

/-- A change of the lines is no secret. -/
theorem mapLines (hs : c.Secluded g h d) (f : InterruptLines → InterruptLines) :
    (⟨{ c.cpu with lines := f c.cpu.lines }, c.bus, 0⟩ : Core β).Secluded g h
      ⟨{ d.cpu with lines := f d.cpu.lines }, d.bus, 0⟩ := by
  obtain ⟨hr, ht⟩ := iff_rel.1 hs
  exact iff_rel.2 ⟨⟨⟨hr.1.regs, hr.1.left, hr.1.right, congrArg f hr.1.lines, hr.1.armed,
    hr.1.wait⟩, hr.2.1, rfl⟩, ht⟩

/-- A run keeps the seclusion. -/
theorem runUntil (hs : c.Secluded g h d) (budget : Nat) :
    (Cpu.runUntil budget c).Secluded g h (Cpu.runUntil budget d) := by
  refine Cpu.runUntil_induction (motive := fun c => ∀ d, c.Secluded g h d →
    (Cpu.runUntil budget c).Secluded g h (Cpu.runUntil budget d)) budget ?_ ?_ ?_ c d hs
  · intro c hu d hs
    rwa [Cpu.runUntil_of_le hu, Cpu.runUntil_of_le (hs.cycles ▸ hu)]
  · intro c hu hm d hs
    rw [Cpu.runUntil_idle hu hm, Cpu.runUntil_idle (hs.cycles ▸ hu) (hs.move_eq ▸ hm), ← hs.cycles]
    exact hs.idled _
  · intro c hu hm ih d hs
    have hd : d.cycles < budget := hs.cycles ▸ hu
    rw [Cpu.runUntil_advance hu hm, Cpu.runUntil_advance hd (hs.move_eq ▸ hm), ← hs.cycles]
    exact ih _ (hs.step.after _)

end Core.Secluded

/-! ### Whole courses -/

/-- The core that a turn finds. -/
def Instant.core {β : Type} (i : Instant β) : Core β := ⟨i.cpu, i.bus, 0⟩

/-- The same turn, on secluded cores. -/
structure Instant.Secluded {β : Type} (g h : Extras) (i j : Instant β) : Prop where
  turn : i.turn = j.turn
  core : i.core.Secluded g h j.core

section Courses

variable {β : Type} [Bus β] {g h : Extras}

/-- The core after a cue, with the cycles that it returned. -/
def Cue.apply (cpu : Cpu) (bus : β) : Cue → Core β
  | step => cpu.step bus
  | execute budget => cpu.run bus budget
  | assert line => ⟨cpu.assert line, bus, 0⟩
  | deassert line => ⟨cpu.deassert line, bus, 0⟩
  | setLevel line active => ⟨cpu.setLevel line active, bus, 0⟩

theorem Cue.perform_eq (cpu : Cpu) (bus : β) (cue : Cue) :
    cue.perform cpu bus = ((cue.apply cpu bus).cpu, (cue.apply cpu bus).bus) := by
  cases cue <;> rfl

/-- The cores after each cue. -/
def course : List Cue → Cpu → β → List (Core β)
  | [], _, _ => []
  | cue :: rest, cpu, bus =>
    cue.apply cpu bus :: course rest (cue.apply cpu bus).cpu (cue.apply cpu bus).bus

/-- The turns of a run find secluded cores, one after the other. -/
theorem Core.Secluded.turnsUntil {c d : Core β} (hs : c.Secluded g h d) (budget : Nat) :
    List.Forall₂ (Instant.Secluded g h) (Cpu.turnsUntil budget c) (Cpu.turnsUntil budget d) := by
  have hi : ∀ {c d : Core β}, c.Secluded g h d → ∀ turn,
      (⟨turn, c.cpu, c.bus⟩ : Instant β).Secluded g h ⟨turn, d.cpu, d.bus⟩ := fun hs turn =>
    ⟨rfl, hs.part, hs.shown, hs.bus, rfl, hs.left, hs.right⟩
  refine Cpu.runUntil_induction (motive := fun c => ∀ d, c.Secluded g h d →
    List.Forall₂ (Instant.Secluded g h) (Cpu.turnsUntil budget c) (Cpu.turnsUntil budget d))
    budget ?_ ?_ ?_ c d hs
  · intro c hu d hs
    rw [Cpu.turnsUntil_of_le hu, Cpu.turnsUntil_of_le (hs.cycles ▸ hu)]
    exact .nil
  · intro c hu hm d hs
    rw [Cpu.turnsUntil_idle hu hm, Cpu.turnsUntil_idle (hs.cycles ▸ hu) (hs.move_eq ▸ hm),
      ← hs.cycles]
    exact .cons (hi hs _) (.cons (hi hs _) .nil)
  · intro c hu hm ih d hs
    have hd : d.cycles < budget := hs.cycles ▸ hu
    rw [Cpu.turnsUntil_advance hu hm, Cpu.turnsUntil_advance hd (hs.move_eq ▸ hm), ← hs.cycles]
    exact .cons (hi hs _) (ih _ (hs.step.after _))

/-- A cue keeps the seclusion. -/
theorem Core.Secluded.apply {c d : Core β} (hs : c.Secluded g h d) (cue : Cue) :
    (cue.apply c.cpu c.bus).Secluded g h (cue.apply d.cpu d.bus) := by
  cases cue with
  | step => exact hs.step
  | execute budget =>
    exact Core.Secluded.runUntil (c := ⟨c.cpu, c.bus, 0⟩) (d := ⟨d.cpu, d.bus, 0⟩)
      ⟨hs.part, hs.shown, hs.bus, rfl, hs.left, hs.right⟩ budget
  | assert line => exact hs.mapLines (·.assert line)
  | deassert line => exact hs.mapLines (·.deassert line)
  | setLevel line active => exact hs.mapLines (·.setLevel line active)

/-- The turns of a cue find secluded cores. -/
theorem Core.Secluded.turns {c d : Core β} (hs : c.Secluded g h d) (cue : Cue) :
    List.Forall₂ (Instant.Secluded g h) (cue.turns c.cpu c.bus) (cue.turns d.cpu d.bus) := by
  have h0 : (⟨c.cpu, c.bus, 0⟩ : Core β).Secluded g h ⟨d.cpu, d.bus, 0⟩ :=
    ⟨hs.part, hs.shown, hs.bus, rfl, hs.left, hs.right⟩
  cases cue with
  | execute budget => exact h0.turnsUntil budget
  | step | assert line | deassert line | setLevel line active => exact .cons ⟨rfl, h0⟩ .nil

/-- Whatever is done to secluded cores, they stay so at every point. -/
theorem Core.Secluded.course {c d : Core β} (hs : c.Secluded g h d) (cues : List Cue) :
    List.Forall₂ (Core.Secluded g h) (course cues c.cpu c.bus) (course cues d.cpu d.bus) ∧
      List.Forall₂ (Instant.Secluded g h) (turnsOf cues c.cpu c.bus)
        (turnsOf cues d.cpu d.bus) := by
  induction cues generalizing c d with
  | nil => exact ⟨.nil, .nil⟩
  | cons cue rest ih =>
    obtain ⟨hc, ht⟩ := ih (hs.apply cue)
    refine ⟨.cons (hs.apply cue) hc, ?_⟩
    rw [turnsOf, turnsOf, Cue.perform_eq, Cue.perform_eq]
    exact List.rel_append (hs.turns cue) ht

/-- Whatever is done to two processors of the Motorola part that differ in hidden registers only,
they make the same accesses, return the same cycles, and agree after everything that is done and
before every single step in everything but those registers, which never change. -/
theorem course_secluded {m t : Cpu} (hv : m.variant = .motorola)
    (hs : m.base = t.base) (bus : Traced β) (cues : List Cue) :
    List.Forall₂ (Core.Secluded m.regs.extras t.regs.extras) (course cues m bus)
        (course cues t bus) ∧
      List.Forall₂ (Instant.Secluded m.regs.extras t.regs.extras) (turnsOf cues m bus)
        (turnsOf cues t bus) :=
  Core.Secluded.course (c := ⟨m, bus, 0⟩) (d := ⟨t, bus, 0⟩) ⟨hv, hs, rfl, rfl, rfl, rfl⟩ cues

/-- A Motorola part that was left with both modes on and with something in the other registers. -/
def Cpu.haunted : Cpu :=
  { Cpu.fresh .motorola with regs := { Registers.zeros with e := 1, f := 2, v := 3, md := 3 } }

/-- A fast interrupt is due before the first instruction. -/
theorem course_secluded_haunted :
    (Cpu.fresh .motorola).variant = .motorola ∧ (Cpu.fresh .motorola).base = Cpu.haunted.base ∧
      List.Forall₂ (Core.Secluded (Cpu.fresh .motorola).regs.extras Cpu.haunted.regs.extras)
        (course [.setLevel .firq true, .step, .execute 20] (Cpu.fresh .motorola)
          (Traced.start FlatMemory.zeros))
        (course [.setLevel .firq true, .step, .execute 20] Cpu.haunted
          (Traced.start FlatMemory.zeros)) ∧
      List.Forall₂ (Instant.Secluded (Cpu.fresh .motorola).regs.extras Cpu.haunted.regs.extras)
        (turnsOf [.setLevel .firq true, .step, .execute 20] (Cpu.fresh .motorola)
          (Traced.start FlatMemory.zeros))
        (turnsOf [.setLevel .firq true, .step, .execute 20] Cpu.haunted
          (Traced.start FlatMemory.zeros)) :=
  ⟨rfl, rfl, course_secluded (m := Cpu.fresh .motorola) (t := Cpu.haunted) rfl rfl
    (Traced.start FlatMemory.zeros) [.setLevel .firq true, .step, .execute 20]⟩

end Courses

end ColorComputer
