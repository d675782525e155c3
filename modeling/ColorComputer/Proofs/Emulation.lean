import ColorComputer.Bus.FlatMemory
import ColorComputer.Bus.Traced
import ColorComputer.Proofs.Likeness.Veil

/-!
# The greater part in emulation mode

In emulation mode the Hitachi part is a Motorola part, as long as a program keeps to what the
Motorola part documents. Both are driven by the same stimuli; after each they agree in every
register that both have, in what they wait for and in their interrupt inputs, have made the same
accesses and charged the same cycles.

* `decode_of_portable`, `sharedCodes_of_portable` — portable postbytes mean the same on both parts.
* `permits_of_portable` — hence a portable instruction is covered by the veil.
* `trajectory_eq` — the two parts in lockstep.
-/

namespace ColorComputer

/-! ### Portable programs -/

/-- An indexed postbyte that only the Hitachi part knows. -/
def hitachiPostbyte (p : Byte) : Bool :=
  p.msb && [0x7, 0xA, 0xE].contains (p.toNat % 16) ||
    [0x8F, 0x90, 0xAF, 0xB0, 0xCF, 0xD0, 0xEF, 0xF0].contains p.toNat

/-- Two register codes of equal width that both parts have. -/
def portableCodes (p : Byte) : Bool :=
  decide (p.toNat / 16 ≤ 5 ∧ p.toNat % 16 ≤ 5) ||
    decide ((8 ≤ p.toNat / 16 ∧ p.toNat / 16 ≤ 0xB) ∧ 8 ≤ p.toNat % 16 ∧ p.toNat % 16 ≤ 0xB)

/-- The instruction at the program counter is one of the Motorola part, with a postbyte that means
the same on both parts. -/
def Core.Portable {β : Type} [Bus β] (c : Core β) : Prop :=
  ∃ i, c.nextInstruction? = some i ∧ Variant.motorola.executes i = true ∧
    (i.indexed = true → hitachiPostbyte c.nextPostbyte = false) ∧
    (i.coded = true → portableCodes c.nextPostbyte = true)

theorem decode_of_portable {p : Byte} (h : hitachiPostbyte p = false) :
    Postbyte.decode .motorola p = Postbyte.decode .hitachi p ∧
      ∀ n ∈ (Postbyte.decode .motorola p).form.names, n.isBase = true := by
  revert p
  decide +kernel

theorem sharedCode_of_portable {code : Nat} (h : code ≤ 5 ∨ 8 ≤ code ∧ code ≤ 0xB) :
    SharedCode .motorola .hitachi code := by
  have hc : code = 0 ∨ code = 1 ∨ code = 2 ∨ code = 3 ∨ code = 4 ∨ code = 5 ∨ code = 8 ∨
      code = 9 ∨ code = 10 ∨ code = 11 := by omega
  rcases hc with rfl | rfl | rfl | rfl | rfl | rfl | rfl | rfl | rfl | rfl
  all_goals
    refine ⟨rfl, fun n hn => ?_⟩
    cases hn
    rfl

theorem sharedCodes_of_portable {p : Byte} (h : portableCodes p = true) :
    SharedCodes .motorola .hitachi (p.toNat / 16) (p.toNat % 16) := by
  simp only [portableCodes, Bool.or_eq_true, decide_eq_true_eq] at h
  rcases h with ⟨h1, h2⟩ | ⟨h1, h2⟩
  · exact ⟨sharedCode_of_portable (Or.inl h1), sharedCode_of_portable (Or.inl h2),
      Or.inr (Or.inl ⟨by omega, by omega⟩)⟩
  · exact ⟨sharedCode_of_portable (Or.inr h1), sharedCode_of_portable (Or.inr h2),
      Or.inr (Or.inr ⟨by omega, by omega⟩)⟩

/-- No opcode of the Motorola part works on an extended register. -/
theorem isBase_of_decode {page : Page} {opcode : Byte} {i : Instruction}
    (hd : Opcode.decode? page opcode = some i) (he : i.extended = false) {n : RegisterName}
    (hn : i.register? = some n) : n.isBase = true := by
  have hall : ∀ opcode : Byte, ((Opcode.decode? page opcode).all fun i =>
      i.extended || i.register?.all RegisterName.isBase) = true := by
    cases page <;> decide +kernel
  have h := hall opcode
  rw [hd] at h
  simp only [Option.all_some, Bool.or_eq_true, he, hn] at h
  exact h.resolve_left Bool.false_ne_true

/-- The Motorola part has none of the instructions of the greater part. -/
theorem Instruction.not_extended_of_motorola {i : Instruction}
    (he : Variant.motorola.executes i = true) : i.extended = false := by
  cases hb : i.extended with
  | false => rfl
  | true => simp [Variant.executes, Variant.extendedRegisters, hb] at he

/-- So none of its instructions writes to the mode register. -/
theorem Core.not_remodes_of_motorola {β : Type} [Bus β] {c : Core β} {i : Instruction}
    (he : Variant.motorola.executes i = true) : ¬ c.Remodes i := by
  intro h
  have hx := Core.extended_of_remodes h
  rw [Instruction.not_extended_of_motorola he] at hx
  exact Bool.noConfusion hx

/-! ### Stimuli -/

/-- What may happen to a processor from outside. -/
inductive Stimulus
  | step
  | assert (line : Interrupt)
  | deassert (line : Interrupt)
  deriving DecidableEq

section Trajectory

variable {β : Type} [Bus β]

/-- The processor and its bus after a stimulus, with the cycles that it cost. -/
def Stimulus.apply (cpu : Cpu) (bus : β) : Stimulus → Core β
  | step => cpu.step bus
  | assert line => ⟨cpu.assert line, bus, 0⟩
  | deassert line => ⟨cpu.deassert line, bus, 0⟩

/-- The states after each stimulus. -/
def trajectory : List Stimulus → Cpu → β → List (Core β)
  | [], _, _ => []
  | stimulus :: rest, cpu, bus =>
    let core := stimulus.apply cpu bus
    core :: trajectory rest core.cpu core.bus

/-- Every instruction that is executed under the stimuli is portable. -/
def PortableRun : List Stimulus → Cpu → β → Prop
  | [], _, _ => True
  | stimulus :: rest, cpu, bus =>
    (stimulus = .step → cpu.move = .execute → (⟨cpu.awake, bus, 0⟩ : Core β).Portable) ∧
      PortableRun rest (stimulus.apply cpu bus).cpu (stimulus.apply cpu bus).bus

instance (c : Core β) : Decidable c.Portable :=
  match h : c.nextInstruction? with
  | none => isFalse fun ⟨_, hi, _⟩ => by rw [h] at hi; cases hi
  | some i =>
    decidable_of_iff (Variant.motorola.executes i = true ∧
      (i.indexed = true → hitachiPostbyte c.nextPostbyte = false) ∧
      (i.coded = true → portableCodes c.nextPostbyte = true))
      ⟨fun hp => ⟨i, h, hp⟩, fun ⟨j, hj, hp⟩ => by rw [h] at hj; cases hj; exact hp⟩

instance decidablePortableRun :
    ∀ (stimuli : List Stimulus) (cpu : Cpu) (bus : β), Decidable (PortableRun stimuli cpu bus)
  | [], _, _ => isTrue trivial
  | stimulus :: rest, cpu, bus =>
    have := decidablePortableRun rest (stimulus.apply cpu bus).cpu (stimulus.apply cpu bus).bus
    inferInstanceAs (Decidable (_ ∧ _))

end Trajectory

/-- What both parts show: the registers that both have, and what decides about interrupts. -/
@[ext] structure Shown where
  a : Byte
  b : Byte
  x : Word
  y : Word
  u : Word
  s : Word
  pc : Word
  dp : Byte
  cc : ConditionCodes
  wait : WaitState
  nmiArmed : Bool
  lines : InterruptLines

/-- What a processor shows. -/
def Cpu.shown (cpu : Cpu) : Shown where
  a := cpu.regs.a
  b := cpu.regs.b
  x := cpu.regs.x
  y := cpu.regs.y
  u := cpu.regs.u
  s := cpu.regs.s
  pc := cpu.regs.pc
  dp := cpu.regs.dp
  cc := cpu.regs.cc
  wait := cpu.wait
  nmiArmed := cpu.nmiArmed
  lines := cpu.lines

/-- What a processor shows after a stimulus, the bus it left, and the cycles that it charged. -/
def Core.seen {β : Type} (c : Core β) : Shown × β × Nat := (c.cpu.shown, c.bus, c.cycles)

/-! ### Lockstep -/

section Lockstep

variable {g h : Extras}

theorem veiled_of_shown {m d : Cpu} (hm : m.variant = .motorola) (hd : d.variant = .hitachi)
    (hs : m.shown = d.shown) :
    VeiledCpu .motorola .hitachi m.regs.extras d.regs.extras m d := by
  simp only [Cpu.shown, Shown.mk.injEq] at hs
  obtain ⟨ha, hb, hx, hy, hu, hsp, hpc, hdp, hcc, hw, hn, hl⟩ := hs
  refine ⟨⟨?_, rfl, rfl⟩, hm, hd, hl, hn, hw⟩
  simp only [Registers.base, Registers.mk.injEq]
  exact ⟨ha, hb, hx, hy, hu, hsp, hpc, hdp, hcc, trivial, trivial, trivial, trivial⟩

theorem VeiledCpu.shown_eq {v w : Variant} {m d : Cpu} (hv : VeiledCpu v w g h m d) :
    m.shown = d.shown := by
  obtain ⟨⟨hb, _, _⟩, _, _, hl, hn, hw⟩ := hv
  simp only [Registers.base, Registers.mk.injEq] at hb
  obtain ⟨ha, hb, hx, hy, hu, hs, hpc, hdp, hcc, _⟩ := hb
  simp only [Cpu.shown, Shown.mk.injEq]
  exact ⟨ha, hb, hx, hy, hu, hs, hpc, hdp, hcc, hw, hn, hl⟩

variable {β : Type} [Bus β] (hg : Quiet .motorola g) (hh : Quiet .hitachi h)

/-- A portable instruction is covered by the veil. -/
theorem meets_of_portable {c d : Core β} (hr : (Likeness.veil hg hh).rel c d)
    (hp : c.Portable) : (Likeness.veil hg hh).Meets Exec.runInstruction c d := by
  obtain ⟨i, hi, he, hx, hc⟩ := hp
  have hn : i.extended = false := Instruction.not_extended_of_motorola he
  refine Likeness.meets_runInstruction (Likeness.framed_veil hg hh) hr hi ?_
    (fun hm => absurd hm (Core.not_remodes_of_motorola he)) ?_ ?_
  · refine ⟨fun hb => decode_of_portable (hx hb), fun hb => sharedCodes_of_portable (hc hb), ?_, ?_,
      fun _ => trivial⟩
    · intro n hb
      exact isBase_of_decode hi hn hb
    · intro hb
      rw [hn] at hb
      exact Bool.noConfusion hb
  · rw [hr.1.left]
    exact he
  · rw [hr.1.right]
    rfl

theorem veil_apply {c d : Core β} (hr : (Likeness.veil hg hh).rel c d) (stimulus : Stimulus)
    (hp : stimulus = .step → c.cpu.move = .execute →
      (⟨c.cpu.awake, c.bus, 0⟩ : Core β).Portable) :
    (Likeness.veil hg hh).rel (stimulus.apply c.cpu c.bus) (stimulus.apply d.cpu d.bus) := by
  cases stimulus with
  | step =>
    have ha := Likeness.attentive_veil (β := β) hg hh
    have h0 : (Likeness.veil hg hh).rel (⟨c.cpu, c.bus, 0⟩ : Core β) ⟨d.cpu, d.bus, 0⟩ :=
      ⟨hr.1, hr.2.1, rfl⟩
    refine ha.step (c := ⟨c.cpu, c.bus, 0⟩) (d := ⟨d.cpu, d.bus, 0⟩) h0 rfl rfl
      (fun _ _ _ _ => Likeness.framed_veil hg hh) fun hm => ?_
    exact meets_of_portable hg hh (ha.awake h0) (hp rfl hm)
  | assert line =>
    exact ⟨⟨hr.1.regs, hr.1.left, hr.1.right, congrArg (·.assert line) hr.1.lines, hr.1.armed,
      hr.1.wait⟩, hr.2.1, rfl⟩
  | deassert line =>
    exact ⟨⟨hr.1.regs, hr.1.left, hr.1.right, congrArg (·.deassert line) hr.1.lines, hr.1.armed,
      hr.1.wait⟩, hr.2.1, rfl⟩

theorem veil_trajectory (stimuli : List Stimulus) {c d : Core β}
    (hr : (Likeness.veil hg hh).rel c d) (hp : PortableRun stimuli c.cpu c.bus) :
    (trajectory stimuli c.cpu c.bus).map Core.seen =
        (trajectory stimuli d.cpu d.bus).map Core.seen ∧
      ∀ e ∈ trajectory stimuli d.cpu d.bus, e.cpu.regs.extras = h := by
  induction stimuli generalizing c d with
  | nil => exact ⟨rfl, fun e he => absurd he List.not_mem_nil⟩
  | cons stimulus rest ih =>
    obtain ⟨hs, hrest⟩ := hp
    have hn := veil_apply hg hh hr stimulus hs
    obtain ⟨hl, hx⟩ := ih hn hrest
    refine ⟨?_, ?_⟩
    · have hc : (stimulus.apply c.cpu c.bus).seen = (stimulus.apply d.cpu d.bus).seen := by
        rw [Core.seen, Core.seen, hn.1.shown_eq, hn.2.1, hn.2.2]
      show (stimulus.apply c.cpu c.bus).seen :: List.map Core.seen (trajectory rest _ _) = _
      rw [hc, hl]
      rfl
    · intro e he
      rcases List.mem_cons.1 he with rfl | he
      · exact hn.1.regs.right
      · exact hx e he

/-- In emulation mode the Hitachi part does what the Motorola part does, in as many cycles and with
the same accesses, and its extended registers rest. -/
theorem trajectory_eq {m d : Cpu} (bus : Traced β) (hm : m.variant = .motorola)
    (hd : d.variant = .hitachi) (hn : d.regs.md.getLsbD 0 = false)
    (hf : d.regs.md.getLsbD 1 = false) (hs : m.shown = d.shown) (stimuli : List Stimulus)
    (hp : PortableRun stimuli m bus) :
    (trajectory stimuli m bus).map Core.seen = (trajectory stimuli d bus).map Core.seen ∧
      ∀ e ∈ trajectory stimuli d bus, e.cpu.regs.extras = d.regs.extras := by
  have hg : Quiet .motorola m.regs.extras :=
    ⟨fun h => Bool.noConfusion h, fun h => Bool.noConfusion h⟩
  have hh : Quiet .hitachi d.regs.extras := ⟨fun _ => hn, fun _ => hf⟩
  have hr : (Likeness.veil hg hh).rel (⟨m, bus, 0⟩ : Core (Traced β)) ⟨d, bus, 0⟩ :=
    ⟨veiled_of_shown hm hd hs, rfl, rfl⟩
  exact veil_trajectory hg hh stimuli hr hp

/-- A program that both parts have: `LDS #$0100`, `LDA ,X++`, `TFR X,Y`. -/
def portableProgram : FlatMemory :=
  .beginning [0x10, 0xCE, 0x01, 0x00, 0xA6, 0x81, 0x1F, 0x12] (by decide)

/-- The two parts run the program and enter the handler of NMI, which the first instruction armed. -/
theorem trajectory_portableProgram :
    (trajectory [.step, .step, .step, .assert .nmi, .step] (Cpu.fresh .motorola)
        (Traced.start portableProgram)).map Core.seen =
      (trajectory [.step, .step, .step, .assert .nmi, .step] (Cpu.fresh .hitachi)
        (Traced.start portableProgram)).map Core.seen := by
  have hp : PortableRun [.step, .step, .step, .assert .nmi, .step] (Cpu.fresh .motorola)
      (Traced.start portableProgram) := by decide +kernel
  exact (trajectory_eq (m := Cpu.fresh .motorola) (d := Cpu.fresh .hitachi) _ rfl rfl rfl rfl rfl _
    hp).1

end Lockstep

end ColorComputer
