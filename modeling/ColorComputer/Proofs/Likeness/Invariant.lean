import ColorComputer.Cpu.Step
import ColorComputer.Proofs.Likeness.Instruction

/-!
# Invariants of a core

What holds of a core and survives every primitive action survives every instruction. An invariant
is a likeness of a core to itself, so nothing about single instructions is proved again here.

* `CoreInvariant.runInstruction` — an instruction keeps an invariant.
* `le_cycles`, `frame_eq` — cycles are never given back, and no instruction touches the lines.
-/

namespace ColorComputer

variable {β α γ : Type}

/-! ### Actions that keep an invariant -/

/-- An action that keeps a property of cores. -/
def Kept (P : Core β → Prop) (x : Exec β α) : Prop := ∀ c, P c → P (x c).2

theorem Kept.bind {P : Core β → Prop} {x : Exec β α} {f : α → Exec β γ} (hx : Kept P x)
    (hf : ∀ a, Kept P (f a)) : Kept P (x >>= f) := by
  intro c h
  exact hf _ _ (hx c h)

theorem kept_pure {P : Core β → Prop} (a : α) : Kept P (pure a : Exec β α) := fun _ h => h

theorem kept_processor {P : Core β → Prop} : Kept P (Exec.processor : Exec β Cpu) := fun _ h => h

variable [Bus β]

/-! ### Invariants -/

/-- A property of cores that every primitive action keeps. -/
structure CoreInvariant (P : Core β → Prop) : Prop where
  cpu : ∀ {c}, P c → ∀ cpu : Cpu, cpu.variant = c.cpu.variant → cpu.lines = c.cpu.lines →
    cpu.totalCycles = c.cpu.totalCycles → P ⟨cpu, c.bus, c.cycles⟩
  read : ∀ {c}, P c → ∀ a, P (c.withBus (Bus.read c.bus a).2)
  write : ∀ {c}, P c → ∀ a v, P (c.withBus (Bus.write c.bus a v))
  charge : ∀ {c}, P c → ∀ n, P (c.charge n)

/-! ### Register codes -/

theorem Cpu.frame_writeCoded (cpu : Cpu) (code : Nat) (value : Datum) :
    (cpu.writeCoded code value).lines = cpu.lines ∧
      (cpu.writeCoded code value).totalCycles = cpu.totalCycles := by
  unfold Cpu.writeCoded
  split <;> exact ⟨rfl, rfl⟩

theorem Cpu.frame_combine (cpu : Cpu) (operation : Binary) (source target : Nat) :
    (cpu.combine operation source target).variant = cpu.variant ∧
      (cpu.combine operation source target).lines = cpu.lines ∧
      (cpu.combine operation source target).totalCycles = cpu.totalCycles := by
  have hw : ∀ (cpu' : Cpu) (value : Datum), cpu'.variant = cpu.variant → cpu'.lines = cpu.lines →
      cpu'.totalCycles = cpu.totalCycles →
      (cpu'.writeCoded target value).variant = cpu.variant ∧
        (cpu'.writeCoded target value).lines = cpu.lines ∧
        (cpu'.writeCoded target value).totalCycles = cpu.totalCycles := by
    intro cpu' value hv hl ht
    obtain ⟨h1, h2⟩ := cpu'.frame_writeCoded target value
    rw [h1, h2, Cpu.variant_writeCoded]
    exact ⟨hv, hl, ht⟩
  unfold Cpu.combine
  dsimp only
  cases cpu.readCoded target with
  | byte value =>
    dsimp only
    rcases operation.apply cpu.regs.cc value (cpu.readCoded source).lowByte with ⟨_ | v, cc⟩
    · exact ⟨rfl, rfl, rfl⟩
    · exact hw _ _ rfl rfl rfl
  | word value =>
    dsimp only
    rcases operation.apply cpu.regs.cc value (cpu.readCoded source).zeroExtended with ⟨_ | v, cc⟩
    · exact ⟨rfl, rfl, rfl⟩
    · exact hw _ _ rfl rfl rfl

/-! ### The likeness of a core to itself -/

/-- A core is like itself only, and only while the invariant holds. -/
def Likeness.invariant {P : Core β → Prop} (hP : CoreInvariant P) : Likeness β where
  sees _ := true
  indexOk _ := True
  codesOk _ := True
  arms := True
  alike r r' := r = r'
  rel c d := c = d ∧ P c
  sees_base _ := rfl
  byte_eq h _ _ := by rw [h]
  word_eq h _ _ := by rw [h]
  cc_eq h := by rw [h]
  setByte h _ _ _ := by rw [h]
  setWord h _ _ _ := by rw [h]
  setCc h _ := by rw [h]
  regs h := by rw [h.1]
  bus_eq h := by rw [h.1]
  withRegs := by
    rintro c _ ⟨rfl, h⟩ r _ rfl
    exact ⟨rfl, hP.cpu h _ rfl rfl rfl⟩
  load := by
    rintro c _ ⟨rfl, h⟩ n _ _ v
    exact ⟨rfl, hP.cpu h _ rfl rfl rfl⟩
  stop := by
    rintro c _ ⟨rfl, h⟩ w
    exact ⟨rfl, hP.cpu h _ rfl rfl rfl⟩
  read := by
    rintro c _ ⟨rfl, h⟩ a
    exact ⟨rfl, hP.read h a⟩
  write := by
    rintro c _ ⟨rfl, h⟩ a v
    exact ⟨rfl, hP.write h a v⟩
  charge := by
    rintro c _ ⟨rfl, h⟩ cost
    exact ⟨rfl, hP.charge h _⟩
  decode := by
    rintro c _ ⟨rfl, h⟩ p _
    exact ⟨rfl, fun _ _ => rfl⟩
  transfer := by
    rintro c _ ⟨rfl, h⟩ p _ _
    obtain ⟨hl, ht⟩ := c.cpu.frame_writeCoded (p.toNat % 16) (c.cpu.readCoded (p.toNat / 16))
    exact ⟨rfl, hP.cpu h _ (Cpu.variant_writeCoded _ _ _) hl ht⟩
  exchange := by
    rintro c _ ⟨rfl, h⟩ p _ _
    refine ⟨rfl, hP.cpu h _ ?_ ?_ ?_⟩
    · show (Cpu.writeCoded _ _ _).variant = _
      rw [Cpu.variant_writeCoded, Cpu.variant_writeCoded]
    · show (Cpu.writeCoded _ _ _).lines = _
      rw [(Cpu.frame_writeCoded _ _ _).1, (Cpu.frame_writeCoded _ _ _).1]
    · show (Cpu.writeCoded _ _ _).totalCycles = _
      rw [(Cpu.frame_writeCoded _ _ _).2, (Cpu.frame_writeCoded _ _ _).2]

theorem Likeness.framed_invariant {P : Core β → Prop} (hP : CoreInvariant P) :
    (Likeness.invariant hP).Framed where
  native := by
    rintro c _ ⟨rfl, h⟩
    rfl
  sees _ _ := rfl

theorem Likeness.whole_invariant {P : Core β → Prop} (hP : CoreInvariant P) :
    (Likeness.invariant hP).Whole where
  sees _ := rfl
  index _ := trivial
  codes _ := trivial
  trapFlags h := by rw [h]
  mode := by
    rintro r _ rfl keep put
    rfl
  combine := by
    rintro c _ ⟨rfl, h⟩ operation p _
    obtain ⟨hv, hl, ht⟩ := c.cpu.frame_combine operation (p.toNat / 16) (p.toNat % 16)
    exact ⟨rfl, hP.cpu h _ hv hl ht⟩

/-! ### Actions -/

namespace CoreInvariant

variable {P : Core β → Prop} (hP : CoreInvariant P)
include hP

/-- What respects the likeness of a core to itself keeps the invariant. -/
theorem kept_of_respects {x : Exec β α} (hx : (Likeness.invariant hP).Respects x) : Kept P x := by
  intro c h
  exact ((hx c c ⟨rfl, h⟩).2).2

theorem perform (i : Instruction) : Kept P (Exec.perform i : Exec β Unit) :=
  hP.kept_of_respects
    (Likeness.respects_perform (Likeness.framed_invariant hP) (Likeness.whole_invariant hP)
      trivial i)

theorem trap (reason : Trap) : Kept P (Exec.trap reason : Exec β Unit) :=
  hP.kept_of_respects
    (Likeness.respects_trap (Likeness.framed_invariant hP) (Likeness.whole_invariant hP).toModed
      reason)

theorem fetch : Kept P (Exec.fetch : Exec β Byte) := hP.kept_of_respects Likeness.respects_fetch

theorem chargeCycles (n : Nat) : Kept P (Exec.charge n : Exec β Unit) :=
  hP.kept_of_respects (Likeness.respects_charge n)

theorem jumpThrough (vector : Word) : Kept P (Exec.jumpThrough vector : Exec β Unit) :=
  hP.kept_of_respects (Likeness.respects_jumpThrough vector)

theorem pushEntire : Kept P (Exec.pushEntire : Exec β Unit) :=
  hP.kept_of_respects (Likeness.respects_pushEntire (Likeness.framed_invariant hP))

theorem pushShort : Kept P (Exec.pushShort : Exec β Unit) :=
  hP.kept_of_respects Likeness.respects_pushShort

theorem maskBoth : Kept P (Exec.maskBoth : Exec β Unit) :=
  hP.kept_of_respects Likeness.respects_maskBoth

theorem maskIrq : Kept P (Exec.maskIrq : Exec β Unit) :=
  hP.kept_of_respects Likeness.respects_maskIrq

theorem undefinedInstruction (behind : Bool) :
    Kept P (Exec.undefinedInstruction behind : Exec β Unit) := by
  refine kept_processor.bind fun cpu => ?_
  cases cpu.variant.trapsUndefined with
  | true => exact hP.trap _
  | false => exact hP.chargeCycles _

theorem runOpcode (page : Page) (opcode : Byte) :
    Kept P (Exec.runOpcode page opcode : Exec β Unit) := by
  refine kept_processor.bind fun cpu => ?_
  cases Opcode.decode? page opcode with
  | none => exact hP.undefinedInstruction _
  | some i =>
    show Kept P (if cpu.variant.executes i then _ else _)
    split
    · exact (hP.chargeCycles _).bind fun _ => hP.perform i
    · exact hP.undefinedInstruction _

/-- An instruction keeps an invariant. -/
theorem runInstruction : Kept P (Exec.runInstruction : Exec β Unit) := by
  refine hP.fetch.bind fun opcode => ?_
  split
  · exact hP.fetch.bind fun opcode => hP.runOpcode _ opcode
  · split
    · exact hP.fetch.bind fun opcode => hP.runOpcode _ opcode
    · exact hP.runOpcode _ opcode

theorem stackForInterrupt (line : Interrupt) (wait : WaitState) :
    Kept P (Exec.stackForInterrupt line wait : Exec β Unit) := by
  refine kept_processor.bind fun cpu => ?_
  split
  · exact hP.chargeCycles 7
  · split
    · refine hP.pushEntire.bind fun _ => hP.kept_of_respects ?_
      exact Likeness.respects_chargeByMode fun native => if native then 21 else 19
    · exact hP.pushShort.bind fun _ => hP.chargeCycles 10

end CoreInvariant

/-! ### Invariants of the bus -/

/-- A property of a bus that reading and writing keep. -/
structure BusInvariant (B : β → Prop) : Prop where
  read : ∀ {bus}, B bus → ∀ a, B (Bus.read bus a).2
  write : ∀ {bus}, B bus → ∀ a v, B (Bus.write bus a v)

theorem BusInvariant.core {B : β → Prop} (hB : BusInvariant B) :
    CoreInvariant fun c : Core β => B c.bus where
  cpu h _ _ _ _ := h
  read h a := hB.read h a
  write h a v := hB.write h a v
  charge h _ := h

/-! ### Two invariants -/

/-- Cycles are never given back. -/
theorem le_cycles (n : Nat) : CoreInvariant fun c : Core β => n ≤ c.cycles where
  cpu h _ _ _ _ := h
  read h _ := h
  write h _ _ := h
  charge h _ := Nat.le_trans h (Nat.le_add_right _ _)

/-- Instructions touch neither the lines nor the account of cycles, and never change the part. -/
theorem frame_eq (variant : Variant) (lines : InterruptLines) (total : Nat) :
    CoreInvariant fun c : Core β =>
      c.cpu.variant = variant ∧ c.cpu.lines = lines ∧ c.cpu.totalCycles = total where
  cpu h _ hv hl ht := ⟨hv.trans h.1, hl.trans h.2.1, ht.trans h.2.2⟩
  read h _ := h
  write h _ _ := h
  charge h _ := h

end ColorComputer
