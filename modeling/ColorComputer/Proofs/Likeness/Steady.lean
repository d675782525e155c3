import ColorComputer.Proofs.Likeness.Step

/-!
# Leaving the mode register alone

No instruction names the mode register to read it or to write it as it names the others, and no
frame holds it. A core whose mode register holds a certain byte is like itself only, under a
likeness that does not cover a change of that byte, so one lemma for each primitive action shows
that nothing else writes to it: no transfer, no pull, and no return from an interrupt.

* `Likeness.steady` — the likeness.
* `kept_of_steady` — what respects it keeps the mode register.
* `remodesNext_of_md` — a step that changes the mode register runs an instruction that writes to it.
-/

namespace ColorComputer

/-! ### Registers and their codes -/

namespace Registers

variable (r : Registers)

theorem md_setByte (n : ByteRegister) (v : Byte) : (r.setByte n v).md = r.md := by
  cases n <;> rfl

theorem md_setWord (n : WordRegister) (v : Word) : (r.setWord n v).md = r.md := by
  cases n <;> rfl

end Registers

namespace Cpu

variable (cpu : Cpu)

theorem md_writeCoded (code : Nat) (value : Datum) :
    (cpu.writeCoded code value).regs.md = cpu.regs.md := by
  unfold writeCoded
  split
  · exact cpu.regs.md_setByte _ _
  · exact cpu.regs.md_setWord _ _
  · rfl

theorem md_combine (operation : Binary) (source target : Nat) :
    (cpu.combine operation source target).regs.md = cpu.regs.md := by
  unfold combine
  cases cpu.readCoded target with
  | byte value =>
    dsimp only
    rcases operation.apply cpu.regs.cc value (cpu.readCoded source).lowByte with ⟨_ | v, cc⟩
    · rfl
    · exact md_writeCoded _ _ _
  | word value =>
    dsimp only
    rcases operation.apply cpu.regs.cc value (cpu.readCoded source).zeroExtended with ⟨_ | v, cc⟩
    · rfl
    · exact md_writeCoded _ _ _

end Cpu

/-! ### The likeness -/

/-- A core is like itself only, and only while the mode register holds this byte. -/
def Likeness.steady (β : Type) [Bus β] (mode : Byte) : Likeness β where
  sees _ := true
  indexOk _ := True
  codesOk _ := True
  arms := True
  alike r r' := r = r' ∧ r.md = mode
  rel c d := c = d ∧ c.cpu.regs.md = mode
  sees_base _ := rfl
  byte_eq h _ _ := by rw [h.1]
  word_eq h _ _ := by rw [h.1]
  cc_eq h := by rw [h.1]
  setByte := by
    rintro r _ ⟨rfl, h⟩ n _ v
    exact ⟨rfl, (r.md_setByte n v).trans h⟩
  setWord := by
    rintro r _ ⟨rfl, h⟩ n _ v
    exact ⟨rfl, (r.md_setWord n v).trans h⟩
  setCc := by
    rintro r _ ⟨rfl, h⟩ cc
    exact ⟨rfl, h⟩
  regs := by
    rintro c _ ⟨rfl, h⟩
    exact ⟨rfl, h⟩
  bus_eq h := by rw [h.1]
  withRegs := by
    rintro c _ ⟨rfl, _⟩ r _ ⟨rfl, h⟩
    exact ⟨rfl, h⟩
  load := by
    rintro c _ ⟨rfl, h⟩ n _ _ v
    exact ⟨rfl, (c.cpu.regs.md_setWord n v).trans h⟩
  stop := by
    rintro c _ ⟨rfl, h⟩ _
    exact ⟨rfl, h⟩
  read := by
    rintro c _ ⟨rfl, h⟩ _
    exact ⟨rfl, h⟩
  write := by
    rintro c _ ⟨rfl, h⟩ _ _
    exact ⟨rfl, h⟩
  charge := by
    rintro c _ ⟨rfl, h⟩ _
    exact ⟨rfl, h⟩
  decode := by
    rintro c _ ⟨rfl, _⟩ p _
    exact ⟨rfl, fun _ _ => rfl⟩
  transfer := by
    rintro c _ ⟨rfl, h⟩ p _ _
    exact ⟨rfl, (c.cpu.md_writeCoded _ _).trans h⟩
  exchange := by
    rintro c _ ⟨rfl, h⟩ p _ _
    exact ⟨rfl, ((Cpu.md_writeCoded _ _ _).trans (c.cpu.md_writeCoded _ _)).trans h⟩

namespace Likeness

variable {β : Type} [Bus β] {mode : Byte}

theorem framed_steady : (steady β mode).Framed where
  native h := by rw [h.1]
  sees _ _ := rfl

theorem full_steady : (steady β mode).Full where
  sees _ := rfl
  index _ := trivial
  codes _ := trivial
  combine := by
    rintro c _ ⟨rfl, h⟩ operation p _
    exact ⟨rfl, (c.cpu.md_combine _ _ _).trans h⟩

theorem attentive_steady : (steady β mode).Attentive where
  wait h := by rw [h.1]
  lines h := by rw [h.1]
  armed h := by rw [h.1]
  firqEntire h := by rw [h.1]
  react := by
    rintro c _ ⟨rfl, h⟩ lines
    exact ⟨rfl, h⟩
  settle := by
    rintro c _ ⟨rfl, h⟩
    exact ⟨rfl, h⟩

/-- What respects the likeness keeps the mode register. -/
theorem kept_of_steady {α : Type} {x : Exec β α} (hx : (steady β mode).Respects x) :
    Kept (fun c => c.cpu.regs.md = mode) x := by
  intro c h
  exact (hx c c ⟨rfl, h⟩).2.2

end Likeness

/-- A step that changes the mode register runs an instruction that writes to it. -/
theorem Cpu.remodesNext_of_md {β : Type} [Bus β] {cpu : Cpu} {bus : β}
    (h : (cpu.step bus).cpu.regs.md ≠ cpu.regs.md) :
    cpu.move = .execute ∧ (⟨cpu.awake, bus, 0⟩ : Core β).RemodesNext := by
  have h0 : (Likeness.steady β cpu.regs.md).rel ⟨cpu, bus, 0⟩ ⟨cpu, bus, 0⟩ := ⟨rfl, rfl⟩
  refine Classical.byContradiction fun hc => h ?_
  have hs := Likeness.attentive_steady.step h0 rfl rfl (fun _ _ _ _ => Likeness.framed_steady)
    fun hm => Likeness.meets_anyInstruction Likeness.full_steady (fun h => by rw [h.1])
      (Likeness.attentive_steady.awake h0) (fun _ => Likeness.framed_steady)
      (fun hr => absurd ⟨hm, hr⟩ hc) fun _ => trivial
  exact hs.2

end ColorComputer
