import ColorComputer.Proofs.Likeness.Age

/-!
# Arming NMI

NMI is armed by the first load of `S`. A core that is not armed is like itself only, under a
likeness that forbids to load `S`, so one lemma for each primitive action shows that nothing else
arms it: no push, no pull, and no index mode that moves `S`.

* `Likeness.unarmed` — the likeness.
* `loadsS_of_armed` — a step that arms NMI runs an instruction that loads `S`.
-/

namespace ColorComputer

/-! ### Register codes -/

/-- The code of `S`. -/
theorem CodedRegister.eq_four_of_decode {variant : Variant} {code : Nat}
    (h : decode variant code = named (.word .s)) : code = 4 := by
  unfold decode hitachiOnly at h
  cases variant <;> split at h <;> simp_all [Variant.extendedRegisters]

namespace Cpu

theorem nmiArmed_loadWord (cpu : Cpu) {n : WordRegister} (hn : n ≠ .s) (v : Word) :
    (cpu.loadWord n v).nmiArmed = cpu.nmiArmed := by
  show (cpu.nmiArmed || decide (n = .s)) = cpu.nmiArmed
  rw [decide_eq_false hn, Bool.or_false]

theorem nmiArmed_writeCoded (cpu : Cpu) {code : Nat} (hc : code ≠ 4) (value : Datum) :
    (cpu.writeCoded code value).nmiArmed = cpu.nmiArmed := by
  unfold writeCoded
  cases hd : CodedRegister.decode cpu.variant code with
  | absent reads => rfl
  | named name =>
    cases name with
    | byte n => rfl
    | word n =>
      refine nmiArmed_loadWord cpu ?_ _
      rintro rfl
      exact hc (CodedRegister.eq_four_of_decode hd)

theorem nmiArmed_combine (cpu : Cpu) {operation : Binary} {target : Nat} (source : Nat)
    (h : operation.writes = true → target ≠ 4) :
    (cpu.combine operation source target).nmiArmed = cpu.nmiArmed := by
  unfold combine
  cases cpu.readCoded target with
  | byte value =>
    dsimp only
    cases hr : operation.apply cpu.regs.cc value (cpu.readCoded source).lowByte with
    | mk result cc =>
      cases result with
      | none => rfl
      | some v =>
        exact nmiArmed_writeCoded _ (h (Binary.writes_of_apply (congrArg Prod.fst hr))) _
  | word value =>
    dsimp only
    cases hr : operation.apply cpu.regs.cc value (cpu.readCoded source).zeroExtended with
    | mk result cc =>
      cases result with
      | none => rfl
      | some v =>
        exact nmiArmed_writeCoded _ (h (Binary.writes_of_apply (congrArg Prod.fst hr))) _

end Cpu

/-! ### The likeness -/

/-- A core is like itself only, and only while NMI is not armed. -/
def Likeness.unarmed (β : Type) [Bus β] : Likeness β where
  __ := Likeness.invariant (CoreInvariant.nothing : CoreInvariant fun _ : Core β => True)
  arms := False
  rel c d := c = d ∧ c.cpu.nmiArmed = false
  regs := by
    rintro c _ ⟨rfl, _⟩
    rfl
  bus_eq := by
    rintro c _ ⟨rfl, _⟩
    rfl
  withRegs := by
    rintro c _ ⟨rfl, h⟩ r _ rfl
    exact ⟨rfl, h⟩
  load := by
    rintro c _ ⟨rfl, h⟩ n _ hn v
    exact ⟨rfl, (c.cpu.nmiArmed_loadWord hn v).trans h⟩
  stop := by
    rintro c _ ⟨rfl, h⟩ _
    exact ⟨rfl, h⟩
  read := by
    rintro c _ ⟨rfl, h⟩ _
    exact ⟨rfl, h⟩
  write := by
    rintro c _ ⟨rfl, h⟩ _ _
    exact ⟨rfl, h⟩
  charge := by
    rintro c _ ⟨rfl, h⟩ _
    exact ⟨rfl, h⟩
  decode := by
    rintro c _ ⟨rfl, _⟩ p _
    exact ⟨rfl, fun _ _ => rfl⟩
  transfer := by
    rintro c _ ⟨rfl, h⟩ p _ hp
    have ht : p.toNat % 16 ≠ 4 := fun ht => hp (decide_eq_true ht)
    exact ⟨rfl, (c.cpu.nmiArmed_writeCoded ht _).trans h⟩
  exchange := by
    rintro c _ ⟨rfl, h⟩ p _ hp
    have hs : p.toNat / 16 ≠ 4 := fun hs => hp (by simp [Instruction.loadsS, hs])
    have ht : p.toNat % 16 ≠ 4 := fun ht => hp (by simp [Instruction.loadsS, ht])
    refine ⟨rfl, ?_⟩
    show (Cpu.writeCoded (Cpu.writeCoded _ _ _) _ _).nmiArmed = false
    rw [Cpu.nmiArmed_writeCoded _ ht, Cpu.nmiArmed_writeCoded _ hs, h]

namespace Likeness

variable {β : Type} [Bus β]

theorem framed_unarmed : (unarmed β).Framed where
  native := by
    rintro c _ ⟨rfl, _⟩
    rfl
  sees _ _ := rfl

theorem whole_unarmed : (unarmed β).Whole where
  sees _ := rfl
  index _ := trivial
  codes _ := trivial
  trapFlags h := by rw [h]
  mode := by
    rintro r _ rfl keep put
    rfl
  combine := by
    rintro c _ ⟨rfl, h⟩ operation p hp
    refine ⟨rfl, (c.cpu.nmiArmed_combine _ fun hw ht => hp ?_).trans h⟩
    simp [Instruction.loadsS, hw, ht]

theorem attentive_unarmed : (unarmed β).Attentive where
  wait := by
    rintro c _ ⟨rfl, _⟩
    rfl
  lines := by
    rintro c _ ⟨rfl, _⟩
    rfl
  armed := by
    rintro c _ ⟨rfl, _⟩
    rfl
  firqEntire := by
    rintro c _ ⟨rfl, _⟩
    rfl
  react := by
    rintro c _ ⟨rfl, h⟩ lines
    exact ⟨rfl, h⟩
  settle := by
    rintro c _ ⟨rfl, h⟩
    exact ⟨rfl, h⟩

end Likeness

/-- A step that arms NMI runs an instruction that loads `S`. -/
theorem Cpu.loadsS_of_armed {β : Type} [Bus β] {cpu : Cpu} {bus : β} (hn : cpu.nmiArmed = false)
    (ha : (cpu.step bus).cpu.nmiArmed = true) :
    cpu.move = .execute ∧ (⟨cpu.awake, bus, 0⟩ : Core β).LoadsS := by
  have h0 : (Likeness.unarmed β).rel ⟨cpu, bus, 0⟩ ⟨cpu, bus, 0⟩ := ⟨rfl, hn⟩
  refine Classical.byContradiction fun hc => ?_
  have hs := Likeness.attentive_unarmed.step h0 rfl rfl (fun _ _ _ _ => Likeness.framed_unarmed)
    fun hm => Likeness.meets_anyInstruction Likeness.whole_unarmed.toFull
      (by rintro c _ ⟨rfl, _⟩; rfl) (Likeness.attentive_unarmed.awake h0)
      (fun _ => Likeness.framed_unarmed) (fun _ => Likeness.whole_unarmed.toModed)
      fun hl => hc ⟨hm, hl⟩
  have hf : (cpu.step bus).cpu.nmiArmed = false := hs.2
  rw [ha] at hf
  exact Bool.noConfusion hf

end ColorComputer
