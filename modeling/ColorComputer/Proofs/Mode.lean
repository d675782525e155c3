import Mathlib.Data.List.Forall2
import ColorComputer.Proofs.Emulation

/-!
# The two modes

Bit 0 of the mode register puts the Hitachi part into native mode. The mode sets the costs of what
the part does, and decides what a frame of the entire state holds, and that is all: processors that
differ in this bit only are *twins*, and they stay twins, with the same accesses, until one of them
stacks or unstacks such a frame.

* `Likeness.modal` — the likeness of cores whose processors are twins. Their cycles may differ, so
  like cores agree on no frame of the entire state.
* `step_twins` — a step that moves no such frame.
* `trajectory_twins` — a run of such steps under any interrupt inputs.
-/

namespace ColorComputer

namespace Registers

/-- The registers, bit 0 of the mode register aside. -/
def modeAside (r : Registers) : Registers := { r with md := r.md &&& 0xFE }

/-! ### What does not depend on the mode -/

theorem byte_modeAside (r : Registers) (n : ByteRegister) : r.modeAside.byte n = r.byte n := by
  cases n <;> rfl

theorem word_modeAside (r : Registers) (n : WordRegister) : r.modeAside.word n = r.word n := by
  cases n <;> rfl

theorem modeAside_setByte (r : Registers) (n : ByteRegister) (v : Byte) :
    (r.setByte n v).modeAside = r.modeAside.setByte n v := by
  cases n <;> rfl

theorem modeAside_setWord (r : Registers) (n : WordRegister) (v : Word) :
    (r.setWord n v).modeAside = r.modeAside.setWord n v := by
  cases n <;> rfl

/-- The mode register is changed bit by bit. -/
theorem modeAside_setMode (r : Registers) (keep put : Byte) :
    ({ r with md := r.md &&& keep ||| put } : Registers).modeAside =
      { r.modeAside with md := r.modeAside.md &&& keep ||| put &&& 0xFE } := by
  have hb : (r.md &&& keep ||| put) &&& 0xFE = r.md &&& 0xFE &&& keep ||| put &&& 0xFE := by
    ext i hi
    simp only [BitVec.getElem_and, BitVec.getElem_or]
    cases r.md[i] <;> cases keep[i] <;> cases put[i] <;> simp
  exact congrArg (fun md => ({ r with md := md } : Registers)) hb

theorem trapFlags_modeAside (r : Registers) :
    r.modeAside.md &&& Exec.trapFlags = r.md &&& Exec.trapFlags := by
  show r.md &&& 0xFE &&& 0xC0 = r.md &&& 0xC0
  rw [BitVec.and_assoc]
  rfl

theorem cc_eq_of_modeAside {r r' : Registers} (h : r.modeAside = r'.modeAside) : r.cc = r'.cc := by
  show r.modeAside.cc = r'.modeAside.cc
  rw [h]

theorem firqEntire_modeAside (r : Registers) : r.modeAside.firqEntire = r.firqEntire := by
  show (r.md &&& 0xFE).getLsbD 1 = r.md.getLsbD 1
  rw [BitVec.getLsbD_and]
  exact Bool.and_true _

end Registers

namespace Cpu

/-- Processors that differ in bit 0 of the mode register only, and in the cycles that they spent. -/
structure Twins (cpu twin : Cpu) : Prop where
  regs : cpu.regs.modeAside = twin.regs.modeAside
  variant : cpu.variant = twin.variant
  lines : cpu.lines = twin.lines
  armed : cpu.nmiArmed = twin.nmiArmed
  wait : cpu.wait = twin.wait

/-- The processor in the other mode. -/
def switched (cpu : Cpu) : Cpu := { cpu with regs := { cpu.regs with md := cpu.regs.md ^^^ 0x01 } }

theorem twins_switched (cpu : Cpu) : cpu.Twins cpu.switched := by
  refine ⟨?_, rfl, rfl, rfl, rfl⟩
  have hb : ∀ md : Byte, md &&& 0xFE = (md ^^^ 0x01) &&& 0xFE := by decide +kernel
  exact congrArg (fun md => ({ cpu.regs with md := md } : Registers)) (hb cpu.regs.md)

/-! ### Register codes -/

namespace Twins

variable {cpu twin : Cpu}

theorem withRegs (h : cpu.Twins twin) {r r' : Registers} (hr : r.modeAside = r'.modeAside) :
    Twins { cpu with regs := r } { twin with regs := r' } :=
  ⟨hr, h.variant, h.lines, h.armed, h.wait⟩

theorem setByte (h : cpu.Twins twin) (n : ByteRegister) (v : Byte) :
    (cpu.regs.setByte n v).modeAside = (twin.regs.setByte n v).modeAside := by
  rw [Registers.modeAside_setByte, Registers.modeAside_setByte, h.regs]

theorem loadWord (h : cpu.Twins twin) (n : WordRegister) (v : Word) :
    (cpu.loadWord n v).Twins (twin.loadWord n v) := by
  refine ⟨?_, h.variant, h.lines, congrArg (fun armed => armed || decide (n = .s)) h.armed, h.wait⟩
  show (cpu.regs.setWord n v).modeAside = (twin.regs.setWord n v).modeAside
  rw [Registers.modeAside_setWord, Registers.modeAside_setWord, h.regs]

theorem readCoded_eq (h : cpu.Twins twin) (code : Nat) :
    cpu.readCoded code = twin.readCoded code := by
  unfold Cpu.readCoded
  rw [h.variant]
  cases CodedRegister.decode twin.variant code with
  | absent reads => rfl
  | named name =>
    cases name with
    | byte n =>
      dsimp only
      rw [← Registers.byte_modeAside, h.regs, Registers.byte_modeAside]
    | word n =>
      dsimp only
      rw [← Registers.word_modeAside, h.regs, Registers.word_modeAside]

theorem writeCoded (h : cpu.Twins twin) (code : Nat) (value : Datum) :
    (cpu.writeCoded code value).Twins (twin.writeCoded code value) := by
  have hd : CodedRegister.decode cpu.variant code = CodedRegister.decode twin.variant code := by
    rw [h.variant]
  unfold Cpu.writeCoded
  rw [hd]
  cases CodedRegister.decode twin.variant code with
  | absent reads => exact h
  | named name =>
    cases name with
    | byte n => exact h.withRegs (h.setByte n _)
    | word n =>
      dsimp only
      rw [h.variant]
      exact h.loadWord n _

theorem transfer (h : cpu.Twins twin) (source target : Nat) :
    (cpu.transfer source target).Twins (twin.transfer source target) := by
  unfold Cpu.transfer
  rw [h.readCoded_eq]
  exact h.writeCoded target _

theorem exchange (h : cpu.Twins twin) (first second : Nat) :
    (cpu.exchange first second).Twins (twin.exchange first second) := by
  unfold Cpu.exchange
  rw [h.readCoded_eq, h.readCoded_eq]
  exact (h.writeCoded first _).writeCoded second _

theorem setCodes (h : cpu.Twins twin) (cc : ConditionCodes) :
    Twins { cpu with regs := { cpu.regs with cc := cc } }
      { twin with regs := { twin.regs with cc := cc } } :=
  h.withRegs (congrArg (fun r : Registers => { r with cc := cc }) h.regs)

theorem combine (h : cpu.Twins twin) (operation : Binary) (source target : Nat) :
    (cpu.combine operation source target).Twins (twin.combine operation source target) := by
  unfold Cpu.combine
  rw [h.readCoded_eq source, h.readCoded_eq target, Registers.cc_eq_of_modeAside h.regs]
  dsimp only
  cases twin.readCoded target with
  | byte value =>
    dsimp only
    rcases operation.apply twin.regs.cc value (twin.readCoded source).lowByte with ⟨_ | v, cc⟩
    · exact h.setCodes cc
    · exact (h.setCodes cc).writeCoded target _
  | word value =>
    dsimp only
    rcases operation.apply twin.regs.cc value (twin.readCoded source).zeroExtended with
      ⟨_ | v, cc⟩
    · exact h.setCodes cc
    · exact (h.setCodes cc).writeCoded target _

end Twins

end Cpu

/-! ### The likeness -/

/-- Cores on equal buses whose processors are twins. The cycles charged so far may differ. -/
def Likeness.modal (β : Type) [Bus β] : Likeness β where
  sees _ := true
  indexOk _ := True
  codesOk _ := True
  arms := True
  alike r r' := r.modeAside = r'.modeAside
  rel c d := c.cpu.Twins d.cpu ∧ c.bus = d.bus
  sees_base _ := rfl
  byte_eq := by
    intro r r' h n _
    rw [← r.byte_modeAside, h, r'.byte_modeAside]
  word_eq := by
    intro r r' h n _
    rw [← r.word_modeAside, h, r'.word_modeAside]
  cc_eq := Registers.cc_eq_of_modeAside
  setByte := by
    intro r r' h n _ v
    rw [r.modeAside_setByte, r'.modeAside_setByte, h]
  setWord := by
    intro r r' h n _ v
    rw [r.modeAside_setWord, r'.modeAside_setWord, h]
  setCc h cc := congrArg (fun r : Registers => { r with cc := cc }) h
  regs h := h.1.regs
  bus_eq h := h.2
  withRegs h _ _ hr := ⟨h.1.withRegs hr, h.2⟩
  load h _ _ _ v := ⟨h.1.loadWord _ v, h.2⟩
  stop h _ := ⟨⟨h.1.regs, h.1.variant, h.1.lines, h.1.armed, rfl⟩, h.2⟩
  read h a := ⟨h.1, congrArg (fun b => (Bus.read b a).2) h.2⟩
  write h a v := ⟨h.1, congrArg (fun b => Bus.write b a v) h.2⟩
  charge h _ := h
  decode h _ _ := ⟨congrArg (Postbyte.decode · _) h.1.variant, fun _ _ => rfl⟩
  transfer h _ _ _ := ⟨h.1.transfer _ _, h.2⟩
  exchange h _ _ _ := ⟨h.1.exchange _ _, h.2⟩

namespace Likeness

variable {β : Type} [Bus β]

theorem whole_modal : (modal β).Whole where
  sees _ := rfl
  index _ := trivial
  codes _ := trivial
  trapFlags := by
    intro r r' h
    have hm : r.modeAside.md = r'.modeAside.md := congrArg Registers.md h
    rw [← r.trapFlags_modeAside, hm, r'.trapFlags_modeAside]
  mode := by
    intro r r' h keep put
    show Registers.modeAside _ = Registers.modeAside _
    rw [r.modeAside_setMode, r'.modeAside_setMode, show r.modeAside = r'.modeAside from h]
  combine h _ _ _ := ⟨h.1.combine _ _ _, h.2⟩

theorem attentive_modal : (modal β).Attentive where
  wait h := h.1.wait
  lines h := h.1.lines
  armed h := h.1.armed
  firqEntire := by
    intro c d h
    rw [← c.cpu.regs.firqEntire_modeAside, h.1.regs, d.cpu.regs.firqEntire_modeAside, h.1.variant]
  react h _ := ⟨⟨h.1.regs, h.1.variant, rfl, h.1.armed, h.1.wait⟩, h.2⟩
  settle h := ⟨⟨h.1.regs, h.1.variant, h.1.lines, h.1.armed, h.1.wait⟩, h.2⟩

end Likeness

/-! ### Steps and runs -/

section Steps

variable {β : Type} [Bus β]

/-- The next step stacks or unstacks the entire state. After `CWAI` an entry finds it stacked. -/
def Cpu.Frames (cpu : Cpu) (bus : β) : Prop :=
  match cpu.move with
  | .enter line => cpu.wait ≠ .cwai ∧ cpu.stacksEntire line = true
  | .execute => (⟨cpu.awake, bus, 0⟩ : Core β).FramesNext
  | .idle => False

/-- Cores of twins stay so over a step that moves no frame of the entire state. -/
theorem Likeness.modal_step {c d : Core β} (h : (modal β).rel c d) (hf : ¬ c.cpu.Frames c.bus) :
    (modal β).rel (c.cpu.step c.bus) (d.cpu.step d.bus) := by
  have h0 : (modal β).rel ⟨c.cpu, c.bus, 0⟩ ⟨d.cpu, d.bus, 0⟩ := h
  unfold Cpu.Frames at hf
  refine attentive_modal.step (c := ⟨c.cpu, c.bus, 0⟩) (d := ⟨d.cpu, d.bus, 0⟩) h0 rfl rfl ?_ ?_
  · intro line hm hw he
    rw [show c.cpu.move = .enter line from hm] at hf
    exact absurd ⟨hw, he⟩ hf
  · intro hm
    rw [show c.cpu.move = .execute from hm] at hf
    exact meets_anyInstruction whole_modal.toFull (fun h => h.1.variant) (attentive_modal.awake h0)
      (fun hx => absurd hx hf) (fun _ => whole_modal.toModed) fun _ => trivial

/-- Twins are free in the same steps, though a step may cost them differently. -/
theorem Likeness.modal_free {c d : Core β} (h : (modal β).rel c d) :
    (c.cpu.step c.bus).cycles = 0 ↔ (d.cpu.step d.bus).cycles = 0 := by
  rw [Cpu.cycles_step_eq_zero_iff, Cpu.cycles_step_eq_zero_iff, attentive_modal.move_eq h]

/-- A step that stacks or unstacks no frame of the entire state does the same in both modes: the
same accesses in the same order, the same registers, the same state of waiting and of the interrupt
inputs. Only its cost depends on the mode, and whether it costs anything does not. -/
theorem Cpu.step_twins {cpu twin : Cpu} (h : cpu.Twins twin) (bus : Traced β)
    (hf : ¬ cpu.Frames bus) :
    (cpu.step bus).cpu.Twins (twin.step bus).cpu ∧ (cpu.step bus).bus = (twin.step bus).bus ∧
      ((cpu.step bus).cycles = 0 ↔ (twin.step bus).cycles = 0) := by
  have hr : (Likeness.modal (Traced β)).rel ⟨cpu, bus, 0⟩ ⟨twin, bus, 0⟩ := ⟨h, rfl⟩
  have hs := Likeness.modal_step hr hf
  have hz := Likeness.modal_free hr
  exact ⟨hs.1, hs.2, hz⟩

/-- A part loads `A` from where `X` points and moves `X` on, which costs a cycle less in native mode.
If FIRQ is requested before, it enters the handler with a short frame, in either mode. -/
theorem Cpu.step_twins_indexed :
    let bus := Traced.start (FlatMemory.beginning [0xA6, 0x81] (by decide))
    let cpu := Cpu.fresh .hitachi
    let called := cpu.assert .firq
    ((cpu.step bus).cpu.Twins (cpu.switched.step bus).cpu ∧
      (cpu.step bus).bus = (cpu.switched.step bus).bus ∧
      (cpu.step bus).cycles = 7 ∧ (cpu.switched.step bus).cycles = 6) ∧
    (called.step bus).cpu.Twins (called.switched.step bus).cpu ∧
      (called.step bus).bus = (called.switched.step bus).bus := by
  intro bus cpu called
  have hindexed : ¬ cpu.Frames bus := by
    have hm : cpu.move = .execute := by decide
    have hn : (⟨cpu.awake, bus, 0⟩ : Core (Traced FlatMemory)).nextInstruction? =
        some (.binaryByte .load .a (.memory .indexed)) := by decide +kernel
    unfold Cpu.Frames
    rw [hm]
    dsimp only
    unfold Core.FramesNext
    rw [hn]
    exact id
  have hentry : ¬ called.Frames bus := by
    have hm : called.move = .enter .firq := by decide
    have hs : called.stacksEntire .firq = false := by decide
    unfold Cpu.Frames
    rw [hm]
    dsimp only
    rw [hs]
    exact fun h => Bool.false_ne_true h.2
  obtain ⟨ht, hb, -⟩ := Cpu.step_twins (Cpu.twins_switched cpu) bus hindexed
  obtain ⟨ht', hb', -⟩ := Cpu.step_twins (Cpu.twins_switched called) bus hentry
  exact ⟨⟨ht, hb, by decide +kernel, by decide +kernel⟩, ht', hb'⟩

/-- No step under the stimuli stacks or unstacks the entire state. -/
def FramelessRun : List Stimulus → Cpu → β → Prop
  | [], _, _ => True
  | stimulus :: rest, cpu, bus =>
    (stimulus = .step → ¬ cpu.Frames bus) ∧
      FramelessRun rest (stimulus.apply cpu bus).cpu (stimulus.apply cpu bus).bus

theorem modal_apply {c d : Core β} (h : (Likeness.modal β).rel c d) (stimulus : Stimulus)
    (hf : stimulus = .step → ¬ c.cpu.Frames c.bus) :
    (Likeness.modal β).rel (stimulus.apply c.cpu c.bus) (stimulus.apply d.cpu d.bus) := by
  cases stimulus with
  | step => exact Likeness.modal_step h (hf rfl)
  | assert line =>
    exact ⟨⟨h.1.regs, h.1.variant, congrArg (·.assert line) h.1.lines, h.1.armed, h.1.wait⟩, h.2⟩
  | deassert line =>
    exact ⟨⟨h.1.regs, h.1.variant, congrArg (·.deassert line) h.1.lines, h.1.armed, h.1.wait⟩, h.2⟩

/-- Twins under the same stimuli stay twins on the same bus for as long as neither stacks or
unstacks the entire state. -/
theorem trajectory_twins (stimuli : List Stimulus) {cpu twin : Cpu} (h : cpu.Twins twin) (bus : β)
    (hf : FramelessRun stimuli cpu bus) :
    List.Forall₂ (Likeness.modal β).rel (trajectory stimuli cpu bus)
      (trajectory stimuli twin bus) := by
  induction stimuli generalizing cpu twin bus with
  | nil => exact .nil
  | cons stimulus rest ih =>
    obtain ⟨hs, hrest⟩ := hf
    have hr : (Likeness.modal β).rel ⟨cpu, bus, 0⟩ ⟨twin, bus, 0⟩ := ⟨h, rfl⟩
    have ht := modal_apply hr stimulus hs
    have hb : (stimulus.apply cpu bus).bus = (stimulus.apply twin bus).bus := ht.2
    refine .cons ht ?_
    rw [← hb]
    exact ih ht.1 _ hrest

end Steps

end ColorComputer
