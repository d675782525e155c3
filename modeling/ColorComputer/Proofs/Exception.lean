import ColorComputer.Bus.FlatMemory
import ColorComputer.Proofs.Likeness.Step

/-!
# Instructions that raise exceptions

An instruction may end in a software interrupt or a trap. What it does before that is to fetch and
to read; this module says which instructions raise what, how long they are, and in which state the
exception finds the processor.

* `runInstruction_of_raises` — from there on the instruction is the exception and nothing else.
-/

namespace ColorComputer

/-- Why an instruction leaves for a handler. -/
inductive Cause
  | software (which : SoftwareInterrupt)
  | trap (reason : Trap)
  deriving DecidableEq

namespace Cause

/-- Where the address of the handler is found. -/
def vector : Cause → Word
  | software which => which.vector
  | trap _ => Trap.vector

/-- The bit of the mode register that remembers the exception, if one does. -/
def flag : Cause → Byte
  | software _ => 0
  | trap reason => reason.flag

/-- What the processor does about it. -/
def enter {β : Type} [Bus β] : Cause → Exec β Unit
  | software which => Exec.softwareInterrupt which
  | trap reason => Exec.trap reason

end Cause

/-! ### Lengths -/

/-- The bytes of an opcode with its page byte. -/
def Page.length : Page → Nat
  | .base => 1
  | .page10 => 2
  | .page11 => 2

/-- The bytes that follow the postbyte of an indexed mode. -/
def IndexForm.length : IndexForm → Nat
  | .byteOffset _ => 1
  | .wordOffset _ => 2
  | .absolute => 2
  | _ => 0

/-- The register that a form moves. -/
def IndexForm.moved? : IndexForm → Option WordRegister
  | .increment base _ => some base
  | .decrement base _ => some base
  | _ => none

/-- The bytes by which a memory mode is described, the first of them given. -/
def MemoryMode.length (variant : Variant) (first : Byte) : MemoryMode → Nat
  | .direct => 1
  | .indexed => 1 + (Postbyte.decode variant first).form.length
  | .extended => 2

/-- The bytes of an operand that is `size` bytes wide. -/
def Operand.length (variant : Variant) (first : Byte) (size : Nat) : Operand → Nat
  | .immediate => size
  | .memory mode => mode.length variant first

/-! ### Causes -/

namespace Core

variable {β : Type} [Bus β]

/-- The core with a trap remembered in the mode register. -/
def flagged (c : Core β) (flag : Byte) : Core β :=
  c.mapCpu (·.mapRegs fun r => { r with md := r.md ||| flag })

/-- The bytes of the opcode at the program counter. -/
def opcodeLength (c : Core β) : Nat := (Exec.fetchOpcode c).1.1.length

/-- The instruction at the program counter raises an exception: the cause, the bytes of the
instruction, and the core that the exception finds. -/
inductive Raises (c : Core β) : Cause → Nat → Core β → Prop
  | undefined (hn : c.nextInstruction? = none) (hv : c.cpu.variant.trapsUndefined = true) :
    Raises c (.trap .undefinedInstruction) c.opcodeLength (Exec.fetchOpcode c).2
  | software (which : SoftwareInterrupt) (hn : c.nextInstruction? = some (.swi which)) :
    Raises c (.software which) c.opcodeLength (c.begun (.swi which))
  | bit (i : Instruction) (hn : c.nextInstruction? = some i)
    (hi : i = .storeBit ∨ ∃ operation, i = .bit operation) (hv : c.cpu.variant = .hitachi)
    (hp : Exec.bitRegister? c.nextPostbyte = none) :
    Raises c (.trap .undefinedInstruction) (c.opcodeLength + 2)
      (Exec.effectiveAddress .direct (Exec.fetch (c.begun i)).2).2
  | block (step : BlockStep) (hn : c.nextInstruction? = some (.blockTransfer step))
    (hv : c.cpu.variant = .hitachi)
    (hp : Exec.blockRegister? (c.nextPostbyte.toNat / 16) = none ∨
      Exec.blockRegister? (c.nextPostbyte.toNat % 16) = none) :
    Raises c (.trap .undefinedInstruction) (c.opcodeLength + 1)
      (Exec.fetch (c.begun (.blockTransfer step))).2
  | divideD (operand : Operand) (hn : c.nextInstruction? = some (.divideD operand))
    (hv : c.cpu.variant = .hitachi)
    (hz : (Exec.operandByte operand (c.begun (.divideD operand))).1 = 0) :
    Raises c (.trap .divisionByZero)
      (c.opcodeLength + operand.length .hitachi c.nextPostbyte 1)
      (Exec.operandByte operand (c.begun (.divideD operand))).2
  | divideQ (operand : Operand) (hn : c.nextInstruction? = some (.divideQ operand))
    (hv : c.cpu.variant = .hitachi)
    (hz : (Exec.operandWord operand (c.begun (.divideQ operand))).1 = 0) :
    Raises c (.trap .divisionByZero)
      (c.opcodeLength + operand.length .hitachi c.nextPostbyte 2)
      (Exec.operandWord operand (c.begun (.divideQ operand))).2

end Core

namespace Exec

theorem bind_apply {β α γ : Type} (x : Exec β α) (f : α → Exec β γ) (c : Core β) :
    (x >>= f) c = f (x c).1 (x c).2 := rfl

variable {β : Type} [Bus β]

theorem runInstruction_of_none {c : Core β} (hn : c.nextInstruction? = none) :
    runInstruction c =
      undefinedInstruction ((fetchOpcode c).1.1 != Page.base) (fetchOpcode c).2 := by
  rw [runInstruction_eq]
  have hx : ∀ (page : Page) (opcode : Byte) (d : Core β), Opcode.decode? page opcode = none →
      runOpcode page opcode d = undefinedInstruction (page != Page.base) d := by
    intro page opcode d hd
    rw [runOpcode_eq, hd]
  exact hx _ _ _ hn

theorem executes_hitachi {v : Variant} (h : v = .hitachi) (i : Instruction) :
    v.executes i = true := by
  rw [h]
  rfl

theorem hitachi_of_extended {v : Variant} {i : Instruction} (he : v.executes i = true)
    (hx : i.extended = true) : v = .hitachi := by
  cases v with
  | hitachi => rfl
  | motorola => simp [Variant.executes, Variant.extendedRegisters, hx] at he

/-- A part that does not trap passes over what it does not know. -/
theorem undefinedInstruction_of_untrapped {c : Core β} (h : c.cpu.variant.trapsUndefined = false)
    (behind : Bool) : undefinedInstruction behind c =
      (charge (if behind then 3 else 2) : Exec β Unit) c := by
  show (if c.cpu.variant.trapsUndefined then (trap .undefinedInstruction : Exec β Unit)
    else charge (if behind then 3 else 2)) c = _
  rw [if_neg (Bool.eq_false_iff.1 h)]

theorem perform_of_begun {c : Core β} {i : Instruction} (hn : c.nextInstruction? = some i)
    (hv : c.cpu.variant.executes i = true) : runInstruction c = perform i (c.begun i) :=
  Likeness.runInstruction_of_next hn hv

theorem withBitOperands_eq (action : ByteRegister → Word → Nat → Nat → Exec β Unit)
    (d : Core β) : withBitOperands action d = (match bitRegister? d.nextByte with
      | some name => action name (effectiveAddress .direct (fetch d).2).1
          (d.nextByte.toNat / 8 % 8) (d.nextByte.toNat % 8)
      | none => trap .undefinedInstruction) (effectiveAddress .direct (fetch d).2).2 := rfl

theorem withBitOperands_of_none {action : ByteRegister → Word → Nat → Nat → Exec β Unit}
    {d : Core β} (h : bitRegister? d.nextByte = none) :
    withBitOperands action d =
      trap .undefinedInstruction (effectiveAddress .direct (fetch d).2).2 := by
  rw [withBitOperands_eq, h]

theorem blockTransfer_eq (step : BlockStep) (d : Core β) : blockTransfer step d =
    (match blockRegister? (d.nextByte.toNat / 16), blockRegister? (d.nextByte.toNat % 16) with
      | some source, some target =>
        (registers >>= fun r => copyBytes source target step r.w.toNat : Exec β Unit)
      | _, _ => trap .undefinedInstruction) (fetch d).2 := rfl

theorem blockTransfer_of_none {step : BlockStep} {d : Core β}
    (h : blockRegister? (d.nextByte.toNat / 16) = none ∨
      blockRegister? (d.nextByte.toNat % 16) = none) :
    blockTransfer step d = trap .undefinedInstruction (fetch d).2 := by
  rw [blockTransfer_eq]
  rcases h with h | h
  · rw [h]
  · rw [h]
    cases blockRegister? (d.nextByte.toNat / 16) <;> rfl

/-! ### Exceptions, action by action -/

theorem softwareInterrupt_eq (which : SoftwareInterrupt) (c : Core β) :
    softwareInterrupt which c = jumpThrough which.vector
      (if which.masks then (maskBoth (pushEntire c).2).2 else (pushEntire c).2) := by
  unfold softwareInterrupt
  rw [bind_apply]
  generalize (pushEntire c).2 = d
  cases which <;> rfl

theorem trap_eq (reason : Trap) (c : Core β) :
    trap reason c = (do charge (if ← isNative then 22 else 20) : Exec β Unit)
      (jumpThrough Trap.vector (maskBoth (pushEntire (c.flagged reason.flag)).2).2).2 := by
  have hm : (modifyRegs (fun r => { r with md := r.md ||| reason.flag }) c).2 =
      c.flagged reason.flag := rfl
  unfold trap
  rw [bind_apply, hm, bind_apply]
  generalize (pushEntire (c.flagged reason.flag)).2 = d
  rfl

theorem stackFrame_eq {line : Interrupt} {wait : WaitState} (hw : wait ≠ .cwai) (entire : Bool)
    (c : Core β) : stackFrame line wait entire c =
      if line != .firq || entire then
        (do charge (if ← isNative then 21 else 19) : Exec β Unit) (pushEntire c).2
      else (charge 10 : Exec β Unit) (pushShort c).2 := by
  unfold stackFrame
  rw [if_neg hw]
  split
  · exact bind_apply _ _ c
  · exact bind_apply _ _ c

theorem goToHandler_eq (line : Interrupt) (wait : WaitState) (c : Core β) :
    goToHandler line wait c = jumpThrough line.vector
      (if line = .irq then (maskIrq (stackForInterrupt line wait c).2).2
        else (maskBoth (stackForInterrupt line wait c).2).2) := by
  unfold goToHandler
  rw [bind_apply]
  generalize (stackForInterrupt line wait c).2 = d
  cases line <;> rfl

/-- After `CWAI` there is nothing left to stack. -/
theorem stackForInterrupt_cwai (line : Interrupt) (c : Core β) :
    stackForInterrupt line .cwai c = charge 7 c := by
  rw [stackForInterrupt_eq, stackFrame, if_pos rfl]

/-- The core once `CWAI` has its mask. -/
def masked (c : Core β) : Core β :=
  (fetch c).2.mapCpu (·.mapRegs fun r => { r with cc := r.cc.keep c.nextByte })

theorem cwai_eq (c : Core β) : perform .cwai c =
    ((), (pushEntire (masked c)).2.mapCpu fun cpu => { cpu with wait := .cwai }) := by
  have hx : (perform .cwai : Exec β Unit) = (do
      let mask ← fetch
      modifyRegs fun r => { r with cc := r.cc.keep mask }
      pushEntire
      modifyCpu fun cpu => { cpu with wait := .cwai }) := rfl
  have hm : (modifyRegs (fun r => { r with cc := r.cc.keep (fetch c).1 }) (fetch c).2).2 =
      masked c := rfl
  rw [hx, bind_apply, bind_apply, hm, bind_apply]
  generalize (pushEntire (masked c)).2 = d
  rfl

/-- Fetching an opcode moves the program counter and no other register. -/
theorem regs_fetchOpcode (c : Core β) : (fetchOpcode c).2.cpu.regs =
    { c.cpu.regs with pc := c.cpu.regs.pc + BitVec.ofNat 16 c.opcodeLength } := by
  have h2 : c.cpu.regs.pc + 1 + 1 = c.cpu.regs.pc + BitVec.ofNat 16 2 := BitVec.add_assoc _ _ _
  unfold Core.opcodeLength
  rw [fetchOpcode_eq]
  split
  · exact congrArg (fun a => { c.cpu.regs with pc := a }) h2
  · split
    · exact congrArg (fun a => { c.cpu.regs with pc := a }) h2
    · rfl

/-- The registers that `CWAI` stacks. -/
theorem regs_masked_begun (c : Core β) : (masked (c.begun .cwai)).cpu.regs =
    { c.cpu.regs with
      pc := c.cpu.regs.pc + BitVec.ofNat 16 (c.opcodeLength + 1)
      cc := c.cpu.regs.cc.keep c.nextPostbyte } := by
  have hx : (masked (c.begun .cwai)).cpu.regs = { (fetchOpcode c).2.cpu.regs with
      pc := (fetchOpcode c).2.cpu.regs.pc + 1
      cc := (fetchOpcode c).2.cpu.regs.cc.keep c.nextPostbyte } := rfl
  rw [hx, regs_fetchOpcode, BitVec.ofNat_add, ← BitVec.add_assoc]
  rfl

/-! ### Instructions that raise -/

/-- From where it raises its exception, an instruction is the exception and nothing else. -/
theorem runInstruction_of_raises {c d : Core β} {cause : Cause} {n : Nat}
    (h : c.Raises cause n d) : runInstruction c = cause.enter d := by
  cases h with
  | undefined hn hv =>
    rw [runInstruction_of_none hn]
    have hd : (fetchOpcode c).2.cpu.variant.trapsUndefined = true := by
      rw [(fetchOpcode_frame c).1]
      exact hv
    show (if (fetchOpcode c).2.cpu.variant.trapsUndefined then
      (trap .undefinedInstruction : Exec β Unit) else charge _) _ = _
    rw [if_pos hd]
    rfl
  | software which hn =>
    have hx : ∀ d : Core β, perform (.swi which) d = softwareInterrupt which d := fun d => rfl
    rw [perform_of_begun hn (by cases c.cpu.variant <;> rfl), hx]
    rfl
  | bit i hn hi hv hp =>
    rw [perform_of_begun hn (executes_hitachi hv i)]
    have hb : bitRegister? (c.begun i).nextByte = none := hp
    rcases hi with rfl | ⟨operation, rfl⟩
    · show storeBit (c.begun .storeBit) = _
      unfold storeBit
      exact withBitOperands_of_none hb
    · show bitOperation operation (c.begun (.bit operation)) = _
      unfold bitOperation
      exact withBitOperands_of_none hb
  | block step hn hv hp =>
    rw [perform_of_begun hn (executes_hitachi hv _)]
    exact blockTransfer_of_none hp
  | divideD operand hn hv hz =>
    rw [perform_of_begun hn (executes_hitachi hv _)]
    show (if (operandByte operand (c.begun (.divideD operand))).1 = 0 then
      (trap .divisionByZero : Exec β Unit) else _) _ = _
    rw [if_pos hz]
    rfl
  | divideQ operand hn hv hz =>
    rw [perform_of_begun hn (executes_hitachi hv _)]
    show (if (operandWord operand (c.begun (.divideQ operand))).1 = 0 then
      (trap .divisionByZero : Exec β Unit) else _) _ = _
    rw [if_pos hz]
    rfl

end Exec

/-! ### What is fetched and read -/

/-- From one core to the other, so many bytes were fetched from flat memory and nothing was written;
of the registers only the program counter and an index register moved. -/
structure Fetched (n : Nat) (c d : Core FlatMemory) : Prop where
  bus : d.bus = c.bus
  pc : d.cpu.regs.pc = c.cpu.regs.pc + BitVec.ofNat 16 n
  md : d.cpu.regs.md = c.cpu.regs.md
  variant : d.cpu.variant = c.cpu.variant
  wait : d.cpu.wait = c.cpu.wait

namespace Fetched

variable {m n : Nat} {c d e : Core FlatMemory}

theorem refl (c : Core FlatMemory) : Fetched 0 c c :=
  ⟨rfl, (BitVec.add_zero c.cpu.regs.pc).symm, rfl, rfl, rfl⟩

theorem trans (h : Fetched m c d) (h' : Fetched n d e) : Fetched (m + n) c e := by
  refine ⟨h'.bus.trans h.bus, ?_, h'.md.trans h.md, h'.variant.trans h.variant,
    h'.wait.trans h.wait⟩
  rw [h'.pc, h.pc, BitVec.add_assoc, BitVec.ofNat_add]

theorem native (h : Fetched n c d) : d.cpu.native = c.cpu.native := by
  rw [Cpu.native, Cpu.native, Registers.native, Registers.native, h.variant, h.md]

theorem fetch (c : Core FlatMemory) : Fetched 1 c (Exec.fetch c).2 := ⟨rfl, rfl, rfl, rfl, rfl⟩

theorem fetchWord (c : Core FlatMemory) : Fetched 2 c (Exec.fetchWord c).2 :=
  (fetch c).trans (fetch (Exec.fetch c).2)

theorem readByte (c : Core FlatMemory) (a : Word) : Fetched 0 c (Exec.readByte a c).2 := refl c

theorem readWord (c : Core FlatMemory) (a : Word) : Fetched 0 c (Exec.readWord a c).2 := refl c

theorem charge (c : Core FlatMemory) (k : Nat) : Fetched 0 c (c.charge k) :=
  ⟨rfl, (BitVec.add_zero c.cpu.regs.pc).symm, rfl, rfl, rfl⟩

theorem masked (c : Core FlatMemory) : Fetched 1 c (Exec.masked c) := ⟨rfl, rfl, rfl, rfl, rfl⟩

/-- Moving an index register leaves the program counter alone. -/
theorem setIndex (c : Core FlatMemory) {base : WordRegister} (hb : base ≠ .pc) (v : Word) :
    Fetched 0 c (c.mapCpu (·.mapRegs fun r => r.setWord base v)) := by
  refine ⟨rfl, ?_, ?_, rfl, rfl⟩
  · show (c.cpu.regs.setWord base v).word .pc = _
    rw [Registers.word_setWord_of_ne _ _ hb.symm]
    exact (BitVec.add_zero c.cpu.regs.pc).symm
  · show (c.cpu.regs.setWord base v).md = _
    cases base <;> rfl

theorem moved_ne_pc (variant : Variant) (p : Byte) :
    (Postbyte.decode variant p).form.moved? ≠ some .pc := by
  cases variant <;> revert p <;> decide +kernel

theorem indexFormAddress (c : Core FlatMemory) {form : IndexForm}
    (hm : form.moved? ≠ some .pc) : Fetched form.length c (Exec.indexFormAddress form c).2 := by
  cases form with
  | near | plain | byteRegister | wordRegister => exact refl c
  | increment base amount | decrement base amount =>
    exact setIndex c (fun hb => hm (congrArg some hb)) _
  | byteOffset base => exact fetch c
  | wordOffset base | absolute => exact fetchWord c

theorem indexedAddress (c : Core FlatMemory) :
    Fetched (1 + (Postbyte.decode c.cpu.variant c.nextByte).form.length) c
      (Exec.indexedAddress c).2 := by
  have hx : Exec.indexedAddress c =
      Exec.resolve (Postbyte.decode c.cpu.variant c.nextByte) (Exec.fetch c).2 := rfl
  rw [hx]
  refine (fetch c).trans ?_
  have hm := moved_ne_pc c.cpu.variant c.nextByte
  generalize Postbyte.decode c.cpu.variant c.nextByte = meaning at hm
  have hc := charge (Exec.fetch c).2 (meaning.form.cost (Exec.fetch c).2.cpu.native)
  have hf := hc.trans (indexFormAddress ((Exec.fetch c).2.charge _) hm)
  rw [Nat.zero_add] at hf
  obtain ⟨form, indirect⟩ := meaning
  cases indirect with
  | false => exact hf
  | true => exact (hf.trans (charge _ 3)).trans (readWord _ _)

theorem effectiveAddress (c : Core FlatMemory) (mode : MemoryMode) :
    Fetched (mode.length c.cpu.variant c.nextByte) c (Exec.effectiveAddress mode c).2 := by
  cases mode with
  | direct => exact fetch c
  | indexed => exact indexedAddress c
  | extended => exact fetchWord c

theorem operandByte (c : Core FlatMemory) (operand : Operand) :
    Fetched (operand.length c.cpu.variant c.nextByte 1) c (Exec.operandByte operand c).2 := by
  cases operand with
  | immediate => exact fetch c
  | memory mode => exact (effectiveAddress c mode).trans (readByte _ _)

theorem operandWord (c : Core FlatMemory) (operand : Operand) :
    Fetched (operand.length c.cpu.variant c.nextByte 2) c (Exec.operandWord operand c).2 := by
  cases operand with
  | immediate => exact fetchWord c
  | memory mode => exact (effectiveAddress c mode).trans (readWord _ _)

theorem fetchOpcode (c : Core FlatMemory) : Fetched c.opcodeLength c (Exec.fetchOpcode c).2 := by
  unfold Core.opcodeLength
  rw [Exec.fetchOpcode_eq]
  split
  · exact (fetch c).trans (fetch _)
  · split
    · exact (fetch c).trans (fetch _)
    · exact fetch c

theorem begun (c : Core FlatMemory) (i : Instruction) : Fetched c.opcodeLength c (c.begun i) :=
  (fetchOpcode c).trans (charge _ _)

/-- Up to where it raises its exception, an instruction was fetched and nothing was written. -/
theorem of_raises {cause : Cause} (h : c.Raises cause n d) : Fetched n c d := by
  have hb : ∀ i, (c.begun i).cpu.variant = c.cpu.variant := fun i => (begun c i).variant
  cases h with
  | undefined hn hv => exact fetchOpcode c
  | software which hn => exact begun c _
  | bit i hn hi hv hp =>
    exact (begun c i).trans ((fetch _).trans (effectiveAddress _ .direct))
  | block step hn hv hp => exact (begun c _).trans (fetch _)
  | divideD operand hn hv hz =>
    have ho := operandByte (c.begun (.divideD operand)) operand
    rw [hb, hv] at ho
    exact (begun c _).trans ho
  | divideQ operand hn hv hz =>
    have ho := operandWord (c.begun (.divideQ operand)) operand
    rw [hb, hv] at ho
    exact (begun c _).trans ho

end Fetched

end ColorComputer
