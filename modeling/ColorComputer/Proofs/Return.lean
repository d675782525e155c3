import ColorComputer.Proofs.Exception
import ColorComputer.Proofs.Stack

/-!
# Returning from a handler

Every way into a handler leaves a frame on the system stack that `RTI` takes for what it is, so a
handler that does nothing but return gives back the registers as they were stacked.

* `regs_returnFromInterrupt` — `RTI` restores what a frame holds.
* `stacked_pushEntire`, `stacked_pushShort` — what stacking leaves behind.
* `Arrived.regs_step` — a handler whose first byte is `RTI` restores what was stacked.
* `regs_return` — the same for every way into a handler.
-/

namespace ColorComputer

/-! ### Frames -/

namespace Frame

/-- The frame that `RTI` takes from E and the mode. -/
def told (native entire : Bool) : List RegisterName := if entire then Frame.entire native else short

theorem pointer_not_mem_told (native entire : Bool) :
    .word Stack.system.pointer ∉ told native entire := by
  cases native <;> cases entire <;> decide

theorem totalSize_told_le (native entire : Bool) :
    RegisterName.totalSize (told native entire) ≤ 65536 := by
  cases native <;> cases entire <;> decide

theorem reverse_told (native entire : Bool) :
    (told native entire).reverse = .byte .cc :: (told native entire).reverse.tail := by
  cases native <;> cases entire <;> rfl

end Frame

/-- The registers once a frame was stacked: the pointer moved, and the program counter and the codes
are no longer those that the frame holds. -/
def Registers.behind (saved : Registers) (size : Nat) (pc : Word) (cc : ConditionCodes) :
    Registers :=
  { saved with s := saved.s - BitVec.ofNat 16 size, pc := pc, cc := cc }

/-- Copying a frame back restores what stacking and a handler changed. -/
theorem foldl_copy_told (saved : Registers) (native entire : Bool) (size : Nat) (pc : Word)
    (cc : ConditionCodes) :
    ((Frame.told native entire).reverse.foldl saved.copy (saved.behind size pc cc)).setWord .s
      saved.s = saved := by
  obtain ⟨a, b, x, y, u, s, p, dp, k, e, f, v, md⟩ := saved
  cases native <;> cases entire <;>
    simp [Frame.told, Frame.entire, Frame.short, Registers.copy, Registers.behind,
      Registers.setByte, Registers.setWord, Registers.byte, Registers.word, Registers.setW,
      Registers.w]

/-! ### `RTI` -/

namespace Exec

/-- Once the codes were pulled, E tells what else there is to pull. -/
theorem regs_pullRest {saved : Registers} {c : Core FlatMemory} {rest : List RegisterName}
    (hn : .word Stack.system.pointer ∉ rest) (h : Holds c .system saved rest)
    (hr : rest = (Frame.told c.cpu.native c.cpu.regs.cc.entire).reverse.tail) :
    ((if c.cpu.regs.cc.entire then (do
        let native ← isNative
        charge (if native then 11 else 9)
        pullAll .system (Frame.entire native).reverse.tail : Exec FlatMemory Unit)
      else pullAll .system Frame.short.reverse.tail) c).2.cpu.regs =
      (pullAll .system rest c).2.cpu.regs := by
  cases he : c.cpu.regs.cc.entire with
  | true =>
    have hx : rest = (Frame.entire c.cpu.native).reverse.tail := by rw [hr, he]; rfl
    rw [if_pos rfl, regs_pullAll hn c h]
    show (pullAll .system (Frame.entire c.cpu.native).reverse.tail (c.charge _)).2.cpu.regs = _
    rw [← hx]
    exact regs_pullAll hn (c.charge _) h
  | false =>
    have hx : rest = Frame.short.reverse.tail := by rw [hr, he]; rfl
    rw [if_neg Bool.false_ne_true, ← hx]

/-- `RTI` restores what a frame holds. -/
theorem regs_returnFromInterrupt {saved : Registers} {c : Core FlatMemory} {pc : Word}
    {cc : ConditionCodes}
    (hh : Holds c .system saved (Frame.told c.cpu.native saved.cc.entire).reverse)
    (hr : c.cpu.regs = saved.behind
      (RegisterName.totalSize (Frame.told c.cpu.native saved.cc.entire)) pc cc) :
    (returnFromInterrupt c).2.cpu.regs = saved := by
  have hn := Frame.pointer_not_mem_told c.cpu.native saved.cc.entire
  have hsplit := Frame.reverse_told c.cpu.native saved.cc.entire
  have hh' := hh
  rw [hsplit] at hh'
  obtain ⟨hrest, _, hc⟩ := hh'.pull (fun he => RegisterName.noConfusion he)
  have hcc : (pullRegister .system (.byte .cc) c).2.cpu.regs.cc = saved.cc := by
    rw [hc]
    exact ConditionCodes.ofByte_toByte saved.cc
  have hnative : (pullRegister .system (.byte .cc) c).2.cpu.native = c.cpu.native := rfl
  -- The codes come off first; what they say decides about the rest of the frame.
  have hx : (returnFromInterrupt c).2.cpu.regs =
      (pullAll .system (Frame.told c.cpu.native saved.cc.entire).reverse c).2.cpu.regs := by
    rw [hsplit]
    have hq : (Frame.told c.cpu.native saved.cc.entire).reverse.tail =
        (Frame.told (pullRegister .system (.byte .cc) c).2.cpu.native
          (pullRegister .system (.byte .cc) c).2.cpu.regs.cc.entire).reverse.tail := by
      rw [hcc, hnative]
    refine regs_pullRest (fun hm => hn (List.mem_reverse.1 (List.mem_of_mem_tail hm))) hrest hq
  have hs : c.cpu.regs.word Stack.system.pointer + BitVec.ofNat 16
      (RegisterName.totalSize (Frame.told c.cpu.native saved.cc.entire).reverse) = saved.s := by
    rw [RegisterName.totalSize_reverse, hr]
    exact BitVec.sub_add_cancel _ _
  rw [hx, regs_pullAll (fun hm => hn (List.mem_reverse.1 hm)) c hh, hs, hr]
  exact foldl_copy_told saved _ _ _ pc cc

end Exec

/-! ### A stacked frame -/

/-- The frame of these registers was pushed onto the system stack of this memory, in this mode, and
since then only the program counter and the codes changed. -/
structure Stacked (mem : FlatMemory) (saved : Registers) (native : Bool)
    (c : Core FlatMemory) : Prop where
  mode : c.cpu.native = native
  bus : c.bus = Bus.pushBytes mem saved.s (saved.frameBytes (Frame.told native saved.cc.entire))
  regs : ∃ pc cc, c.cpu.regs =
    saved.behind (RegisterName.totalSize (Frame.told native saved.cc.entire)) pc cc

namespace Stacked

variable {mem : FlatMemory} {saved : Registers} {native : Bool} {c : Core FlatMemory}

theorem holds (h : Stacked mem saved native c) :
    Exec.Holds c .system saved (Frame.told native saved.cc.entire).reverse := by
  obtain ⟨pc, cc, hr⟩ := h.regs
  have hp := Exec.holds_pushed (⟨c.cpu.mapRegs fun _ => saved, mem, 0⟩ : Core FlatMemory) .system
    (Frame.totalSize_told_le native saved.cc.entire)
  have hs : c.cpu.regs.word Stack.system.pointer = saved.s - BitVec.ofNat 16
      (saved.frameBytes (Frame.told native saved.cc.entire)).length := by
    rw [hr, Registers.length_frameBytes]
    rfl
  unfold Exec.Holds at hp ⊢
  rw [h.bus, hs]
  exact hp

theorem setPc (h : Stacked mem saved native c) (a : Word) :
    Stacked mem saved native (c.mapCpu (·.mapRegs fun r => { r with pc := a })) := by
  obtain ⟨pc, cc, hr⟩ := h.regs
  refine ⟨h.mode, h.bus, a, cc, ?_⟩
  show { c.cpu.regs with pc := a } = _
  rw [hr]
  rfl

theorem mapCodes (h : Stacked mem saved native c) (f : ConditionCodes → ConditionCodes) :
    Stacked mem saved native (c.mapCpu (·.mapRegs fun r => { r with cc := f r.cc })) := by
  obtain ⟨pc, cc, hr⟩ := h.regs
  refine ⟨h.mode, h.bus, pc, f c.cpu.regs.cc, ?_⟩
  show { c.cpu.regs with cc := f c.cpu.regs.cc } = _
  rw [hr]
  rfl

end Stacked

theorem stacked_pushed (c : Core FlatMemory) : Stacked c.bus c.cpu.regs c.cpu.native
    (c.pushed .system
      (c.cpu.regs.frameBytes (Frame.told c.cpu.native c.cpu.regs.cc.entire))) := by
  obtain ⟨cpu, bus, cycles⟩ := c
  refine ⟨rfl, rfl, cpu.regs.pc, cpu.regs.cc, ?_⟩
  simp only [Core.pushed, Cpu.mapRegs, Registers.length_frameBytes]
  rfl

theorem stacked_pushEntire (c : Core FlatMemory) :
    Stacked c.bus (c.cpu.regs.marked true) c.cpu.native (Exec.pushEntire c).2 ∧
      (Exec.pushEntire c).2.cpu.wait = c.cpu.wait := by
  have hn := Frame.pointer_not_mem_told (c.marked true).cpu.native true
  have hx := (Exec.pushEntire_eq c).trans (Exec.pushAll_eq hn (c.marked true))
  rw [hx]
  exact ⟨stacked_pushed (c.marked true), rfl⟩

theorem stacked_pushShort (c : Core FlatMemory) :
    Stacked c.bus (c.cpu.regs.marked false) c.cpu.native (Exec.pushShort c).2 ∧
      (Exec.pushShort c).2.cpu.wait = c.cpu.wait := by
  have hn := Frame.pointer_not_mem_told (c.marked false).cpu.native false
  have hx := (Exec.pushShort_eq c).trans (Exec.pushAll_eq hn (c.marked false))
  rw [hx]
  exact ⟨stacked_pushed (c.marked false), rfl⟩

/-! ### Arriving in a handler -/

/-- The processor arrived in the handler of a vector with this frame on the stack. -/
structure Arrived (mem : FlatMemory) (saved : Registers) (native : Bool) (vector : Word)
    (c : Core FlatMemory) : Prop where
  stacked : Stacked mem saved native c
  wait : c.cpu.wait = .running
  pc : c.cpu.regs.pc = Word.ofBytes (c.bus.peek vector) (c.bus.peek (vector + 1))

theorem Stacked.jumpThrough {mem : FlatMemory} {saved : Registers} {native : Bool}
    {c : Core FlatMemory} (h : Stacked mem saved native c) (hw : c.cpu.wait = .running)
    (vector : Word) : Arrived mem saved native vector (Exec.jumpThrough vector c).2 :=
  ⟨h.setPc _, hw, rfl⟩

namespace Arrived

variable {mem : FlatMemory} {saved : Registers} {native : Bool} {vector : Word}
  {c : Core FlatMemory}

/-- The address of the handler, as the memory held it before the frame was stacked. -/
theorem pc_eq (h : Arrived mem saved native vector c)
    (hv : vector ∉ saved.s.below
      (RegisterName.totalSize (Frame.told native saved.cc.entire)))
    (hv' : vector + 1 ∉ saved.s.below
      (RegisterName.totalSize (Frame.told native saved.cc.entire))) :
    c.cpu.regs.pc = Word.ofBytes (mem.peek vector) (mem.peek (vector + 1)) := by
  rw [← Registers.length_frameBytes saved] at hv hv'
  rw [h.pc, h.stacked.bus, FlatMemory.peek_pushBytes hv, FlatMemory.peek_pushBytes hv']

/-- A handler whose first byte is `RTI` restores what was stacked. -/
theorem regs_step (h : Arrived mem saved native vector c) (hp : c.cpu.lines.anyPending = false)
    (hr : c.bus.peek c.cpu.regs.pc = 0x3B) : (c.cpu.step c.bus).cpu.regs = saved := by
  have hf : (Exec.fetch (⟨c.cpu, c.bus, 0⟩ : Core FlatMemory)).1 = 0x3B := hr
  have ho := Exec.fetchOpcode_of_base (c := (⟨c.cpu, c.bus, 0⟩ : Core FlatMemory))
    (by rw [hf]; decide) (by rw [hf]; decide)
  have hi : (⟨c.cpu, c.bus, 0⟩ : Core FlatMemory).nextInstruction? = some .rti := by
    rw [Core.nextInstruction?, ho, hf]
    show Opcode.decode? .base 0x3B = some .rti
    decide
  have he : c.cpu.variant.executes .rti = true := by cases c.cpu.variant <;> rfl
  -- What the step finds after the fetch is the stacked frame still, with another program counter.
  have hs : Stacked mem saved native ((⟨c.cpu, c.bus, 0⟩ : Core FlatMemory).begun .rti) := by
    unfold Core.begun
    rw [ho]
    have hq := h.stacked.setPc (c.cpu.regs.pc + 1)
    exact ⟨hq.mode, hq.bus, hq.regs⟩
  obtain ⟨pc, cc, hregs⟩ := hs.regs
  rw [Cpu.step_execute (Cpu.move_of_quiet hp h.wait), Cpu.awake_of_running h.wait,
    Exec.perform_of_begun hi he]
  refine Exec.regs_returnFromInterrupt ?_ (by rw [hs.mode]; exact hregs)
  rw [hs.mode]
  exact hs.holds

end Arrived

/-! ### The ways in -/

theorem stacked_stackFrame (line : Interrupt) {wait : WaitState} (hw : wait ≠ .cwai)
    (entire : Bool) (c : Core FlatMemory) :
    Stacked c.bus (c.cpu.regs.marked (line != .firq || entire)) c.cpu.native
        (Exec.stackFrame line wait entire c).2 ∧
      (Exec.stackFrame line wait entire c).2.cpu.wait = c.cpu.wait := by
  rw [Exec.stackFrame_eq hw]
  cases hb : (line != .firq || entire) with
  | true =>
    obtain ⟨hs, hk⟩ := stacked_pushEntire c
    rw [if_pos rfl]
    generalize (Exec.pushEntire c).2 = d at hs hk ⊢
    exact ⟨⟨hs.mode, hs.bus, hs.regs⟩, hk⟩
  | false =>
    obtain ⟨hs, hk⟩ := stacked_pushShort c
    rw [if_neg Bool.false_ne_true]
    generalize (Exec.pushShort c).2 = d at hs hk ⊢
    exact ⟨⟨hs.mode, hs.bus, hs.regs⟩, hk⟩

theorem Stacked.maskAndJump {mem : FlatMemory} {saved : Registers} {native : Bool}
    {c : Core FlatMemory} (h : Stacked mem saved native c) (hw : c.cpu.wait = .running)
    (vector : Word) :
    Arrived mem saved native vector (Exec.jumpThrough vector (Exec.maskBoth c).2).2 :=
  (h.mapCodes fun cc => { cc with firqMask := true, irqMask := true }).jumpThrough hw vector

/-- Masking and jumping is all that is left once the frame is stacked. -/
theorem arrived_of_stacked {line : Interrupt} {wait : WaitState} {mem : FlatMemory}
    {saved : Registers} {native : Bool} {c : Core FlatMemory}
    (hs : Stacked mem saved native (Exec.stackForInterrupt line wait c).2)
    (hk : (Exec.stackForInterrupt line wait c).2.cpu.wait = .running) :
    Arrived mem saved native line.vector (Exec.goToHandler line wait c).2 := by
  rw [Exec.goToHandler_eq]
  generalize (Exec.stackForInterrupt line wait c).2 = d at hs hk ⊢
  split
  · exact (hs.mapCodes fun cc => { cc with irqMask := true }).jumpThrough hk _
  · exact hs.maskAndJump hk _

theorem arrived_enterInterrupt (line : Interrupt) (c : Core FlatMemory)
    (hw : c.cpu.wait ≠ .cwai) :
    Arrived c.bus (c.cpu.regs.marked (c.cpu.stacksEntire line)) c.cpu.native line.vector
      (Exec.enterInterrupt line c).2 := by
  rw [Exec.enterInterrupt_eq]
  have hs := stacked_stackFrame line hw
    (c.cpu.variant.extendedRegisters && c.cpu.regs.firqEntire)
    (c.mapCpu fun cpu => { cpu with lines := c.cpu.lines.consume line, wait := .running })
  exact arrived_of_stacked hs.1 hs.2

theorem arrived_softwareInterrupt (which : SoftwareInterrupt) {c : Core FlatMemory}
    (hw : c.cpu.wait = .running) :
    Arrived c.bus (c.cpu.regs.marked true) c.cpu.native which.vector
      (Exec.softwareInterrupt which c).2 := by
  obtain ⟨hs, hk⟩ := stacked_pushEntire c
  have hr := hk.trans hw
  rw [Exec.softwareInterrupt_eq]
  generalize (Exec.pushEntire c).2 = d at hs hr ⊢
  split
  · exact hs.maskAndJump hr _
  · exact hs.jumpThrough hr _

theorem arrived_trap (reason : Trap) {c : Core FlatMemory} (hw : c.cpu.wait = .running) :
    Arrived c.bus ((c.flagged reason.flag).cpu.regs.marked true) (c.flagged reason.flag).cpu.native
      Trap.vector (Exec.trap reason c).2 := by
  obtain ⟨hs, hk⟩ := stacked_pushEntire (c.flagged reason.flag)
  have hr : (Exec.pushEntire (c.flagged reason.flag)).2.cpu.wait = .running := hk.trans hw
  rw [Exec.trap_eq]
  generalize (Exec.pushEntire (c.flagged reason.flag)).2 = d at hs hr ⊢
  have ha := hs.maskAndJump hr Trap.vector
  exact ⟨⟨ha.stacked.mode, ha.stacked.bus, ha.stacked.regs⟩, ha.wait, ha.pc⟩

/-- After `CWAI` the frame that is on the stack already serves any line. -/
theorem arrived_afterWait {mem : FlatMemory} {saved : Registers} {native : Bool}
    {c : Core FlatMemory} (hs : Stacked mem saved native c) (hw : c.cpu.wait = .cwai)
    (line : Interrupt) : Arrived mem saved native line.vector (Exec.enterInterrupt line c).2 := by
  rw [Exec.enterInterrupt_eq, hw]
  refine arrived_of_stacked ?_ ?_
  · rw [Exec.stackForInterrupt_cwai]
    exact ⟨hs.mode, hs.bus, hs.regs⟩
  · rw [Exec.stackForInterrupt_cwai]
    rfl

theorem Arrived.settled {mem : FlatMemory} {saved : Registers} {native : Bool} {vector : Word}
    {c : Core FlatMemory} (h : Arrived mem saved native vector c) :
    Arrived mem saved native vector c.settled :=
  ⟨⟨h.stacked.mode, h.stacked.bus, h.stacked.regs⟩, h.wait, h.pc⟩

/-- An entry into a handler: what was stacked and how, the bytes of the instruction that led there
(none for a line), and the processor as it starts on the handler. -/
structure Entry where
  stacked : Registers
  entire : Bool
  vector : Word
  flag : Byte
  length : Nat
  handler : Core FlatMemory

/-- The addresses that the frame of an entry takes. -/
def Entry.frame (e : Entry) (native : Bool) : List Word :=
  e.stacked.s.below (RegisterName.totalSize (Frame.told native e.entire))

/-- The ways into a handler: a line, an instruction that raises an exception, and `CWAI` with a line
after it, whatever became of the lines while the processor waited. -/
inductive Enters (cpu : Cpu) (mem : FlatMemory) : Entry → Prop
  | line (line : Interrupt) (hw : cpu.wait ≠ .cwai) (hm : cpu.move = .enter line) :
    Enters cpu mem ⟨cpu.regs, cpu.stacksEntire line, line.vector, 0, 0, cpu.step mem⟩
  | exception (cause : Cause) (n : Nat) (d : Core FlatMemory) (hm : cpu.move = .execute)
    (hr : (⟨cpu.awake, mem, 0⟩ : Core FlatMemory).Raises cause n d) :
    Enters cpu mem ⟨d.cpu.regs, true, cause.vector, cause.flag, n, cpu.step mem⟩
  | wait (line : Interrupt) (lines : InterruptLines) (hm : cpu.move = .execute)
    (hn : (⟨cpu.awake, mem, 0⟩ : Core FlatMemory).nextInstruction? = some .cwai)
    (hl : { (cpu.step mem).cpu with lines := lines }.move = .enter line) :
    Enters cpu mem
      ⟨{ cpu.regs with
          pc := cpu.regs.pc +
            BitVec.ofNat 16 ((⟨cpu.awake, mem, 0⟩ : Core FlatMemory).opcodeLength + 1)
          cc := cpu.regs.cc.keep (⟨cpu.awake, mem, 0⟩ : Core FlatMemory).nextPostbyte },
        true, line.vector, 0, (⟨cpu.awake, mem, 0⟩ : Core FlatMemory).opcodeLength + 1,
        { (cpu.step mem).cpu with lines := lines }.step (cpu.step mem).bus⟩

theorem flag_getLsbD (reason : Trap) : reason.flag.getLsbD 0 = false := by
  cases reason <;> rfl

/-- A trap flag does not change the mode. -/
theorem native_flagged {β : Type} [Bus β] (c : Core β) (reason : Trap) :
    (c.flagged reason.flag).cpu.native = c.cpu.native := by
  show (c.cpu.variant.extendedRegisters && (c.cpu.regs.md ||| reason.flag).getLsbD 0) = _
  rw [BitVec.getLsbD_or, flag_getLsbD, Bool.or_false]
  rfl

theorem arrived_enter (cause : Cause) {c : Core FlatMemory} (hw : c.cpu.wait = .running) :
    Arrived c.bus ((c.flagged cause.flag).cpu.regs.marked true) c.cpu.native cause.vector
      (cause.enter c).2 := by
  cases cause with
  | software which =>
    have hz : (c.flagged 0).cpu.regs = c.cpu.regs := by
      show { c.cpu.regs with md := c.cpu.regs.md ||| 0#8 } = _
      rw [BitVec.or_zero]
    show Arrived c.bus ((c.flagged 0).cpu.regs.marked true) _ _ _
    rw [hz]
    exact arrived_softwareInterrupt which hw
  | trap reason =>
    have ha := arrived_trap reason hw
    rwa [native_flagged] at ha

theorem wait_awake_of_execute {cpu : Cpu} (hm : cpu.move = .execute) :
    cpu.awake.wait = .running := by
  unfold Cpu.move at hm
  split at hm
  · exact Move.noConfusion hm
  · split at hm
    · assumption
    · exact Move.noConfusion hm

@[simp] theorem native_awake (cpu : Cpu) : cpu.awake.native = cpu.native := by
  rw [Cpu.native, Cpu.native, Cpu.variant_awake, Cpu.regs_awake]

namespace Enters

variable {cpu : Cpu} {mem : FlatMemory} {e : Entry}

/-- The return address: the interrupted instruction for a line, else the byte behind the instruction
that was fetched. -/
theorem pc_stacked (h : Enters cpu mem e) :
    e.stacked.pc = cpu.regs.pc + BitVec.ofNat 16 e.length := by
  cases h with
  | line line hw hm => exact (BitVec.add_zero cpu.regs.pc).symm
  | exception cause n d hm hr =>
    have hf := (Fetched.of_raises hr).pc
    rwa [Cpu.regs_awake] at hf
  | wait line lines hm hn hl => rfl

/-- Every way in arrives in the handler with a frame that `RTI` takes for what it is. -/
theorem arrived (h : Enters cpu mem e) :
    Arrived mem ({ e.stacked with md := e.stacked.md ||| e.flag }.marked e.entire) cpu.native
      e.vector e.handler := by
  have hz : ∀ b : Byte, b ||| 0 = b := fun b => BitVec.or_zero
  cases h with
  | line line hw hm =>
    have hk : cpu.awake.wait ≠ .cwai := by
      rcases cpu.awake_eq_or with ha | ⟨_, ha⟩
      · rwa [ha]
      · rw [ha]
        exact fun hc => WaitState.noConfusion hc
    have ha := arrived_enterInterrupt line ⟨cpu.awake, mem, 0⟩ hk
    dsimp only
    rw [hz, Cpu.step_enter hm]
    rw [native_awake, Cpu.regs_awake, Cpu.stacksEntire_awake] at ha
    exact ha.settled
  | exception cause n d hm hr =>
    have hf := Fetched.of_raises hr
    have ha := arrived_enter cause (hf.wait.trans (wait_awake_of_execute hm))
    rw [hf.bus, hf.native, native_awake] at ha
    dsimp only
    rw [Cpu.step_execute hm, Exec.runInstruction_of_raises hr]
    exact ha.settled
  | wait line lines hm hn hl =>
    have he : cpu.awake.variant.executes .cwai = true := by cases cpu.awake.variant <;> rfl
    have hf : Fetched _ ⟨cpu.awake, mem, 0⟩
        (Exec.masked ((⟨cpu.awake, mem, 0⟩ : Core FlatMemory).begun .cwai)) :=
      (Fetched.begun _ _).trans (Fetched.masked _)
    have hs := (stacked_pushEntire
      (Exec.masked ((⟨cpu.awake, mem, 0⟩ : Core FlatMemory).begun .cwai))).1
    rw [hf.bus, hf.native, native_awake, Exec.regs_masked_begun, Cpu.regs_awake] at hs
    dsimp only
    rw [hz, Cpu.step_enter hl]
    rw [Cpu.step_execute hm, Exec.perform_of_begun hn he, Exec.cwai_eq] at hl ⊢
    generalize (Exec.pushEntire
      (Exec.masked ((⟨cpu.awake, mem, 0⟩ : Core FlatMemory).begun .cwai))).2 = p at hs hl ⊢
    have hw : ({ (p.mapCpu fun cpu => { cpu with wait := .cwai }).settled.cpu with
        lines := lines } : Cpu).wait = .cwai := rfl
    rw [Cpu.awake_of_cwai hw]
    have hc : Stacked mem _ _ (⟨{ (p.mapCpu fun cpu => { cpu with wait := .cwai }).settled.cpu with
        lines := lines }, p.bus, 0⟩ : Core FlatMemory) := ⟨hs.mode, hs.bus, hs.regs⟩
    exact (arrived_afterWait hc hw line).settled

end Enters

/-- Every entry is undone by `RTI`: the registers are those that were stacked, with E telling the
frame and, after a trap, its flag; and the program goes on at the return address. -/
theorem regs_return {cpu : Cpu} {mem : FlatMemory} {e : Entry} (h : Enters cpu mem e)
    (hp : e.handler.cpu.lines.anyPending = false) (hv : e.vector ∉ e.frame cpu.native)
    (hw : e.vector + 1 ∉ e.frame cpu.native)
    (hf : Word.ofBytes (mem.peek e.vector) (mem.peek (e.vector + 1)) ∉ e.frame cpu.native)
    (hr : mem.peek (Word.ofBytes (mem.peek e.vector) (mem.peek (e.vector + 1))) = 0x3B) :
    (e.handler.cpu.step e.handler.bus).cpu.regs =
        { e.stacked with
          cc := { e.stacked.cc with entire := e.entire }
          md := e.stacked.md ||| e.flag } ∧
      e.stacked.pc = cpu.regs.pc + BitVec.ofNat 16 e.length := by
  have ha := h.arrived
  refine ⟨ha.regs_step hp ?_, h.pc_stacked⟩
  rw [ha.pc_eq hv hw, ha.stacked.bus, FlatMemory.peek_pushBytes, hr]
  rw [Registers.length_frameBytes]
  exact hf

/-- A processor in native mode whose NMI line asks to be served. -/
def Cpu.nmiDue : Cpu :=
  { Cpu.fresh .hitachi with
    regs := { Registers.zeros with s := 0x1000, md := 0x01 }
    lines := InterruptLines.idle.assert .nmi
    nmiArmed := true }

/-- Memory that holds zeros but for an `RTI` at address zero, where every vector leads. -/
def FlatMemory.returnAtZero : FlatMemory := zeros.write 0 0x3B

theorem FlatMemory.peek_returnAtZero {a : Word} (h : a ≠ 0) : returnAtZero.peek a = 0 := by
  rw [returnAtZero, peek_write, if_neg h.symm, peek_zeros]

theorem regs_return_nmi :
    ((Cpu.nmiDue.step FlatMemory.returnAtZero).cpu.step
        (Cpu.nmiDue.step FlatMemory.returnAtZero).bus).cpu.regs = Cpu.nmiDue.regs.marked true := by
  have hm : Cpu.nmiDue.move = .enter .nmi := by decide
  have he : Enters Cpu.nmiDue FlatMemory.returnAtZero
      ⟨Cpu.nmiDue.regs, Cpu.nmiDue.stacksEntire .nmi, Interrupt.nmi.vector, 0, 0,
        Cpu.nmiDue.step FlatMemory.returnAtZero⟩ := Enters.line .nmi (by decide) hm
  have hl : (Cpu.nmiDue.step FlatMemory.returnAtZero).cpu.lines.anyPending = false := by
    rw [Cpu.lines_step_enter hm]
    decide
  have hz : Word.ofBytes (FlatMemory.returnAtZero.peek Interrupt.nmi.vector)
      (FlatMemory.returnAtZero.peek (Interrupt.nmi.vector + 1)) = 0 := by
    rw [FlatMemory.peek_returnAtZero (by decide), FlatMemory.peek_returnAtZero (by decide)]
    decide
  have hk : FlatMemory.returnAtZero.peek 0 = 0x3B := by
    rw [FlatMemory.returnAtZero, FlatMemory.peek_write, if_pos rfl]
  generalize Cpu.nmiDue.step FlatMemory.returnAtZero = c at he hl ⊢
  have hb : Entry.frame
      ⟨Cpu.nmiDue.regs, Cpu.nmiDue.stacksEntire .nmi, Interrupt.nmi.vector, 0, 0, c⟩
      Cpu.nmiDue.native = (0x1000 : Word).below 14 := by
    rw [Entry.frame, show RegisterName.totalSize (Frame.told Cpu.nmiDue.native
      (Cpu.nmiDue.stacksEntire .nmi)) = 14 by decide]
    rfl
  have hv : Interrupt.nmi.vector ∉ (0x1000 : Word).below 14 := by decide
  have hv' : Interrupt.nmi.vector + 1 ∉ (0x1000 : Word).below 14 := by decide
  have h := regs_return he hl (by rw [hb]; exact hv) (by rw [hb]; exact hv')
    (by rw [hb, hz]; decide) (by rw [hz, hk])
  rw [show Cpu.nmiDue.regs.md ||| 0 = Cpu.nmiDue.regs.md from BitVec.or_zero] at h
  exact h.1

end ColorComputer
