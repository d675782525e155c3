import ColorComputer.Machine.Board
import ColorComputer.Proofs.Exception
import ColorComputer.Proofs.Stack

/-!
# Steps of a program

A program is followed step by step where its bus holds still: an address *shows* a byte if reading
it returns the byte and disturbs nothing, and a bus *swallows* a write that changes nothing.

* `runInstruction_of_shows` — an instruction on the base page, from its opcode on.
* `step_unary`, `step_cwai` — instructions by which a program uses a device and waits.
* `step_irq_of_cwai` — the entry that ends the wait.
* `shows_rom`, `shows_vector`, `swallows` — where the board of a machine holds still.
-/

namespace ColorComputer

variable {β : Type} [Bus β]

/-- Reading an address shows a byte and disturbs nothing. -/
def Bus.Shows (bus : β) (a : Word) (v : Byte) : Prop := Bus.read bus a = (v, bus)

/-- The core with another program counter. -/
def Core.at (c : Core β) (pc : Word) : Core β := c.mapCpu (·.mapRegs fun r => { r with pc := pc })

/-! ### Fetching -/

namespace Exec

theorem fetch_of_shows {c : Core β} {v : Byte} (h : Bus.Shows c.bus c.cpu.regs.pc v) :
    fetch c = (v, c.at (c.cpu.regs.pc + 1)) := by
  have hf : fetch c = ((Bus.read c.bus c.cpu.regs.pc).1,
      (c.withBus (Bus.read c.bus c.cpu.regs.pc).2).at (c.cpu.regs.pc + 1)) := rfl
  rw [hf, h]
  rfl

theorem fetchWord_of_shows {c : Core β} {high low : Byte}
    (h : Bus.Shows c.bus c.cpu.regs.pc high) (h' : Bus.Shows c.bus (c.cpu.regs.pc + 1) low) :
    fetchWord c = (Word.ofBytes high low, c.at (c.cpu.regs.pc + 2)) := by
  have hf : fetchWord c = (Word.ofBytes (fetch c).1 (fetch (fetch c).2).1,
      (fetch (fetch c).2).2) := rfl
  have hl : Bus.Shows (c.at (c.cpu.regs.pc + 1)).bus (c.at (c.cpu.regs.pc + 1)).cpu.regs.pc low :=
    h'
  have hp : c.cpu.regs.pc + 1 + 1 = c.cpu.regs.pc + 2 := BitVec.add_assoc _ _ _
  rw [hf, fetch_of_shows h, fetch_of_shows hl]
  exact congrArg (fun a => (Word.ofBytes high low, c.at a)) hp

/-- An instruction on the base page, from its opcode on. -/
theorem runInstruction_of_shows {c : Core β} {opcode : Byte} {i : Instruction}
    (h : Bus.Shows c.bus c.cpu.regs.pc opcode) (hd : Opcode.decode? .base opcode = some i)
    (h10 : opcode ≠ 0x10) (h11 : opcode ≠ 0x11) (he : c.cpu.variant.executes i = true) :
    runInstruction c =
      perform i ((c.at (c.cpu.regs.pc + 1)).charge (i.cost c.cpu.native)) := by
  have hf := fetch_of_shows h
  have ho : fetchOpcode c = ((.base, opcode), c.at (c.cpu.regs.pc + 1)) := by
    rw [fetchOpcode_of_base (by rwa [hf]) (by rwa [hf]), hf]
  have hn : c.nextInstruction? = some i := by
    rw [Core.nextInstruction?, ho]
    exact hd
  rw [perform_of_begun hn he, Core.begun, ho]
  rfl

/-- An operation on a byte at an absolute address, when it hands back a byte. -/
theorem unaryMemory_extended {operation : Unary} {c d : Core β} {address : Word} {value : Byte}
    {cc : ConditionCodes} (hf : fetchWord c = (address, d))
    (ho : operation.apply d.cpu.regs.cc (Bus.read d.bus address).1 = (some value, cc)) :
    unaryMemory operation .extended c = writeByte address value
      (setCodes cc (d.withBus (Bus.read d.bus address).2)).2 := by
  have ha : effectiveAddress .extended c = (address, d) := hf
  have ho' : operation.apply (registers (readByte address d).2).1.cc (readByte address d).1 =
      (some value, cc) := ho
  rw [unaryMemory, bind_apply, ha, bind_apply, bind_apply, ho']
  rfl

theorem readWord_of_shows {c : Core β} {a : Word} {high low : Byte} (h : Bus.Shows c.bus a high)
    (h' : Bus.Shows c.bus (a + 1) low) : readWord a c = (Word.ofBytes high low, c) := by
  have hr : readWord a c = (Word.ofBytes (Bus.read c.bus a).1
      (Bus.read (Bus.read c.bus a).2 (a + 1)).1,
      c.withBus (Bus.read (Bus.read c.bus a).2 (a + 1)).2) := rfl
  rw [hr, h]
  dsimp only
  rw [h']
  rfl

theorem jumpThrough_of_shows {c : Core β} {vector : Word} {high low : Byte}
    (h : Bus.Shows c.bus vector high) (h' : Bus.Shows c.bus (vector + 1) low) :
    jumpThrough vector c = ((), c.at (Word.ofBytes high low)) := by
  have hj : jumpThrough vector c = jump (readWord vector c).1 (readWord vector c).2 := rfl
  rw [hj, readWord_of_shows h h']
  rfl

theorem pushEntire_of_swallows {c : Core β} (h : ∀ a ∈ c.cpu.regs.s.below
    (RegisterName.totalSize (Frame.entire c.cpu.native)), ∀ v, Bus.write c.bus a v = c.bus) :
    pushEntire c = ((), c.mapCpu (·.mapRegs fun r => { r with
      s := r.s - BitVec.ofNat 16 (RegisterName.totalSize (Frame.entire c.cpu.native))
      cc := { r.cc with entire := true } })) := by
  have hn : .word Stack.system.pointer ∉ Frame.entire c.cpu.native := by
    cases c.cpu.native <;> decide
  have hb : ∀ bytes : List Byte,
      bytes.length = RegisterName.totalSize (Frame.entire c.cpu.native) →
      Bus.pushBytes c.bus c.cpu.regs.s bytes = c.bus := by
    intro bytes hl
    refine Bus.pushBytes_of_swallows ?_
    rwa [hl]
  have hl := (c.marked true).cpu.regs.length_frameBytes (Frame.entire c.cpu.native)
  rw [pushEntire_eq, pushAll_eq hn, Core.pushed, hl]
  exact congrArg (fun bus => ((), (⟨_, bus, _⟩ : Core β))) (hb _ hl)

end Exec

/-! ### Steps -/

namespace Cpu

variable {cpu : Cpu} {bus : β} {high low mask : Byte}

/-- An operation on a byte at an absolute address. -/
theorem step_unary {opcode value : Byte} {operation : Unary} {cc : ConditionCodes}
    (hm : cpu.move = .execute) (hw : cpu.wait = .running) (h0 : Bus.Shows bus cpu.regs.pc opcode)
    (hd : Opcode.decode? .base opcode = some (.unaryMemory operation .extended))
    (h10 : opcode ≠ 0x10) (h11 : opcode ≠ 0x11)
    (he : cpu.variant.executes (.unaryMemory operation .extended) = true)
    (h1 : Bus.Shows bus (cpu.regs.pc + 1) high) (h2 : Bus.Shows bus (cpu.regs.pc + 2) low)
    (ho : operation.apply cpu.regs.cc (Bus.read bus (Word.ofBytes high low)).1 =
      (some value, cc)) :
    cpu.step bus = Core.settled (Core.charge
      ⟨{ cpu with regs := { cpu.regs with pc := cpu.regs.pc + 3, cc := cc } },
        Bus.write (Bus.read bus (Word.ofBytes high low)).2 (Word.ofBytes high low) value, 0⟩
      ((Instruction.unaryMemory operation .extended).cost cpu.native)) := by
  let c : Core β := ⟨cpu, bus, 0⟩
  let d : Core β := (c.at (cpu.regs.pc + 1)).charge
    ((Instruction.unaryMemory operation .extended).cost cpu.native)
  have h2' : Bus.Shows bus (cpu.regs.pc + 1 + 1) low := by
    rwa [BitVec.add_assoc]
  have hf : Exec.fetchWord d = (Word.ofBytes high low, d.at (cpu.regs.pc + 1 + 2)) :=
    Exec.fetchWord_of_shows h1 h2'
  have hp : cpu.regs.pc + 1 + 2 = cpu.regs.pc + 3 := BitVec.add_assoc _ _ _
  have hu : Exec.perform (.unaryMemory operation .extended) d =
      Exec.unaryMemory operation .extended d := rfl
  rw [hp] at hf
  rw [step_execute hm, awake_of_running hw, Exec.runInstruction_of_shows h0 hd h10 h11 he, hu,
    Exec.unaryMemory_extended hf ho]
  rfl

/-- `COM` of a byte at an absolute address. -/
theorem step_com (hm : cpu.move = .execute) (hw : cpu.wait = .running)
    (h0 : Bus.Shows bus cpu.regs.pc 0x73) (h1 : Bus.Shows bus (cpu.regs.pc + 1) high)
    (h2 : Bus.Shows bus (cpu.regs.pc + 2) low) :
    cpu.step bus = Core.settled (Core.charge
      ⟨{ cpu with
          regs :=
            { cpu.regs with
              pc := cpu.regs.pc + 3
              cc := (Arithmetic.com cpu.regs.cc (Bus.read bus (Word.ofBytes high low)).1).2 } },
        Bus.write (Bus.read bus (Word.ofBytes high low)).2 (Word.ofBytes high low)
          (~~~(Bus.read bus (Word.ofBytes high low)).1), 0⟩
      ((Instruction.unaryMemory .com .extended).cost cpu.native)) :=
  step_unary hm hw h0 (by decide) (by decide) (by decide) (by cases cpu.variant <;> rfl) h1 h2 rfl

/-- `CWAI` where the bus swallows the frame. -/
theorem step_cwai (hm : cpu.move = .execute) (hw : cpu.wait = .running)
    (h0 : Bus.Shows bus cpu.regs.pc 0x3C) (h1 : Bus.Shows bus (cpu.regs.pc + 1) mask)
    (hs : ∀ a ∈ cpu.regs.s.below (RegisterName.totalSize (Frame.entire cpu.native)), ∀ v,
      Bus.write bus a v = bus) :
    cpu.step bus = Core.settled (Core.charge
      ⟨{ cpu with
          regs :=
            { cpu.regs with
              pc := cpu.regs.pc + 2
              s := cpu.regs.s -
                BitVec.ofNat 16 (RegisterName.totalSize (Frame.entire cpu.native))
              cc := { cpu.regs.cc.keep mask with entire := true } }
          wait := .cwai },
        bus, 0⟩
      (Instruction.cwai.cost cpu.native)) := by
  have he : cpu.variant.executes .cwai = true := by cases cpu.variant <;> rfl
  have hd : Opcode.decode? .base 0x3C = some .cwai := by decide
  let d : Core β :=
    (Core.at ⟨cpu, bus, 0⟩ (cpu.regs.pc + 1)).charge (Instruction.cwai.cost cpu.native)
  have hf : Exec.fetch d = (mask, d.at (cpu.regs.pc + 1 + 1)) := Exec.fetch_of_shows h1
  have hk : Exec.masked d = (d.at (cpu.regs.pc + 1 + 1)).mapCpu
      (·.mapRegs fun r => { r with cc := r.cc.keep mask }) := by
    have hb : d.nextByte = mask := congrArg Prod.fst h1
    rw [Exec.masked, hf, hb]
  have hp : Exec.perform .cwai d = ((), (Exec.pushEntire (Exec.masked d)).2.mapCpu
      fun cpu => { cpu with wait := .cwai }) := Exec.cwai_eq d
  have hs' : Exec.pushEntire (Exec.masked d) = ((), (Exec.masked d).mapCpu
      (·.mapRegs fun r => { r with
        s := r.s - BitVec.ofNat 16 (RegisterName.totalSize (Frame.entire cpu.native))
        cc := { r.cc with entire := true } })) := by
    rw [hk]
    exact Exec.pushEntire_of_swallows hs
  rw [step_execute hm, awake_of_running hw,
    Exec.runInstruction_of_shows h0 hd (by decide) (by decide) he, hp, hs', hk,
    show cpu.regs.pc + 1 + 1 = cpu.regs.pc + 2 from BitVec.add_assoc _ _ _]
  rfl

/-- The entry of a line into its handler after `CWAI`. -/
theorem step_irq_of_cwai (hm : cpu.move = .enter .irq) (hw : cpu.wait = .cwai)
    (h0 : Bus.Shows bus Interrupt.irq.vector high)
    (h1 : Bus.Shows bus (Interrupt.irq.vector + 1) low) :
    cpu.step bus = Core.settled (Core.charge
      ⟨{ cpu with
          regs :=
            { cpu.regs with
              pc := Word.ofBytes high low
              cc := { cpu.regs.cc with irqMask := true } }
          lines := cpu.lines.consume .irq
          wait := .running },
        bus, 0⟩ 7) := by
  let e : Core β := ⟨{ cpu with lines := cpu.lines.consume .irq, wait := .running }, bus, 0⟩
  let d : Core β := (e.charge 7).mapCpu
    (·.mapRegs fun r => { r with cc := { r.cc with irqMask := true } })
  have hg : Exec.goToHandler .irq cpu.wait e = Exec.jumpThrough Interrupt.irq.vector d := by
    rw [Exec.goToHandler_eq, hw, Exec.stackForInterrupt_cwai]
    rfl
  have hj : Exec.jumpThrough Interrupt.irq.vector d = ((), d.at (Word.ofBytes high low)) :=
    Exec.jumpThrough_of_shows h0 h1
  have hx : Exec.enterInterrupt .irq (⟨cpu, bus, 0⟩ : Core β) =
      Exec.goToHandler .irq cpu.wait e := rfl
  rw [step_enter hm, awake_of_cwai hw, hx, hg, hj]
  rfl

end Cpu

/-! ### The board of a machine -/

namespace Board

variable {b : Board} {a : Word}

theorem shows_rom {offset : Nat} (hd : isDevice a = false)
    (ht : b.memory.translate a = .rom offset) : Bus.Shows b a (b.memory.romByte offset) := by
  rw [Bus.Shows, read_eq, peek, hd, if_neg Bool.false_ne_true, if_neg Bool.false_ne_true,
    Memory.read, ht]
  rfl

theorem ofAddress_of_le (ha : 0xFFF0 ≤ a) : Device.ofAddress a = .vector := by
  have ha' : 0xFFF0 ≤ a.toNat := ha
  unfold Device.ofAddress
  iterate 9 rw [if_neg (by bv_omega)]

theorem shows_vector (ha : 0xFFF0 ≤ a) : Bus.Shows b a (b.memory.vectorByte a) := by
  have hd : isDevice a = true := decide_eq_true (by bv_omega)
  rw [Bus.Shows, read_eq, peek, hd, if_pos rfl, if_pos rfl, peekDevice, afterReadDevice,
    ofAddress_of_le ha]

/-- The vectors and the addresses below them swallow every write. -/
theorem swallows (ha : 0xFFE0 ≤ a) (v : Byte) : Bus.write b a v = b := by
  have hd : isDevice a = true := decide_eq_true (by bv_omega)
  show (if isDevice a then b.writeDevice a v else _) = _
  rw [hd, if_pos rfl, writeDevice]
  by_cases hv : 0xFFF0 ≤ a
  · rw [ofAddress_of_le hv]
  · have hu : Device.ofAddress a = .unwired := by
      unfold Device.ofAddress
      iterate 8 rw [if_neg (by bv_omega)]
      rw [if_pos (by bv_omega)]
    rw [hu]

end Board

namespace Port

theorem setC1_of_falling {p : Port} (h : p.risingEdge = false) (level : Bool) :
    p.setC1 level = { p with flag := p.flag || (p.c1 && !level), c1 := level } := by
  unfold setC1 isActiveEdge
  rw [h]
  rfl

theorem setC1_of_rising {p : Port} (h : p.risingEdge = true) (level : Bool) :
    p.setC1 level = { p with flag := p.flag || (!p.c1 && level), c1 := level } := by
  unfold setC1 isActiveEdge
  rw [h]
  rfl

end Port

end ColorComputer
