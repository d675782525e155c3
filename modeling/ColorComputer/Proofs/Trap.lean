import ColorComputer.Proofs.Return

/-!
# Traps

What a trap leaves on any bus: the frame below the old top of the system stack, with every register
as the trap found it but for the remembered reason and E, and the processor in the handler.

* `trap_eq_trapped` — a trap is that and nothing else.
* `step_of_raises` — a step whose instruction traps.
-/

namespace ColorComputer

/-- The registers as a trap stacks them. -/
def Registers.trapped (r : Registers) (reason : Trap) : Registers :=
  { r with md := r.md ||| reason.flag, cc := { r.cc with entire := true } }

variable {β : Type}

namespace Core

/-- The bytes that a trap pushes, the first of the list first. -/
def trapFrame (c : Core β) (reason : Trap) : List Byte :=
  (c.cpu.regs.trapped reason).frameBytes (Frame.entire c.cpu.native)

/-- The accumulators stand in the frame as the trap found them. -/
theorem trapFrame_accumulators (c : Core β) (reason : Trap) : ∃ front codes, front.length = 9 ∧
    c.trapFrame reason = front ++ (if c.cpu.native then [c.cpu.regs.f, c.cpu.regs.e] else []) ++
      [c.cpu.regs.b, c.cpu.regs.a, codes] := by
  have hw : Registers.stackBytes (c.cpu.regs.trapped reason) (.word .w) =
      [c.cpu.regs.f, c.cpu.regs.e] := by
    show [Word.lowByte (Word.ofBytes c.cpu.regs.e c.cpu.regs.f),
      Word.highByte (Word.ofBytes c.cpu.regs.e c.cpu.regs.f)] = _
    rw [Word.lowByte_ofBytes, Word.highByte_ofBytes]
  refine ⟨(c.cpu.regs.trapped reason).frameBytes
    [.word .pc, .word .u, .word .y, .word .x, .byte .dp],
    (c.cpu.regs.trapped reason).cc.toByte, rfl, ?_⟩
  unfold trapFrame Frame.entire Registers.frameBytes
  cases c.cpu.native with
  | false => rfl
  | true =>
    rw [List.flatMap_append, List.flatMap_append, if_pos rfl, List.flatMap_singleton, hw, if_pos rfl]
    rfl

theorem bus_settled (c : Core β) : c.settled.bus = c.bus := rfl

variable [Bus β]

/-- The core in the handler of a trap. -/
def trapped (c : Core β) (reason : Trap) : Core β :=
  let handler := Bus.readWord (Bus.pushBytes c.bus c.cpu.regs.s (c.trapFrame reason)) Trap.vector
  ⟨c.cpu.mapRegs fun r =>
      { r.trapped reason with
        s := r.s - BitVec.ofNat 16 (c.trapFrame reason).length
        pc := handler.1
        cc := { r.cc with entire := true, firqMask := true, irqMask := true } },
    handler.2, c.cycles + if c.cpu.native then 22 else 20⟩

/-- In flat memory a trap leaves the frame and nothing else. -/
theorem bus_trapped (c : Core FlatMemory) (reason : Trap) :
    (c.trapped reason).bus = Bus.pushBytes c.bus c.cpu.regs.s (c.trapFrame reason) := by
  unfold trapped
  generalize Bus.pushBytes c.bus c.cpu.regs.s (c.trapFrame reason) = m
  rfl

end Core

variable [Bus β]

namespace Exec

/-- A trap stacks the registers as it found them and goes on in its handler. -/
theorem trap_eq_trapped (reason : Trap) (c : Core β) :
    trap reason c = ((), c.trapped reason) := by
  let d := c.flagged reason.flag
  have hn : d.cpu.native = c.cpu.native := native_flagged c reason
  have hx : pushEntire d = ((), (d.marked true).pushed .system (c.trapFrame reason)) := by
    rw [pushEntire_eq]
    refine (pushAll_eq (Frame.pointer_not_mem_told d.cpu.native true) _).trans ?_
    rw [Core.trapFrame, ← hn]
    rfl
  -- what follows the stacking looks at the mode only, which the trap flag is no part of
  have hcharge : (do charge (if ← isNative then 22 else 20) : Exec β Unit)
      (jumpThrough Trap.vector (maskBoth ((d.marked true).pushed .system
        (c.trapFrame reason))).2).2 =
      (charge (if d.cpu.native then 22 else 20) : Exec β Unit)
        (jumpThrough Trap.vector (maskBoth ((d.marked true).pushed .system
          (c.trapFrame reason))).2).2 := rfl
  rw [trap_eq, hx, hcharge, hn]
  rfl

end Exec

/-- A step whose instruction traps. -/
theorem Cpu.step_of_raises {cpu : Cpu} {bus : β} (hm : cpu.move = .execute) {reason : Trap} {n : Nat}
    {d : Core β} (h : (⟨cpu.awake, bus, 0⟩ : Core β).Raises (.trap reason) n d) :
    cpu.step bus = (d.trapped reason).settled := by
  rw [step_execute hm, Exec.runInstruction_of_raises h]
  show (Exec.trap reason d).2.settled = _
  rw [Exec.trap_eq_trapped]

end ColorComputer
