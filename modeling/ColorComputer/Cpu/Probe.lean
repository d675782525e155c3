import ColorComputer.Cpu.Basic
import ColorComputer.Reading

/-!
# Looking into the processor

The paths at which the registers, flags and lines of the processor can be looked at. A part without
the extended registers has nothing at their paths.
-/

namespace ColorComputer.Cpu

/-- A path at which only a part with the extended registers has something. -/
def extendedEntry (path : String) (read : Registers → Reading) :
    String × (Cpu → Option Reading) :=
  (path, fun cpu => if cpu.variant.extendedRegisters then some (read cpu.regs) else none)

/-- A path at which a register is found. -/
def registerEntry (path : String) (read : Registers → Reading) :
    String × (Cpu → Option Reading) :=
  ProbeTable.entry path fun cpu => read cpu.regs

/-- A path at which one flag is found. -/
def codeEntry (path : String) (read : ConditionCodes → Bool) :
    String × (Cpu → Option Reading) :=
  ProbeTable.entry path fun cpu => .flag (read cpu.regs.cc)

/-- Every path of the processor. -/
def probeTable : ProbeTable Cpu :=
  [registerEntry "pc" fun r => .word r.pc,
   registerEntry "a" fun r => .byte r.a,
   registerEntry "b" fun r => .byte r.b,
   registerEntry "d" fun r => .word r.d,
   registerEntry "x" fun r => .word r.x,
   registerEntry "y" fun r => .word r.y,
   registerEntry "u" fun r => .word r.u,
   registerEntry "s" fun r => .word r.s,
   registerEntry "dp" fun r => .byte r.dp,
   registerEntry "cc" fun r => .byte r.cc.toByte,
   codeEntry "cc.c" (·.carry),
   codeEntry "cc.v" (·.overflow),
   codeEntry "cc.z" (·.zero),
   codeEntry "cc.n" (·.negative),
   codeEntry "cc.i" (·.irqMask),
   codeEntry "cc.h" (·.halfCarry),
   codeEntry "cc.f" (·.firqMask),
   codeEntry "cc.e" (·.entire),
   ProbeTable.entry "variant" fun cpu => .label cpu.variant.name,
   ProbeTable.entry "cycles" fun cpu => .count cpu.totalCycles,
   ProbeTable.entry "waiting" fun cpu => .flag cpu.waiting,
   ProbeTable.entry "nmi_armed" fun cpu => .flag cpu.nmiArmed,
   ProbeTable.entry "irq" fun cpu => .flag cpu.lines.irq.asserted,
   ProbeTable.entry "firq" fun cpu => .flag cpu.lines.firq.asserted,
   ProbeTable.entry "nmi" fun cpu => .flag cpu.lines.nmi.asserted,
   extendedEntry "e" fun r => .byte r.e,
   extendedEntry "f" fun r => .byte r.f,
   extendedEntry "w" fun r => .word r.w,
   extendedEntry "v" fun r => .word r.v,
   extendedEntry "md" fun r => .byte r.md,
   extendedEntry "native" fun r => .flag r.native]

instance : Probe Cpu := probeTable.toProbe

end ColorComputer.Cpu
