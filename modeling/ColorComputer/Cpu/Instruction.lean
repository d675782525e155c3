import ColorComputer.Cpu.Arithmetic
import ColorComputer.Cpu.Condition
import ColorComputer.Cpu.Registers

/-!
# Instructions

What an instruction does, without how it is encoded. An instruction names its operation, the
registers it works on and the mode by which it finds its operand; the bytes that follow the opcode
(offsets, masks, postbytes) are fetched when it runs.
-/

namespace ColorComputer

/-- How an instruction finds a place in memory. -/
inductive MemoryMode
  /-- The byte that follows is the low half of the address, the direct page the high half. -/
  | direct
  /-- A postbyte says how the address is computed. -/
  | indexed
  /-- The word that follows is the address. -/
  | extended
  deriving DecidableEq

/-- How an instruction finds an operand. -/
inductive Operand
  /-- The operand follows the opcode. -/
  | immediate
  /-- The operand is in memory. -/
  | memory (mode : MemoryMode)
  deriving DecidableEq

/-- Operations on one value. -/
inductive Unary
  | neg | com | lsr | ror | asr | asl | rol | dec | inc | tst | clr
  deriving DecidableEq

/-- Operations on a register and an operand. -/
inductive Binary
  | sub | cmp | sbc | and | bit | load | eor | adc | or | add
  deriving DecidableEq

/-- Operations of an immediate byte on a memory byte. -/
inductive MemoryLogic
  | oim | aim | eim | tim
  deriving DecidableEq

/-- Operations on one bit of a register and one bit of memory, with the result in the register. -/
inductive BitOperation
  | and | andNot | or | orNot | eor | eorNot | load
  deriving DecidableEq

/-- How the two addresses of a block transfer move. -/
inductive BlockStep
  | up | down | sourceOnly | targetOnly
  deriving DecidableEq

/-- The two stacks. -/
inductive Stack
  | system | user
  deriving DecidableEq

/-- The registers that an effective address is loaded into. -/
inductive AddressTarget
  | x | y | s | u
  deriving DecidableEq

/-- The three software interrupts. -/
inductive SoftwareInterrupt
  | swi | swi2 | swi3
  deriving DecidableEq

/-- The instructions of both parts. -/
inductive Instruction
  | nop
  | sync
  | daa
  | sex
  | sexw
  | mul
  | abx
  | orcc
  | andcc
  | cwai
  | rts
  | rti
  | tfr
  | exg
  | swi (which : SoftwareInterrupt)
  | branch (condition : Condition)
  | longBranch (condition : Condition)
  | lbra
  | bsr
  | lbsr
  | jmp (mode : MemoryMode)
  | jsr (mode : MemoryMode)
  | lea (target : AddressTarget)
  | push (stack : Stack)
  | pull (stack : Stack)
  | pushW (stack : Stack)
  | pullW (stack : Stack)
  | unaryMemory (operation : Unary) (mode : MemoryMode)
  | unaryByte (operation : Unary) (register : ByteRegister)
  | unaryWord (operation : Unary) (register : WordRegister)
  | binaryByte (operation : Binary) (register : ByteRegister) (operand : Operand)
  | binaryWord (operation : Binary) (register : WordRegister) (operand : Operand)
  | storeByte (register : ByteRegister) (mode : MemoryMode)
  | storeWord (register : WordRegister) (mode : MemoryMode)
  | loadQ (operand : Operand)
  | storeQ (mode : MemoryMode)
  | memoryLogic (operation : MemoryLogic) (mode : MemoryMode)
  | registers (operation : Binary)
  | bit (operation : BitOperation)
  | storeBit
  | blockTransfer (step : BlockStep)
  | testMode
  | loadMode
  | divideD (operand : Operand)
  | divideQ (operand : Operand)
  | multiplyD (operand : Operand)
  deriving DecidableEq

/-! ### What the operations compute -/

namespace Unary

/-- The result to write back, if the operation writes back, and the codes after. -/
def apply {w : Nat} (operation : Unary) (cc : ConditionCodes) (a : BitVec w) :
    Option (BitVec w) × ConditionCodes :=
  let written (r : BitVec w × ConditionCodes) : Option (BitVec w) × ConditionCodes :=
    (some r.1, r.2)
  match operation with
  | neg => written (Arithmetic.neg cc a)
  | com => written (Arithmetic.com cc a)
  | lsr => written (Arithmetic.lsr cc a)
  | ror => written (Arithmetic.ror cc a)
  | asr => written (Arithmetic.asr cc a)
  | asl => written (Arithmetic.asl cc a)
  | rol => written (Arithmetic.rol cc a)
  | dec => written (Arithmetic.dec cc a)
  | inc => written (Arithmetic.inc cc a)
  | tst => (none, cc.ofData a)
  | clr => written (Arithmetic.clr w cc)

end Unary

namespace Binary

/-- The result to write back, if the operation writes back, and the codes after. -/
def apply {w : Nat} (operation : Binary) (cc : ConditionCodes) (a b : BitVec w) :
    Option (BitVec w) × ConditionCodes :=
  let written (r : BitVec w × ConditionCodes) : Option (BitVec w) × ConditionCodes :=
    (some r.1, r.2)
  match operation with
  | sub => written (Arithmetic.sub cc a b false)
  | cmp => (none, (Arithmetic.sub cc a b false).2)
  | sbc => written (Arithmetic.sub cc a b cc.carry)
  | and => written (Arithmetic.and cc a b)
  | bit => (none, (Arithmetic.and cc a b).2)
  | load => (some b, cc.ofData b)
  | eor => written (Arithmetic.eor cc a b)
  | adc => written (Arithmetic.add cc a b cc.carry)
  | or => written (Arithmetic.or cc a b)
  | add => written (Arithmetic.add cc a b false)

end Binary

namespace MemoryLogic

/-- The memory byte combined with the immediate one. -/
def apply (operation : MemoryLogic) (memory immediate : Byte) : Byte :=
  match operation with
  | oim => memory ||| immediate
  | aim => memory &&& immediate
  | eim => memory ^^^ immediate
  | tim => memory &&& immediate

/-- The result goes back to memory. -/
def writes : MemoryLogic → Bool
  | tim => false
  | _ => true

end MemoryLogic

namespace BitOperation

/-- The bit of the register combined with the bit of memory. -/
def apply (operation : BitOperation) (register memory : Bool) : Bool :=
  match operation with
  | and => register && memory
  | andNot => register && !memory
  | or => register || memory
  | orNot => register || !memory
  | eor => register != memory
  | eorNot => register != !memory
  | load => memory

end BitOperation

namespace BlockStep

/-- What is added to the source address and to the target address after each byte. -/
def deltas : BlockStep → Word × Word
  | up => (1, 1)
  | down => (-1, -1)
  | sourceOnly => (1, 0)
  | targetOnly => (0, 1)

end BlockStep

namespace SoftwareInterrupt

/-- Where the address of the handler is found. -/
def vector : SoftwareInterrupt → Word
  | swi => 0xFFFA
  | swi2 => 0xFFF4
  | swi3 => 0xFFF2

/-- Interrupts are masked on entry. -/
def masks : SoftwareInterrupt → Bool
  | swi => true
  | _ => false

end SoftwareInterrupt

end ColorComputer
