import ColorComputer.Cpu.Instruction

/-!
# Opcodes

The encoding of instructions. An opcode is a byte on one of three pages: the base page, or the page
behind the byte $10 or $11. An opcode is read as a row (high four bits) and a column (low four
bits); in rows 8 to F the row says which side of the accumulators and which mode is meant.
-/

namespace ColorComputer

/-- The three pages of opcodes. -/
inductive Page
  | base | page10 | page11
  deriving DecidableEq

namespace Opcode

/-- The mode of an instruction in rows 0, 6 and 7, which work on memory in place. -/
def inPlaceMode : Nat → MemoryMode
  | 0x0 => .direct
  | 0x6 => .indexed
  | _ => .extended

/-- The operand of an instruction in rows 8 to F. -/
def rowOperand (row : Nat) : Operand :=
  match row % 4 with
  | 0 => .immediate
  | 1 => .memory .direct
  | 2 => .memory .indexed
  | _ => .memory .extended

/-- An instruction that exists for memory modes only. -/
def memoryOnly (make : MemoryMode → Instruction) : Operand → Option Instruction
  | .immediate => none
  | .memory mode => some (make mode)

/-- Operations on one value, by column. -/
def unary? : Nat → Option Unary
  | 0x0 => some .neg
  | 0x3 => some .com
  | 0x4 => some .lsr
  | 0x6 => some .ror
  | 0x7 => some .asr
  | 0x8 => some .asl
  | 0x9 => some .rol
  | 0xA => some .dec
  | 0xC => some .inc
  | 0xD => some .tst
  | 0xF => some .clr
  | _ => none

/-- Operations of an immediate byte on memory, by column. -/
def memoryLogic? : Nat → Option MemoryLogic
  | 0x1 => some .oim
  | 0x2 => some .aim
  | 0x5 => some .eim
  | 0xB => some .tim
  | _ => none

/-- Operations on a byte accumulator and an operand, by column. -/
def binary? : Nat → Option Binary
  | 0x0 => some .sub
  | 0x1 => some .cmp
  | 0x2 => some .sbc
  | 0x4 => some .and
  | 0x5 => some .bit
  | 0x6 => some .load
  | 0x8 => some .eor
  | 0x9 => some .adc
  | 0xA => some .or
  | 0xB => some .add
  | _ => none

/-- Operations between registers, by column. -/
def registers? : Nat → Option Binary
  | 0x0 => some .add
  | 0x1 => some .adc
  | 0x2 => some .sub
  | 0x3 => some .sbc
  | 0x4 => some .and
  | 0x5 => some .or
  | 0x6 => some .eor
  | 0x7 => some .cmp
  | _ => none

/-! ### The base page -/

/-- Row 1: inherent instructions and long branches. -/
def miscellaneous? : Nat → Option Instruction
  | 0x2 => some .nop
  | 0x3 => some .sync
  | 0x4 => some .sexw
  | 0x6 => some .lbra
  | 0x7 => some .lbsr
  | 0x9 => some .daa
  | 0xA => some .orcc
  | 0xC => some .andcc
  | 0xD => some .sex
  | 0xE => some .exg
  | 0xF => some .tfr
  | _ => none

/-- Row 3: effective addresses, stacks and returns. -/
def stacking? : Nat → Option Instruction
  | 0x0 => some (.lea .x)
  | 0x1 => some (.lea .y)
  | 0x2 => some (.lea .s)
  | 0x3 => some (.lea .u)
  | 0x4 => some (.push .system)
  | 0x5 => some (.pull .system)
  | 0x6 => some (.push .user)
  | 0x7 => some (.pull .user)
  | 0x9 => some .rts
  | 0xA => some .abx
  | 0xB => some .rti
  | 0xC => some .cwai
  | 0xD => some .mul
  | 0xF => some (.swi .swi)
  | _ => none

/-- Rows 0, 6 and 7: operations on memory in place, and jumps. -/
def inPlace? (mode : MemoryMode) (column : Nat) : Option Instruction :=
  if column = 0xE then some (.jmp mode)
  else
    match memoryLogic? column with
    | some operation => some (.memoryLogic operation mode)
    | none => (unary? column).map (.unaryMemory · mode)

/-- Rows 8 to B: `A`, `X`, and calls. -/
def sideA? (operand : Operand) : Nat → Option Instruction
  | 0x3 => some (.binaryWord .sub .d operand)
  | 0x7 => memoryOnly (.storeByte .a) operand
  | 0xC => some (.binaryWord .cmp .x operand)
  | 0xD =>
    match operand with
    | .immediate => some .bsr
    | .memory mode => some (.jsr mode)
  | 0xE => some (.binaryWord .load .x operand)
  | 0xF => memoryOnly (.storeWord .x) operand
  | column => (binary? column).map (.binaryByte · .a operand)

/-- Rows C to F: `B`, `D` and `U`. -/
def sideB? (operand : Operand) : Nat → Option Instruction
  | 0x3 => some (.binaryWord .add .d operand)
  | 0x7 => memoryOnly (.storeByte .b) operand
  | 0xC => some (.binaryWord .load .d operand)
  | 0xD =>
    match operand with
    | .immediate => some (.loadQ .immediate)
    | .memory mode => some (.storeWord .d mode)
  | 0xE => some (.binaryWord .load .u operand)
  | 0xF => memoryOnly (.storeWord .u) operand
  | column => (binary? column).map (.binaryByte · .b operand)

/-- The instruction at a row and column of the base page. -/
def base? (row column : Nat) : Option Instruction :=
  match row with
  | 0x0 => inPlace? (inPlaceMode row) column
  | 0x1 => miscellaneous? column
  | 0x2 => some (.branch (.ofNibble column))
  | 0x3 => stacking? column
  | 0x4 => (unary? column).map (.unaryByte · .a)
  | 0x5 => (unary? column).map (.unaryByte · .b)
  | 0x6 => inPlace? (inPlaceMode row) column
  | 0x7 => inPlace? (inPlaceMode row) column
  | _ => if row < 0xC then sideA? (rowOperand row) column else sideB? (rowOperand row) column

/-! ### The page behind $10 -/

/-- Row 3 behind $10: register operations and the stacking of `W`. -/
def registerRow? : Nat → Option Instruction
  | 0x8 => some (.pushW .system)
  | 0x9 => some (.pullW .system)
  | 0xA => some (.pushW .user)
  | 0xB => some (.pullW .user)
  | 0xF => some (.swi .swi2)
  | column => (registers? column).map .registers

/-- The operations on one value that `W` has. -/
def unaryW? (operation : Unary) : Option Instruction :=
  match operation with
  | .neg | .asr | .asl => none
  | _ => some (.unaryWord operation .w)

/-- Rows 8 to B behind $10: `D`, `W` and `Y`. -/
def wide? (operand : Operand) : Nat → Option Instruction
  | 0x0 => some (.binaryWord .sub .w operand)
  | 0x1 => some (.binaryWord .cmp .w operand)
  | 0x2 => some (.binaryWord .sbc .d operand)
  | 0x3 => some (.binaryWord .cmp .d operand)
  | 0x4 => some (.binaryWord .and .d operand)
  | 0x5 => some (.binaryWord .bit .d operand)
  | 0x6 => some (.binaryWord .load .w operand)
  | 0x7 => memoryOnly (.storeWord .w) operand
  | 0x8 => some (.binaryWord .eor .d operand)
  | 0x9 => some (.binaryWord .adc .d operand)
  | 0xA => some (.binaryWord .or .d operand)
  | 0xB => some (.binaryWord .add .w operand)
  | 0xC => some (.binaryWord .cmp .y operand)
  | 0xE => some (.binaryWord .load .y operand)
  | 0xF => memoryOnly (.storeWord .y) operand
  | _ => none

/-- Rows C to F behind $10: `Q` and `S`. -/
def quadAndStack? (operand : Operand) : Nat → Option Instruction
  | 0xC => memoryOnly (fun mode => .loadQ (.memory mode)) operand
  | 0xD => memoryOnly .storeQ operand
  | 0xE => some (.binaryWord .load .s operand)
  | 0xF => memoryOnly (.storeWord .s) operand
  | _ => none

/-- The instruction at a row and column behind $10. -/
def page10? (row column : Nat) : Option Instruction :=
  match row with
  | 0x2 => if column = 0 then none else some (.longBranch (.ofNibble column))
  | 0x3 => registerRow? column
  | 0x4 => (unary? column).map (.unaryWord · .d)
  | 0x5 => (unary? column).bind unaryW?
  | _ =>
    if row < 0x8 then none
    else if row < 0xC then wide? (rowOperand row) column
    else quadAndStack? (rowOperand row) column

/-! ### The page behind $11 -/

/-- Row 3 behind $11: bits, blocks and the mode register. -/
def bitRow? : Nat → Option Instruction
  | 0x0 => some (.bit .and)
  | 0x1 => some (.bit .andNot)
  | 0x2 => some (.bit .or)
  | 0x3 => some (.bit .orNot)
  | 0x4 => some (.bit .eor)
  | 0x5 => some (.bit .eorNot)
  | 0x6 => some (.bit .load)
  | 0x7 => some .storeBit
  | 0x8 => some (.blockTransfer .up)
  | 0x9 => some (.blockTransfer .down)
  | 0xA => some (.blockTransfer .sourceOnly)
  | 0xB => some (.blockTransfer .targetOnly)
  | 0xC => some .testMode
  | 0xD => some .loadMode
  | 0xF => some (.swi .swi3)
  | _ => none

/-- The operations on one value that `E` and `F` have. -/
def unaryHalf? (register : ByteRegister) (operation : Unary) : Option Instruction :=
  match operation with
  | .com | .dec | .inc | .tst | .clr => some (.unaryByte operation register)
  | _ => none

/-- The operations with an operand that `E` and `F` have. -/
def binaryHalf? (register : ByteRegister) (operand : Operand) : Nat → Option Instruction
  | 0x0 => some (.binaryByte .sub register operand)
  | 0x1 => some (.binaryByte .cmp register operand)
  | 0x6 => some (.binaryByte .load register operand)
  | 0x7 => memoryOnly (.storeByte register) operand
  | 0xB => some (.binaryByte .add register operand)
  | _ => none

/-- Rows 8 to B behind $11: `E`, comparisons with `U` and `S`, products and quotients. -/
def sideE? (operand : Operand) : Nat → Option Instruction
  | 0x3 => some (.binaryWord .cmp .u operand)
  | 0xC => some (.binaryWord .cmp .s operand)
  | 0xD => some (.divideD operand)
  | 0xE => some (.divideQ operand)
  | 0xF => some (.multiplyD operand)
  | column => binaryHalf? .e operand column

/-- The instruction at a row and column behind $11. -/
def page11? (row column : Nat) : Option Instruction :=
  match row with
  | 0x3 => bitRow? column
  | 0x4 => (unary? column).bind (unaryHalf? .e)
  | 0x5 => (unary? column).bind (unaryHalf? .f)
  | _ =>
    if row < 0x8 then none
    else if row < 0xC then sideE? (rowOperand row) column
    else binaryHalf? .f (rowOperand row) column

/-! ### All pages -/

/-- The instruction that an opcode stands for, on the part that has the most of them. -/
def decode? (page : Page) (opcode : Byte) : Option Instruction :=
  let row := opcode.toNat / 16
  let column := opcode.toNat % 16
  match page with
  | .base => base? row column
  | .page10 => page10? row column
  | .page11 => page11? row column

end Opcode

end ColorComputer
