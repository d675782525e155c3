import ColorComputer.Cpu.Addressing
import ColorComputer.Cpu.Cost
import ColorComputer.Cpu.Exception
import ColorComputer.Cpu.RegisterCode

/-!
# Executing instructions

What each instruction does when it runs: it fetches what follows its opcode, finds its operand,
computes, and writes back. A load or a comparison reads its register after the operand was found, so
after any move of an index register. A store of a byte or a word takes the register first and the
address then; the store of `Q` finds its address first.
-/

namespace ColorComputer.Exec

variable {β : Type} [Bus β]

/-! ### Operations on registers and memory -/

/-- Change a byte register by an operation on one value. -/
def unaryByte (operation : Unary) (name : ByteRegister) : Exec β Unit := do
  let r ← registers
  let (result, cc) := operation.apply r.cc (r.byte name)
  setCodes cc
  if let some value := result then modifyRegs fun r => r.setByte name value

/-- Change a word register by an operation on one value. -/
def unaryWord (operation : Unary) (name : WordRegister) : Exec β Unit := do
  let r ← registers
  let (result, cc) := operation.apply r.cc (r.word name)
  setCodes cc
  if let some value := result then modifyRegs fun r => r.setWord name value

/-- Change a byte of memory by an operation on one value. -/
def unaryMemory (operation : Unary) (mode : MemoryMode) : Exec β Unit := do
  let address ← effectiveAddress mode
  let value ← readByte address
  let (result, cc) := operation.apply (← registers).cc value
  setCodes cc
  if let some value := result then writeByte address value

/-- Combine an operand into a byte register. -/
def binaryByte (operation : Binary) (name : ByteRegister) (operand : Operand) : Exec β Unit := do
  let value ← operandByte operand
  let r ← registers
  let (result, cc) := operation.apply r.cc (r.byte name) value
  setCodes cc
  if let some value := result then modifyRegs fun r => r.setByte name value

/-- Combine an operand into a word register. -/
def binaryWord (operation : Binary) (name : WordRegister) (operand : Operand) : Exec β Unit := do
  let value ← operandWord operand
  let r ← registers
  let (result, cc) := operation.apply r.cc (r.word name) value
  setCodes cc
  if let some value := result then loadWord name value

/-- Store a byte register. -/
def storeByte (name : ByteRegister) (mode : MemoryMode) : Exec β Unit := do
  let value := (← registers).byte name
  let address ← effectiveAddress mode
  setCodes ((← registers).cc.ofData value)
  writeByte address value

/-- Store a word register. -/
def storeWord (name : WordRegister) (mode : MemoryMode) : Exec β Unit := do
  let value := (← registers).word name
  let address ← effectiveAddress mode
  setCodes ((← registers).cc.ofData value)
  writeWord address value

/-- Load `Q`. -/
def loadQ (operand : Operand) : Exec β Unit := do
  let value ← operandLong operand
  modifyRegs fun r => { r.setQ value with cc := r.cc.ofData value }

/-- Store `Q`, high word first. -/
def storeQ (mode : MemoryMode) : Exec β Unit := do
  let address ← effectiveAddress mode
  let r ← registers
  setCodes (r.cc.ofData r.q)
  writeWord address r.d
  writeWord (address + 2) r.w

/-- Combine the byte that follows with a byte of memory. -/
def memoryLogic (operation : MemoryLogic) (mode : MemoryMode) : Exec β Unit := do
  let immediate ← fetch
  let address ← effectiveAddress mode
  let result := operation.apply (← readByte address) immediate
  setCodes ((← registers).cc.ofData result)
  if operation.writes then writeByte address result

/-! ### Jumps -/

/-- Take a short branch if its condition holds. -/
def branch (condition : Condition) : Exec β Unit := do
  let offset ← fetch
  if condition.holds (← registers).cc then jumpBy (Word.ofSigned offset)

/-- Take a long branch if its condition holds. In emulation mode taking it costs a cycle. -/
def longBranch (condition : Condition) : Exec β Unit := do
  let offset ← fetchWord
  if condition.holds (← registers).cc then
    jumpBy offset
    charge (if ← isNative then 0 else 1)

/-- Push the program counter, which stands behind the instruction. -/
def pushReturn : Exec β Unit := do
  pushWord .system (← registers).pc

/-- Load an effective address. Only `X` and `Y` tell in Z whether it is zero. -/
def loadAddress (target : AddressTarget) : Exec β Unit := do
  let address ← effectiveAddress .indexed
  match target with
  | .x => modifyRegs fun r => { r with x := address, cc := { r.cc with zero := address == 0 } }
  | .y => modifyRegs fun r => { r with y := address, cc := { r.cc with zero := address == 0 } }
  | .s => loadWord .s address
  | .u => loadWord .u address

/-! ### Bits, blocks and quotients -/

/-- A byte with one bit replaced. -/
def replaceBit (byte : Byte) (index : Nat) (on : Bool) : Byte :=
  byte &&& ~~~((1 : Byte) <<< index) ||| (BitVec.ofBool on).setWidth 8 <<< index

/-- The register that bits 7 and 6 of a bit postbyte name. -/
def bitRegister? (post : Byte) : Option ByteRegister :=
  match post.toNat / 64 with
  | 0 => some .cc
  | 1 => some .a
  | 2 => some .b
  | _ => none

/-- Fetch the postbyte and the direct address of a bit operation and hand on the register, the
address, the source bit and the target bit. A postbyte that names no register traps. -/
def withBitOperands
    (action : ByteRegister → Word → Nat → Nat → Exec β Unit) : Exec β Unit := do
  let post ← fetch
  let address ← effectiveAddress .direct
  match bitRegister? post with
  | some name => action name address (post.toNat / 8 % 8) (post.toNat % 8)
  | none => trap .undefinedInstruction

/-- Combine a bit of memory into a bit of a register. -/
def bitOperation (operation : BitOperation) : Exec β Unit :=
  withBitOperands fun name address source target => do
    let memory ← readByte address
    let register := (← registers).byte name
    let result := operation.apply (register.getLsbD target) (memory.getLsbD source)
    modifyRegs fun r => r.setByte name (replaceBit register target result)

/-- Store a bit of a register in a bit of memory. -/
def storeBit : Exec β Unit :=
  withBitOperands fun name address source target => do
    let memory ← readByte address
    let register := (← registers).byte name
    writeByte address (replaceBit memory target (register.getLsbD source))

/-- The registers that may hold an address of a block transfer. -/
def blockRegister? : Nat → Option WordRegister
  | 0 => some .d
  | 1 => some .x
  | 2 => some .y
  | 3 => some .u
  | 4 => some .s
  | _ => none

/-- Copy a byte, move both addresses and count `W` down. -/
def copyByte (source target : WordRegister) (step : BlockStep) : Exec β Unit := do
  let sourceAddress := (← registers).word source
  let targetAddress := (← registers).word target
  writeByte targetAddress (← readByte sourceAddress)
  modifyRegs fun r => r.setWord source (sourceAddress + step.deltas.1)
  modifyRegs fun r => r.setWord target (targetAddress + step.deltas.2)
  modifyRegs fun r => r.setW (r.w - 1)
  charge 3

/-- Copy a number of bytes. -/
def copyBytes (source target : WordRegister) (step : BlockStep) : Nat → Exec β Unit
  | 0 => return ()
  | n + 1 => do
    copyByte source target step
    copyBytes source target step n

/-- Copy `W` bytes between the addresses in the two registers that the postbyte names. `W` counts
down to zero, and no addressing register is part of it. A postbyte that names another register
traps. -/
def blockTransfer (step : BlockStep) : Exec β Unit := do
  let post ← fetch
  match blockRegister? (post.toNat / 16), blockRegister? (post.toNat % 16) with
  | some source, some target => copyBytes source target step (← registers).w.toNat
  | _, _ => trap .undefinedInstruction

/-- The bits of the mode register that remember traps. -/
def trapFlags : Byte := 0xC0

/-- Tell in Z whether none of the selected trap flags is set, and clear them. -/
def testMode : Exec β Unit := do
  let mask ← fetch
  modifyRegs fun r =>
    let tested := r.md &&& mask &&& trapFlags
    { r with md := r.md &&& ~~~tested, cc := { r.cc with zero := tested == 0 } }

/-- Load the two writable bits of the mode register. -/
def loadMode : Exec β Unit := do
  let value ← fetch
  modifyRegs fun r => { r with md := r.md &&& ~~~0x03 ||| value &&& 0x03 }

/-- Divide `D` by a byte, the quotient to `B` and the remainder to `A`. -/
def divideD (operand : Operand) : Exec β Unit := do
  let divisor ← operandByte operand
  if divisor = 0 then
    trap .divisionByZero
  else
    let r ← registers
    let (result, cc) := Arithmetic.divide r.cc r.d divisor
    setCodes cc
    if let some (quotient, remainder) := result then
      modifyRegs fun r => { r with a := remainder, b := quotient }

/-- Divide `Q` by a word, the quotient to `W` and the remainder to `D`. -/
def divideQ (operand : Operand) : Exec β Unit := do
  let divisor ← operandWord operand
  if divisor = 0 then
    trap .divisionByZero
  else
    let r ← registers
    let (result, cc) := Arithmetic.divide r.cc r.q divisor
    setCodes cc
    if let some (quotient, remainder) := result then
      modifyRegs fun r => (r.setD remainder).setW quotient

/-- Multiply `D` by a word into `Q`. -/
def multiplyD (operand : Operand) : Exec β Unit := do
  let value ← operandWord operand
  modifyRegs fun r =>
    let (product, cc) := Arithmetic.multiply r.cc r.d value
    { r.setQ product with cc := cc }

/-! ### All instructions -/

/-- Run an instruction whose opcode was fetched. Its base cost is charged elsewhere. -/
def perform : Instruction → Exec β Unit
  | .nop => return ()
  | .sync => modifyCpu fun cpu => { cpu with wait := .sync }
  | .daa => modifyRegs fun r =>
    let (a, cc) := Arithmetic.daa r.cc r.a
    { r with a := a, cc := cc }
  | .sex => modifyRegs fun r =>
    let d := Word.ofSigned r.b
    { r.setD d with cc := r.cc.ofResult d }
  | .sexw => modifyRegs fun r =>
    let q := r.w.signExtend 32
    { r.setQ q with cc := r.cc.ofResult q }
  | .mul => modifyRegs fun r =>
    let (product, cc) := Arithmetic.mul r.cc r.a r.b
    { r.setD product with cc := cc }
  | .abx => modifyRegs fun r => { r with x := r.x + Word.ofUnsigned r.b }
  | .orcc => do
    let mask ← fetch
    modifyRegs fun r => { r with cc := r.cc.raise mask }
  | .andcc => do
    let mask ← fetch
    modifyRegs fun r => { r with cc := r.cc.keep mask }
  | .cwai => do
    let mask ← fetch
    modifyRegs fun r => { r with cc := r.cc.keep mask }
    pushEntire
    modifyCpu fun cpu => { cpu with wait := .cwai }
  | .rts => do jump (← pullWord .system)
  | .rti => returnFromInterrupt
  | .tfr => do
    let post ← fetch
    modifyCpu (·.transfer (post.toNat / 16) (post.toNat % 16))
  | .exg => do
    let post ← fetch
    modifyCpu (·.exchange (post.toNat / 16) (post.toNat % 16))
  | .swi which => softwareInterrupt which
  | .branch condition => branch condition
  | .longBranch condition => longBranch condition
  | .lbra => do jumpBy (← fetchWord)
  | .bsr => do
    let offset ← fetch
    pushReturn
    jumpBy (Word.ofSigned offset)
  | .lbsr => do
    let offset ← fetchWord
    pushReturn
    jumpBy offset
  | .jmp mode => do jump (← effectiveAddress mode)
  | .jsr mode => do
    let target ← effectiveAddress mode
    pushReturn
    jump target
  | .lea target => loadAddress target
  | .push stack => do pushSelected stack (← fetch)
  | .pull stack => do pullSelected stack (← fetch)
  | .pushW stack => pushRegister stack (.word .w)
  | .pullW stack => pullRegister stack (.word .w)
  | .unaryMemory operation mode => unaryMemory operation mode
  | .unaryByte operation name => unaryByte operation name
  | .unaryWord operation name => unaryWord operation name
  | .binaryByte operation name operand => binaryByte operation name operand
  | .binaryWord operation name operand => binaryWord operation name operand
  | .storeByte name mode => storeByte name mode
  | .storeWord name mode => storeWord name mode
  | .loadQ operand => loadQ operand
  | .storeQ mode => storeQ mode
  | .memoryLogic operation mode => memoryLogic operation mode
  | .registers operation => do
    let post ← fetch
    modifyCpu (·.combine operation (post.toNat / 16) (post.toNat % 16))
  | .bit operation => bitOperation operation
  | .storeBit => storeBit
  | .blockTransfer step => blockTransfer step
  | .testMode => testMode
  | .loadMode => loadMode
  | .divideD operand => divideD operand
  | .divideQ operand => divideQ operand
  | .multiplyD operand => multiplyD operand

end ColorComputer.Exec
