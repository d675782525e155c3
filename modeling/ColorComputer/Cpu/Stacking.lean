import ColorComputer.Cpu.Basic
import ColorComputer.Cpu.Instruction

/-!
# Stacks and frames

A stack grows downwards and holds words with the high byte at the lower address. What goes on a
stack together is a list of registers in the order of pushing; it comes off in the opposite order.
A postbyte selects such a list, and the frames of interrupts are such lists too. Pushing and
pulling move the stack pointer, which is not a load of `S`; pulling `S` from the user stack is.
-/

namespace ColorComputer

/-- A register of either width, by name. -/
inductive RegisterName
  | byte (name : ByteRegister)
  | word (name : WordRegister)
  deriving DecidableEq

namespace RegisterName

/-- The bytes that the register takes on a stack. -/
def size : RegisterName → Nat
  | byte _ => 1
  | word _ => 2

/-- The bytes that a list of registers takes on a stack. -/
def totalSize (names : List RegisterName) : Nat := names.foldr (fun name n => name.size + n) 0

end RegisterName

namespace Stack

/-- The stack pointer. -/
def pointer : Stack → WordRegister
  | system => .s
  | user => .u

/-- The stack pointer that can be stacked on this stack: the other one's. -/
def otherPointer : Stack → WordRegister
  | system => .u
  | user => .s

/-- The registers that can be stacked, in the order of pushing, the one for bit 7 first. -/
def candidates (stack : Stack) : List RegisterName :=
  [.word .pc, .word stack.otherPointer, .word .y, .word .x,
    .byte .dp, .byte .b, .byte .a, .byte .cc]

/-- The registers that a postbyte selects, in the order of pushing. -/
def selected (stack : Stack) (mask : Byte) : List RegisterName :=
  (stack.candidates.zip [7, 6, 5, 4, 3, 2, 1, 0]).filterMap fun (name, bit) =>
    if mask.getLsbD bit then some name else none

end Stack

/-! ### Frames -/

namespace Frame

/-- The frame that holds the entire state, in the order of pushing. In native mode `W` is part of
it. -/
def entire (native : Bool) : List RegisterName :=
  [.word .pc, .word .u, .word .y, .word .x, .byte .dp] ++
    (if native then [.word .w] else []) ++ [.byte .b, .byte .a, .byte .cc]

/-- The frame of a fast interrupt, in the order of pushing. -/
def short : List RegisterName := [.word .pc, .byte .cc]

end Frame

/-! ### Actions -/

namespace Exec

variable {β : Type} [Bus β]

/-- Push a byte. -/
def pushByte (stack : Stack) (value : Byte) : Exec β Unit := do
  let top := (← registers).word stack.pointer - 1
  modifyRegs fun r => r.setWord stack.pointer top
  writeByte top value

/-- Push a word, low byte first. -/
def pushWord (stack : Stack) (value : Word) : Exec β Unit := do
  pushByte stack (Word.lowByte value)
  pushByte stack (Word.highByte value)

/-- Pull a byte. -/
def pullByte (stack : Stack) : Exec β Byte := do
  let top := (← registers).word stack.pointer
  let value ← readByte top
  modifyRegs fun r => r.setWord stack.pointer (top + 1)
  return value

/-- Pull a word, high byte first. -/
def pullWord (stack : Stack) : Exec β Word := do
  let high ← pullByte stack
  let low ← pullByte stack
  return Word.ofBytes high low

/-- Push a register. -/
def pushRegister (stack : Stack) : RegisterName → Exec β Unit
  | .byte name => do pushByte stack ((← registers).byte name)
  | .word name => do pushWord stack ((← registers).word name)

/-- Pull a register. -/
def pullRegister (stack : Stack) : RegisterName → Exec β Unit
  | .byte name => do
    let value ← pullByte stack
    modifyRegs fun r => r.setByte name value
  | .word name => do
    let value ← pullWord stack
    loadWord name value

/-- Push registers, the first of the list first. -/
def pushAll (stack : Stack) : List RegisterName → Exec β Unit
  | [] => return ()
  | name :: rest => do
    pushRegister stack name
    pushAll stack rest

/-- Pull registers, the first of the list first. -/
def pullAll (stack : Stack) : List RegisterName → Exec β Unit
  | [] => return ()
  | name :: rest => do
    pullRegister stack name
    pullAll stack rest

/-- Push the registers that a postbyte selects; each byte costs a cycle. -/
def pushSelected (stack : Stack) (mask : Byte) : Exec β Unit := do
  pushAll stack (stack.selected mask)
  charge (RegisterName.totalSize (stack.selected mask))

/-- Pull the registers that a postbyte selects; each byte costs a cycle. -/
def pullSelected (stack : Stack) (mask : Byte) : Exec β Unit := do
  pullAll stack (stack.selected mask).reverse
  charge (RegisterName.totalSize (stack.selected mask))

/-- Push the entire state and say so in E, which is stacked set. -/
def pushEntire : Exec β Unit := do
  modifyRegs fun r => { r with cc := { r.cc with entire := true } }
  pushAll .system (Frame.entire (← isNative))

/-- Push the frame of a fast interrupt, with E clear. -/
def pushShort : Exec β Unit := do
  modifyRegs fun r => { r with cc := { r.cc with entire := false } }
  pushAll .system Frame.short

/-- Pull the condition codes and then the rest of the frame that E says was stacked. -/
def returnFromInterrupt : Exec β Unit := do
  pullRegister .system (.byte .cc)
  if (← registers).cc.entire then
    let native ← isNative
    charge (if native then 11 else 9)
    pullAll .system (Frame.entire native).reverse.tail
  else
    pullAll .system Frame.short.reverse.tail

end Exec

end ColorComputer
