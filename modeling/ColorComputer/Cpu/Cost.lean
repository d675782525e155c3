import ColorComputer.Cpu.Instruction
import ColorComputer.Cpu.Variant

/-!
# Costs

The cycles that an instruction costs before anything that depends on its operand: the extra cycles
of an indexed address, of a long branch taken, of bytes stacked or of a block moved are charged as
they occur. An instruction behind $10 or $11 costs one cycle more than its likeness on the base page.
Native mode has costs of its own.

* `cost_pos`: no instruction is free.
-/

namespace ColorComputer

/-- One figure for each mode of finding an operand. -/
structure ModeCosts where
  immediate : Nat
  direct : Nat
  indexed : Nat
  extended : Nat

namespace ModeCosts

/-- The figure for a place in memory. -/
def ofMode (costs : ModeCosts) : MemoryMode → Nat
  | .direct => costs.direct
  | .indexed => costs.indexed
  | .extended => costs.extended

/-- The figure for an operand. -/
def ofOperand (costs : ModeCosts) : Operand → Nat
  | .immediate => costs.immediate
  | .memory mode => costs.ofMode mode

end ModeCosts

namespace Instruction

/-- The register is one of `E` and `F`, whose instructions stand behind $11. -/
def isHalfOfW : ByteRegister → Bool
  | .e => true
  | .f => true
  | _ => false

/-- An operation on a word register that stands on the base page. -/
def isShortWord : Binary → WordRegister → Bool
  | .sub, .d => true
  | .add, .d => true
  | .load, .d => true
  | .cmp, .x => true
  | .load, .x => true
  | .load, .u => true
  | _, _ => false

/-- A store of a word register that stands on the base page. -/
def isShortStore : WordRegister → Bool
  | .d => true
  | .x => true
  | .u => true
  | _ => false

/-- The instruction exists on the Hitachi part only. -/
def extended : Instruction → Bool
  | sexw | pushW _ | pullW _ | loadQ _ | storeQ _ | memoryLogic _ _ | registers _ | bit _
  | storeBit | blockTransfer _ | testMode | loadMode | divideD _ | divideQ _ | multiplyD _
  | unaryWord _ _ => true
  | unaryByte _ register | binaryByte _ register _ | storeByte register _ => isHalfOfW register
  | binaryWord operation register _ =>
    match register, operation with
    | .w, _ => true
    | .d, .sub | .d, .add | .d, .load | .d, .cmp => false
    | .d, _ => true
    | _, _ => false
  | storeWord register _ => register = .w
  | _ => false

/-- One cycle more for an instruction behind a page byte. -/
def prefixed (short : Bool) (cost : Nat) : Nat := if short then cost else cost + 1

/-- Cost of an operation on a byte register with an operand. -/
def byteCosts (native : Bool) : ModeCosts := if native then ⟨2, 3, 4, 4⟩ else ⟨2, 4, 4, 5⟩

/-- Cost of an operation on a word register with an operand. -/
def wordCosts (native : Bool) (operation : Binary) : ModeCosts :=
  if native then ⟨3, 4, 5, 5⟩
  else if operation = .load then ⟨3, 5, 5, 6⟩
  else ⟨4, 6, 6, 7⟩

/-- Cost of a store of a byte register. -/
def storeByteCosts (native : Bool) : ModeCosts := byteCosts native

/-- Cost of a store of a word register. -/
def storeWordCosts (native : Bool) : ModeCosts := wordCosts native .load

/-- Cost of an operation on memory in place. -/
def inPlaceCosts (native : Bool) (operation : Unary) : ModeCosts :=
  if native then if operation = .tst then ⟨0, 4, 5, 5⟩ else ⟨0, 5, 6, 6⟩ else ⟨0, 6, 6, 7⟩

/-- The cost of an instruction, in emulation mode or in native mode. -/
def cost (native : Bool) : Instruction → Nat
  | nop => if native then 1 else 2
  | sync => if native then 3 else 4
  | daa => if native then 1 else 2
  | sex => if native then 1 else 2
  | sexw => 4
  | mul => if native then 10 else 11
  | abx => if native then 1 else 3
  | orcc => if native then 2 else 3
  | andcc => 3
  | cwai => if native then 22 else 20
  | rts => if native then 4 else 5
  | rti => 6
  | tfr => if native then 4 else 6
  | exg => if native then 5 else 8
  | swi .swi => if native then 21 else 19
  | swi _ => if native then 22 else 20
  | branch _ => 3
  | longBranch _ => 5
  | lbra => if native then 4 else 5
  | bsr => if native then 6 else 7
  | lbsr => if native then 7 else 9
  | jmp mode => (if native then ⟨0, 2, 3, 3⟩ else ⟨0, 3, 3, 4⟩ : ModeCosts).ofMode mode
  | jsr mode => (if native then ⟨0, 6, 6, 7⟩ else ⟨0, 7, 7, 8⟩ : ModeCosts).ofMode mode
  | lea _ => 4
  | push _ => if native then 4 else 5
  | pull _ => if native then 4 else 5
  | pushW _ => 6
  | pullW _ => 6
  | unaryMemory operation mode => (inPlaceCosts native operation).ofMode mode
  | unaryByte _ register => prefixed (!isHalfOfW register) (if native then 1 else 2)
  | unaryWord _ _ => prefixed false (if native then 1 else 2)
  | binaryByte _ register operand =>
    prefixed (!isHalfOfW register) ((byteCosts native).ofOperand operand)
  | binaryWord operation register operand =>
    prefixed (isShortWord operation register) ((wordCosts native operation).ofOperand operand)
  | storeByte register mode =>
    prefixed (!isHalfOfW register) ((storeByteCosts native).ofMode mode)
  | storeWord register mode =>
    prefixed (isShortStore register) ((storeWordCosts native).ofMode mode)
  | loadQ operand =>
    (if native then ⟨5, 7, 8, 8⟩ else ⟨5, 8, 8, 9⟩ : ModeCosts).ofOperand operand
  | storeQ mode => (if native then ⟨0, 7, 8, 8⟩ else ⟨0, 8, 8, 9⟩ : ModeCosts).ofMode mode
  | memoryLogic _ mode => (⟨0, 6, 7, 7⟩ : ModeCosts).ofMode mode
  | registers _ => 4
  | bit _ => if native then 6 else 7
  | storeBit => if native then 7 else 8
  | blockTransfer _ => 6
  | testMode => 4
  | loadMode => 5
  | divideD operand =>
    (if native then ⟨25, 26, 27, 27⟩ else ⟨25, 27, 27, 28⟩ : ModeCosts).ofOperand operand
  | divideQ operand =>
    (if native then ⟨34, 35, 36, 36⟩ else ⟨34, 36, 36, 37⟩ : ModeCosts).ofOperand operand
  | multiplyD operand =>
    (if native then ⟨26, 28, 30, 29⟩ else ⟨28, 30, 30, 31⟩ : ModeCosts).ofOperand operand

theorem prefixed_pos {short : Bool} {c : Nat} (h : 0 < c) : 0 < prefixed short c := by
  unfold prefixed
  split <;> omega

/-- No instruction is free. -/
theorem cost_pos (native : Bool) (i : Instruction) : 0 < i.cost native := by
  cases i with
  | swi which => cases native <;> cases which <;> decide
  | jmp mode | jsr mode | storeQ mode | memoryLogic _ mode =>
    cases native <;> cases mode <;> simp [cost, ModeCosts.ofMode]
  | unaryMemory operation mode =>
    cases native <;> cases operation <;> cases mode <;> decide
  | loadQ operand | divideD operand | divideQ operand | multiplyD operand =>
    cases native <;> cases operand with
    | immediate => decide
    | memory mode => cases mode <;> decide
  | unaryByte _ register => cases native <;> exact prefixed_pos (by decide)
  | binaryByte _ _ operand =>
    cases native <;> refine prefixed_pos ?_ <;> cases operand with
    | immediate => decide
    | memory mode => cases mode <;> decide
  | binaryWord operation _ operand =>
    cases native <;> refine prefixed_pos ?_ <;> cases operation <;> cases operand with
    | immediate => decide
    | memory mode => cases mode <;> decide
  | storeByte _ mode | storeWord _ mode =>
    cases native <;> refine prefixed_pos ?_ <;> cases mode <;> decide
  | _ => cases native <;> simp [cost, prefixed]

end Instruction

namespace Variant

/-- The part has the instruction. -/
def executes (variant : Variant) (i : Instruction) : Bool :=
  variant.extendedRegisters || !i.extended

end Variant

end ColorComputer
