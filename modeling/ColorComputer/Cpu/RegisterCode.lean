import ColorComputer.Cpu.Basic
import ColorComputer.Cpu.Instruction
import ColorComputer.Cpu.Stacking

/-!
# Register codes

Transfers, exchanges and the operations between registers name their two registers by four-bit
codes. A code that names no register of the part reads as a fixed value and swallows writes.

* `read_write_self`: a code that names a register gives back a value of its width.
-/

namespace ColorComputer

/-- A value of either width. -/
inductive Datum
  | byte (value : Byte)
  | word (value : Word)
  deriving DecidableEq

namespace Datum

/-- The low byte. -/
def lowByte : Datum → Byte
  | byte value => value
  | word value => Word.lowByte value

/-- The value as a word, a byte with zeros above it. -/
def zeroExtended : Datum → Word
  | byte value => Word.ofUnsigned value
  | word value => value

/-- The value as a word, as the part widens it: the Motorola part puts ones above a byte. -/
def widened (variant : Variant) : Datum → Word
  | byte value =>
    if variant.extendedRegisters then Word.ofUnsigned value else Word.ofBytes 0xFF value
  | word value => value

end Datum

/-- What a code names. -/
inductive CodedRegister
  | named (name : RegisterName)
  | absent (reads : Datum)
  deriving DecidableEq

namespace CodedRegister

/-- A register that only the Hitachi part has, and what its code reads as on the other part. -/
def hitachiOnly (variant : Variant) (name : RegisterName) (otherwise : Datum) : CodedRegister :=
  if variant.extendedRegisters then named name else absent otherwise

/-- The meaning of a code on a part. -/
def decode (variant : Variant) (code : Nat) : CodedRegister :=
  match code with
  | 0x0 => named (.word .d)
  | 0x1 => named (.word .x)
  | 0x2 => named (.word .y)
  | 0x3 => named (.word .u)
  | 0x4 => named (.word .s)
  | 0x5 => named (.word .pc)
  | 0x6 => hitachiOnly variant (.word .w) (.word 0xFFFF)
  | 0x7 => hitachiOnly variant (.word .v) (.word 0xFFFF)
  | 0x8 => named (.byte .a)
  | 0x9 => named (.byte .b)
  | 0xA => named (.byte .cc)
  | 0xB => named (.byte .dp)
  | 0xE => hitachiOnly variant (.byte .e) (.byte 0xFF)
  | 0xF => hitachiOnly variant (.byte .f) (.byte 0xFF)
  | _ => absent (.word (if variant.extendedRegisters then 0 else 0xFFFF))

end CodedRegister

namespace Cpu

/-- What a code reads. -/
def readCoded (cpu : Cpu) (code : Nat) : Datum :=
  match CodedRegister.decode cpu.variant code with
  | .named (.byte name) => .byte (cpu.regs.byte name)
  | .named (.word name) => .word (cpu.regs.word name)
  | .absent reads => reads

/-- The processor after a write to a code. The register decides the width: a word gives its low
byte to a byte register, a byte is widened for a word register. -/
def writeCoded (cpu : Cpu) (code : Nat) (value : Datum) : Cpu :=
  match CodedRegister.decode cpu.variant code with
  | .named (.byte name) => { cpu with regs := cpu.regs.setByte name value.lowByte }
  | .named (.word name) => cpu.loadWord name (value.widened cpu.variant)
  | .absent _ => cpu

/-- Copy the register of one code to the register of another. -/
def transfer (cpu : Cpu) (source target : Nat) : Cpu :=
  cpu.writeCoded target (cpu.readCoded source)

/-- Swap the registers of two codes. -/
def exchange (cpu : Cpu) (first second : Nat) : Cpu :=
  (cpu.writeCoded first (cpu.readCoded second)).writeCoded second (cpu.readCoded first)

/-- Combine the register of one code into the register of another. The target decides the width;
a byte that meets a word is extended with zeros. -/
def combine (cpu : Cpu) (operation : Binary) (source target : Nat) : Cpu :=
  let operand := cpu.readCoded source
  let finish (result : Option Datum) (cc : ConditionCodes) : Cpu :=
    let cpu := { cpu with regs := { cpu.regs with cc := cc } }
    match result with
    | some value => cpu.writeCoded target value
    | none => cpu
  match cpu.readCoded target with
  | .byte value =>
    let (result, cc) := operation.apply cpu.regs.cc value operand.lowByte
    finish (result.map .byte) cc
  | .word value =>
    let (result, cc) := operation.apply cpu.regs.cc value operand.zeroExtended
    finish (result.map .word) cc

@[simp] theorem variant_writeCoded (cpu : Cpu) (code : Nat) (value : Datum) :
    (cpu.writeCoded code value).variant = cpu.variant := by
  unfold writeCoded
  split <;> rfl

/-- A code that names a register gives back a value of its width. -/
theorem read_write_self (cpu : Cpu) (code : Nat) (name : RegisterName) (value : Datum)
    (hcode : CodedRegister.decode cpu.variant code = .named name)
    (hwidth : (∃ n v, name = .byte n ∧ value = .byte v) ∨ (∃ n v, name = .word n ∧ value = .word v)) :
    (cpu.writeCoded code value).readCoded code = value := by
  rcases hwidth with ⟨n, v, rfl, rfl⟩ | ⟨n, v, rfl, rfl⟩ <;>
    simp [readCoded, writeCoded, hcode, loadWord, Datum.lowByte, Datum.widened]

end Cpu

end ColorComputer
