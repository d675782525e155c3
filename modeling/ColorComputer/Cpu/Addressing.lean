import ColorComputer.Cpu.Basic
import ColorComputer.Cpu.Instruction

/-!
# Effective addresses

How an instruction finds its operand. An indexed mode is described by a postbyte, which is decoded
into an index form and a flag for indirection. An index form says from what the address is computed
and which register moves by doing so; moving `S` this way is not a load of `S`.

Forms that are based on `W`, and offsets from `E`, `F` and `W`, exist on the Hitachi part only. The
Motorola part takes those offsets for zero.
-/

namespace ColorComputer

/-- How an indexed address is computed. -/
inductive IndexForm
  /-- The register and a small offset held in the postbyte. -/
  | near (base : WordRegister) (offset : Word)
  /-- The register, which then moves up. -/
  | increment (base : WordRegister) (amount : Word)
  /-- The register, which moves down first. -/
  | decrement (base : WordRegister) (amount : Word)
  /-- The register itself. -/
  | plain (base : WordRegister)
  /-- The register and a signed byte register. -/
  | byteRegister (base : WordRegister) (offset : ByteRegister)
  /-- The register and a word register. -/
  | wordRegister (base : WordRegister) (offset : WordRegister)
  /-- The register and a signed byte that follows. -/
  | byteOffset (base : WordRegister)
  /-- The register and a word that follows. -/
  | wordOffset (base : WordRegister)
  /-- The word that follows. -/
  | absolute
  deriving DecidableEq

/-- What an indexed postbyte says. -/
@[ext] structure Postbyte where
  form : IndexForm
  /-- The word at the computed address is the effective address. -/
  indirect : Bool
  deriving DecidableEq

namespace Postbyte

/-- The index register named by bits 6 and 5. -/
def base (post : Byte) : WordRegister :=
  match post.toNat / 32 % 4 with
  | 0 => .x
  | 1 => .y
  | 2 => .u
  | _ => .s

/-- The forms based on `W`, which take over postbytes that are of no use on the Motorola part. -/
def basedOnW? (post : Byte) : Option Postbyte :=
  match post.toNat with
  | 0x8F => some ⟨.plain .w, false⟩
  | 0x90 => some ⟨.plain .w, true⟩
  | 0xAF => some ⟨.wordOffset .w, false⟩
  | 0xB0 => some ⟨.wordOffset .w, true⟩
  | 0xCF => some ⟨.increment .w 2, false⟩
  | 0xD0 => some ⟨.increment .w 2, true⟩
  | 0xEF => some ⟨.decrement .w 2, false⟩
  | 0xF0 => some ⟨.decrement .w 2, true⟩
  | _ => none

/-- The form that the low four bits name. -/
def lowForm (variant : Variant) (base : WordRegister) (low : Nat) : IndexForm :=
  match low with
  | 0x0 => .increment base 1
  | 0x1 => .increment base 2
  | 0x2 => .decrement base 1
  | 0x3 => .decrement base 2
  | 0x4 => .plain base
  | 0x5 => .byteRegister base .b
  | 0x6 => .byteRegister base .a
  | 0x7 => if variant.extendedRegisters then .byteRegister base .e else .plain base
  | 0x8 => .byteOffset base
  | 0x9 => .wordOffset base
  | 0xA => if variant.extendedRegisters then .byteRegister base .f else .plain base
  | 0xB => .wordRegister base .d
  | 0xC => .byteOffset .pc
  | 0xD => .wordOffset .pc
  | 0xE => if variant.extendedRegisters then .wordRegister base .w else .plain base
  | _ => .absolute

/-- The meaning of a postbyte. -/
def decode (variant : Variant) (post : Byte) : Postbyte :=
  if post.msb = false then ⟨.near (base post) ((post.extractLsb' 0 5).signExtend 16), false⟩
  else
    match (if variant.extendedRegisters then basedOnW? post else none) with
    | some meaning => meaning
    | none => ⟨lowForm variant (base post) (post.toNat % 16), post.getLsbD 4⟩

end Postbyte

namespace IndexForm

/-- The cycles that a form costs without indirection. -/
def cost (native : Bool) : IndexForm → Nat
  | near _ _ => 1
  | increment base amount | decrement base amount =>
    if base = .w then 1
    else if amount = 1 then if native then 1 else 2
    else if native then 2 else 3
  | plain _ => 0
  | byteRegister _ _ => 1
  | wordRegister _ offset => if offset = .w then 1 else if native then 2 else 4
  | byteOffset _ => 1
  | wordOffset base =>
    if base = .w then 2
    else if base = .pc then if native then 3 else 5
    else if native then 3 else 4
  | absolute => if native then 1 else 2

end IndexForm

namespace Exec

variable {β : Type} [Bus β]

/-- Compute the address that a form describes, moving its register if the form does. An offset that
follows is fetched before the base is read, so an offset from the program counter counts from the
byte after it. -/
def indexFormAddress : IndexForm → Exec β Word
  | .near base offset => return (← registers).word base + offset
  | .increment base amount => do
    let address := (← registers).word base
    modifyRegs fun r => r.setWord base (address + amount)
    return address
  | .decrement base amount => do
    let address := (← registers).word base - amount
    modifyRegs fun r => r.setWord base address
    return address
  | .plain base => return (← registers).word base
  | .byteRegister base offset => do
    let r ← registers
    return r.word base + Word.ofSigned (r.byte offset)
  | .wordRegister base offset => do
    let r ← registers
    return r.word base + r.word offset
  | .byteOffset base => do
    let offset ← fetch
    return (← registers).word base + Word.ofSigned offset
  | .wordOffset base => do
    let offset ← fetchWord
    return (← registers).word base + offset
  | .absolute => fetchWord

/-- The address that the postbyte at the program counter describes. -/
def indexedAddress : Exec β Word := do
  let post ← fetch
  let meaning := Postbyte.decode (← processor).variant post
  charge (meaning.form.cost (← isNative))
  let address ← indexFormAddress meaning.form
  if meaning.indirect then
    charge 3
    readWord address
  else
    return address

/-- The address that a memory mode finds. -/
def effectiveAddress : MemoryMode → Exec β Word
  | .direct => do
    let low ← fetch
    return Word.ofBytes (← registers).dp low
  | .indexed => indexedAddress
  | .extended => fetchWord

/-- The byte that an operand stands for. -/
def operandByte : Operand → Exec β Byte
  | .immediate => fetch
  | .memory mode => do readByte (← effectiveAddress mode)

/-- The word that an operand stands for. -/
def operandWord : Operand → Exec β Word
  | .immediate => fetchWord
  | .memory mode => do readWord (← effectiveAddress mode)

/-- The long that an operand stands for. -/
def operandLong : Operand → Exec β Long
  | .immediate => do
    let high ← fetchWord
    let low ← fetchWord
    return Long.ofWords high low
  | .memory mode => do
    let address ← effectiveAddress mode
    let high ← readWord address
    let low ← readWord (address + 2)
    return Long.ofWords high low

end Exec

end ColorComputer
