import ColorComputer.Memory.RamSize

/-!
# The memory map

Logical memory is cut into eight slots of 8K. While mapping is enabled a slot shows the block that
the register of the active task names; otherwise it shows its own one of the blocks $38 to $3F. The
page $FE00 to $FEFF can be pinned to the top block. The blocks $3C to $3F show a window of 32K with the
ROM and the cartridge, unless that is switched off.
-/

namespace ColorComputer

/-- What the window of 32K holds. -/
inductive RomMap
  /-- The lower half of the ROM, then the lower half of the cartridge. -/
  | split
  /-- The ROM. -/
  | internal
  /-- The cartridge. -/
  | external
  deriving DecidableEq

namespace RomMap

/-- The choice that the low two bits of INIT0 make. -/
def ofInit0 (value : Byte) : RomMap :=
  match value.toNat % 4 with
  | 2 => internal
  | 3 => external
  | _ => split

end RomMap

/-- A block of 8K: its number as the task registers hold it, and the bits that extend it. -/
@[ext] structure Block where
  extension : Byte
  number : BitVec 6
  deriving DecidableEq

/-- Where an address leads. -/
inductive Place
  | ram (offset : Nat)
  | rom (offset : Nat)
  | cartridge (offset : Nat)
  deriving DecidableEq

/-- The registers of the memory map. -/
@[ext] structure Mmu where
  enabled : Bool
  /-- The page $FE00 to $FEFF always shows the top block, and never ROM. -/
  constantPage : Bool
  romMap : RomMap
  /-- There is no window. -/
  allRam : Bool
  task : BitVec 1
  /-- The registers of task 0, then those of task 1. -/
  registers : Vector (BitVec 6) 16
  extension : Byte
  deriving DecidableEq

namespace Mmu

/-- The registers after reset: every slot of both tasks shows its own block of the top eight. -/
def reset : Mmu where
  enabled := false
  constantPage := false
  romMap := .split
  allRam := false
  task := 0
  registers :=
    #v[0x38, 0x39, 0x3A, 0x3B, 0x3C, 0x3D, 0x3E, 0x3F,
      0x38, 0x39, 0x3A, 0x3B, 0x3C, 0x3D, 0x3E, 0x3F]
  extension := 0

instance : Inhabited Mmu := ⟨reset⟩

/-- Apply the bits of INIT0 that concern memory: 6, 3, and 1 and 0. -/
def writeInit0 (m : Mmu) (value : Byte) : Mmu :=
  { m with
    enabled := value.getLsbD 6
    constantPage := value.getLsbD 3
    romMap := .ofInit0 value }

/-- One of the task registers. -/
def register (m : Mmu) (index : BitVec 4) : BitVec 6 := m.registers.get index.toFin

/-- Write one of the task registers. -/
def setRegister (m : Mmu) (index : BitVec 4) (value : BitVec 6) : Mmu :=
  { m with registers := m.registers.set index.toNat value index.isLt }

/-- The slot of an address. -/
def slot (address : Word) : BitVec 3 := address.extractLsb' 13 3

/-- The offset of an address in its slot. -/
def offset (address : Word) : BitVec 13 := address.setWidth 13

/-- The address is on the page that can be pinned, and that page is pinned. -/
def pinned (m : Mmu) (address : Word) : Bool :=
  m.constantPage && Word.highByte address == 0xFE

/-- The number of the block that an address shows. -/
def blockNumber (m : Mmu) (address : Word) : BitVec 6 :=
  if m.pinned address then 0x3F
  else if m.enabled then m.register (m.task ++ slot address)
  else (0b111 : BitVec 3) ++ slot address

/-- The block that an address shows. -/
def block (m : Mmu) (size : RamSize) (address : Word) : Block where
  extension := m.extension &&& size.extensionMask
  number := m.blockNumber address

/-- The address shows the window. -/
def inWindow (m : Mmu) (size : RamSize) (address : Word) : Bool :=
  let block := m.block size address
  block.extension == 0 && 0x3C ≤ block.number && !m.allRam && !m.pinned address

/-- Where an offset into the window leads. -/
def windowPlace (m : Mmu) (offset : Nat) : Place :=
  match m.romMap with
  | .internal => .rom offset
  | .external => .cartridge offset
  | .split => if offset < 0x4000 then .rom offset else .cartridge (offset - 0x4000)

/-- Where an address leads. -/
def translate (m : Mmu) (size : RamSize) (address : Word) : Place :=
  let block := m.block size address
  let offset := (offset address).toNat
  if m.inWindow size address then
    m.windowPlace ((block.number.toNat - 0x3C) * 0x2000 + offset)
  else
    .ram ((block.extension.toNat * 64 + (block.number &&& size.blockMask).toNat) * 0x2000 + offset)

end Mmu

end ColorComputer
