import ColorComputer.ByteStore
import ColorComputer.Cartridge
import ColorComputer.Memory.Mmu

/-!
# Banked memory

The memory fitted, the ROM image, and the map that decides what an address shows. The ROM and the
cartridge swallow writes. What nothing drives reads as $FF.

* `read_eq_of_translate`: what an address reads depends on where it leads and on nothing else.
-/

namespace ColorComputer

/-- What is read where nothing drives the bus. -/
def openBus : Byte := 0xFF

/-- The size of the system ROM. -/
def systemRomSize : Nat := 0x8000

/-- Memory, ROM and map. -/
structure Memory where
  size : RamSize
  ram : ByteStore size.bytes
  rom : ByteArray
  mmu : Mmu

namespace Memory

/-- Memory full of zeros, mapped as after reset. -/
def fresh (size : RamSize) (rom : ByteArray) : Memory := ⟨size, .zeros size.bytes, rom, .reset⟩

/-- Clear the memory and reset the map. -/
def reset (m : Memory) : Memory := fresh m.size m.rom

/-- Change the map. -/
def mapMmu (m : Memory) (f : Mmu → Mmu) : Memory :=
  match m with
  | ⟨size, ram, rom, mmu⟩ => ⟨size, ram, rom, f mmu⟩

/-- Where an address leads. -/
def translate (m : Memory) (address : Word) : Place := m.mmu.translate m.size address

/-- A byte of the ROM image. -/
def romByte (m : Memory) (offset : Nat) : Byte :=
  if h : offset < m.rom.size then (m.rom.get offset h).toBitVec else openBus

/-- The byte at a place. -/
def readPlace (m : Memory) (cartridge : Option Cartridge) : Place → Byte
  | .ram offset => (m.ram.read offset).getD openBus
  | .rom offset => m.romByte offset
  | .cartridge offset =>
    match cartridge with
    | some c => c.read offset
    | none => openBus

/-- The byte at an address. -/
def read (m : Memory) (cartridge : Option Cartridge) (address : Word) : Byte :=
  m.readPlace cartridge (m.translate address)

/-- Write a byte to a place; only memory keeps it. -/
def writePlace (m : Memory) (place : Place) (value : Byte) : Memory :=
  match place with
  | .ram offset =>
    match m with
    | ⟨size, ram, rom, mmu⟩ => ⟨size, ram.write offset value, rom, mmu⟩
  | _ => m

/-- Write a byte at an address. -/
def write (m : Memory) (address : Word) (value : Byte) : Memory :=
  m.writePlace (m.translate address) value

/-- The bytes of the vectors are the last sixteen of the system ROM, however memory is mapped. -/
def vectorByte (m : Memory) (address : Word) : Byte :=
  m.romByte (systemRomSize - 16 + address.toNat % 16)

/-- What an address reads depends on where it leads and on nothing else. -/
theorem read_eq_of_translate (m : Memory) (cartridge : Option Cartridge) {a b : Word}
    (h : m.translate a = m.translate b) : m.read cartridge a = m.read cartridge b := by
  simp only [read, h]

/-- A write leaves the map alone. -/
@[simp] theorem translate_write (m : Memory) (a b : Word) (value : Byte) :
    (m.write a value).translate b = m.translate b := by
  unfold write writePlace
  split <;> rfl

end Memory

end ColorComputer
