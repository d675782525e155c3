import ColorComputer.Bus
import ColorComputer.ByteStore

/-!
# Flat memory

The plainest bus: 64K of RAM and nothing else.

* `peek_write`: a write shows at its own address and nowhere else.
* `read_eq`: a read returns what a peek returns and disturbs nothing.
-/

namespace ColorComputer

/-- Sixty-four kilobytes of RAM. -/
@[ext] structure FlatMemory where
  ram : ByteStore 65536

namespace FlatMemory

/-- Memory full of zeros. -/
def zeros : FlatMemory := ⟨ByteStore.zeros 65536⟩

instance : Inhabited FlatMemory := ⟨zeros⟩

/-- Memory that begins with these bytes. -/
def beginning (bytes : List UInt8) (h : bytes.length ≤ 65536) : FlatMemory :=
  ⟨⟨⟨⟨bytes ++ List.replicate (65536 - bytes.length) 0⟩⟩, by simp [ByteArray.size]; omega⟩⟩

/-- The byte at an address. -/
def peek (m : FlatMemory) (address : Word) : Byte :=
  m.ram.get address.toNat address.isLt

/-- Memory with one byte replaced. -/
def write (m : FlatMemory) (address : Word) (value : Byte) : FlatMemory :=
  match m with
  | ⟨ram⟩ => ⟨ram.write address.toNat value⟩

instance : Bus FlatMemory where
  read m address := (m.peek address, m)
  write := write
  peek := peek

/-- Lay bytes down from an address on, wrapping at 64K. -/
def load (m : FlatMemory) (address : Word) : List Byte → FlatMemory
  | [] => m
  | b :: rest => load (m.write address b) (address + 1) rest

/-- Lay a word down, high byte first. -/
def setWord (m : FlatMemory) (address value : Word) : FlatMemory :=
  m.load address [Word.highByte value, Word.lowByte value]

/-- A write shows at its own address and nowhere else. -/
theorem peek_write (m : FlatMemory) (a b : Word) (value : Byte) :
    (m.write a value).peek b = if a = b then value else m.peek b := by
  simp only [peek, write, ByteStore.get_write _ _ _ _ a.isLt b.isLt, BitVec.toNat_inj]

/-- A read returns what a peek returns and disturbs nothing. -/
theorem read_eq (m : FlatMemory) (a : Word) : Bus.read m a = (m.peek a, m) := rfl

end FlatMemory

end ColorComputer
