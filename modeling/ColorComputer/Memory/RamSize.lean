import ColorComputer.Word

/-!
# Installed memory

The sizes of memory that can be fitted. The smallest decodes four bits of a block number, the
others six; the two largest extend the block number by two or four bits of their own.
-/

namespace ColorComputer

/-- How much memory is fitted. -/
inductive RamSize
  | k128 | k512 | m2 | m8
  deriving DecidableEq

namespace RamSize

instance : Inhabited RamSize := ⟨k128⟩

/-- The size in kilobytes. -/
def kilobytes : RamSize → Nat
  | k128 => 128
  | k512 => 512
  | m2 => 2048
  | m8 => 8192

/-- The size in bytes. -/
@[irreducible]
def bytes (size : RamSize) : Nat := size.kilobytes * 1024

/-- The size of so many kilobytes, if it can be fitted. -/
def ofKilobytes? (kilobytes : Nat) : Option RamSize :=
  [k128, k512, m2, m8].find? (·.kilobytes = kilobytes)

/-- The bits of a block number that are decoded. -/
def blockMask : RamSize → BitVec 6
  | k128 => 0x0F
  | _ => 0x3F

/-- The bits that extend a block number. -/
def extensionMask : RamSize → Byte
  | k128 => 0x00
  | k512 => 0x00
  | m2 => 0x03
  | m8 => 0x0F

/-- The size of so many kilobytes is the one with that many. -/
theorem ofKilobytes?_eq_some_iff (n : Nat) (size : RamSize) :
    ofKilobytes? n = some size ↔ size.kilobytes = n := by
  constructor
  · intro h
    simpa using List.find?_some h
  · rintro rfl
    cases size <;> rfl

end RamSize

end ColorComputer
