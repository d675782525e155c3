import ColorComputer.Word

/-!
# Cartridges

A cartridge is a ROM image behind a window. An image of at most 16K repeats through the window. A
larger one is cut into banks of 16K, and the bank chosen begins where the window begins; what lies
past the end of the image is its beginning again.

* `ofImage?_eq_ok_iff`: an image is accepted when it is neither empty nor too large.
-/

namespace ColorComputer

/-- Why an image is refused. -/
inductive CartridgeFault
  | empty
  | tooLarge (size : Nat)
  deriving DecidableEq

/-- An image in the cartridge port. -/
structure Cartridge where
  /-- The name is for display only. -/
  name : String
  image : ByteArray
  bank : Byte
  size_pos : 0 < image.size

namespace Cartridge

/-- The largest image accepted. -/
def maxSize : Nat := 512 * 1024

/-- The size of a bank. -/
def bankSize : Nat := 0x4000

/-- Wrap an image; the first bank is chosen. -/
def ofImage? (name : String) (image : ByteArray) : Except CartridgeFault Cartridge :=
  if h : image.size = 0 then .error .empty
  else if maxSize < image.size then .error (.tooLarge image.size)
  else .ok ⟨name, image, 0, Nat.pos_of_ne_zero h⟩

/-- Choose a bank. -/
def setBank (c : Cartridge) (bank : Byte) : Cartridge := { c with bank := bank }

/-- Choose the first bank. -/
def reset (c : Cartridge) : Cartridge := c.setBank 0

/-- Where the image is read for an offset into the window. -/
def index (c : Cartridge) (offset : Nat) : Nat :=
  if c.image.size ≤ bankSize then offset else c.bank.toNat * bankSize + offset

/-- The byte at an offset into the window. -/
def read (c : Cartridge) (offset : Nat) : Byte :=
  (c.image.get (c.index offset % c.image.size) (Nat.mod_lt _ c.size_pos)).toBitVec

/-- An image is accepted when it is neither empty nor too large. -/
theorem ofImage?_eq_ok_iff (name : String) (image : ByteArray) :
    (∃ c, ofImage? name image = .ok c) ↔ 0 < image.size ∧ image.size ≤ maxSize := by
  unfold ofImage?
  split
  · simp; omega
  · split
    · simp; omega
    · simp; omega

end Cartridge

end ColorComputer
