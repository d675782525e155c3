import ColorComputer.Word

/-!
# Condition codes

The eight flags of the processor, each by its meaning, and the byte in which they are stacked,
transferred and masked. From the high bit to the low one that byte holds E, F, H, I, N, Z, V, C.

* `toByte_ofByte`, `ofByte_toByte`: flags and byte carry the same information.
* `ofResult` and `ofData` touch N and Z, and `ofData` V as well; no other flag.
-/

namespace ColorComputer

/-- The condition codes. -/
@[ext] structure ConditionCodes where
  /-- E: the entire state is on the stack, which tells `RTI` how much to pull. -/
  entire : Bool
  /-- F: fast interrupt requests wait. -/
  firqMask : Bool
  /-- H: carry out of bit 3 of the latest byte addition. -/
  halfCarry : Bool
  /-- I: interrupt requests wait. -/
  irqMask : Bool
  /-- N: the result is negative. -/
  negative : Bool
  /-- Z: the result is zero. -/
  zero : Bool
  /-- V: the result does not fit as a signed number. -/
  overflow : Bool
  /-- C: carry or borrow. -/
  carry : Bool
  deriving DecidableEq

namespace ConditionCodes

/-- All flags clear. -/
def clear : ConditionCodes := ⟨false, false, false, false, false, false, false, false⟩

instance : Inhabited ConditionCodes := ⟨clear⟩

/-- The flags as one byte. -/
def toByte (cc : ConditionCodes) : Byte :=
  BitVec.ofBool cc.entire ++ BitVec.ofBool cc.firqMask ++ BitVec.ofBool cc.halfCarry ++
    BitVec.ofBool cc.irqMask ++ BitVec.ofBool cc.negative ++ BitVec.ofBool cc.zero ++
    BitVec.ofBool cc.overflow ++ BitVec.ofBool cc.carry

/-- The flags that a byte stands for. -/
def ofByte (b : Byte) : ConditionCodes where
  entire := b.getLsbD 7
  firqMask := b.getLsbD 6
  halfCarry := b.getLsbD 5
  irqMask := b.getLsbD 4
  negative := b.getLsbD 3
  zero := b.getLsbD 2
  overflow := b.getLsbD 1
  carry := b.getLsbD 0

@[simp] theorem toByte_ofByte (b : Byte) : (ofByte b).toByte = b := by
  have all : ∀ b : Byte, (ofByte b).toByte = b := by decide
  exact all b

@[simp] theorem ofByte_toByte (cc : ConditionCodes) : ofByte cc.toByte = cc := by
  obtain ⟨e, f, h, i, n, z, v, c⟩ := cc
  revert e f h i n z v c
  decide

/-! ### Masks -/

/-- Some flag of the mask is set. -/
def meets (cc : ConditionCodes) (mask : Byte) : Bool := cc.toByte &&& mask != 0

/-- Set every flag of the mask. -/
def raise (cc : ConditionCodes) (mask : Byte) : ConditionCodes := ofByte (cc.toByte ||| mask)

/-- Clear every flag of the mask. -/
def lower (cc : ConditionCodes) (mask : Byte) : ConditionCodes := ofByte (cc.toByte &&& ~~~mask)

/-- Clear every flag outside the mask. -/
def keep (cc : ConditionCodes) (mask : Byte) : ConditionCodes := ofByte (cc.toByte &&& mask)

/-- Set or clear every flag of the mask. -/
def assign (cc : ConditionCodes) (mask : Byte) (on : Bool) : ConditionCodes :=
  if on then cc.raise mask else cc.lower mask

/-! ### Results -/

variable {w : Nat}

/-- N and Z as a result of any width says. -/
def ofResult (cc : ConditionCodes) (result : BitVec w) : ConditionCodes :=
  { cc with negative := result.msb, zero := result == 0 }

/-- N and Z as the data moved or combined says, and V clear. -/
def ofData (cc : ConditionCodes) (data : BitVec w) : ConditionCodes :=
  { cc.ofResult data with overflow := false }

end ConditionCodes

end ColorComputer
