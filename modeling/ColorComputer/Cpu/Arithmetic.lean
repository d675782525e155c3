import ColorComputer.Cpu.ConditionCodes

/-!
# Arithmetic

The operations of the arithmetic unit at any width. Each takes the condition codes before and
returns its result with the codes after; a flag that an operation does not define is left as it
was. The width matters in one place only: an addition of bytes records the half carry.

* `toNat_add`: a sum is a sum modulo the range.
* `carry_add`, `carry_sub`: C says that the sum left the range, or that the difference is negative.
-/

namespace ColorComputer.Arithmetic

variable {w : Nat}

/-! ### Sums and differences -/

/-- Sum with a carry in. Sets N, Z, V, C, and H for bytes. -/
def add (cc : ConditionCodes) (a b : BitVec w) (carry : Bool) : BitVec w × ConditionCodes :=
  let sum := a + b + BitVec.ofNat w carry.toNat
  (sum,
    { cc.ofResult sum with
      overflow := a.msb == b.msb && a.msb != sum.msb
      carry := decide (1 <<< w ≤ a.toNat + b.toNat + carry.toNat)
      halfCarry :=
        if w = 8 then decide (16 ≤ a.toNat % 16 + b.toNat % 16 + carry.toNat) else cc.halfCarry })

/-- Difference with a borrow in. Sets N, Z, V, C. -/
def sub (cc : ConditionCodes) (a b : BitVec w) (borrow : Bool) : BitVec w × ConditionCodes :=
  let difference := a - b - BitVec.ofNat w borrow.toNat
  (difference,
    { cc.ofResult difference with
      overflow := a.msb != b.msb && a.msb != difference.msb
      carry := decide (a.toNat < b.toNat + borrow.toNat) })

/-- The difference from zero. -/
def neg (cc : ConditionCodes) (a : BitVec w) : BitVec w × ConditionCodes := sub cc 0 a false

/-- One less. Sets N, Z, V; C stays. -/
def dec (cc : ConditionCodes) (a : BitVec w) : BitVec w × ConditionCodes :=
  (a - 1, { cc.ofResult (a - 1) with overflow := a == BitVec.intMin w })

/-- One more. Sets N, Z, V; C stays. -/
def inc (cc : ConditionCodes) (a : BitVec w) : BitVec w × ConditionCodes :=
  (a + 1, { cc.ofResult (a + 1) with overflow := a == BitVec.intMax w })

/-! ### Logic -/

/-- Bitwise and. Sets N and Z, clears V. -/
def and (cc : ConditionCodes) (a b : BitVec w) : BitVec w × ConditionCodes :=
  (a &&& b, cc.ofData (a &&& b))

/-- Bitwise or. Sets N and Z, clears V. -/
def or (cc : ConditionCodes) (a b : BitVec w) : BitVec w × ConditionCodes :=
  (a ||| b, cc.ofData (a ||| b))

/-- Bitwise exclusive or. Sets N and Z, clears V. -/
def eor (cc : ConditionCodes) (a b : BitVec w) : BitVec w × ConditionCodes :=
  (a ^^^ b, cc.ofData (a ^^^ b))

/-- Complement of every bit. Sets N and Z, clears V, sets C. -/
def com (cc : ConditionCodes) (a : BitVec w) : BitVec w × ConditionCodes :=
  (~~~a, { cc.ofData (~~~a) with carry := true })

/-- Zero. Sets Z, clears N, V, C. -/
def clr (w : Nat) (cc : ConditionCodes) : BitVec w × ConditionCodes :=
  (0, { cc with negative := false, zero := true, overflow := false, carry := false })

/-! ### Shifts -/

/-- The result of a shift: N and Z from it, C from the bit that fell out. -/
def shifted (cc : ConditionCodes) (result : BitVec w) (out : Bool) :
    BitVec w × ConditionCodes :=
  (result, { cc.ofResult result with carry := out })

/-- Shift right, a zero coming in. V stays. -/
def lsr (cc : ConditionCodes) (a : BitVec w) : BitVec w × ConditionCodes :=
  shifted cc (a >>> 1) (a.getLsbD 0)

/-- Shift right, C coming in. V stays. -/
def ror (cc : ConditionCodes) (a : BitVec w) : BitVec w × ConditionCodes :=
  shifted cc ((a >>> 1) ||| if cc.carry then BitVec.intMin w else 0) (a.getLsbD 0)

/-- Shift right, the sign coming in. V stays. -/
def asr (cc : ConditionCodes) (a : BitVec w) : BitVec w × ConditionCodes :=
  shifted cc (a.sshiftRight 1) (a.getLsbD 0)

/-- A left shift also says in V whether the sign changed. -/
def shiftedLeft (cc : ConditionCodes) (a result : BitVec w) : BitVec w × ConditionCodes :=
  shifted { cc with overflow := a.msb != (a <<< 1).msb } result a.msb

/-- Shift left, a zero coming in. -/
def asl (cc : ConditionCodes) (a : BitVec w) : BitVec w × ConditionCodes :=
  shiftedLeft cc a (a <<< 1)

/-- Shift left, C coming in. -/
def rol (cc : ConditionCodes) (a : BitVec w) : BitVec w × ConditionCodes :=
  shiftedLeft cc a ((a <<< 1) ||| BitVec.ofNat w cc.carry.toNat)

/-! ### Decimal numbers, products and quotients -/

/-- What decimal adjustment adds: six in each digit that overflowed or exceeds nine. -/
def decimalCorrection (cc : ConditionCodes) (a : Byte) : Byte × Bool :=
  let low := a.toNat % 16
  let high := a.toNat / 16
  let fixLow := cc.halfCarry || decide (9 < low)
  let fixHigh := cc.carry || decide (9 < high) || decide (8 < high ∧ 9 < low)
  ((if fixLow then 0x06 else 0) ||| (if fixHigh then 0x60 else 0), fixHigh)

/-- Turn the sum of two packed decimal bytes into a packed decimal byte. Sets N and Z, clears V; C
is set by a correction of the high digit and never cleared. -/
def daa (cc : ConditionCodes) (a : Byte) : Byte × ConditionCodes :=
  let (correction, fixHigh) := decimalCorrection cc a
  let result := a + correction
  (result, { cc.ofData result with carry := cc.carry || fixHigh })

/-- Unsigned product of two bytes. Sets Z, and C from bit 7. -/
def mul (cc : ConditionCodes) (a b : Byte) : Word × ConditionCodes :=
  let product := Word.ofUnsigned a * Word.ofUnsigned b
  (product, { cc with zero := product == 0, carry := product.getLsbD 7 })

/-- Signed product of two words. Sets N and Z, clears V and C. -/
def multiply (cc : ConditionCodes) (a b : Word) : Long × ConditionCodes :=
  let product := BitVec.ofInt 32 (a.toInt * b.toInt)
  (product, { cc.ofData product with carry := false })

/-- Signed quotient and remainder, rounded toward zero, of a dividend and a divisor that is not
zero. A quotient outside `-2^w … 2^w - 1` gives no result, only V. Otherwise N, Z and C say that
the quotient is negative, zero, odd, and V that it does not fit as a signed number of `w` bits. -/
def divide {v : Nat} (cc : ConditionCodes) (dividend : BitVec v) (divisor : BitVec w) :
    Option (BitVec w × BitVec w) × ConditionCodes :=
  let quotient := dividend.toInt.tdiv divisor.toInt
  let remainder := dividend.toInt.tmod divisor.toInt
  let range : Int := 1 <<< w
  let half : Int := 1 <<< (w - 1)
  if -range ≤ quotient ∧ quotient < range then
    (some (BitVec.ofInt w quotient, BitVec.ofInt w remainder),
      { cc with
        negative := decide (quotient < 0)
        zero := decide (quotient = 0)
        carry := decide (quotient % 2 = 1)
        overflow := decide (¬(-half ≤ quotient ∧ quotient < half)) })
  else
    (none, { cc with negative := false, zero := false, overflow := true, carry := false })

/-! ### Sums and differences as numbers -/

theorem toNat_add (cc : ConditionCodes) (a b : BitVec w) (carry : Bool) :
    (add cc a b carry).1.toNat = (a.toNat + b.toNat + carry.toNat) % (1 <<< w) := by
  simp [add, BitVec.toNat_add, Nat.add_mod, Nat.one_shiftLeft]

theorem carry_add (cc : ConditionCodes) (a b : BitVec w) (carry : Bool) :
    (add cc a b carry).2.carry = decide (1 <<< w ≤ a.toNat + b.toNat + carry.toNat) := rfl

theorem carry_sub (cc : ConditionCodes) (a b : BitVec w) (borrow : Bool) :
    (sub cc a b borrow).2.carry = decide (a.toNat < b.toNat + borrow.toNat) := rfl

end ColorComputer.Arithmetic
