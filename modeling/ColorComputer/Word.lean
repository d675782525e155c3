/-!
# Bytes and words

The machine counts in bytes (8 bits), words (16 bits: addresses and index registers) and longs
(32 bits: the wide accumulator). A word is two bytes, the high one first.

* `highByte_ofBytes`, `lowByte_ofBytes`: a word gives back the bytes it was made of.
* `ofBytes_highByte_lowByte`: a word is made of its own two bytes.
-/

namespace ColorComputer

/-- Eight bits, the width of the data bus. -/
abbrev Byte := BitVec 8

/-- Sixteen bits, the width of an address. -/
abbrev Word := BitVec 16

/-- Thirty-two bits, the width of the accumulator `Q`. -/
abbrev Long := BitVec 32

namespace Word

/-- The word whose high byte is `high` and whose low byte is `low`. -/
def ofBytes (high low : Byte) : Word := high ++ low

/-- Bits 15 to 8. -/
def highByte (w : Word) : Byte := w.extractLsb' 8 8

/-- Bits 7 to 0. -/
def lowByte (w : Word) : Byte := w.extractLsb' 0 8

/-- A byte read as a two's complement offset. -/
def ofSigned (b : Byte) : Word := b.signExtend 16

/-- A byte with zeros above it. -/
def ofUnsigned (b : Byte) : Word := b.setWidth 16

theorem toNat_ofBytes (high low : Byte) :
    (ofBytes high low).toNat = high.toNat * 256 + low.toNat := by
  have h := Nat.shiftLeft_add_eq_or_of_lt low.isLt high.toNat
  simp only [ofBytes, BitVec.toNat_append]
  rw [← h, Nat.shiftLeft_eq]

theorem toNat_highByte (w : Word) : (highByte w).toNat = w.toNat / 256 := by
  have hw := w.isLt
  simp only [highByte, BitVec.extractLsb'_toNat, Nat.shiftRight_eq_div_pow]
  omega

theorem toNat_lowByte (w : Word) : (lowByte w).toNat = w.toNat % 256 := by
  simp [lowByte, BitVec.extractLsb'_toNat]

@[simp] theorem highByte_ofBytes (high low : Byte) : highByte (ofBytes high low) = high := by
  have hl := low.isLt
  apply BitVec.eq_of_toNat_eq
  rw [toNat_highByte, toNat_ofBytes]
  omega

@[simp] theorem lowByte_ofBytes (high low : Byte) : lowByte (ofBytes high low) = low := by
  have hl := low.isLt
  apply BitVec.eq_of_toNat_eq
  rw [toNat_lowByte, toNat_ofBytes]
  omega

@[simp] theorem ofBytes_highByte_lowByte (w : Word) : ofBytes (highByte w) (lowByte w) = w := by
  apply BitVec.eq_of_toNat_eq
  rw [toNat_ofBytes, toNat_highByte, toNat_lowByte]
  omega

end Word

namespace Long

/-- The long whose high word is `high` and whose low word is `low`. -/
def ofWords (high low : Word) : Long := high ++ low

/-- Bits 31 to 16. -/
def highWord (q : Long) : Word := q.extractLsb' 16 16

/-- Bits 15 to 0. -/
def lowWord (q : Long) : Word := q.extractLsb' 0 16

theorem toNat_ofWords (high low : Word) :
    (ofWords high low).toNat = high.toNat * 65536 + low.toNat := by
  have h := Nat.shiftLeft_add_eq_or_of_lt low.isLt high.toNat
  simp only [ofWords, BitVec.toNat_append]
  rw [← h, Nat.shiftLeft_eq]

theorem toNat_highWord (q : Long) : (highWord q).toNat = q.toNat / 65536 := by
  have hq := q.isLt
  simp only [highWord, BitVec.extractLsb'_toNat, Nat.shiftRight_eq_div_pow]
  omega

theorem toNat_lowWord (q : Long) : (lowWord q).toNat = q.toNat % 65536 := by
  simp [lowWord, BitVec.extractLsb'_toNat]

@[simp] theorem highWord_ofWords (high low : Word) : highWord (ofWords high low) = high := by
  have hl := low.isLt
  apply BitVec.eq_of_toNat_eq
  rw [toNat_highWord, toNat_ofWords]
  omega

@[simp] theorem lowWord_ofWords (high low : Word) : lowWord (ofWords high low) = low := by
  have hl := low.isLt
  apply BitVec.eq_of_toNat_eq
  rw [toNat_lowWord, toNat_ofWords]
  omega

@[simp] theorem ofWords_highWord_lowWord (q : Long) : ofWords (highWord q) (lowWord q) = q := by
  apply BitVec.eq_of_toNat_eq
  rw [toNat_ofWords, toNat_highWord, toNat_lowWord]
  omega

end Long

end ColorComputer
