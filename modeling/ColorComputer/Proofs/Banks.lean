import Mathlib.Data.Nat.ModEq
import ColorComputer.Proofs.Custody

/-!
# The banks of an image

An image of more than 16K is cut into banks of 16K, of which the last one may be shorter. What lies
past the end of the image is its beginning again, byte by byte. So a bank number past the last bank
comes round to the banks of the image only if these fill it; else it shows the image shifted by what
the last bank lacks.

* `Cartridge.position` — the position in the image that is shown.
* `Cartridge.position_start_iff`, `Cartridge.position_round_iff` — when bank numbers come round.
* `Cartridge.banks_wrap` — what the window shows of an image, for every bank number.
* `Cartridge.not_banks_wrap` — an image whose last bank is short.
-/

namespace ColorComputer

namespace Cartridge

/-- The number of banks into which the image is cut. -/
def bankCount (c : Cartridge) : Nat := (c.image.size + (bankSize - 1)) / bankSize

/-- Where the bank of the image begins that a bank number comes to if they are counted round. -/
def start (c : Cartridge) (bank : Byte) : Nat := bank.toNat % c.bankCount * bankSize

/-- The position in the image that is shown at an offset into the window. -/
def position (c : Cartridge) (bank : Byte) (offset : Nat) : Nat :=
  (c.setBank bank).index offset % c.image.size

variable (c : Cartridge) (bank : Byte) (offset : Nat)

theorem position_lt : c.position bank offset < c.image.size := Nat.mod_lt _ c.size_pos

theorem read_setBank : (c.setBank bank).read offset =
    (c.image.get (c.position bank offset) (c.position_lt bank offset)).toBitVec := rfl

/-- The banks cover the image, and all of them but the last are full. -/
theorem bankCount_bounds :
    0 < c.bankCount ∧ (c.bankCount - 1) * bankSize < c.image.size ∧
      c.image.size ≤ c.bankCount * bankSize := by
  have hpos := c.size_pos
  unfold bankCount bankSize
  omega

theorem start_lt : c.start bank < c.image.size := by
  obtain ⟨hk, hlast, -⟩ := c.bankCount_bounds
  have hr : bank.toNat % c.bankCount < c.bankCount := Nat.mod_lt _ hk
  calc bank.toNat % c.bankCount * bankSize
      ≤ (c.bankCount - 1) * bankSize := Nat.mul_le_mul_right _ (by omega)
    _ < c.image.size := hlast

variable {c}

theorem position_of_le (h : c.image.size ≤ bankSize) :
    c.position bank offset = offset % c.image.size := by
  have hi : (c.setBank bank).index offset = offset := if_pos h
  rw [position, hi]

section Large

variable (h : bankSize < c.image.size)
include h

theorem position_of_lt :
    c.position bank offset = (bank.toNat * bankSize + offset) % c.image.size := by
  have hi : (c.setBank bank).index offset = bank.toNat * bankSize + offset :=
    if_neg (Nat.not_le.2 h)
  rw [position, hi]

/-- The window begins with the bank that the bank number comes to, counted round, where the size of
the image divides the rounds that were counted. -/
theorem position_start_iff : c.position bank 0 = c.start bank ↔
    c.image.size ∣ bank.toNat / c.bankCount * (c.bankCount * bankSize) := by
  have hle : c.start bank ≤ bank.toNat * bankSize := Nat.mul_le_mul_right _ (Nat.mod_le _ _)
  have hmod : c.start bank % c.image.size = c.start bank := Nat.mod_eq_of_lt (c.start_lt bank)
  have hrounds : bank.toNat * bankSize - c.start bank =
      bank.toNat / c.bankCount * (c.bankCount * bankSize) := by
    have hsplit := Nat.div_add_mod' bank.toNat c.bankCount
    rw [start, ← Nat.sub_mul, ← Nat.mul_assoc]
    congr 1
    omega
  calc c.position bank 0 = c.start bank
      ↔ c.start bank ≡ bank.toNat * bankSize [MOD c.image.size] := by
        rw [position_of_lt bank 0 h, Nat.add_zero, Nat.ModEq, hmod, eq_comm]
    _ ↔ c.image.size ∣ bank.toNat * bankSize - c.start bank := Nat.modEq_iff_dvd' hle
    _ ↔ _ := by rw [hrounds]

/-- The banks fill the image if it divides them. -/
theorem size_dvd_iff : c.image.size ∣ c.bankCount * bankSize ↔ bankSize ∣ c.image.size := by
  obtain ⟨hk, hlast, hall⟩ := c.bankCount_bounds
  unfold bankSize at *
  constructor
  · rintro ⟨q, hq⟩
    -- less than a bank is lacking, so the image divides them once
    have hlt : c.image.size * q < c.image.size * 2 := by omega
    have hq2 : q < 2 := Nat.lt_of_mul_lt_mul_left hlt
    have hq0 : q ≠ 0 := by
      rintro rfl
      omega
    obtain rfl : q = 1 := by omega
    exact ⟨c.bankCount, by omega⟩
  · rintro ⟨count, hcount⟩
    obtain rfl : count = c.bankCount := by omega
    exact dvd_of_eq (by omega)

/-- One round later, a bank number shows the same only if the banks fill the image. -/
theorem position_round_iff {later : Byte} (hl : later.toNat = bank.toNat + c.bankCount) :
    c.position later offset = c.position bank offset ↔ bankSize ∣ c.image.size := by
  have hround : later.toNat * bankSize + offset =
      bank.toNat * bankSize + offset + c.bankCount * bankSize := by
    rw [hl, Nat.add_mul]
    omega
  calc c.position later offset = c.position bank offset
      ↔ bank.toNat * bankSize + offset ≡
          bank.toNat * bankSize + offset + c.bankCount * bankSize [MOD c.image.size] := by
        rw [position_of_lt later offset h, position_of_lt bank offset h, hround, Nat.ModEq, eq_comm]
    _ ↔ c.image.size ∣ c.bankCount * bankSize := by
        rw [Nat.modEq_iff_dvd' (Nat.le_add_right _ _), Nat.add_sub_cancel_left]
    _ ↔ bankSize ∣ c.image.size := size_dvd_iff h

end Large

/-- An image that was accepted is the one that is in the cartridge. -/
theorem image_of_ofImage? {name : String} {image : ByteArray} (h : ofImage? name image = .ok c) :
    c.image = image := by
  obtain ⟨c', ho, hl⟩ := ofImage?_of_fits name ((ofImage?_eq_ok_iff name image).1 ⟨c, h⟩)
  obtain rfl := Except.ok.inj (h.symm.trans ho)
  exact congrArg Prod.snd hl

/-- **How banks wrap.** The window shows bytes of the image that was accepted, whatever bank is
chosen, and an image of at most 16K repeats. Of a larger one the window begins with the bank that
the bank number comes to, counted round, exactly where the size of the image divides the rounds of
banks that were counted; and one round later a bank number shows the same exactly if the size is a
multiple of 16K. -/
theorem banks_wrap {name : String} {image : ByteArray} (h : ofImage? name image = .ok c)
    (bank : Byte) (offset : Nat) :
    (∃ hi : c.position bank offset < image.size,
      (c.setBank bank).read offset = (image.get (c.position bank offset) hi).toBitVec) ∧
    (image.size ≤ bankSize → c.position bank offset = offset % image.size) ∧
    (bankSize < image.size →
      (c.position bank 0 = c.start bank ↔
        image.size ∣ bank.toNat / c.bankCount * (c.bankCount * bankSize)) ∧
      ∀ later : Byte, later.toNat = bank.toNat + c.bankCount →
        (c.position later offset = c.position bank offset ↔ bankSize ∣ image.size)) := by
  obtain rfl := image_of_ofImage? h
  exact ⟨⟨c.position_lt bank offset, c.read_setBank bank offset⟩, position_of_le bank offset,
    fun hl => ⟨position_start_iff bank hl, fun _ => position_round_iff bank offset hl⟩⟩

/-! ### Images whose last bank is full or short -/

/-- The image with these bytes. -/
def imageOf (size : Nat) (byte : Nat → UInt8) : ByteArray :=
  ⟨Array.ofFn (n := size) fun i => byte i.val⟩

theorem size_imageOf (size : Nat) (byte : Nat → UInt8) : (imageOf size byte).size = size :=
  Array.size_ofFn

theorem get_of_eq_imageOf {size : Nat} {byte : Nat → UInt8} {image : ByteArray}
    (h : image = imageOf size byte) {i : Nat} (hi : i < image.size) : image.get i hi = byte i := by
  subst h
  have hs : i < size := by rwa [size_imageOf] at hi
  exact get_ofFn (fun j => byte j.val) hs hi

theorem exists_ofImage?_imageOf (name : String) {size : Nat} (byte : Nat → UInt8)
    (hs : 0 < size ∧ size ≤ maxSize) : ∃ c, ofImage? name (imageOf size byte) = .ok c :=
  (ofImage?_eq_ok_iff name _).2 (by rwa [size_imageOf])

/-- Four banks, each of which repeats its number. -/
def numbered : ByteArray := imageOf 0x10000 fun i => UInt8.ofNat (i / bankSize)

/-- Where all banks are full, bank 6 of four is bank 2. -/
theorem banks_wrap_numbered : ∃ c, ofImage? "numbered" numbered = .ok c ∧
    (c.setBank 6).read 0 = 2 ∧ ∀ offset, c.position 6 offset = c.position 2 offset := by
  obtain ⟨c, h⟩ : ∃ c, ofImage? "numbered" numbered = .ok c :=
    exists_ofImage?_imageOf _ _ (by decide)
  have hsize : numbered.size = 0x10000 := size_imageOf ..
  have hcount : c.bankCount = 4 := by
    rw [bankCount, image_of_ofImage? h, hsize]
    rfl
  have hlarge : bankSize < numbered.size := by
    rw [hsize]
    decide
  refine ⟨c, h, ?_, fun offset => ?_⟩
  · obtain ⟨⟨hi, hr⟩, -, hl⟩ := banks_wrap h 6 0
    have hstart : c.position 6 0 = 0x8000 := by
      rw [(hl hlarge).1.2 (by rw [hcount, hsize]; decide), start, hcount]
      rfl
    have hbyte : numbered.get (c.position 6 0) hi = UInt8.ofNat (c.position 6 0 / bankSize) :=
      get_of_eq_imageOf rfl hi
    rw [hr, hbyte, hstart]
    rfl
  · have hround := ((banks_wrap h 2 offset).2.2 hlarge).2 6 (by rw [hcount]; rfl)
    exact hround.2 (by rw [hsize]; decide)

/-- A bank and one byte. All bytes are zero but the first. -/
def uneven : ByteArray := imageOf 0x4001 fun i => if i = 0 then 1 else 0

/-- Of a bank and one byte, bank 2 is not bank 0: the window begins two bytes before the end of the
image. -/
theorem not_banks_wrap : ¬ ∀ (name : String) (image : ByteArray) (c : Cartridge),
    ofImage? name image = .ok c → bankSize < image.size → ∀ bank : Byte,
      (c.setBank bank).read 0 = (c.image.get (c.start bank) (c.start_lt bank)).toBitVec ∧
      ∀ (later : Byte) (offset : Nat), later.toNat = bank.toNat + c.bankCount →
        (c.setBank later).read offset = (c.setBank bank).read offset := by
  intro hall
  obtain ⟨c, h⟩ : ∃ c, ofImage? "uneven" uneven = .ok c :=
    exists_ofImage?_imageOf _ _ (by decide)
  have hsize : uneven.size = 0x4001 := size_imageOf ..
  have himage : c.image = uneven := image_of_ofImage? h
  have hlarge : bankSize < uneven.size := by
    rw [hsize]
    decide
  have hposition : c.position 2 0 = 0x3FFF := by
    rw [position_of_lt 2 0 (by rwa [himage]), himage, hsize]
    rfl
  have hstart : c.start 2 = 0 := by
    rw [start, bankCount, himage, hsize]
    rfl
  have hsame := (hall "uneven" uneven c h hlarge 2).1
  rw [read_setBank, get_of_eq_imageOf himage, get_of_eq_imageOf himage, hposition, hstart] at hsame
  exact absurd hsame (by decide)

end Cartridge

end ColorComputer
