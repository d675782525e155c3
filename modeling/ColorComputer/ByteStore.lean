import ColorComputer.Word

/-!
# Byte stores

A store of a fixed number of bytes. Every operation keeps the size, so an offset that is inside
the store once stays inside. An offset past the end reads as `none` and swallows writes.

* `read_write`: a write shows at its own offset, when that is inside, and nowhere else.
* `read_eq_none_iff`: exactly the offsets past the end hold nothing.
-/

namespace ColorComputer

/-- A store of `n` bytes. -/
@[ext] structure ByteStore (n : Nat) where
  bytes : ByteArray
  size_bytes : bytes.size = n

namespace ByteStore

variable {n : Nat}

/-- The store that holds nothing but zeros. -/
def zeros (n : Nat) : ByteStore n :=
  ⟨⟨Array.replicate n 0⟩, by simp [ByteArray.size]⟩

instance : Inhabited (ByteStore n) := ⟨zeros n⟩

/-- The byte at an offset, if the offset is inside. -/
def read (s : ByteStore n) (offset : Nat) : Option Byte :=
  if h : offset < s.bytes.size then some (s.bytes.get offset h).toBitVec else none

/-- The store with one byte replaced; an offset past the end changes nothing. -/
def write (s : ByteStore n) (offset : Nat) (value : Byte) : ByteStore n :=
  match s with
  | ⟨bytes, size_bytes⟩ =>
    if h : offset < bytes.size then
      ⟨bytes.set offset ⟨value⟩ h, by
        rw [← size_bytes]; exact Array.size_set h⟩
    else ⟨bytes, size_bytes⟩

theorem read_eq_none_iff (s : ByteStore n) (offset : Nat) :
    s.read offset = none ↔ n ≤ offset := by
  have h := s.size_bytes
  unfold read
  by_cases hi : offset < s.bytes.size
  · rw [dif_pos hi]
    exact iff_of_false nofun (by omega)
  · rw [dif_neg hi]
    exact iff_of_true rfl (by omega)

theorem isSome_read (s : ByteStore n) {offset : Nat} (h : offset < n) :
    (s.read offset).isSome := by
  rw [Option.isSome_iff_ne_none, ne_eq, read_eq_none_iff]
  omega

theorem read_mk (data : Array UInt8) (h : data.size = n) (offset : Nat) :
    (⟨⟨data⟩, h⟩ : ByteStore n).read offset = data[offset]?.map (·.toBitVec) := by
  show (if hi : offset < data.size then some data[offset].toBitVec else none) = _
  by_cases hi : offset < data.size
  · rw [dif_pos hi, Array.getElem?_eq_getElem hi]
    rfl
  · rw [dif_neg hi, Array.getElem?_eq_none (Nat.le_of_not_lt hi)]
    rfl

/-- A write shows at its own offset, when that is inside, and nowhere else. -/
theorem read_write (s : ByteStore n) (i j : Nat) (value : Byte) :
    (s.write i value).read j = if i = j ∧ i < n then some value else s.read j := by
  obtain ⟨⟨data⟩, hs⟩ := s
  have hn : data.size = n := hs
  rw [read_mk]
  by_cases hi : i < data.size
  · have hw : (⟨⟨data⟩, hs⟩ : ByteStore n).write i value =
        ⟨⟨data.set i ⟨value⟩ hi⟩, (Array.size_set hi).trans hn⟩ := dif_pos hi
    rw [hw, read_mk, Array.getElem?_set]
    by_cases e : i = j
    · rw [if_pos e, if_pos ⟨e, by omega⟩]
      rfl
    · rw [if_neg e, if_neg fun h => e h.1]
  · have hw : (⟨⟨data⟩, hs⟩ : ByteStore n).write i value = ⟨⟨data⟩, hs⟩ := dif_neg hi
    rw [hw, read_mk, if_neg fun h => hi (by omega)]

/-- The byte at an offset below the size. -/
def get (s : ByteStore n) (offset : Nat) (h : offset < n) : Byte :=
  (s.bytes.get offset (by rw [s.size_bytes]; exact h)).toBitVec

theorem read_eq_get (s : ByteStore n) {offset : Nat} (h : offset < n) :
    s.read offset = some (s.get offset h) := by
  have hs := s.size_bytes
  unfold read get
  rw [dif_pos (by omega)]

theorem get_zeros {offset : Nat} (h : offset < n) : (zeros n).get offset h = 0 := by
  have hr := read_eq_get (zeros n) h
  have hz : (zeros n).read offset = some 0 := by
    rw [zeros, read_mk, Array.getElem?_replicate, if_pos h]
    rfl
  exact Option.some.inj (hr.symm.trans hz)

theorem get_write (s : ByteStore n) (i j : Nat) (value : Byte) (hi : i < n) (hj : j < n) :
    (s.write i value).get j hj = if i = j then value else s.get j hj := by
  have h := read_write s i j value
  rw [read_eq_get _ hj, read_eq_get _ hj] at h
  by_cases e : i = j
  · subst e
    simpa [hi] using h
  · simpa [e] using h

end ByteStore

end ColorComputer
