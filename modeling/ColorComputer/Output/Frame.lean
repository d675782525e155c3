import ColorComputer.Word

/-!
# Frames

What the host presents. The machine paints the whole frame in the colour of the border, so a frame
is one colour.

* `pixels_paint`: after painting every pixel has the colour painted.
* `copyTo_fst`: copying succeeds exactly when the frame fits.
-/

namespace ColorComputer

/-- A pixel: eight bits each of opacity, red, green and blue. -/
abbrev Pixel := BitVec 32

namespace Pixel

/-- Two bits of a colour spread over eight. -/
def spread (high low : Bool) : BitVec 8 := BitVec.ofNat 8 ((2 * high.toNat + low.toNat) * 0x55)

/-- The pixel of a six-bit colour, whose bits are red, green and blue (high), and red, green and
blue again (low). -/
def ofColour (colour : BitVec 6) : Pixel :=
  (0xFF : BitVec 8) ++ spread (colour.getLsbD 5) (colour.getLsbD 2) ++
    spread (colour.getLsbD 4) (colour.getLsbD 1) ++ spread (colour.getLsbD 3) (colour.getLsbD 0)

end Pixel

/-- A frame of one colour. -/
@[ext] structure Frame where
  colour : Pixel
  deriving DecidableEq

namespace Frame

/-- Pixels in a row. -/
def width : Nat := 640

/-- Rows. -/
def height : Nat := 480

/-- Bytes in a row. -/
def pitch : Nat := width * 4

/-- Pixels in a frame. -/
def size : Nat := width * height

/-- A black frame. -/
def black : Frame := ⟨0xFF000000⟩

instance : Inhabited Frame := ⟨black⟩

/-- Paint the whole frame. -/
def paint (_ : Frame) (colour : BitVec 6) : Frame := ⟨.ofColour colour⟩

/-- The pixels, row by row. -/
def pixels (f : Frame) : List Pixel := List.replicate size f.colour

/-- Copy the frame to the front of a buffer, if it fits. -/
def copyTo (f : Frame) (buffer : List Pixel) : Bool × List Pixel :=
  if buffer.length < size then (false, buffer) else (true, f.pixels ++ buffer.drop size)

/-- After painting every pixel has the colour painted. -/
theorem pixels_paint (f : Frame) (colour : BitVec 6) :
    (f.paint colour).pixels = List.replicate size (.ofColour colour) := rfl

/-- Copying succeeds exactly when the frame fits. -/
theorem copyTo_fst (f : Frame) (buffer : List Pixel) :
    (f.copyTo buffer).1 = true ↔ size ≤ buffer.length := by
  unfold copyTo
  split <;> simp <;> omega

end Frame

end ColorComputer
