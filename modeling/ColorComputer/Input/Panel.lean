import ColorComputer.Input.Joystick
import ColorComputer.Input.Keyboard

/-!
# The input panel

Everything the user can touch: the keyboard and both joysticks.
-/

namespace ColorComputer

/-- The keyboard and the joysticks. -/
@[ext] structure Panel where
  keyboard : Keyboard
  joysticks : Joysticks
  deriving DecidableEq

namespace Panel

/-- Nothing is touched. -/
def released : Panel := ⟨.released, .centred⟩

instance : Inhabited Panel := ⟨released⟩

/-- Press or release a key. -/
def setKey (p : Panel) (row column : Nat) (down : Bool) : Panel :=
  { p with keyboard := p.keyboard.setKey row column down }

/-- Move an axis. -/
def setAxis (p : Panel) (stick : Stick) (axis : Axis) (value : Byte) : Panel :=
  { p with joysticks := p.joysticks.setAxis stick axis value }

/-- Press or release a button. -/
def setButton (p : Panel) (stick : Stick) (button : Button) (down : Bool) : Panel :=
  { p with joysticks := p.joysticks.setButton stick button down }

/-- The rows that keyboard and buttons drive, in bits 0 to 6, and in bit 7 whether the level exceeds
the selected axis. -/
def rows (p : Panel) (strobe level : Byte) (selector : BitVec 2) : Byte :=
  BitVec.ofBool (p.joysticks.exceeds level selector) ++
    (p.keyboard.scan strobe &&& p.joysticks.buttonRows).setWidth 7

end Panel

end ColorComputer
