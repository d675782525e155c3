import ColorComputer.Word

/-!
# The joysticks

Two sticks of two axes and two buttons. An axis is a position from 0 to 63. The machine cannot read
it; it can only compare a level with the axis that a selector names. Buttons pull rows low that
the keyboard also uses.
-/

namespace ColorComputer

/-- One stick. -/
@[ext] structure Joystick where
  x : BitVec 6
  y : BitVec 6
  buttonOne : Bool
  buttonTwo : Bool
  deriving DecidableEq

namespace Joystick

/-- A centred stick with no button down. -/
def centred : Joystick := ⟨32, 32, false, false⟩

end Joystick

/-- Both sticks. -/
@[ext] structure Joysticks where
  right : Joystick
  left : Joystick
  deriving DecidableEq

/-- The sticks by name. -/
inductive Stick
  | right | left
  deriving DecidableEq

/-- The axes by name. -/
inductive Axis
  | x | y
  deriving DecidableEq

/-- The buttons by name. -/
inductive Button
  | one | two
  deriving DecidableEq

namespace Joysticks

/-- Both sticks centred. -/
def centred : Joysticks := ⟨.centred, .centred⟩

instance : Inhabited Joysticks := ⟨centred⟩

/-- One of the sticks. -/
def get (j : Joysticks) : Stick → Joystick
  | .right => j.right
  | .left => j.left

/-- Change one of the sticks. -/
def modify (j : Joysticks) (stick : Stick) (f : Joystick → Joystick) : Joysticks :=
  match stick with
  | .right => { j with right := f j.right }
  | .left => { j with left := f j.left }

/-- The axis position nearest to a byte: positions end at 63. -/
def clamp (value : Byte) : BitVec 6 := if value ≤ 63 then value.setWidth 6 else 63

/-- Move an axis. -/
def setAxis (j : Joysticks) (stick : Stick) (axis : Axis) (value : Byte) : Joysticks :=
  j.modify stick fun s =>
    match axis with
    | .x => { s with x := clamp value }
    | .y => { s with y := clamp value }

/-- Press or release a button. -/
def setButton (j : Joysticks) (stick : Stick) (button : Button) (down : Bool) : Joysticks :=
  j.modify stick fun s =>
    match button with
    | .one => { s with buttonOne := down }
    | .two => { s with buttonTwo := down }

/-- The axis that a selector names: bit 1 chooses the stick, bit 0 the axis. -/
def selectedAxis (j : Joysticks) (selector : BitVec 2) : BitVec 6 :=
  match selector with
  | 0 => j.right.x
  | 1 => j.right.y
  | 2 => j.left.x
  | 3 => j.left.y

/-- A level exceeds the selected axis. -/
def exceeds (j : Joysticks) (level : Byte) (selector : BitVec 2) : Bool :=
  (j.selectedAxis selector).setWidth 8 < level

/-- The rows as the buttons drive them, low where pulled. -/
def buttonRows (j : Joysticks) : Byte :=
  ~~~((0 : BitVec 4) ++ BitVec.ofBool j.left.buttonTwo ++ BitVec.ofBool j.right.buttonTwo ++
    BitVec.ofBool j.left.buttonOne ++ BitVec.ofBool j.right.buttonOne)

end Joysticks

end ColorComputer
