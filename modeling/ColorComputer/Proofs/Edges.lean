import ColorComputer.Proofs.Looking
import ColorComputer.Proofs.Past

/-!
# The edges that an adapter saw

Each port of an adapter has a flag for the active edges of its input C1. Which edge is active is
chosen in the control register and may be chosen anew at any time; the flag is lost when the pins
are read, and only then or at a reset. So the flag tells of the past, of what software wrote and
read and of the levels that came in, and of that port alone.

* `Wired.port_occur` — all that an event does to a port.
* `Wired.obeys_through` — the control bits and the level are those that the past asks for.
* `Wired.flag_through` — so is the flag.
* `Wired.edges_recorded` — what the control register and the interrupt output tell of the past.
-/

namespace ColorComputer

namespace Pia

/-! ### Ports by name -/

/-- The names of the two ports. -/
inductive PortName
  | a | b
  deriving DecidableEq

namespace PortName

/-- The register that shows the pins of a port or its directions. -/
def dataRegister : PortName → BitVec 2
  | a => 0
  | b => 2

/-- The register that shows the control bits and the flag of a port. -/
def controlRegister : PortName → BitVec 2
  | a => 1
  | b => 3

end PortName

/-- The port of a name. -/
def port (pia : Pia) : PortName → Port
  | .a => pia.a
  | .b => pia.b

theorem port_afterRead (pia : Pia) (register : BitVec 2) (name : PortName) :
    (pia.afterRead register).port name =
      if register = name.dataRegister then (pia.port name).afterReadData else pia.port name := by
  rcases register_cases register with rfl | rfl | rfl | rfl <;> cases name <;> rfl

theorem port_write (pia : Pia) (register : BitVec 2) (value : Byte) (name : PortName) :
    (pia.write register value).port name =
      if register = name.dataRegister then (pia.port name).writeData value
      else if register = name.controlRegister then (pia.port name).writeControl value
      else pia.port name := by
  rcases register_cases register with rfl | rfl | rfl | rfl <;> cases name <;> rfl

/-! ### Events -/

/-- All that can be done to an adapter. A register is named by a byte, of which two bits count. -/
inductive Event
  | read (register : Byte)
  | peek (register : Byte)
  | write (register value : Byte)
  /-- C1 of a port is driven to a level. -/
  | drive (name : PortName) (level : Bool)
  /-- The outside world puts other levels on the pins. -/
  | outside (levels : Outside)
  | reset

/-- An adapter and the levels that the outside world puts on its pins. -/
structure Wired where
  pia : Pia
  outside : Outside

namespace Wired

/-- The adapter after reset, whatever is wired to its pins. -/
def start (outside : Outside) : Wired := ⟨.reset, outside⟩

/-- The adapter after an event. -/
def occur (w : Wired) : Event → Wired
  | .read register => { w with pia := (w.pia.read w.outside (register.setWidth 2)).2 }
  | .peek _ => w
  | .write register value => { w with pia := w.pia.write (register.setWidth 2) value }
  | .drive .a level => { w with pia := w.pia.setCA1 level }
  | .drive .b level => { w with pia := w.pia.setCB1 level }
  | .outside levels => { w with outside := levels }
  | .reset => { w with pia := .reset }

/-- The adapter after one event after the other. -/
def through (w : Wired) (history : List Event) : Wired := history.foldl occur w

theorem through_append (w : Wired) (history : List Event) (event : Event) :
    w.through (history ++ [event]) = (w.through history).occur event := by
  simp [through]

/-- What software reads from the control register of a port. -/
def controlRead (w : Wired) (name : PortName) : Byte :=
  (w.pia.read w.outside name.controlRegister).1

theorem controlRead_eq (w : Wired) (name : PortName) :
    w.controlRead name = (w.pia.port name).controlByte := by
  cases name <;> rfl

/-- All that an event does to a port. -/
theorem port_occur (w : Wired) (event : Event) (name : PortName) :
    (w.occur event).pia.port name =
      match event with
      | .read register =>
        if register.setWidth 2 = name.dataRegister then (w.pia.port name).afterReadData
        else w.pia.port name
      | .write register value =>
        if register.setWidth 2 = name.dataRegister then (w.pia.port name).writeData value
        else if register.setWidth 2 = name.controlRegister then (w.pia.port name).writeControl value
        else w.pia.port name
      | .drive driven level =>
        if driven = name then (w.pia.port name).setC1 level else w.pia.port name
      | .reset => .reset
      | .peek _ | .outside _ => w.pia.port name := by
  cases event with
  | read register =>
    show (w.pia.read w.outside (register.setWidth 2)).2.port name = _
    rw [read_eq]
    exact w.pia.port_afterRead (register.setWidth 2) name
  | write register value => exact w.pia.port_write (register.setWidth 2) value name
  | drive driven level => cases driven <;> cases name <;> rfl
  | reset => cases name <;> rfl
  | peek register => rfl
  | outside levels => rfl

end Wired

/-! ### What the past asks for -/

namespace Event

/-- A reset. -/
def isReset : Event → Bool
  | reset => true
  | _ => false

/-- What is written to the control register of a port; the two high bits are not writable. -/
def control? (name : PortName) : Event → Option (BitVec 6)
  | write register value =>
    if register.setWidth 2 = name.controlRegister then some (value.setWidth 6) else none
  | _ => none

/-- The level that C1 of a port is driven to. -/
def level? (name : PortName) : Event → Option Bool
  | drive driven level => if driven = name then some level else none
  | _ => none

end Event

/-- The control bits that were written last since the last reset, which clears them. -/
def controlBits (name : PortName) (history : List Event) : BitVec 6 :=
  (lastSaid Event.isReset (Event.control? name) history).getD 0

/-- The level that C1 was driven to last since the last reset, which takes it for high. -/
def level (name : PortName) (history : List Event) : Bool :=
  (lastSaid Event.isReset (Event.level? name) history).getD true

/-- C1 goes to another level, in the direction that control bit 1 chooses at that moment. -/
def ActiveEdge (name : PortName) (before : List Event) (event : Event) : Prop :=
  ∃ high, event = .drive name high ∧ high ≠ level name before ∧
    high = (controlBits name before).getLsbD 1

/-- The flag is taken: by a reset, or because the data register is read while control bit 2 chooses
the pins. -/
def TakesFlag (name : PortName) (before : List Event) (event : Event) : Prop :=
  event = .reset ∨ ∃ register : Byte, event = .read register ∧
    register.setWidth 2 = name.dataRegister ∧ (controlBits name before).getLsbD 2 = true

section

variable (name : PortName) (history : List Event) (event : Event)

theorem controlBits_concat : controlBits name (history ++ [event]) =
    if event.isReset then 0 else (event.control? name).getD (controlBits name history) :=
  getD_lastSaid_concat ..

theorem level_concat : level name (history ++ [event]) =
    if event.isReset then true else (event.level? name).getD (level name history) :=
  getD_lastSaid_concat ..

/-- Only driving C1 makes an edge. -/
theorem activeEdge_iff : ActiveEdge name history event ↔
    match event with
    | .drive driven high =>
      driven = name ∧ high ≠ level name history ∧ high = (controlBits name history).getLsbD 1
    | _ => False := by
  cases event with
  | drive driven high =>
    constructor
    · rintro ⟨_, h, hn, hr⟩
      cases h
      exact ⟨rfl, hn, hr⟩
    · rintro ⟨rfl, hn, hr⟩
      exact ⟨high, rfl, hn, hr⟩
  | _ => simp [ActiveEdge]

/-- Only a reset and a read of the pins take the flag. -/
theorem takesFlag_iff : TakesFlag name history event ↔
    match event with
    | .read register =>
      register.setWidth 2 = name.dataRegister ∧ (controlBits name history).getLsbD 2 = true
    | .reset => True
    | _ => False := by
  cases event with
  | read register => simp [TakesFlag]
  | _ => simp [TakesFlag]

end

end Pia

/-! ### A port and its past -/

namespace Port

variable (p : Port)

theorem control_writeData (value : Byte) : (p.writeData value).control = p.control := by
  unfold writeData
  split <;> rfl

theorem c1_writeData (value : Byte) : (p.writeData value).c1 = p.c1 := by
  unfold writeData
  split <;> rfl

theorem flag_writeData (value : Byte) : (p.writeData value).flag = p.flag := by
  unfold writeData
  split <;> rfl

/-- An active edge is a transition in the direction that control bit 1 chooses. -/
theorem isActiveEdge_iff (high : Bool) :
    p.isActiveEdge high = true ↔ high ≠ p.c1 ∧ high = p.control.getLsbD 1 := by
  show (if p.control.getLsbD 1 then !p.c1 && high else p.c1 && !high) = true ↔ _
  cases p.control.getLsbD 1 <;> cases p.c1 <;> cases high <;> simp

theorem controlByte_seven : p.controlByte.getLsbD 7 = p.flag := by
  rw [controlByte, BitVec.getLsbD_append, if_neg (by decide), BitVec.getLsbD_append,
    if_neg (by decide)]
  cases p.flag <;> rfl

theorem controlByte_six : p.controlByte.getLsbD 6 = false := by
  rw [controlByte, BitVec.getLsbD_append, if_neg (by decide), BitVec.getLsbD_append,
    if_pos (by decide), p.flag2_clear]
  rfl

theorem controlByte_low {bit : Nat} (h : bit < 6) :
    p.controlByte.getLsbD bit = p.control.getLsbD bit := by
  rw [controlByte, BitVec.getLsbD_append, if_pos h]

/-- The port has the control bits and the level that the past asks for. -/
structure Obeys (name : Pia.PortName) (history : List Pia.Event) : Prop where
  control : p.control = Pia.controlBits name history
  c1 : p.c1 = Pia.level name history

end Port

namespace Pia.Wired

section

variable (w : Wired) (name : PortName) (event : Event)

theorem control_occur : ((w.occur event).pia.port name).control =
    if event.isReset then 0 else (event.control? name).getD (w.pia.port name).control := by
  rw [port_occur]
  cases event with
  | read register =>
    dsimp only
    split
    · rw [Port.afterReadData_eq]
      rfl
    · rfl
  | write register value =>
    have hne : name.dataRegister ≠ name.controlRegister := by cases name <;> decide
    dsimp only [Event.isReset, Event.control?]
    by_cases hd : register.setWidth 2 = name.dataRegister
    · rw [if_pos hd, if_neg (hd ▸ hne), Port.control_writeData]
      rfl
    · rw [if_neg hd]
      split <;> rfl
  | drive driven high =>
    dsimp only
    split <;> rfl
  | reset => rfl
  | peek register => rfl
  | outside levels => rfl

theorem c1_occur : ((w.occur event).pia.port name).c1 =
    if event.isReset then true else (event.level? name).getD (w.pia.port name).c1 := by
  rw [port_occur]
  cases event with
  | read register =>
    dsimp only
    split
    · rw [Port.afterReadData_eq]
      rfl
    · rfl
  | write register value =>
    dsimp only
    split
    · exact Port.c1_writeData _ value
    · split <;> rfl
  | drive driven high =>
    dsimp only [Event.isReset, Event.level?]
    split <;> rfl
  | reset => rfl
  | peek register => rfl
  | outside levels => rfl

end

variable {w : Wired} {name : PortName} {history : List Event}

/-- Whatever happens, a port goes on having what its past asks for. -/
theorem obeys_occur (h : (w.pia.port name).Obeys name history) (event : Event) :
    ((w.occur event).pia.port name).Obeys name (history ++ [event]) where
  control := by rw [control_occur, controlBits_concat, h.control]
  c1 := by rw [c1_occur, level_concat, h.c1]

theorem obeys_through (outside : Outside) (history : List Event) :
    (((start outside).through history).pia.port name).Obeys name history := by
  induction history using List.reverseRecOn with
  | nil => cases name <;> exact ⟨rfl, rfl⟩
  | append_singleton history event ih =>
    rw [through_append]
    exact obeys_occur ih event

/-- The flag is set by an active edge and lost when it is taken. -/
theorem flag_occur (h : (w.pia.port name).Obeys name history) (event : Event) :
    ((w.occur event).pia.port name).flag = true ↔ ActiveEdge name history event ∨
      (w.pia.port name).flag = true ∧ ¬ TakesFlag name history event := by
  rw [port_occur, activeEdge_iff, takesFlag_iff, ← h.control, ← h.c1]
  cases event with
  | read register =>
    dsimp only
    split
    · rename_i hr
      rw [Port.afterReadData_eq]
      simp [Port.without, Port.pinsSelected, hr]
    · simp [*]
  | write register value =>
    have hf : ∀ p : Port, (p.writeControl value).flag = p.flag := fun _ => rfl
    dsimp only
    split
    · simp [Port.flag_writeData]
    · split <;> simp [hf]
  | drive driven high =>
    dsimp only
    split
    · rename_i hd
      rw [Port.flag_setC1, Bool.or_eq_true, Port.isActiveEdge_iff, or_comm]
      simp [hd]
    · simp [*]
  | reset => simp [Port.reset]
  | peek register => simp
  | outside levels => simp

/-- The flag of a port tells that an active edge came in since it was taken last. -/
theorem flag_through (outside : Outside) (name : PortName) (history : List Event) :
    (((start outside).through history).pia.port name).flag = true ↔
      Since (ActiveEdge name) (TakesFlag name) history := by
  refine iff_since
    (P := fun history => (((start outside).through history).pia.port name).flag = true)
    ?_ (fun history event => ?_) history
  · cases name <;> exact Bool.false_ne_true
  · rw [through_append]
    exact flag_occur (obeys_through outside history) event

/-- **An adapter records exactly the active edges.** Whatever was done to an adapter since it was
reset, bit 7 of the control register of a port is set exactly if C1 of that port went to another
level, in the direction that control bit 1 chose at that moment, and since then there was no reset
and no read of the pins of that port. Bit 6 is clear, and the interrupt output is bit 7 where bit 0
allows it. Nothing else that is done to the adapter changes bit 7. -/
theorem edges_recorded (outside : Outside) (history : List Event) (name : PortName) :
    let w := (start outside).through history
    ((w.controlRead name).getLsbD 7 = true ↔
        Since (ActiveEdge name) (TakesFlag name) history) ∧
      (w.controlRead name).getLsbD 6 = false ∧
      (w.pia.port name).interrupt =
        ((w.controlRead name).getLsbD 7 && (w.controlRead name).getLsbD 0) ∧
      ∀ event, (∀ high, event ≠ .drive name high) → ¬ TakesFlag name history event →
        ((w.occur event).controlRead name).getLsbD 7 = (w.controlRead name).getLsbD 7 := by
  intro w
  have hw : (w.pia.port name).Obeys name history := obeys_through outside history
  rw [controlRead_eq, Port.controlByte_seven]
  refine ⟨flag_through outside name history, Port.controlByte_six _, ?_, fun event hd ht => ?_⟩
  · rw [Port.controlByte_low _ (by decide)]
    exact Port.interrupt_eq _
  · have he : ¬ ActiveEdge name history event := fun ⟨high, he, _⟩ => hd high he
    rw [controlRead_eq, Port.controlByte_seven, Bool.eq_iff_iff, flag_occur hw event]
    simp [he, ht]

end Pia.Wired

end ColorComputer
