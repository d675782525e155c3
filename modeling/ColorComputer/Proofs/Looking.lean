import ColorComputer.Proofs.Happening
import ColorComputer.Proofs.Watch

/-!
# Looking and reading

A read over the bus returns what looking at the address shows. It can acknowledge a source: reading
the pins of a port clears the flag of that port, reading a latch of the GIME empties that latch. A
board that was read and one that was not are then told apart by what was acknowledged and by nothing
else, whatever happens to both of them afterwards.

* `Board.read_eq_without` — the board after a read is the board without what was acknowledged.
* `Board.Indistinct.through` — boards that differ in some flags only go on to differ in these only.
* `Board.Indistinct.sameBut` — and what can be seen of them differs only there.
* `Board.look_read` — looking, reading, and what a read leaves behind.
-/

namespace ColorComputer

/-! ### Where ports are seen -/

namespace Side

/-- The first address of the adapter that a port belongs to. -/
def first : Side → Word
  | firstA | firstB => 0xFF00
  | secondA | secondB => 0xFF20

/-- The register that shows the data of a port. -/
def dataRegister : Side → BitVec 2
  | firstA | secondA => 0
  | firstB | secondB => 2

/-- An adapter shows each of its four registers at eight addresses, four apart. -/
def ShownAt (side : Side) (register : BitVec 2) (a : Word) : Prop :=
  side.first ≤ a ∧ a ≤ side.first + 0x1F ∧ a.setWidth 2 = register

instance (side : Side) (register : BitVec 2) : DecidablePred (side.ShownAt register) :=
  fun _ => inferInstanceAs (Decidable (_ ∧ _ ∧ _))

/-- The address shows the data of the port. -/
def AtData (side : Side) (a : Word) : Prop := side.ShownAt side.dataRegister a

/-- The address shows the control register of the port, which comes behind its data. -/
def AtControl (side : Side) (a : Word) : Prop := side.ShownAt (side.dataRegister + 1) a

instance (side : Side) : DecidablePred side.AtData :=
  inferInstanceAs (DecidablePred (side.ShownAt _))

instance (side : Side) : DecidablePred side.AtControl :=
  inferInstanceAs (DecidablePred (side.ShownAt _))

end Side

/-! ### What is acknowledged -/

namespace Source

/-- A read of an address acknowledges a source: it reads the pins of its port, or its latch. -/
def acknowledged (b : Board) (a : Word) : Source → Bool
  | firstA => decide (Side.firstA.AtData a) && b.pia0.a.pinsSelected
  | firstB => decide (Side.firstB.AtData a) && b.pia0.b.pinsSelected
  | secondA => decide (Side.secondA.AtData a) && b.pia1.a.pinsSelected
  | secondB => decide (Side.secondB.AtData a) && b.pia1.b.pinsSelected
  | irqLatch => a = 0xFF92
  | firqLatch => a = 0xFF93

/-- The addresses that show the flag of a source. -/
def ShownAt : Source → Word → Prop
  | firstA => Side.firstA.AtControl
  | firstB => Side.firstB.AtControl
  | secondA => Side.secondA.AtControl
  | secondB => Side.secondB.AtControl
  | irqLatch => (· = 0xFF92)
  | firqLatch => (· = 0xFF93)

/-- What else an address shows that shows the flag of a source: a port has its flag in bit 7 of its
control register, a latch is there alone. -/
def otherBits : Source → Byte
  | firstA | firstB | secondA | secondB => 0x7F
  | irqLatch | firqLatch => 0x00

end Source

/-! ### Ports without their flags -/

namespace Port

/-- The port, its flag cleared if that is asked. -/
def without (p : Port) (cleared : Bool) : Port := { p with flag := p.flag && !cleared }

variable (p : Port) (c d : Bool)

@[simp] theorem without_false : p.without false = p := by simp [without]

@[simp] theorem without_without : (p.without c).without d = p.without (c || d) := by
  simp [without, Bool.and_assoc]

@[simp] theorem driven_without : (p.without c).driven = p.driven := rfl

@[simp] theorem c2_without : (p.without c).c2 = p.c2 := rfl

/-- The flag of C2 is clear already. -/
theorem acknowledged_eq : p.acknowledged = p.without true := by
  ext1 <;> simp [acknowledged, without, p.flag2_clear]

theorem afterReadData_eq : p.afterReadData = p.without p.pinsSelected := by
  unfold afterReadData
  cases p.pinsSelected with
  | false => exact (p.without_false).symm
  | true => exact p.acknowledged_eq

theorem writeData_without (value : Byte) :
    (p.without c).writeData value = (p.writeData value).without c := by
  show (if p.pinsSelected then _ else _) = (if p.pinsSelected then _ else _ : Port).without c
  split <;> rfl

/-- An edge may set the flag again, and no more than the flag. -/
theorem setC1_without (level : Bool) :
    ((p.without c).setC1 level).without c = (p.setC1 level).without c := by
  cases c with
  | false => simp only [without_false]
  | true => simp [without, setC1]

theorem controlByte_without :
    (p.without c).controlByte = if c then p.controlByte &&& 0x7F else p.controlByte := by
  cases c with
  | false => simp
  | true =>
    have bits : ∀ (flag flag2 : Bool) (control : BitVec 6),
        BitVec.ofBool false ++ BitVec.ofBool flag2 ++ control =
          (BitVec.ofBool flag ++ BitVec.ofBool flag2 ++ control) &&& 0x7F := by
      decide
    simpa [without, controlByte] using bits p.flag p.flag2 p.control

theorem interrupt_without : (p.without c).interrupt = (p.interrupt && !c) := by
  simp [interrupt_eq, without, interruptEnabled, Bool.and_right_comm]

end Port

namespace Pia

/-- The adapter, the flags of its ports cleared where that is asked. -/
def without (pia : Pia) (a b : Bool) : Pia := ⟨pia.a.without a, pia.b.without b⟩

variable (pia : Pia) (ca cb : Bool) (register : BitVec 2)

@[simp] theorem without_without (da db : Bool) :
    (pia.without ca cb).without da db = pia.without (ca || da) (cb || db) := by
  simp [without]

theorem register_cases : register = 0 ∨ register = 1 ∨ register = 2 ∨ register = 3 := by
  decide +revert

theorem afterRead_eq : pia.afterRead register =
    pia.without (register = 0 && pia.a.pinsSelected) (register = 2 && pia.b.pinsSelected) := by
  rcases register_cases register with rfl | rfl | rfl | rfl <;>
    simp [afterRead, without, Port.afterReadData_eq]

theorem write_without (value : Byte) :
    (pia.without ca cb).write register value = (pia.write register value).without ca cb := by
  rcases register_cases register with rfl | rfl | rfl | rfl
  · simp [write, without, Port.writeData_without]
  · rfl
  · simp [write, without, Port.writeData_without]
  · rfl

/-- The control registers show the flags, the data addresses do not. -/
theorem peek_without {register : BitVec 2} (outside : Outside) (h1 : register ≠ 1)
    (h3 : register ≠ 3) :
    (pia.without ca cb).peek outside register = pia.peek outside register := by
  rcases register_cases register with rfl | rfl | rfl | rfl
  · rfl
  · exact absurd rfl h1
  · rfl
  · exact absurd rfl h3

end Pia

/-! ### The GIME without its latches -/

namespace Gime

/-- The chip, its latches emptied where that is asked. -/
def without (g : Gime) (irq firq : Bool) : Gime :=
  { g with
    irqLatched := if irq then 0 else g.irqLatched
    firqLatched := if firq then 0 else g.firqLatched }

variable (g : Gime) (i f : Bool) (a : Word)

theorem afterRead_eq : g.afterRead a = g.without (a = 0xFF92) (a = 0xFF93) := by
  unfold afterRead without
  by_cases h92 : a = 0xFF92
  · simp [h92]
  · rw [if_neg h92, decide_eq_false h92]
    by_cases h93 : a = 0xFF93
    · simp [h93]
    · rw [if_neg h93, decide_eq_false h93]
      rfl

@[simp] theorem without_without (i' f' : Bool) :
    (g.without i f).without i' f' = g.without (i || i') (f || f') := by
  have latch : ∀ (x y : Bool) (v : Byte),
      (if y then 0 else if x then 0 else v) = if x || y then 0 else v := by
    intro x y v
    cases x <;> cases y <;> rfl
  simp only [without, latch]

theorem write_without (v : Byte) : (g.without i f).write a v = (g.write a v).without i f := by
  unfold write
  repeat' split
  all_goals rfl

/-- A source may be latched again, and no more than latched. -/
theorem raise_without (source : Byte) :
    ((g.without i f).raise source).2.without i f = (g.raise source).2.without i f := by
  cases i <;> cases f <;> rfl

theorem irqActive_without : (g.without i f).irqActive = (g.irqActive && !i) := by
  cases i <;> simp [irqActive, without]

theorem firqActive_without : (g.without i f).firqActive = (g.firqActive && !f) := by
  cases f <;> simp [firqActive, without]

theorem peek_without {a : Word} (h92 : a ≠ 0xFF92) (h93 : a ≠ 0xFF93) :
    (g.without i f).peek a = g.peek a := by
  unfold peek
  rw [if_neg h92, if_neg h93, if_neg h92, if_neg h93]
  rfl

end Gime

/-! ### Which device is at an address -/

namespace Board.Device

variable {a : Word}

theorem ofAddress_eq_pia0_iff : ofAddress a = .pia0 ↔ a ≤ 0xFF1F := by
  unfold ofAddress
  repeat' split
  all_goals simp_all

theorem ofAddress_eq_pia1_iff : ofAddress a = .pia1 ↔ 0xFF20 ≤ a ∧ a ≤ 0xFF3F := by
  unfold ofAddress
  split
  · simp
    bv_omega
  · have h : 0xFF20 ≤ a := by bv_omega
    repeat' split
    all_goals simp_all

end Board.Device

theorem Board.isDevice_iff {a : Word} : isDevice a = true ↔ 0xFF00 ≤ a := decide_eq_true_iff

namespace Side

/-- The source of interrupts that a port is. -/
def source : Side → Source
  | firstA => .firstA
  | firstB => .firstB
  | secondA => .secondA
  | secondB => .secondB

/-- The adapter that a port belongs to. -/
def device : Side → Board.Device
  | firstA | firstB => .pia0
  | secondA | secondB => .pia1

theorem shownAt_iff (side : Side) (register : BitVec 2) (a : Word) : side.ShownAt register a ↔
    Board.isDevice a = true ∧ Board.Device.ofAddress a = side.device ∧ a.setWidth 2 = register := by
  have h20 : (0xFF20 : Word) ≤ a → (0xFF00 : Word) ≤ a := BitVec.le_trans (by decide)
  unfold ShownAt
  rw [Board.isDevice_iff]
  cases side with
  | firstA | firstB => simp [first, device, Board.Device.ofAddress_eq_pia0_iff]
  | secondA | secondB =>
    simp only [first, device, Board.Device.ofAddress_eq_pia1_iff]
    exact ⟨fun h => ⟨h20 h.1, ⟨h.1, h.2.1⟩, h.2.2⟩, fun h => ⟨h.2.1.1, h.2.1.2, h.2.2⟩⟩

end Side

namespace Source

/-- The device that a source belongs to. -/
def device : Source → Board.Device
  | firstA | firstB => .pia0
  | secondA | secondB => .pia1
  | irqLatch | firqLatch => .gime

/-- Only a read of its own device acknowledges a source. -/
theorem device_of_acknowledged {b : Board} {a : Word} {source : Source}
    (h : source.acknowledged b a = true) :
    Board.isDevice a = true ∧ Board.Device.ofAddress a = source.device := by
  cases source with
  | firstA | firstB | secondA | secondB =>
    simp only [acknowledged, Side.AtData, Side.shownAt_iff, Bool.and_eq_true,
      decide_eq_true_eq] at h
    exact ⟨h.1.1, h.1.2.1⟩
  | irqLatch | firqLatch =>
    obtain rfl := of_decide_eq_true h
    decide

theorem acknowledged_of_ne {b : Board} {a : Word} {source : Source}
    (h : Board.isDevice a = true → Board.Device.ofAddress a ≠ source.device) :
    source.acknowledged b a = false := by
  rw [Bool.eq_false_iff]
  intro hs
  obtain ⟨hd, ho⟩ := device_of_acknowledged hs
  exact h hd ho

/-- At its adapter, a port is acknowledged where its data are shown and the pins are selected. -/
theorem acknowledged_port (b : Board) {a : Word} (side : Side) (hd : Board.isDevice a = true)
    (ho : Board.Device.ofAddress a = side.device) : side.source.acknowledged b a =
      (decide (a.setWidth 2 = side.dataRegister) && (b.port side).pinsSelected) := by
  have h : side.AtData a ↔ a.setWidth 2 = side.dataRegister := by
    simp [Side.AtData, Side.shownAt_iff, hd, ho]
  rw [← decide_eq_decide.2 h]
  cases side <;> rfl

end Source

/-! ### What a read leaves -/

namespace Board

/-- The board with the flags of some sources cleared. -/
def without (b : Board) (cleared : Source → Bool) : Board :=
  { b with
    gime := b.gime.without (cleared .irqLatch) (cleared .firqLatch)
    pia0 := b.pia0.without (cleared .firstA) (cleared .firstB)
    pia1 := b.pia1.without (cleared .secondA) (cleared .secondB) }

variable (b : Board) (a : Word) (c : Source → Bool)

theorem without_none {c : Source → Bool} (h : ∀ source, c source = false) : b.without c = b := by
  simp [without, Gime.without, Pia.without, h]

theorem without_without (d : Source → Bool) :
    (b.without c).without d = b.without fun source => c source || d source := by
  simp [without]

/-- The board after a read is the board without what was acknowledged. -/
theorem read_eq_without : (Bus.read b a).2 = b.without (Source.acknowledged b a) := by
  rw [read_eq]
  dsimp only
  cases hd : isDevice a with
  | false =>
    refine (b.without_none fun source => Source.acknowledged_of_ne ?_).symm
    simp [hd]
  | true =>
    rw [if_pos rfl]
    unfold afterReadDevice
    -- a device leaves the flags of the others alone, so only its own are to be compared
    have off : ∀ source : Source, Device.ofAddress a ≠ source.device →
        source.acknowledged b a = false := fun _ h => Source.acknowledged_of_ne fun _ => h
    cases h : Device.ofAddress a with
    | pia0 =>
      rw [h] at off
      have h0 := off .secondA (by decide)
      have h1 := off .secondB (by decide)
      have h2 := off .irqLatch (by decide)
      have h3 := off .firqLatch (by decide)
      have hA : Source.firstA.acknowledged b a = (a.setWidth 2 = 0 && b.pia0.a.pinsSelected) :=
        Source.acknowledged_port b .firstA hd h
      have hB : Source.firstB.acknowledged b a = (a.setWidth 2 = 2 && b.pia0.b.pinsSelected) :=
        Source.acknowledged_port b .firstB hd h
      simp [without, Pia.without, Gime.without, Pia.afterRead_eq, *]
    | pia1 =>
      rw [h] at off
      have h0 := off .firstA (by decide)
      have h1 := off .firstB (by decide)
      have h2 := off .irqLatch (by decide)
      have h3 := off .firqLatch (by decide)
      have hA : Source.secondA.acknowledged b a = (a.setWidth 2 = 0 && b.pia1.a.pinsSelected) :=
        Source.acknowledged_port b .secondA hd h
      have hB : Source.secondB.acknowledged b a = (a.setWidth 2 = 2 && b.pia1.b.pinsSelected) :=
        Source.acknowledged_port b .secondB hd h
      simp [without, Pia.without, Gime.without, Pia.afterRead_eq, *]
    | gime =>
      rw [h] at off
      have h0 := off .firstA (by decide)
      have h1 := off .firstB (by decide)
      have h2 := off .secondA (by decide)
      have h3 := off .secondB (by decide)
      have hi : Source.irqLatch.acknowledged b a = decide (a = 0xFF92) := rfl
      have hf : Source.firqLatch.acknowledged b a = decide (a = 0xFF93) := rfl
      simp [without, Pia.without, Gime.afterRead_eq, *]
    | _ =>
      refine (b.without_none fun source => off source ?_).symm
      rw [h]
      cases source <;> decide

/-- What does not depend on the adapters and the GIME is kept in a run if a write keeps it. -/
theorem Steady.of_chips {P : Board → Prop}
    (chips : ∀ {b}, P b → ∀ gime pia0 pia1, P { b with gime := gime, pia0 := pia0, pia1 := pia1 })
    (write : ∀ {b}, P b → ∀ a v, P (Bus.write b a v)) : Steady P where
  read {b} h a := by
    rw [read_eq_without]
    exact chips h _ _ _
  write := write
  raise h _ := chips h _ _ _
  drive h side _ := by cases side <;> exact chips h _ _ _
  timer h := chips h _ _ _

/-- What a read acknowledges does not depend on the flags. -/
theorem acknowledged_without : Source.acknowledged (b.without c) a = Source.acknowledged b a := by
  funext source
  cases source <;> rfl

/-- A write neither sees nor changes a flag. -/
theorem write_without (v : Byte) : Bus.write (b.without c) a v = (Bus.write b a v).without c := by
  show (if isDevice a then (b.without c).writeDevice a v else (b.without c).writeMemory a v) =
    (if isDevice a then b.writeDevice a v else b.writeMemory a v).without c
  split
  · unfold writeDevice
    cases Device.ofAddress a with
    | pia0 => simp [without, Pia.write_without]
    | pia1 => simp [without, Pia.write_without]
    | gime =>
      dsimp only
      unfold shareGimeWrite
      repeat' split
      all_goals simp [without, mapMmu, Gime.write_without]
    | _ => rfl
  · rfl

/-! ### Boards that differ in some flags -/

/-- The boards differ in nothing but the flags of some sources. -/
def Indistinct (c : Source → Bool) (b b' : Board) : Prop := b.without c = b'.without c

namespace Indistinct

variable {b} {a} {c} {b' : Board}

/-- A change keeps boards indistinct if the flags in question have no part in it. -/
theorem apply (h : Indistinct c b b') {f : Board → Board}
    (hf : ∀ b, (f (b.without c)).without c = (f b).without c) : Indistinct c (f b) (f b') := by
  unfold Indistinct
  rw [← hf b, h, hf b']

/-- So does a change that leaves these flags alone. -/
theorem apply_of_commute (h : Indistinct c b b') {f : Board → Board}
    (hf : ∀ b, f (b.without c) = (f b).without c) : Indistinct c (f b) (f b') := by
  refine h.apply fun b => ?_
  rw [hf, without_without]
  simp

theorem read (h : Indistinct c b b') (a : Word) :
    Indistinct c (Bus.read b a).2 (Bus.read b' a).2 := by
  refine h.apply (f := fun b => (Bus.read b a).2) fun b => ?_
  simp only [read_eq_without, acknowledged_without, without_without]
  congr 1
  funext source
  cases c source <;> simp

theorem write (h : Indistinct c b b') (a : Word) (v : Byte) :
    Indistinct c (Bus.write b a v) (Bus.write b' a v) :=
  h.apply_of_commute (f := fun b => Bus.write b a v) fun b => b.write_without a c v

theorem serve (h : Indistinct c b b') (t : Transaction) :
    Indistinct c (t.serve b) (t.serve b') := by
  cases t with
  | read a => exact h.read a
  | write a v => exact h.write a v
  | readWord a => exact (h.read a).read _
  | writeWord a v => exact (h.write a _).write _ _

theorem driveC1 (h : Indistinct c b b') (side : Side) (level : Bool) :
    Indistinct c (b.driveC1 side level) (b'.driveC1 side level) := by
  refine h.apply (f := fun b => b.driveC1 side level) fun b => ?_
  cases side <;>
    simp [Board.driveC1, without, Pia.without, Pia.setCA1, Pia.setCB1, Port.setC1_without]

theorem occur (h : Indistinct c b b') (happening : Happening) :
    Indistinct c (b.occur happening) (b'.occur happening) := by
  cases happening with
  | access t => exact h.serve t
  | raise source =>
    refine h.apply (f := fun b => b.raise source) fun b => ?_
    simp [Board.raise, without, Gime.raise_without]
  | drive side level => exact h.driveC1 side level
  | timer => exact h.apply_of_commute (f := tellTimer) fun _ => rfl
  | port cartridge =>
    exact h.apply_of_commute (f := fun b => { b with cartridge := cartridge }) fun _ => rfl
  | touch t =>
    exact h.apply_of_commute (f := fun b => { b with panel := t.apply b.panel }) fun _ => rfl
  | reset => exact h.apply (f := Board.reset) fun _ => rfl

/-- Boards that differ in some flags only go on to differ in these only. -/
theorem through (h : Indistinct c b b') (history : List Happening) :
    Indistinct c (b.through history) (b'.through history) := by
  induction history generalizing b b' with
  | nil => exact h
  | cons happening rest ih => exact ih (h.occur happening)

end Indistinct

/-! ### What can be seen of a board -/

theorem peek_eq_peekDevice {b : Board} {a : Word} (hd : isDevice a = true) :
    Bus.peek b a = b.peekDevice a := by
  show b.peek a = _
  rw [peek, if_pos hd]

theorem peek_control {side : Side} {a : Word} (h : side.AtControl a) :
    Bus.peek b a = (b.port side).controlByte := by
  obtain ⟨hd, ho, hr⟩ := (side.shownAt_iff _ a).1 h
  rw [peek_eq_peekDevice hd, peekDevice, ho]
  cases side <;> simp [Side.device, Side.dataRegister, hr, Pia.peek, port]

@[simp] theorem sample_without : (b.without c).sample = b.sample := rfl

@[simp] theorem multiplier_without : (b.without c).multiplier = b.multiplier := rfl

theorem port_without (side : Side) :
    (b.without c).port side = (b.port side).without (c side.source) := by
  cases side <;> rfl

/-- Where the flag of a source is shown, nothing else is gone with it. -/
theorem peek_without_of_shownAt {a : Word} {source : Source} (h : source.ShownAt a) :
    Bus.peek (b.without c) a =
      if c source then Bus.peek b a &&& source.otherBits else Bus.peek b a := by
  cases source with
  | firstA | firstB | secondA | secondB =>
    rw [peek_control _ h, peek_control _ h, port_without, Port.controlByte_without]
    rfl
  | irqLatch | firqLatch =>
    obtain rfl := h
    rw [peek_eq_peekDevice (by decide), peek_eq_peekDevice (by decide)]
    simp [peekDevice, Device.ofAddress, without, Gime.peek, Gime.without, Source.otherBits]

/-- Elsewhere nothing is gone. -/
theorem peek_without_of_not_shownAt {a : Word}
    (h : ∀ source : Source, ¬ source.ShownAt a) : Bus.peek (b.without c) a = Bus.peek b a := by
  cases hd : isDevice a with
  | false =>
    show (b.without c).peek a = b.peek a
    rw [peek, peek, hd]
    rfl
  | true =>
    rw [peek_eq_peekDevice hd, peek_eq_peekDevice hd, peekDevice, peekDevice]
    have hs : ∀ side : Side, Device.ofAddress a = side.device →
        a.setWidth 2 ≠ side.dataRegister + 1 := by
      intro side ho hr
      exact h side.source (by cases side <;> exact (Side.shownAt_iff _ _ a).2 ⟨hd, ho, hr⟩)
    cases ho : Device.ofAddress a with
    | pia0 =>
      rw [ho] at hs
      exact Pia.peek_without _ _ _ _ (hs .firstA rfl) (hs .firstB rfl)
    | pia1 =>
      rw [ho] at hs
      exact Pia.peek_without _ _ _ _ (hs .secondA rfl) (hs .secondB rfl)
    | gime => exact Gime.peek_without _ _ _ (h .irqLatch) (h .firqLatch)
    | _ => rfl

theorem peek_without {a : Word} (h : ∀ source : Source, c source = true → ¬ source.ShownAt a) :
    Bus.peek (b.without c) a = Bus.peek b a := by
  by_cases hs : ∃ source : Source, source.ShownAt a
  · obtain ⟨source, hs⟩ := hs
    rw [b.peek_without_of_shownAt c hs, if_neg fun hc => h source hc hs]
  · exact b.peek_without_of_not_shownAt c fun source hsource => hs ⟨source, hsource⟩

theorem around_without {a : Word} {source : Source} (h : source.ShownAt a) :
    Bus.peek (b.without c) a &&& source.otherBits = Bus.peek b a &&& source.otherBits := by
  rw [b.peek_without_of_shownAt c h]
  split
  · rw [BitVec.and_assoc, BitVec.and_self]
  · rfl

theorem active_without (source : Source) :
    source.active (b.without c) = (source.active b && !c source) := by
  cases source with
  | firstA | firstB | secondA | secondB => exact Port.interrupt_without _ _
  | irqLatch | firqLatch => simp [Source.active, without, Gime.irqActive_without,
      Gime.firqActive_without]

/-- A line is up where a source drives it. -/
theorem level_iff (line : Interrupt) :
    b.level line = true ↔ ∃ source : Source, source.line = line ∧ source.active b = true := by
  constructor
  · intro h
    cases line with
    | nmi => exact absurd h Bool.false_ne_true
    | firq =>
      have hf : b.firqLevel = true := h
      simp only [firqLevel, Pia.interrupt, Bool.or_eq_true] at hf
      rcases hf with (hf | hf) | hf
      · exact ⟨.secondA, rfl, hf⟩
      · exact ⟨.secondB, rfl, hf⟩
      · exact ⟨.firqLatch, rfl, hf⟩
    | irq =>
      have hi : b.irqLevel = true := h
      simp only [irqLevel, Pia.interrupt, Bool.or_eq_true] at hi
      rcases hi with (hi | hi) | hi
      · exact ⟨.firstA, rfl, hi⟩
      · exact ⟨.firstB, rfl, hi⟩
      · exact ⟨.irqLatch, rfl, hi⟩
  · rintro ⟨source, rfl, h⟩
    exact Source.level_of_active h

/-- All that can be seen of two boards is the same, but for the flags of some sources. -/
structure SameBut (hidden : Source → Bool) (b b' : Board) : Prop where
  peek : ∀ a, (∀ source : Source, hidden source = true → ¬ source.ShownAt a) →
    Bus.peek b a = Bus.peek b' a
  /-- Where a flag is shown, all the rest there is the same. -/
  around : ∀ (source : Source) (a), source.ShownAt a →
    Bus.peek b a &&& source.otherBits = Bus.peek b' a &&& source.otherBits
  active : ∀ source : Source, hidden source = false → source.active b = source.active b'
  level : ∀ line, (∀ source : Source, hidden source = true → source.line ≠ line) →
    b.level line = b'.level line
  driven : ∀ side, (b.port side).driven = (b'.port side).driven
  c2 : ∀ side, (b.port side).c2 = (b'.port side).c2
  sample : b.sample = b'.sample
  multiplier : b.multiplier = b'.multiplier

/-- What can be seen of boards that differ in some flags only. -/
theorem Indistinct.sameBut {b b' : Board} {c : Source → Bool} (h : Indistinct c b b') :
    SameBut c b b' := by
  unfold Indistinct at h
  have hactive : ∀ source : Source, c source = false → source.active b = source.active b' := by
    intro source hc
    have hs := congrArg source.active h
    rw [active_without, active_without, hc] at hs
    simpa using hs
  have hport : ∀ side : Side, (b.port side).without (c side.source) =
      (b'.port side).without (c side.source) := by
    intro side
    rw [← port_without, ← port_without, h]
  constructor
  case peek =>
    intro a ha
    rw [← b.peek_without c ha, h, b'.peek_without c ha]
  case around =>
    intro source a hs
    rw [← b.around_without c hs, h, b'.around_without c hs]
  case active => exact hactive
  case level =>
    intro line hl
    rw [Bool.eq_iff_iff, level_iff, level_iff]
    refine exists_congr fun source => and_congr_right fun hline => ?_
    have hc : c source = false := Bool.eq_false_iff.2 fun hs => hl source hs hline
    rw [hactive source hc]
  case driven =>
    intro side
    simpa using congrArg Port.driven (hport side)
  case c2 =>
    intro side
    simpa using congrArg Port.c2 (hport side)
  case sample => simpa using congrArg Board.sample h
  case multiplier => simpa using congrArg Board.multiplier h

/-- A read returns what looking at the address shows. It clears the flag of a port whose pins it
reads, and it empties a latch that it reads, so that these sources let go of their lines; then a
board that was read and one that was not are told apart by these flags and by nothing else, whatever
happens to both of them. -/
theorem look_read (b : Board) (a : Word) :
    (Bus.read b a).1 = Bus.peek b a ∧
      (∀ (source : Source) (later : Word), source.ShownAt later →
        Bus.peek (Bus.read b a).2 later =
          if source.acknowledged b a then Bus.peek b later &&& source.otherBits
          else Bus.peek b later) ∧
      (∀ line, (Bus.read b a).2.level line = true ↔
        ∃ source : Source, source.line = line ∧ source.active b = true ∧
          source.acknowledged b a = false) ∧
      ∀ history : List Happening, SameBut (Source.acknowledged b a)
        ((Bus.read b a).2.through history) (b.through history) := by
  rw [read_eq_without]
  refine ⟨(b.peek_eq_read a).symm, ?_, fun line => ?_, fun history => ?_⟩
  · intro source later h
    exact b.peek_without_of_shownAt _ h
  · rw [level_iff]
    refine exists_congr fun source => and_congr_right fun _ => ?_
    rw [active_without, Bool.and_eq_true, Bool.not_eq_true']
  · have h : Indistinct (Source.acknowledged b a) (b.without (Source.acknowledged b a)) b := by
      unfold Indistinct
      rw [without_without]
      simp
    exact (h.through history).sameBut

end Board

end ColorComputer
