import ColorComputer.Proofs.Mapping
import ColorComputer.Proofs.Past

/-!
# The sources that the GIME reports

For each of two lines the GIME latches the sources that happen while they are enabled, and gives
them up when the latch is read. Writing to the address of a latch sets its enables, so that the
latch and the enables never mix; the master enables are in INIT0. What a latch holds is told by the
past: by what software wrote and read and by the sources that happened.

* `latched_occur` — all that an event does to a latch.
* `obeys_through` — the enables are what was written last.
* `sources_reported` — what a latch reports, and when the chip drives the line.
-/

namespace ColorComputer

namespace Gime

/-! ### Latches by name -/

/-- The names of the two latches. -/
inductive Latch
  | irq | firq
  deriving DecidableEq

namespace Latch

/-- Where a latch is read, and its enables are written. -/
def address : Latch → Word
  | irq => 0xFF92
  | firq => 0xFF93

/-- The bit of INIT0 that enables the line of a latch. -/
def masterBit : Latch → Nat
  | irq => 5
  | firq => 4

end Latch

/-- What a latch holds. -/
def latched (g : Gime) : Latch → Byte
  | .irq => g.irqLatched
  | .firq => g.firqLatched

/-- The enables of a latch. -/
def enables (g : Gime) : Latch → BitVec 6
  | .irq => g.irqEnable
  | .firq => g.firqEnable

/-- The chip drives the line of a latch. -/
def active (g : Gime) : Latch → Bool
  | .irq => g.irqActive
  | .firq => g.firqActive

/-- A source is enabled for the line of a latch. -/
def isEnabled (g : Gime) (latch : Latch) (source : Fin 8) : Bool :=
  g.init0.getLsbD latch.masterBit && (g.enables latch).getLsbD source

/-- A source by its bit. -/
def sourceBit (source : Fin 8) : Byte := BitVec.twoPow 8 source

example : sourceBit 5 = sourceTimer ∧ sourceBit 4 = sourceLine ∧ sourceBit 3 = sourceField ∧
    sourceBit 0 = sourceCartridge := by decide

/-- The chip drives a line exactly if a source is latched for it. -/
theorem active_iff (g : Gime) (latch : Latch) :
    g.active latch = true ↔ ∃ source : Fin 8, (g.latched latch).getLsbD source = true := by
  have ha : g.active latch = (g.latched latch != 0) := by cases latch <;> rfl
  rw [ha, bne_iff_ne]
  generalize g.latched latch = byte
  decide +revert

/-! ### Events -/

/-- All that can be done to the chip. -/
inductive Event
  | read (address : Word)
  | peek (address : Word)
  | write (address : Word) (value : Byte)
  /-- A source happens. -/
  | raise (source : Fin 8)
  /-- The change of the timer is told to the scheduler. -/
  | timer
  | reset

/-- The chip after an event. -/
def occur (g : Gime) : Event → Gime
  | .read address => (g.read address).2
  | .peek _ => g
  | .write address value => g.write address value
  | .raise source => (g.raise (sourceBit source)).2
  | .timer => (g.takeTimerUpdate (τ := Float)).2
  | .reset => reset

/-- The chip after one event after the other. -/
def through (g : Gime) (history : List Event) : Gime := history.foldl occur g

theorem through_append (g : Gime) (history : List Event) (event : Event) :
    g.through (history ++ [event]) = (g.through history).occur event := by
  simp [through]

/-! ### What events do -/

section

variable (g : Gime) (latch : Latch)

/-- A source has one bit, which meets the enables in one bit. -/
theorem enables_and_sourceBit (enables : BitVec 6) (source : Fin 8) :
    (enables.setWidth 8 &&& sourceBit source != 0) = enables.getLsbD source := by
  have hne : sourceBit source ≠ 0 := by decide +revert
  have hbit : (enables.setWidth 8).getLsbD source = enables.getLsbD source := by simp
  rw [sourceBit, BitVec.and_twoPow, hbit]
  cases enables.getLsbD source with
  | false => rfl
  | true => exact bne_iff_ne.2 hne

theorem latched_raise (source : Fin 8) : (g.raise (sourceBit source)).2.latched latch =
    if g.isEnabled latch source then g.latched latch ||| sourceBit source
    else g.latched latch := by
  cases latch with
  | irq =>
    have he : g.raisesIrq (sourceBit source) = g.isEnabled .irq source :=
      congrArg (g.irqMaster && ·) (enables_and_sourceBit g.irqEnable source)
    rw [← he]
    exact g.irqLatched_raise (sourceBit source)
  | firq =>
    have he : g.raisesFirq (sourceBit source) = g.isEnabled .firq source :=
      congrArg (g.firqMaster && ·) (enables_and_sourceBit g.firqEnable source)
    rw [← he]
    exact g.firqLatched_raise (sourceBit source)

theorem latched_read (address : Word) : (g.read address).2.latched latch =
    if address = latch.address then 0 else g.latched latch := by
  rw [read_eq, afterRead_eq]
  cases latch with
  | irq =>
    show (if decide (address = 0xFF92) = true then 0 else g.irqLatched) = _
    simp only [decide_eq_true_eq]
    rfl
  | firq =>
    show (if decide (address = 0xFF93) = true then 0 else g.firqLatched) = _
    simp only [decide_eq_true_eq]
    rfl

theorem latched_write (address : Word) (value : Byte) :
    (g.write address value).latched latch = g.latched latch := by
  refine g.write_cases address value ?_ ?_ ?_ ?_ ?_ ?_ ?_ ?_
  all_goals intros; cases latch <;> rfl

theorem enables_write (address : Word) (value : Byte) :
    (g.write address value).enables latch =
      if address = latch.address then value.setWidth 6 else g.enables latch := by
  by_cases h : address = latch.address
  · subst h
    cases latch <;> rfl
  · rw [if_neg h]
    refine g.write_cases address value ?_ ?_ ?irqEnable ?firqEnable ?_ ?_ ?_ ?_
    case irqEnable =>
      intro h92
      cases latch with
      | irq => exact absurd h92 h
      | firq => rfl
    case firqEnable =>
      intro h93
      cases latch with
      | irq => rfl
      | firq => exact absurd h93 h
    all_goals intros; cases latch <;> rfl

/-- All that an event does to a latch. -/
theorem latched_occur (event : Event) : (g.occur event).latched latch =
    match event with
    | .read address => if address = latch.address then 0 else g.latched latch
    | .raise source =>
      if g.isEnabled latch source then g.latched latch ||| sourceBit source else g.latched latch
    | .reset => 0
    | .peek _ | .write _ _ | .timer => g.latched latch := by
  cases event with
  | read address => exact g.latched_read latch address
  | peek address => rfl
  | write address value => exact g.latched_write latch address value
  | raise source => exact g.latched_raise latch source
  | timer =>
    show (g.takeTimerUpdate (τ := Float)).2.latched latch = _
    unfold takeTimerUpdate
    cases g.timerChanged <;> cases latch <;> rfl
  | reset => cases latch <;> rfl

end

/-! ### What the past asks for -/

namespace Event

/-- A reset. -/
def isReset : Event → Bool
  | reset => true
  | _ => false

/-- What is written at an address. -/
def written? (address : Word) : Event → Option Byte
  | write place value => if place = address then some value else none
  | _ => none

end Event

/-- The byte that was written last at an address since the last reset, which clears the
registers. -/
def lastWritten (address : Word) (history : List Event) : Byte :=
  (lastSaid Event.isReset (Event.written? address) history).getD 0

/-- The bit of INIT0 for the line and the enable of the source are set. There are six enables. -/
def Enabled (latch : Latch) (source : Fin 8) (history : List Event) : Prop :=
  (lastWritten 0xFF90 history).getLsbD latch.masterBit = true ∧
    source.val < 6 ∧ (lastWritten latch.address history).getLsbD source = true

/-- The source happens at a moment when it is enabled. -/
def Happens (latch : Latch) (source : Fin 8) (before : List Event) (event : Event) : Prop :=
  event = .raise source ∧ Enabled latch source before

/-- The latch is emptied: it is read, or there is a reset. -/
def Empties (latch : Latch) (_before : List Event) (event : Event) : Prop :=
  event = .read latch.address ∨ event = .reset

theorem lastWritten_concat (address : Word) (history : List Event) (event : Event) :
    lastWritten address (history ++ [event]) =
      if event.isReset then 0 else (event.written? address).getD (lastWritten address history) :=
  getD_lastSaid_concat ..

/-! ### A latch and its past -/

/-- INIT0 and the enables are what was written last. -/
structure Obeys (g : Gime) (history : List Event) : Prop where
  init0 : g.init0 = lastWritten 0xFF90 history
  enables : ∀ latch, g.enables latch = (lastWritten latch.address history).setWidth 6

variable {g : Gime} {history : List Event}

theorem init0_occur (g : Gime) (event : Event) : (g.occur event).init0 =
    if event.isReset then 0 else (event.written? 0xFF90).getD g.init0 := by
  cases event with
  | read address =>
    show (g.read address).2.init0 = g.init0
    rw [read_eq, afterRead_eq]
    rfl
  | write address value =>
    show (g.write address value).init0 =
      (if address = 0xFF90 then some value else none).getD g.init0
    rw [init0_write]
    split <;> rfl
  | timer =>
    show (g.takeTimerUpdate (τ := Float)).2.init0 = g.init0
    unfold takeTimerUpdate
    split <;> rfl
  | peek _ | raise _ | reset => rfl

theorem enables_occur (g : Gime) (event : Event) (latch : Latch) : (g.occur event).enables latch =
    if event.isReset then 0
    else ((event.written? latch.address).map (·.setWidth 6)).getD (g.enables latch) := by
  cases event with
  | read address =>
    show (g.read address).2.enables latch = g.enables latch
    rw [read_eq, afterRead_eq]
    cases latch <;> rfl
  | write address value =>
    show (g.write address value).enables latch =
      ((if address = latch.address then some value else none).map (·.setWidth 6)).getD _
    rw [enables_write]
    split <;> rfl
  | timer =>
    show (g.takeTimerUpdate (τ := Float)).2.enables latch = g.enables latch
    unfold takeTimerUpdate
    cases g.timerChanged <;> cases latch <;> rfl
  | peek _ | raise _ | reset => cases latch <;> rfl

/-- Whatever happens, the enables go on being what was written last. -/
theorem obeys_occur (h : g.Obeys history) (event : Event) :
    (g.occur event).Obeys (history ++ [event]) where
  init0 := by rw [init0_occur, lastWritten_concat, h.init0]
  enables latch := by
    rw [enables_occur, lastWritten_concat, h.enables]
    split
    · rfl
    · cases event.written? latch.address <;> rfl

theorem obeys_through (history : List Event) : (reset.through history).Obeys history := by
  induction history using List.reverseRecOn with
  | nil => exact ⟨rfl, fun latch => by cases latch <;> rfl⟩
  | append_singleton history event ih =>
    rw [through_append]
    exact obeys_occur ih event

theorem isEnabled_iff (h : g.Obeys history) (latch : Latch) (source : Fin 8) :
    g.isEnabled latch source = true ↔ Enabled latch source history := by
  unfold isEnabled Enabled
  rw [Bool.and_eq_true, h.init0, h.enables, BitVec.getLsbD_setWidth, Bool.and_eq_true,
    decide_eq_true_eq]

/-- A source is latched when it happens while it is enabled, and lost when the latch is emptied. -/
theorem getLsbD_latched_occur (h : g.Obeys history) (latch : Latch) (source : Fin 8)
    (event : Event) : ((g.occur event).latched latch).getLsbD source = true ↔
      Happens latch source history event ∨
        (g.latched latch).getLsbD source = true ∧ ¬ Empties latch history event := by
  rw [latched_occur]
  unfold Happens Empties
  cases event with
  | read address =>
    dsimp only
    split <;> simp [*]
  | raise raised =>
    have hbit : (sourceBit raised).getLsbD source = decide (raised = source) := by decide +revert
    dsimp only
    by_cases hs : raised = source
    · subst hs
      rw [← isEnabled_iff h]
      cases g.isEnabled latch raised with
      | true => simp [hbit]
      | false => simp
    · -- another source is no part of what is latched
      have hkept : (if g.isEnabled latch raised then g.latched latch ||| sourceBit raised
          else g.latched latch).getLsbD source = (g.latched latch).getLsbD source := by
        split
        · rw [BitVec.getLsbD_or, hbit, decide_eq_false hs, Bool.or_false]
        · rfl
      rw [hkept]
      simp [hs]
  | reset => simp
  | _ => simp

theorem latched_through (history : List Event) (latch : Latch) (source : Fin 8) :
    ((reset.through history).latched latch).getLsbD source = true ↔
      Since (Happens latch source) (Empties latch) history := by
  refine iff_since
    (P := fun history => ((reset.through history).latched latch).getLsbD source = true)
    ?_ (fun history event => ?_) history
  · cases latch <;> simp [through, reset, latched]
  · rw [through_append]
    exact getLsbD_latched_occur (obeys_through history) latch source event

/-- **Every source is reported exactly once.** Whatever was done to the chip since it was reset, a
read of a latch returns the sources that happened, at moments when they were enabled there, since
the latch was read last or the chip was reset. The chip drives a line exactly if there is one.
Looking shows the same, and nothing but a source, a read of the latch and a reset changes what is
latched: neither what is written, nor what is read elsewhere. -/
theorem sources_reported (history : List Event) (latch : Latch) :
    let g := reset.through history
    (∀ source : Fin 8, (g.read latch.address).1.getLsbD source = true ↔
        Since (Happens latch source) (Empties latch) history) ∧
      (g.active latch = true ↔ ∃ source, Since (Happens latch source) (Empties latch) history) ∧
      g.peek latch.address = (g.read latch.address).1 ∧
      ∀ event, (∀ source, event ≠ .raise source) → ¬ Empties latch history event →
        ((g.occur event).read latch.address).1 = (g.read latch.address).1 := by
  intro g
  have hread : ∀ g : Gime, (g.read latch.address).1 = g.latched latch := by
    intro g
    rw [read_eq]
    cases latch <;> rfl
  refine ⟨fun source => ?_, ?_, g.peek_eq_read _, fun event hr he => ?_⟩
  · rw [hread]
    exact latched_through history latch source
  · rw [active_iff]
    exact exists_congr (latched_through history latch)
  · rw [hread, hread, latched_occur]
    cases event with
    | read address => exact if_neg fun ha : address = _ => he (.inl (congrArg Event.read ha))
    | raise source => exact absurd rfl (hr source)
    | reset => exact absurd (.inr rfl) he
    | peek _ | write _ _ | timer => rfl

end Gime

end ColorComputer
