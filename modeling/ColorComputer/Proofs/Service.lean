import ColorComputer.Proofs.Likeness.Arming
import ColorComputer.Proofs.Return

/-!
# The service of requests

From outside a processor is stepped, run for a budget of cycles, and its lines are driven, in any
order. What happens then is a list of *turns*, each of them a step, a rest of a budget that is
idled away, or a change of a line. This module says what the turns do to the lines, to the masks and
to the arming of NMI, and from that what holds of every run.

* `pending_next`, `masked_next`, `armed_next` — which turn latches a request, opens a mask, or arms
  NMI.
* `Leads.exists_between` — whatever is false after one turn and true at a later one was made true
  in between.
* `service` — which line is entered, and that no request is served twice, or after it was
  withdrawn, or through a mask, or before `S` was loaded.
-/

namespace ColorComputer

/-! ### Masks -/

namespace Interrupt

/-- The condition codes hold a request of the line back. Nothing holds NMI back. -/
def masked (line : Interrupt) (cc : ConditionCodes) : Bool :=
  match line with
  | nmi => false
  | firq => cc.firqMask
  | irq => cc.irqMask

/-- An entry through the line masks the other: IRQ always, and FIRQ unless the line is IRQ. -/
def masks (line other : Interrupt) : Bool :=
  match other with
  | nmi => false
  | firq => line ≠ irq
  | irq => true

theorem masked_of_eligible {line : Interrupt} {cc : ConditionCodes} {armed : Bool}
    (h : line.eligible cc armed = true) : line.masked cc = false := by
  cases line with
  | nmi => rfl
  | firq | irq => exact Bool.not_eq_true' _ ▸ h

/-- The condition codes as an entry through the line leaves them. -/
def codesAfter (line : Interrupt) (entire : Bool) (cc : ConditionCodes) : ConditionCodes :=
  { cc with entire := entire, firqMask := cc.firqMask || line.masks firq, irqMask := true }

theorem masked_codesAfter (line other : Interrupt) (entire : Bool) (cc : ConditionCodes) :
    other.masked (line.codesAfter entire cc) = (other.masked cc || line.masks other) := by
  cases other with
  | nmi => rfl
  | firq => rfl
  | irq => exact (Bool.or_true _).symm

end Interrupt

namespace Exec

variable {β : Type} [Bus β]

theorem cc_pushEntire (c : Core β) :
    (pushEntire c).2.cpu.regs.cc = { c.cpu.regs.cc with entire := true } := by
  rw [pushEntire_eq, pushAll_eq (by cases c.cpu.native <;> decide)]
  rfl

theorem cc_pushShort (c : Core β) :
    (pushShort c).2.cpu.regs.cc = { c.cpu.regs.cc with entire := false } := by
  rw [pushShort_eq, pushAll_eq (by decide)]
  rfl

theorem cc_stackForInterrupt (line : Interrupt) (wait : WaitState) (c : Core β) :
    ∃ entire, (stackForInterrupt line wait c).2.cpu.regs.cc =
      { c.cpu.regs.cc with entire := entire } := by
  by_cases hw : wait = .cwai
  · rw [hw, stackForInterrupt_cwai]
    exact ⟨c.cpu.regs.cc.entire, rfl⟩
  · rw [stackForInterrupt_eq, stackFrame_eq hw]
    split
    · have he := cc_pushEntire c
      generalize (pushEntire c).2 = d at he ⊢
      exact ⟨true, he⟩
    · have he := cc_pushShort c
      generalize (pushShort c).2 = d at he ⊢
      exact ⟨false, he⟩

/-- An entry masks, and of the other codes it changes E only. -/
theorem cc_enterInterrupt (line : Interrupt) (c : Core β) : ∃ entire,
    (enterInterrupt line c).2.cpu.regs.cc = line.codesAfter entire c.cpu.regs.cc := by
  obtain ⟨entire, hs⟩ := cc_stackForInterrupt line c.cpu.wait
    (c.mapCpu fun cpu => { cpu with lines := c.cpu.lines.consume line, wait := .running })
  refine ⟨entire, ?_⟩
  rw [enterInterrupt_eq, goToHandler_eq]
  generalize (stackForInterrupt line c.cpu.wait (c.mapCpu fun cpu =>
    { cpu with lines := c.cpu.lines.consume line, wait := .running })).2 = d at hs ⊢
  have hj : ∀ e : Core β, (jumpThrough line.vector e).2.cpu.regs.cc = e.cpu.regs.cc := fun e => rfl
  rw [hj]
  cases line with
  | irq =>
    have hm : (maskIrq d).2.cpu.regs.cc = { d.cpu.regs.cc with irqMask := true } := rfl
    rw [if_pos rfl, hm, hs]
    show _ = ({ c.cpu.regs.cc with entire, firqMask := _ || false, irqMask := true } :
      ConditionCodes)
    rw [Bool.or_false]
    rfl
  | nmi | firq =>
    have hm : (maskBoth d).2.cpu.regs.cc =
        { d.cpu.regs.cc with firqMask := true, irqMask := true } := rfl
    rw [if_neg (by decide), hm, hs]
    show _ = ({ c.cpu.regs.cc with entire, firqMask := _ || true, irqMask := true } :
      ConditionCodes)
    rw [Bool.or_true]
    rfl

end Exec

/-! ### Turns -/

/-- What happens to a processor, one thing at a time. -/
inductive Turn
  | step
  /-- The rest of a budget is idled away. -/
  | idle (cycles : Nat)
  | assert (line : Interrupt)
  | deassert (line : Interrupt)
  | setLevel (line : Interrupt) (active : Bool)
  deriving DecidableEq

/-- A turn, with the processor and the bus that it finds. -/
structure Instant (β : Type) where
  turn : Turn
  cpu : Cpu
  bus : β

namespace Instant

variable {β : Type} {i : Instant β} {line : Interrupt}

/-- The turn enters the handler of a line. -/
def Enters (line : Interrupt) (i : Instant β) : Prop := i.turn = .step ∧ i.cpu.move = .enter line

instance (line : Interrupt) : DecidablePred (Enters line : Instant β → Prop) :=
  fun _ => inferInstanceAs (Decidable (_ ∧ _))

/-- The turn runs an instruction. -/
def Executes (i : Instant β) : Prop := i.turn = .step ∧ i.cpu.move = .execute

/-- The turn latches a request that was not pending: the line is asserted, or its level rises. -/
def Latches (line : Interrupt) (i : Instant β) : Prop :=
  (i.cpu.lines.get line).pending = false ∧
    (i.turn = .assert line ∨
      i.turn = .setLevel line true ∧ (i.cpu.lines.get line).asserted = false)

instance (line : Interrupt) : DecidablePred (Latches line : Instant β → Prop) :=
  fun _ => inferInstanceAs (Decidable (_ ∧ _))

/-- The turn releases a line: the line is deasserted, or its level falls. -/
def Releases (line : Interrupt) (i : Instant β) : Prop :=
  i.turn = .deassert line ∨ i.turn = .setLevel line false ∧ (i.cpu.lines.get line).asserted = true

/-- A line is entered if it has a request that may be served and no line before it has. -/
theorem enters_iff : i.Enters line ↔ i.turn = .step ∧
    i.cpu.lines.ready i.cpu.regs.cc i.cpu.nmiArmed line = true ∧
      ∀ other, other.precedes line = true →
        i.cpu.lines.ready i.cpu.regs.cc i.cpu.nmiArmed other = false := by
  unfold Enters
  rw [Cpu.move_eq_enter_iff, InterruptLines.highest_eq_some_iff]

theorem ready_of_enters (h : i.Enters line) :
    (i.cpu.lines.get line).pending = true ∧
      line.eligible i.cpu.regs.cc i.cpu.nmiArmed = true := by
  have hr := (enters_iff.1 h).2.1
  rwa [InterruptLines.ready, Bool.and_eq_true] at hr

/-! ### What a turn does -/

variable [Bus β]

/-- The processor and the bus that the turn leaves. -/
def next (i : Instant β) : Cpu × β :=
  match i.turn with
  | .step => ((i.cpu.step i.bus).cpu, (i.cpu.step i.bus).bus)
  | .idle n => ({ i.cpu with totalCycles := i.cpu.totalCycles + n }, i.bus)
  | .assert line => (i.cpu.assert line, i.bus)
  | .deassert line => (i.cpu.deassert line, i.bus)
  | .setLevel line active => (i.cpu.setLevel line active, i.bus)

/-- The turn runs an instruction that clears the mask of a line. -/
def Unmasks (line : Interrupt) (i : Instant β) : Prop :=
  i.Executes ∧ line.masked i.cpu.regs.cc = true ∧ line.masked i.next.1.regs.cc = false

/-- The turn runs an instruction that loads `S`. -/
def LoadsS (i : Instant β) : Prop :=
  i.Executes ∧ (⟨i.cpu.awake, i.bus, 0⟩ : Core β).LoadsS

theorem next_of_enters (h : i.Enters line) : i.next.1 = (i.cpu.step i.bus).cpu := by
  unfold next
  rw [h.1]

/-- A turn that is neither an entry nor an instruction touches neither codes nor arming. -/
theorem frame_next (he : ∀ line, ¬ i.Enters line) (hx : ¬ i.Executes) :
    i.next.1.regs.cc = i.cpu.regs.cc ∧ i.next.1.nmiArmed = i.cpu.nmiArmed := by
  obtain ⟨turn, cpu, bus⟩ := i
  cases turn with
  | step =>
    cases hm : cpu.move with
    | enter line => exact absurd ⟨rfl, hm⟩ (he line)
    | execute => exact absurd ⟨rfl, hm⟩ hx
    | idle =>
      show (cpu.step bus).cpu.regs.cc = _ ∧ (cpu.step bus).cpu.nmiArmed = _
      rw [Cpu.step_idle hm]
      exact ⟨rfl, rfl⟩
  | idle n | assert l | deassert l | setLevel l active => exact ⟨rfl, rfl⟩

/-- A step that is no entry touches no line. -/
theorem lines_next_of_step (ht : i.turn = .step) (he : ∀ line, ¬ i.Enters line) :
    i.next.1.lines = i.cpu.lines := by
  obtain ⟨turn, cpu, bus⟩ := i
  cases ht
  show (cpu.step bus).cpu.lines = cpu.lines
  cases hm : cpu.move with
  | enter line => exact absurd ⟨rfl, hm⟩ (he line)
  | execute => exact Cpu.lines_step_execute hm bus
  | idle => rw [Cpu.step_idle hm]

/-- An entry takes its own request off and touches no other line. -/
theorem lines_next_of_enters (h : i.Enters line) :
    i.next.1.lines = i.cpu.lines.consume line := by
  rw [next_of_enters h]
  exact Cpu.lines_step_enter h.2 i.bus

theorem pending_next_of_enters (h : i.Enters line) :
    (i.next.1.lines.get line).pending = false := by
  rw [lines_next_of_enters h, InterruptLines.consume, InterruptLines.get_set_self]

end Instant

namespace InterruptLines

variable {lines : InterruptLines} {line other : Interrupt}

theorem pending_assert (h : ((lines.assert other).get line).pending = true) :
    line = other ∨ (lines.get line).pending = true := by
  by_cases he : line = other
  · exact Or.inl he
  · rw [assert, get_set_of_ne _ _ he] at h
    exact Or.inr h

theorem pending_deassert (h : ((lines.deassert other).get line).pending = true) :
    (lines.get line).pending = true := by
  by_cases he : line = other
  · subst he
    rw [deassert, get_set_self, Bool.and_eq_true] at h
    exact h.2
  · rwa [deassert, get_set_of_ne _ _ he] at h

/-- Releasing a line withdraws its request, unless the line is NMI. -/
theorem pending_deassert_self (hn : line ≠ .nmi) :
    ((lines.deassert line).get line).pending = false := by
  rw [deassert, get_set_self]
  exact (Bool.and_eq_false_iff).2 (Or.inl (decide_eq_false hn))

theorem setLevel_of_ne {active : Bool} (h : (lines.get line).asserted ≠ active) :
    lines.setLevel line active =
      if active then lines.assert line else lines.deassert line :=
  if_neg (Ne.symm h)

/-- A request of NMI outlives whatever is done to the lines from outside. -/
theorem nmi_assert (h : lines.nmi.pending = true) : (lines.assert line).nmi.pending = true := by
  cases line with
  | nmi => rfl
  | firq | irq => exact h

theorem nmi_deassert (h : lines.nmi.pending = true) :
    (lines.deassert line).nmi.pending = true := by
  cases line with
  | nmi | firq | irq => exact h

theorem nmi_consume (hl : line ≠ .nmi) (h : lines.nmi.pending = true) :
    (lines.consume line).nmi.pending = true := by
  cases line with
  | nmi => exact absurd rfl hl
  | firq | irq => exact h

end InterruptLines

namespace Instant

variable {β : Type} [Bus β] {i : Instant β} {line : Interrupt}

/-- A request that was not pending becomes so only by a turn that latches it. -/
theorem pending_next (hb : ¬ (i.cpu.lines.get line).pending = true)
    (ha : (i.next.1.lines.get line).pending = true) : i.Latches line := by
  have hb' : (i.cpu.lines.get line).pending = false := Bool.eq_false_iff.2 hb
  have hassert : ∀ other, ((i.cpu.lines.assert other).get line).pending = true → line = other :=
    fun other h => (InterruptLines.pending_assert h).resolve_right hb
  by_cases ht : i.turn = .step
  · -- No step makes a request: an entry takes one off, and any other step leaves the lines alone.
    refine absurd ?_ hb
    by_cases he : ∃ other, i.Enters other
    · obtain ⟨other, he⟩ := he
      by_cases hl : line = other
      · rw [hl, pending_next_of_enters he] at ha
        exact Bool.noConfusion ha
      · rwa [lines_next_of_enters he, InterruptLines.consume,
          InterruptLines.get_set_of_ne _ _ hl] at ha
    · rwa [lines_next_of_step ht fun other h => he ⟨other, h⟩] at ha
  · refine ⟨hb', ?_⟩
    obtain ⟨turn, cpu, bus⟩ := i
    cases turn with
    | step => exact absurd rfl ht
    | idle n => exact absurd ha hb
    | assert other => exact Or.inl (congrArg Turn.assert (hassert other ha).symm)
    | deassert other => exact absurd (InterruptLines.pending_deassert ha) hb
    | setLevel other active =>
      have ha' : ((cpu.lines.setLevel other active).get line).pending = true := ha
      by_cases hc : (cpu.lines.get other).asserted = active
      · rw [InterruptLines.setLevel, if_pos hc.symm] at ha'
        exact absurd ha' hb
      · rw [InterruptLines.setLevel_of_ne hc] at ha'
        cases active with
        | true =>
          obtain rfl := hassert other ha'
          exact Or.inr ⟨rfl, Bool.eq_false_iff.2 hc⟩
        | false => exact absurd (InterruptLines.pending_deassert ha') hb

/-- A line that is released has no request any more, unless it is NMI. -/
theorem pending_next_of_releases (hn : line ≠ .nmi) (h : i.Releases line) :
    ¬ (i.next.1.lines.get line).pending = true := by
  rw [Bool.not_eq_true]
  obtain ⟨turn, cpu, bus⟩ := i
  rcases h with ht | ⟨ht, ha⟩
  · cases ht
    exact InterruptLines.pending_deassert_self hn
  · cases ht
    have hc : (cpu.lines.get line).asserted ≠ false := by
      rw [show (cpu.lines.get line).asserted = true from ha]
      decide
    show ((cpu.lines.setLevel line false).get line).pending = false
    rw [InterruptLines.setLevel_of_ne hc]
    exact InterruptLines.pending_deassert_self hn

/-- A request of NMI outlives every turn that does not enter its handler. -/
theorem nmi_next (he : ¬ i.Enters .nmi) (h : i.cpu.lines.nmi.pending = true) :
    i.next.1.lines.nmi.pending = true := by
  by_cases ht : i.turn = .step
  · by_cases hx : ∃ other, i.Enters other
    · obtain ⟨other, hx⟩ := hx
      rw [lines_next_of_enters hx]
      exact InterruptLines.nmi_consume (fun hl => he (hl ▸ hx)) h
    · rw [lines_next_of_step ht fun other h => hx ⟨other, h⟩]
      exact h
  · obtain ⟨turn, cpu, bus⟩ := i
    cases turn with
    | step => exact absurd rfl ht
    | idle n => exact h
    | assert other => exact InterruptLines.nmi_assert h
    | deassert other => exact InterruptLines.nmi_deassert h
    | setLevel other active =>
      show (cpu.lines.setLevel other active).nmi.pending = true
      by_cases hc : (cpu.lines.get other).asserted = active
      · rw [InterruptLines.setLevel, if_pos hc.symm]
        exact h
      · rw [InterruptLines.setLevel_of_ne hc]
        cases active with
        | true => exact InterruptLines.nmi_assert h
        | false => exact InterruptLines.nmi_deassert h

/-- What an entry does to the masks. -/
theorem masked_next_of_enters (h : i.Enters line) (other : Interrupt) :
    other.masked i.next.1.regs.cc = (other.masked i.cpu.regs.cc || line.masks other) := by
  obtain ⟨entire, hc⟩ := Exec.cc_enterInterrupt line (⟨i.cpu.awake, i.bus, 0⟩ : Core β)
  have hs : (i.cpu.step i.bus).cpu.regs.cc = line.codesAfter entire i.cpu.awake.regs.cc := by
    rw [Cpu.step_enter h.2]
    exact hc
  rw [next_of_enters h, hs, Cpu.regs_awake, Interrupt.masked_codesAfter]

/-- A mask is opened by an instruction only. -/
theorem masked_next (hb : ¬ line.masked i.cpu.regs.cc = false)
    (ha : line.masked i.next.1.regs.cc = false) : i.Unmasks line := by
  have hb' : line.masked i.cpu.regs.cc = true := Bool.not_eq_false _ ▸ hb
  by_cases he : ∃ other, i.Enters other
  · obtain ⟨other, he⟩ := he
    rw [masked_next_of_enters he, hb'] at ha
    exact Bool.noConfusion ha
  · by_cases hx : i.Executes
    · exact ⟨hx, hb', ha⟩
    · rw [(frame_next (fun other h => he ⟨other, h⟩) hx).1] at ha
      exact absurd ha hb

/-- NMI is armed by an instruction that loads `S` only. -/
theorem armed_next (hb : ¬ i.cpu.nmiArmed = true) (ha : i.next.1.nmiArmed = true) : i.LoadsS := by
  have hb' : i.cpu.nmiArmed = false := Bool.eq_false_iff.2 hb
  by_cases ht : i.turn = .step
  · have hs : (i.cpu.step i.bus).cpu.nmiArmed = true := by
      unfold next at ha
      rwa [ht] at ha
    obtain ⟨hm, hl⟩ := Cpu.loadsS_of_armed hb' hs
    exact ⟨⟨ht, hm⟩, hl⟩
  · rw [(frame_next (fun other h => ht h.1) fun h => ht h.1).2] at ha
    exact absurd ha hb

end Instant

/-! ### Logs -/

section Logs

variable {β : Type} [Bus β]

/-- Each turn of a log, the earliest first, finds what the turn before it left. -/
def Leads : Cpu × β → List (Instant β) → Cpu × β → Prop
  | s, [], f => s = f
  | s, i :: rest, f => (i.cpu, i.bus) = s ∧ Leads i.next rest f

theorem Leads.append_iff {s f : Cpu × β} {first rest : List (Instant β)} :
    Leads s (first ++ rest) f ↔ ∃ m, Leads s first m ∧ Leads m rest f := by
  induction first generalizing s with
  | nil =>
    constructor
    · exact fun h => ⟨s, rfl, h⟩
    · rintro ⟨m, rfl, h⟩
      exact h
  | cons i first ih =>
    constructor
    · rintro ⟨hs, h⟩
      obtain ⟨m, h1, h2⟩ := ih.1 h
      exact ⟨m, ⟨hs, h1⟩, h2⟩
    · rintro ⟨m, ⟨hs, h1⟩, h2⟩
      exact ⟨hs, ih.2 ⟨m, h1, h2⟩⟩

/-- What is false at the start of a log and true at its end was made true by one of its turns. -/
theorem Leads.exists_change {Q : Cpu → Prop} {W : Instant β → Prop}
    (hW : ∀ i : Instant β, ¬ Q i.cpu → Q i.next.1 → W i) {s f : Cpu × β} {log : List (Instant β)}
    (h : Leads s log f) (hs : ¬ Q s.1) (hf : Q f.1) : ∃ i ∈ log, W i := by
  induction log generalizing s with
  | nil =>
    rw [show s = f from h] at hs
    exact absurd hf hs
  | cons i rest ih =>
    obtain ⟨rfl, h⟩ := h
    by_cases hq : Q i.next.1
    · exact ⟨i, List.mem_cons_self, hW i hs hq⟩
    · obtain ⟨j, hj, hw⟩ := ih h hq
      exact ⟨j, List.mem_cons_of_mem _ hj, hw⟩

/-- What is false after one turn of a log and true at a later one was made true in between. -/
theorem Leads.exists_between {Q : Cpu → Prop} {W : Instant β → Prop}
    (hW : ∀ i : Instant β, ¬ Q i.cpu → Q i.next.1 → W i) {s f : Cpu × β}
    {first between last : List (Instant β)} {i j : Instant β}
    (h : Leads s (first ++ i :: (between ++ j :: last)) f) (hi : ¬ Q i.next.1) (hj : Q j.cpu) :
    ∃ k ∈ between, W k := by
  obtain ⟨_, _, _, h⟩ := Leads.append_iff.1 h
  obtain ⟨m, hb, hm, _⟩ := Leads.append_iff.1 h
  refine hb.exists_change hW hi ?_
  rwa [← hm]

/-! ### Entries and requests -/

/-- How often the handler of a line was entered. -/
def entries (line : Interrupt) (log : List (Instant β)) : Nat :=
  log.countP fun i => decide (i.Enters line)

/-- How often a request was latched on a line. -/
def latches (line : Interrupt) (log : List (Instant β)) : Nat :=
  log.countP fun i => decide (i.Latches line)

/-- The requests that wait on a line: one at most. -/
def waiting (line : Interrupt) (cpu : Cpu) : Nat := (cpu.lines.get line).pending.toNat

/-- An entry uses up a request, and a request that is left over was latched. -/
theorem waiting_next (line : Interrupt) (i : Instant β) :
    (decide (i.Enters line)).toNat + waiting line i.next.1 ≤
      (decide (i.Latches line)).toNat + waiting line i.cpu := by
  unfold waiting
  by_cases he : i.Enters line
  · rw [Instant.pending_next_of_enters he, (Instant.ready_of_enters he).1]
    exact Nat.le_trans (Nat.le_of_eq (by rw [decide_eq_true he]; rfl)) (Nat.le_add_left 1 _)
  · rw [decide_eq_false he]
    by_cases hb : (i.cpu.lines.get line).pending = true
    · rw [hb]
      exact Nat.le_trans (Nat.le_of_eq (Nat.zero_add _))
        (Nat.le_trans (Bool.toNat_le _) (Nat.le_add_left 1 _))
    · cases ha : (i.next.1.lines.get line).pending with
      | false => exact Nat.zero_le _
      | true =>
        rw [decide_eq_true (Instant.pending_next hb ha)]
        exact Nat.le_add_right 1 _

/-- Every entry is paid for by a request that was latched or waited from the start. -/
theorem Leads.entries_le {s f : Cpu × β} {log : List (Instant β)} (h : Leads s log f)
    (line : Interrupt) :
    entries line log + waiting line f.1 ≤ latches line log + waiting line s.1 := by
  induction log generalizing s with
  | nil =>
    rw [show s = f from h]
    exact Nat.le_refl _
  | cons i rest ih =>
    obtain ⟨rfl, h⟩ := h
    have hi := waiting_next line i
    have hr := ih h
    have hc : ∀ (p : Instant β → Prop) [DecidablePred p],
        (i :: rest).countP (fun i => decide (p i)) =
          rest.countP (fun i => decide (p i)) + (decide (p i)).toNat := by
      intro p _
      rw [List.countP_cons]
      by_cases hp : p i <;> simp [hp]
    unfold entries latches at hr ⊢
    rw [hc, hc]
    dsimp only
    omega

/-! ### Runs -/

/-- What may be done to a processor from outside. -/
inductive Cue
  | step
  /-- Whole steps until a budget of cycles is used up. -/
  | execute (budget : Nat)
  | assert (line : Interrupt)
  | deassert (line : Interrupt)
  | setLevel (line : Interrupt) (active : Bool)
  deriving DecidableEq

/-- The turns of a run up to a budget, the earliest first. -/
def Cpu.turnsUntil (budget : Nat) (core : Core β) : List (Instant β) :=
  match core with
  | ⟨cpu, bus, used⟩ =>
    if used < budget then
      match step cpu bus with
      | ⟨_, _, 0⟩ => [⟨.step, cpu, bus⟩, ⟨.idle (budget - used), cpu, bus⟩]
      | ⟨next, after, cost + 1⟩ =>
        ⟨.step, cpu, bus⟩ :: turnsUntil budget ⟨next, after, used + (cost + 1)⟩
    else
      []
termination_by budget - core.cycles

namespace Cue

/-- The processor and the bus after a cue. -/
def perform (cpu : Cpu) (bus : β) : Cue → Cpu × β
  | step => ((cpu.step bus).cpu, (cpu.step bus).bus)
  | execute budget => ((cpu.run bus budget).cpu, (cpu.run bus budget).bus)
  | assert line => (cpu.assert line, bus)
  | deassert line => (cpu.deassert line, bus)
  | setLevel line active => (cpu.setLevel line active, bus)

/-- The turns that a cue brings about. -/
def turns (cpu : Cpu) (bus : β) : Cue → List (Instant β)
  | step => [⟨.step, cpu, bus⟩]
  | execute budget => Cpu.turnsUntil budget ⟨cpu, bus, 0⟩
  | assert line => [⟨.assert line, cpu, bus⟩]
  | deassert line => [⟨.deassert line, cpu, bus⟩]
  | setLevel line active => [⟨.setLevel line active, cpu, bus⟩]

end Cue

/-- The processor and the bus after cues in this order. -/
def performed : List Cue → Cpu → β → Cpu × β
  | [], cpu, bus => (cpu, bus)
  | cue :: rest, cpu, bus => performed rest (cue.perform cpu bus).1 (cue.perform cpu bus).2

/-- All turns that the cues bring about, the earliest first. -/
def turnsOf : List Cue → Cpu → β → List (Instant β)
  | [], _, _ => []
  | cue :: rest, cpu, bus =>
    cue.turns cpu bus ++ turnsOf rest (cue.perform cpu bus).1 (cue.perform cpu bus).2

namespace Cpu

theorem turnsUntil_of_le {budget : Nat} {core : Core β} (h : budget ≤ core.cycles) :
    turnsUntil budget core = [] := by
  rw [turnsUntil.eq_def]
  exact if_neg (Nat.not_lt.2 h)

theorem turnsUntil_idle {budget : Nat} {core : Core β} (hu : core.cycles < budget)
    (hm : core.cpu.move = .idle) : turnsUntil budget core =
      [⟨.step, core.cpu, core.bus⟩, ⟨.idle (budget - core.cycles), core.cpu, core.bus⟩] := by
  rw [turnsUntil.eq_def]
  obtain ⟨cpu, bus, used⟩ := core
  have hu' : used < budget := hu
  dsimp only
  rw [if_pos hu', step_idle hm]

theorem turnsUntil_advance {budget : Nat} {core : Core β} (hu : core.cycles < budget)
    (hm : core.cpu.move ≠ .idle) : turnsUntil budget core =
      ⟨.step, core.cpu, core.bus⟩ ::
        turnsUntil budget ((core.cpu.step core.bus).after core.cycles) := by
  rw [turnsUntil.eq_def]
  obtain ⟨cpu, bus, used⟩ := core
  have hu' : used < budget := hu
  have hp : (cpu.step bus).cycles ≠ 0 := by
    rw [Ne, cycles_step_eq_zero_iff]
    exact hm
  dsimp only
  rw [if_pos hu']
  split
  · rename_i h
    rw [h] at hp
    exact absurd rfl hp
  · rename_i h
    rw [h]
    rfl

/-- A run is its turns, one after another. -/
theorem leads_turnsUntil (budget : Nat) (core : Core β) :
    Leads (core.cpu, core.bus) (turnsUntil budget core)
      ((runUntil budget core).cpu, (runUntil budget core).bus) := by
  refine runUntil_induction budget ?_ ?_ ?_ core
  · intro core hu
    rw [turnsUntil_of_le hu, runUntil_of_le hu]
    rfl
  · intro core hu hm
    rw [turnsUntil_idle hu hm, runUntil_idle hu hm]
    refine ⟨rfl, ?_, rfl⟩
    show (core.cpu, core.bus) =
      ((core.cpu.step core.bus).cpu, (core.cpu.step core.bus).bus)
    rw [step_idle hm]
  · intro core hu hm ih
    rw [turnsUntil_advance hu hm, runUntil_advance hu hm]
    exact ⟨rfl, ih⟩

end Cpu

theorem Cue.leads_turns (cpu : Cpu) (bus : β) (cue : Cue) :
    Leads (cpu, bus) (cue.turns cpu bus) (cue.perform cpu bus) := by
  cases cue with
  | execute budget => exact Cpu.leads_turnsUntil budget ⟨cpu, bus, 0⟩
  | step | assert line | deassert line | setLevel line active => exact ⟨rfl, rfl⟩

/-- What the cues do is their turns, one after another. -/
theorem leads_turnsOf (cues : List Cue) (cpu : Cpu) (bus : β) :
    Leads (cpu, bus) (turnsOf cues cpu bus) (performed cues cpu bus) := by
  induction cues generalizing cpu bus with
  | nil => rfl
  | cons cue rest ih =>
    exact Leads.append_iff.2 ⟨_, cue.leads_turns cpu bus, ih _ _⟩

/-! ### The service -/

/-- A turn serves requests as it should: a step enters the handler of the first line in the order of
service that has a request and is eligible, an entry takes this request off and no other, and a
request of NMI goes by its entry only. -/
structure Instant.Serves (i : Instant β) : Prop where
  enters_iff : ∀ line, i.Enters line ↔ i.turn = .step ∧
    i.cpu.lines.ready i.cpu.regs.cc i.cpu.nmiArmed line = true ∧
      ∀ other, other.precedes line = true →
        i.cpu.lines.ready i.cpu.regs.cc i.cpu.nmiArmed other = false
  entered : ∀ line, i.Enters line →
    i.cpu.step i.bus = (Exec.enterInterrupt line ⟨i.cpu.awake, i.bus, 0⟩).2.settled ∧
      i.next.1.lines = i.cpu.lines.consume line
  other : i.turn = .step → (∀ line, ¬ i.Enters line) → i.next.1.lines = i.cpu.lines
  survives : i.cpu.lines.nmi.pending = true → ¬ i.Enters .nmi → i.next.1.lines.nmi.pending = true

theorem Instant.serves (i : Instant β) : i.Serves where
  enters_iff _ := Instant.enters_iff
  entered _ h := ⟨Cpu.step_enter h.2 i.bus, Instant.lines_next_of_enters h⟩
  other ht he := Instant.lines_next_of_step ht he
  survives h he := Instant.nmi_next he h

/-- A line that was released is entered only after a new request, unless it is NMI. -/
def Withdraws (log : List (Instant β)) : Prop :=
  ∀ line, line ≠ .nmi → ∀ first i between j last, log = first ++ i :: (between ++ j :: last) →
    i.Releases line → j.Enters line → ∃ k ∈ between, k.Latches line

/-- A line that an entry masks is entered only after an instruction cleared its mask. -/
def Masks (log : List (Instant β)) : Prop :=
  ∀ line other, line.masks other = true →
    ∀ first i between j last, log = first ++ i :: (between ++ j :: last) →
      i.Enters line → j.Enters other → ∃ k ∈ between, k.Unmasks other

/-- NMI is entered only after an instruction loaded `S`. -/
def Arms (log : List (Instant β)) : Prop :=
  ∀ first j last, log = first ++ j :: last → j.Enters .nmi → ∃ k ∈ first, k.LoadsS

theorem Leads.withdraws {s f : Cpu × β} {log : List (Instant β)} (h : Leads s log f) :
    Withdraws log := by
  rintro line hn first i between j last rfl hi hj
  exact h.exists_between (Q := fun cpu => (cpu.lines.get line).pending = true)
    (fun _ => Instant.pending_next) (Instant.pending_next_of_releases hn hi)
    (Instant.ready_of_enters hj).1

theorem Leads.masks {s f : Cpu × β} {log : List (Instant β)} (h : Leads s log f) :
    Masks log := by
  rintro line other hl first i between j last rfl hi hj
  refine h.exists_between (Q := fun cpu => other.masked cpu.regs.cc = false)
    (fun _ => Instant.masked_next) ?_
    (Interrupt.masked_of_eligible (Instant.ready_of_enters hj).2)
  rw [Instant.masked_next_of_enters hi, hl, Bool.or_true]
  exact Bool.noConfusion

theorem Leads.arms {s f : Cpu × β} {log : List (Instant β)} (h : Leads s log f)
    (hs : s.1.nmiArmed = false) : Arms log := by
  rintro first j last rfl hj
  obtain ⟨m, h1, hm, _⟩ := Leads.append_iff.1 h
  refine h1.exists_change (Q := fun cpu => cpu.nmiArmed = true) (fun _ => Instant.armed_next) ?_ ?_
  · rw [hs]
    exact Bool.false_ne_true
  · rw [← hm]
    exact (Instant.ready_of_enters hj).2

theorem Cpu.nmiArmed_reset {old cpu : Cpu} {before bus : β} (h : old.reset before = (cpu, bus)) :
    cpu.nmiArmed = false := by
  have hr : (old.reset before).1.nmiArmed = false := rfl
  rwa [h] at hr

/-- Whatever is done to a processor in whatever state, on whatever bus: its steps enter the handlers
that they should and serve each request once at most; a request of IRQ or FIRQ that was withdrawn
is not served, nor is one that an entry masked, until an instruction clears the mask; and after a
reset NMI is not served before an instruction loaded `S`. -/
theorem service (cpu : Cpu) (bus : β) (cues : List Cue) :
    Leads (cpu, bus) (turnsOf cues cpu bus) (performed cues cpu bus) ∧
    (∀ i ∈ turnsOf cues cpu bus, i.Serves) ∧
    (∀ line, (cpu.lines.get line).pending = false →
      entries line (turnsOf cues cpu bus) ≤ latches line (turnsOf cues cpu bus)) ∧
    Withdraws (turnsOf cues cpu bus) ∧
    Masks (turnsOf cues cpu bus) ∧
    ∀ (old : Cpu) (before : β), old.reset before = (cpu, bus) → Arms (turnsOf cues cpu bus) := by
  have h := leads_turnsOf cues cpu bus
  refine ⟨h, fun i _ => i.serves, fun line hp => ?_, h.withdraws, h.masks, fun old before hr => ?_⟩
  · have he := h.entries_le line
    have hw : waiting line cpu = 0 := by
      rw [waiting, hp]
      rfl
    exact Nat.le_trans (Nat.le_add_right _ _) (Nat.le_trans he (Nat.le_of_eq (by rw [hw]; rfl)))
  · exact h.arms (Cpu.nmiArmed_reset hr)

/-- A request of NMI that is asserted while it waits is served once. -/
example : entries .nmi
    (turnsOf [.assert .nmi, .step, .step] Cpu.nmiDue FlatMemory.returnAtZero) = 1 := by
  decide +kernel

end Logs

end ColorComputer
