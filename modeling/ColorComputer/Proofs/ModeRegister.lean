import ColorComputer.Proofs.Executing
import ColorComputer.Proofs.Likeness.Steady
import ColorComputer.Proofs.Past
import ColorComputer.Proofs.Trap

/-!
# The mode register

Two bits of the mode register choose how the Hitachi part works, two remember its traps, and four
are not there. A program loads the former and tests the latter, and a trap sets one of them; nothing
else that a processor does, whatever interrupts it, and nothing that is done to its lines or on its
bus changes the register, until a reset or a part without modes clears it.

* `Core.Performs` — what an event does to the mode register, if anything.
* `Core.md_of_performs`, `Core.exists_performs` — it does that, and only that.
* `Core.getLsbD_through` — each bit tells what happened since it was cleared last.
* `Core.mode_remembered` — what the mode register tells of a run from reset.
-/

namespace ColorComputer

/-! ### Bits -/

namespace Trap

/-- The number of the bit that remembers the trap. -/
def bit : Trap → Nat
  | undefinedInstruction => 6
  | divisionByZero => 7

theorem bit_injective {reason other : Trap} (h : reason.bit = other.bit) : reason = other := by
  cases reason <;> cases other <;> first | rfl | exact absurd h (by decide)

theorem flag_eq_twoPow (reason : Trap) : reason.flag = BitVec.twoPow 8 reason.bit := by
  cases reason <;> rfl

theorem bit_bounds (reason : Trap) : 5 < reason.bit ∧ reason.bit < 8 := by
  cases reason <;> decide

theorem not_bit_lt_two (reason : Trap) : ¬ reason.bit < 2 := by
  cases reason <;> decide

theorem getLsbD_flag (reason : Trap) (k : Nat) :
    reason.flag.getLsbD k = decide (k = reason.bit) := by
  rw [flag_eq_twoPow, BitVec.getLsbD_twoPow, decide_eq_true reason.bit_bounds.2, Bool.true_and]
  exact decide_eq_decide.2 eq_comm

/-- A bit of the mask of all traps is that of one of them. -/
theorem getLsbD_trapFlags (k : Nat) :
    Exec.trapFlags.getLsbD k = true ↔ ∃ reason : Trap, k = reason.bit := by
  have hm : Exec.trapFlags = undefinedInstruction.flag ||| divisionByZero.flag := rfl
  rw [hm, BitVec.getLsbD_or, getLsbD_flag, getLsbD_flag, Bool.or_eq_true, decide_eq_true_iff,
    decide_eq_true_iff]
  constructor
  · rintro (h | h)
    · exact ⟨_, h⟩
    · exact ⟨_, h⟩
  · rintro ⟨_ | _, h⟩
    · exact Or.inl h
    · exact Or.inr h

/-- No trap that a mask selects is remembered. -/
theorem selected_eq_zero_iff (md mask : Byte) : md &&& mask &&& Exec.trapFlags = 0 ↔
    ∀ reason : Trap, mask.getLsbD reason.bit = true → md.getLsbD reason.bit = false := by
  constructor
  · intro h reason hm
    have hf : Exec.trapFlags.getLsbD reason.bit = true := (getLsbD_trapFlags _).2 ⟨reason, rfl⟩
    have hb : (md &&& mask &&& Exec.trapFlags).getLsbD reason.bit =
        (0 : Byte).getLsbD reason.bit := by
      rw [h]
    rw [BitVec.getLsbD_and, BitVec.getLsbD_and, hm, hf, Bool.and_true, Bool.and_true] at hb
    exact hb.trans BitVec.getLsbD_zero
  · intro h
    refine BitVec.eq_of_getLsbD_eq fun k _ => ?_
    rw [BitVec.getLsbD_and, BitVec.getLsbD_and]
    refine (Bool.eq_false_iff.2 fun hb => ?_).trans BitVec.getLsbD_zero.symm
    obtain ⟨⟨hmd, hm⟩, hf⟩ := (Bool.and_eq_true_iff.1 hb).imp_left Bool.and_eq_true_iff.1
    obtain ⟨reason, rfl⟩ := (getLsbD_trapFlags k).1 hf
    rw [h reason hm] at hmd
    exact Bool.noConfusion hmd

end Trap

/-! ### Changes of the register -/

/-- What may become of the mode register. -/
inductive ModeChange
  /-- A trap is remembered. -/
  | remember (reason : Trap)
  /-- The traps that a mask selects are told and forgotten. -/
  | test (mask : Byte)
  /-- The two bits that choose a mode are loaded. -/
  | load (value : Byte)
  /-- The register is cleared. -/
  | blank

namespace ModeChange

/-- The mode register after a change. -/
def apply : ModeChange → Byte → Byte
  | remember reason, md => md ||| reason.flag
  | test mask, md => md &&& ~~~(md &&& mask &&& Exec.trapFlags)
  | load value, md => md &&& ~~~0x03 ||| value &&& 0x03
  | blank, _ => 0

/-- The bit is set by the change. -/
def Sets (k : Nat) : ModeChange → Prop
  | remember reason => k = reason.bit
  | load value => k < 2 ∧ value.getLsbD k = true
  | test _ | blank => False

/-- The bit is cleared by the change. -/
def Clears (k : Nat) : ModeChange → Prop
  | test mask => mask.getLsbD k = true ∧ ∃ reason : Trap, k = reason.bit
  | load value => k < 2 ∧ value.getLsbD k = false
  | blank => True
  | remember _ => False

theorem getLsbD_three (k : Nat) : (0x03 : Byte).getLsbD k = decide (k < 2) := by
  have hm : (0x03 : Byte) = BitVec.twoPow 8 0 ||| BitVec.twoPow 8 1 := rfl
  rw [hm, BitVec.getLsbD_or, BitVec.getLsbD_twoPow, BitVec.getLsbD_twoPow, Bool.eq_iff_iff]
  simp
  omega

/-- After a change a bit is set if the change has set it, or if it was set and the change has not
cleared it. -/
theorem getLsbD_apply (change : ModeChange) (md : Byte) (k : Nat) :
    (change.apply md).getLsbD k = true ↔
      change.Sets k ∨ md.getLsbD k = true ∧ ¬ change.Clears k := by
  cases change with
  | remember reason =>
    show (md ||| reason.flag).getLsbD k = true ↔ _
    rw [BitVec.getLsbD_or, Trap.getLsbD_flag, Bool.or_eq_true, decide_eq_true_iff, or_comm]
    simp [Sets, Clears]
  | test mask =>
    have hk : md.getLsbD k = true → k < 8 := BitVec.lt_of_getLsbD
    show (md &&& ~~~(md &&& mask &&& Exec.trapFlags)).getLsbD k = true ↔
      False ∨ md.getLsbD k = true ∧ ¬ (mask.getLsbD k = true ∧ ∃ reason : Trap, k = reason.bit)
    rw [← Trap.getLsbD_trapFlags, BitVec.getLsbD_and, BitVec.getLsbD_not, BitVec.getLsbD_and,
      BitVec.getLsbD_and]
    cases hm : md.getLsbD k with
    | false => simp
    | true => simp [hk hm, imp_iff_not_or]
  | load value =>
    have hm : md.getLsbD k = true → k < 8 := BitVec.lt_of_getLsbD
    show (md &&& ~~~0x03 ||| value &&& 0x03).getLsbD k = true ↔
      k < 2 ∧ value.getLsbD k = true ∨
        md.getLsbD k = true ∧ ¬ (k < 2 ∧ value.getLsbD k = false)
    rw [BitVec.getLsbD_or, BitVec.getLsbD_and, BitVec.getLsbD_not, BitVec.getLsbD_and,
      getLsbD_three]
    by_cases h : k < 2
    · cases value.getLsbD k <;> simp [h]
    · cases hb : md.getLsbD k with
      | false => simp [h]
      | true => simp [h, hm hb]
  | blank =>
    show (0 : Byte).getLsbD k = true ↔ _
    simp [Sets, Clears]

theorem getLsbD_apply_of_not {change : ModeChange} {k : Nat} (hs : ¬ change.Sets k)
    (hc : ¬ change.Clears k) (md : Byte) : (change.apply md).getLsbD k = md.getLsbD k := by
  rw [Bool.eq_iff_iff, getLsbD_apply]
  simp only [hs, hc, false_or, not_false_eq_true, and_true]

end ModeChange

/-! ### What an instruction does to the register -/

namespace Core

variable {β : Type} [Bus β]

/-- What an exception finds in the mode register is what the instruction found. -/
theorem md_of_raises {c d : Core β} {cause : Cause} {n : Nat} (h : c.Raises cause n d) :
    d.cpu.regs.md = c.cpu.regs.md := by
  have hb : ∀ i, (c.begun i).cpu.regs.md = c.cpu.regs.md :=
    fun i => Likeness.kept_of_steady Likeness.respects_fetchOpcode c rfl
  have hx : ∀ {α : Type} {x : Exec β α} {i : Instruction},
      (Likeness.steady β c.cpu.regs.md).Respects x →
      (x (c.begun i)).2.cpu.regs.md = c.cpu.regs.md :=
    fun hr => Likeness.kept_of_steady hr _ (hb _)
  cases h with
  | undefined hn hv => exact hb .nop
  | software which hn => exact hb _
  | bit i hn hi hv hp =>
    have hr : (Likeness.steady β c.cpu.regs.md).Respects (Exec.effectiveAddress .direct) :=
      fun _ _ h => Likeness.meets_effectiveAddress h fun _ => trivial
    exact Likeness.kept_of_steady hr _ (hx Likeness.respects_fetch)
  | block step hn hv hp => exact hx Likeness.respects_fetch
  | divideD operand hn hv hz =>
    exact hx fun _ _ h => Likeness.meets_operandByte h fun _ => trivial
  | divideQ operand hn hv hz =>
    exact hx fun _ _ h => Likeness.meets_operandWord h fun _ => trivial

/-- An instruction that writes to the mode register traps, tests it or loads it. -/
theorem of_remodesNext {c : Core β} (h : c.RemodesNext) :
    (∃ reason n d, c.Raises (.trap reason) n d) ∨
      ∃ i, c.nextInstruction? = some i ∧ c.cpu.variant.executes i = true ∧
        (i = .testMode ∨ i = .loadMode) := by
  rcases h with ⟨i, hn, he, ht | hl | ⟨hx, hm⟩⟩ | ⟨hv, hu⟩
  · exact Or.inr ⟨i, hn, he, Or.inl ht⟩
  · exact Or.inr ⟨i, hn, he, Or.inr hl⟩
  · exact Or.inl (traps_of_movesFrame hn he hx hm)
  · exact Or.inl ⟨_, _, _, raises_of_unknown hv hu⟩

end Core

/-! ### Events -/

/-- What may happen to a processor and its bus. -/
inductive Core.Event (β : Type)
  | step
  | assert (line : Interrupt)
  | deassert (line : Interrupt)
  | setLevel (line : Interrupt) (active : Bool)
  /-- Something else is done on the bus. -/
  | bus (bus : β)
  | fit (variant : Variant)
  | reset

namespace Core

variable {β : Type} [Bus β]

/-- The core after an event. -/
def occur (c : Core β) : Event β → Core β
  | .step => c.cpu.step c.bus
  | .assert line => ⟨c.cpu.assert line, c.bus, 0⟩
  | .deassert line => ⟨c.cpu.deassert line, c.bus, 0⟩
  | .setLevel line active => ⟨c.cpu.setLevel line active, c.bus, 0⟩
  | .bus bus => ⟨c.cpu, bus, 0⟩
  | .fit variant => ⟨c.cpu.fit variant, c.bus, 0⟩
  | .reset => ⟨(c.cpu.reset c.bus).1, (c.cpu.reset c.bus).2, 0⟩

/-- The core after a history. -/
def through (c : Core β) (history : List (Event β)) : Core β := history.foldl occur c

theorem through_concat (c : Core β) (history : List (Event β)) (event : Event β) :
    c.through (history ++ [event]) = (c.through history).occur event := by
  simp [through]

/-- What an event does to the mode register: a step whose instruction traps sets the bit of the
trap, a step may test or load the register, and a reset or a part without modes clears it. -/
inductive Performs (c : Core β) : Event β → ModeChange → Prop
  | trap {reason : Trap} {n : Nat} {d : Core β} (hm : c.cpu.move = .execute)
    (hr : (⟨c.cpu.awake, c.bus, 0⟩ : Core β).Raises (.trap reason) n d) :
    Performs c .step (.remember reason)
  | test {mask : Byte} (hx : c.cpu.Executes c.bus .testMode mask) : Performs c .step (.test mask)
  | load {value : Byte} (hx : c.cpu.Executes c.bus .loadMode value) :
    Performs c .step (.load value)
  | fit : Performs c (.fit .motorola) .blank
  | reset : Performs c .reset .blank

variable {c : Core β} {event : Event β} {change other : ModeChange}

/-- A step that tests the mode register: what it forgets, and what it tells. -/
theorem step_of_test {mask : Byte} (hx : c.cpu.Executes c.bus .testMode mask) :
    (c.cpu.step c.bus).cpu.regs.md =
        c.cpu.regs.md &&& ~~~(c.cpu.regs.md &&& mask &&& Exec.trapFlags) ∧
      (c.cpu.step c.bus).cpu.regs.cc.zero = (c.cpu.regs.md &&& mask &&& Exec.trapFlags == 0) := by
  let d : Core β := (⟨c.cpu.awake, c.bus, 0⟩ : Core β).begun .testMode
  obtain ⟨hr, -, hp⟩ := Cpu.begun_of_executes hx
  have hd : d.cpu.regs.md = c.cpu.regs.md := by
    rw [hr]
  have hs : (c.cpu.step c.bus).cpu.regs.md =
      d.cpu.regs.md &&& ~~~(d.cpu.regs.md &&& d.nextByte &&& Exec.trapFlags) ∧
      (c.cpu.step c.bus).cpu.regs.cc.zero =
        (d.cpu.regs.md &&& d.nextByte &&& Exec.trapFlags == 0) := by
    rw [Cpu.regs_step_of_executes hx]
    exact ⟨rfl, rfl⟩
  rwa [hd, hp] at hs

/-- An event does to the mode register what it is said to do. -/
theorem md_of_performs (h : c.Performs event change) :
    (c.occur event).cpu.regs.md = change.apply c.cpu.regs.md := by
  cases h with
  | @trap reason n d hm hr =>
    have hd : d.cpu.regs.md = c.cpu.regs.md := by
      rw [md_of_raises hr, Cpu.regs_awake]
    show (c.cpu.step c.bus).cpu.regs.md = c.cpu.regs.md ||| reason.flag
    rw [Cpu.step_of_raises hm hr, ← hd]
    rfl
  | test hx => exact (step_of_test hx).1
  | @load value hx =>
    let d : Core β := (⟨c.cpu.awake, c.bus, 0⟩ : Core β).begun .loadMode
    obtain ⟨hr, -, hp⟩ := Cpu.begun_of_executes hx
    have hd : d.cpu.regs.md = c.cpu.regs.md := by
      rw [hr]
    have hs : (c.cpu.step c.bus).cpu.regs.md =
        d.cpu.regs.md &&& ~~~0x03 ||| d.nextByte &&& 0x03 := by
      rw [Cpu.regs_step_of_executes hx]
      rfl
    rwa [hd, hp] at hs
  | fit => rfl
  | reset => rfl

/-- An event that changes the mode register does one of the things that are said to. -/
theorem exists_performs (h : (c.occur event).cpu.regs.md ≠ c.cpu.regs.md) :
    ∃ change, c.Performs event change := by
  cases event with
  | step =>
    obtain ⟨hm, hr⟩ := Cpu.remodesNext_of_md h
    rcases of_remodesNext hr with ⟨reason, n, d, hr⟩ | ⟨i, hn, he, hi⟩
    · exact ⟨_, .trap hm hr⟩
    · rw [Cpu.variant_awake] at he
      rcases hi with rfl | rfl
      · exact ⟨_, .test ⟨hm, hn, he, rfl⟩⟩
      · exact ⟨_, .load ⟨hm, hn, he, rfl⟩⟩
  | fit variant =>
    cases variant with
    | motorola => exact ⟨_, .fit⟩
    | hitachi => exact absurd rfl h
  | reset => exact ⟨_, .reset⟩
  | assert _ | deassert _ | setLevel _ _ | bus _ => exact absurd rfl h

/-- What an instruction does to the mode register, if it does anything; what is no instruction at
all traps. -/
def changeOf (next : Option Instruction) (post : Byte) : ModeChange :=
  match next with
  | some .testMode => .test post
  | some .loadMode => .load post
  | some (.divideD _) | some (.divideQ _) => .remember .divisionByZero
  | _ => .remember .undefinedInstruction

theorem Performs.change_eq (h : c.Performs .step change) :
    change = changeOf (⟨c.cpu.awake, c.bus, 0⟩ : Core β).nextInstruction?
      (⟨c.cpu.awake, c.bus, 0⟩ : Core β).nextPostbyte := by
  cases h with
  | trap hm hr =>
    cases hr with
    | bit i hn hi hv hp =>
      rw [hn]
      rcases hi with rfl | ⟨operation, rfl⟩
      · rfl
      · rfl
    | undefined hn _ | block _ hn _ _ | divideD _ hn _ _ | divideQ _ hn _ _ =>
      rw [hn]
      rfl
  | test hx | load hx =>
    rw [hx.next, hx.post]
    rfl

/-- No event does two things to the mode register. -/
theorem Performs.unique (h : c.Performs event change) (h' : c.Performs event other) :
    change = other := by
  cases event with
  | step => rw [h.change_eq, h'.change_eq]
  | fit variant =>
    cases h
    cases h'
    rfl
  | reset =>
    cases h
    cases h'
    rfl
  | assert _ | deassert _ | setLevel _ _ | bus _ => cases h

/-- An event sets a bit if it does what sets it, and else leaves it set unless it does what clears
it. -/
theorem getLsbD_occur (c : Core β) (event : Event β) (k : Nat) :
    (c.occur event).cpu.regs.md.getLsbD k = true ↔
      (∃ change, c.Performs event change ∧ change.Sets k) ∨
        c.cpu.regs.md.getLsbD k = true ∧ ¬ ∃ change, c.Performs event change ∧ change.Clears k := by
  by_cases hp : ∃ change, c.Performs event change
  · obtain ⟨change, h⟩ := hp
    have hone : ∀ P : ModeChange → Prop, (∃ other, c.Performs event other ∧ P other) ↔ P change :=
      fun P => ⟨fun ⟨other, ho, hP⟩ => h.unique ho ▸ hP, fun hP => ⟨change, h, hP⟩⟩
    rw [hone, hone, md_of_performs h, ModeChange.getLsbD_apply]
  · have hnone : ∀ P : ModeChange → Prop, ¬ ∃ change, c.Performs event change ∧ P change :=
      fun P ⟨change, h, _⟩ => hp ⟨change, h⟩
    have hsame : (c.occur event).cpu.regs.md = c.cpu.regs.md :=
      Classical.byContradiction fun h => hp (exists_performs h)
    rw [hsame]
    simp only [hnone, false_or, not_false_eq_true, and_true]

/-- Each bit tells that something set it since it was cleared last. -/
theorem getLsbD_through (c : Core β) (history : List (Event β)) (k : Nat) :
    let start := c.occur .reset
    (start.through history).cpu.regs.md.getLsbD k = true ↔
      Since (fun before event => ∃ change, (start.through before).Performs event change ∧
          change.Sets k)
        (fun before event => ∃ change, (start.through before).Performs event change ∧
          change.Clears k) history := by
  intro start
  refine iff_since (P := fun history => (start.through history).cpu.regs.md.getLsbD k = true)
    ?_ (fun history event => ?_) history
  · show ¬ (0 : Byte).getLsbD k = true
    simp
  · rw [through_concat]
    exact getLsbD_occur _ event k

/-- Only a trap sets the bit that remembers it. -/
theorem sets_bit_iff (reason : Trap) :
    (∃ change, c.Performs event change ∧ change.Sets reason.bit) ↔
      c.Performs event (.remember reason) := by
  constructor
  · rintro ⟨change, h, hs⟩
    cases change with
    | remember other => rwa [Trap.bit_injective hs]
    | load value => exact absurd hs.1 reason.not_bit_lt_two
    | test mask => exact hs.elim
    | blank => exact hs.elim
  · intro h
    exact ⟨_, h, rfl⟩

/-- What clears the bit that remembers a trap clears the whole register or tests that bit. -/
theorem clears_bit_iff (reason : Trap) :
    (∃ change, c.Performs event change ∧ change.Clears reason.bit) ↔
      c.Performs event .blank ∨
        ∃ mask : Byte, c.Performs event (.test mask) ∧ mask.getLsbD reason.bit = true := by
  constructor
  · rintro ⟨change, h, hs⟩
    cases change with
    | remember other => exact hs.elim
    | load value => exact absurd hs.1 reason.not_bit_lt_two
    | test mask => exact Or.inr ⟨mask, h, hs.1⟩
    | blank => exact Or.inl h
  · rintro (h | ⟨mask, h, hm⟩)
    · exact ⟨_, h, trivial⟩
    · exact ⟨_, h, hm, reason, rfl⟩

/-- **The mode register tells what the program asked for and which traps it ran into.** In every run
from reset, whatever the program, the bus and the lines do:

* bits 2 to 5 are clear;
* bit 6 is set exactly if an opcode or a postbyte that is not defined was trapped, and bit 7 exactly
  if a division by zero was, and since then there was no reset, no part without modes in the socket
  and no test with a mask that selects the bit;
* such a test sets Z exactly if no trap that it selects is remembered;
* bits 0 and 1 change only when the register is loaded or cleared;
* a part without modes finds the register clear. -/
theorem mode_remembered (c : Core β) (history : List (Event β)) :
    let start := c.occur .reset
    let d := start.through history
    (∀ k, 2 ≤ k → k ≤ 5 → d.cpu.regs.md.getLsbD k = false) ∧
      (∀ reason : Trap, d.cpu.regs.md.getLsbD reason.bit = true ↔
        Since (fun before event => (start.through before).Performs event (.remember reason))
          (fun before event => (start.through before).Performs event .blank ∨
            ∃ mask : Byte, (start.through before).Performs event (.test mask) ∧
              mask.getLsbD reason.bit = true) history) ∧
      (∀ mask : Byte, d.cpu.Executes d.bus .testMode mask →
        ((d.cpu.step d.bus).cpu.regs.cc.zero = true ↔
          ∀ reason : Trap, mask.getLsbD reason.bit = true →
            d.cpu.regs.md.getLsbD reason.bit = false)) ∧
      (∀ event, ∀ k < 2,
        (d.occur event).cpu.regs.md.getLsbD k ≠ d.cpu.regs.md.getLsbD k →
          d.Performs event .blank ∨ ∃ value, d.Performs event (.load value)) ∧
      (d.cpu.fit .motorola).regs.md = 0 := by
  intro start d
  refine ⟨fun k hl hh => Bool.eq_false_iff.2 fun hk => ?_, fun reason => ?_, fun mask hx => ?_,
    fun event k hk hne => ?_, rfl⟩
  · obtain ⟨_, _, _, -, ⟨change, -, hs⟩, -⟩ := (getLsbD_through c history k).1 hk
    cases change with
    | remember reason =>
      have hb := reason.bit_bounds.1
      have hr : k = reason.bit := hs
      omega
    | load value => exact absurd hs.1 (Nat.not_lt.2 hl)
    | test mask => exact hs
    | blank => exact hs
  · have h := getLsbD_through c history reason.bit
    simp only [sets_bit_iff, clears_bit_iff] at h
    exact h
  · rw [(step_of_test hx).2, beq_iff_eq]
    exact Trap.selected_eq_zero_iff _ _
  · obtain ⟨change, h⟩ := exists_performs fun h => hne (by rw [h])
    rw [md_of_performs h] at hne
    have hb : ∀ reason : Trap, k ≠ reason.bit := fun reason hr => reason.not_bit_lt_two (hr ▸ hk)
    cases change with
    | remember reason =>
      have hs : ¬ (ModeChange.remember reason).Sets k := hb reason
      exact absurd (ModeChange.getLsbD_apply_of_not hs not_false _) hne
    | test mask =>
      have hc : ¬ (ModeChange.test mask).Clears k := fun ⟨_, reason, hr⟩ => hb reason hr
      have hs : ¬ (ModeChange.test mask).Sets k := not_false
      exact absurd (ModeChange.getLsbD_apply_of_not hs hc _) hne
    | load value => exact Or.inr ⟨value, h⟩
    | blank => exact Or.inl h

end Core

end ColorComputer
