import ColorComputer.Proofs.Likeness.Age
import ColorComputer.Proofs.Operation

/-!
# The age of a machine

Two things a machine only counts: the cycles that its processor spent, and the samples that were
dropped. A machine that counted more of both does the same as a younger one, and stays ahead by as
much. So does a machine with another frame, until it paints one.

* `Circuit.aged`, `Machine.aged` — the circuit and the machine with higher counts.
* `alike_aged` — the scheduler drives circuits of different ages alike.
* `perform_aged`, `after_aged`, `answers_aged` — every operation, and one after the other.
-/

namespace ColorComputer

/-! ### The queue -/

namespace SampleQueue

/-- The queue, had it dropped more samples. -/
def aged (d : Nat) (q : SampleQueue) : SampleQueue :=
  ⟨q.front, q.back, q.size, q.dropped + d, q.size_eq⟩

variable (d : Nat) (q : SampleQueue)

theorem append_aged (sample : Int16) : (q.aged d).append sample = (q.append sample).aged d := rfl

theorem dropOldest_aged : (q.aged d).dropOldest = q.dropOldest.aged d := by
  obtain ⟨front, back, size, dropped, h⟩ := q
  have hd : dropped + d + 1 = dropped + 1 + d := Nat.add_right_comm ..
  cases front <;> simp only [aged, dropOldest, hd]

theorem push_aged (sample : Int16) : (q.aged d).push sample = (q.push sample).aged d := by
  have hs : (q.aged d).size = q.size := rfl
  unfold push
  rw [hs, dropOldest_aged, append_aged, append_aged]
  split <;> rfl

end SampleQueue

/-! ### The circuit -/

namespace Circuit

/-- The circuit, had its processor spent more cycles and its queue dropped more samples. -/
def aged (k d : Nat) (c : Circuit) : Circuit := ⟨c.cpu.aged k, c.board, c.samples.aged d⟩

variable (k d : Nat) (c : Circuit)

theorem assertRaised_aged (cpu : Cpu) (raised : Raised) :
    assertRaised (cpu.aged k) raised = (assertRaised cpu raised).aged k := by
  obtain ⟨irq, firq⟩ := raised
  cases irq <;> cases firq <;> rfl

theorem raise_aged (source : Byte) : (c.aged k d).raise source = (c.raise source).aged k d := by
  have hr := assertRaised_aged k c.cpu (c.board.gime.raise source).1
  exact congrArg (fun cpu => (⟨cpu, _, _⟩ : Circuit)) hr

theorem assertAdapters_aged : (c.aged k d).assertAdapters = c.assertAdapters.aged k d := by
  have hr := assertRaised_aged k c.cpu ⟨c.board.pia0.interrupt, c.board.pia1.interrupt⟩
  exact congrArg (fun cpu => (⟨cpu, _, _⟩ : Circuit)) hr

theorem runCycles_aged (budget : Nat) : (c.aged k d).runCycles budget =
    ((c.runCycles budget).1, (c.runCycles budget).2.aged k d) := by
  unfold runCycles
  dsimp only [aged]
  rw [Cpu.run_aged]
  rfl

theorem takeSample_aged : (c.aged k d).takeSample = c.takeSample.aged k d :=
  congrArg (fun samples => (⟨_, _, samples⟩ : Circuit)) (c.samples.push_aged d c.board.sample)

theorem driveLine_aged (level : Bool) :
    (c.aged k d).driveLine level = (c.driveLine level).aged k d := by
  have hi : (c.aged k d).board = c.board := rfl
  unfold driveLine
  rw [hi]
  cases c.board.cartridge.isSome with
  | true =>
    cases level with
    | true => rfl
    | false =>
      let c' : Circuit := ⟨c.cpu,
        { c.board with pia0 := c.board.pia0.setCA1 false, pia1 := c.board.pia1.setCB1 false },
        c.samples⟩
      show (((c'.aged k d).raise _).raise _).assertAdapters =
        ((c'.raise _).raise _).assertAdapters.aged k d
      rw [raise_aged, raise_aged, assertAdapters_aged]
  | false =>
    cases level with
    | true => rfl
    | false =>
      let c' : Circuit := ⟨c.cpu, { c.board with pia0 := c.board.pia0.setCA1 false }, c.samples⟩
      show ((c'.aged k d).raise _).assertAdapters = (c'.raise _).assertAdapters.aged k d
      rw [raise_aged, assertAdapters_aged]

theorem driveField_aged (level : Bool) :
    (c.aged k d).driveField level = (c.driveField level).aged k d := by
  cases level with
  | true => rfl
  | false =>
    let c' : Circuit := ⟨c.cpu, { c.board with pia0 := c.board.pia0.setCB1 false }, c.samples⟩
    show ((c'.aged k d).raise _).assertAdapters = (c'.raise _).assertAdapters.aged k d
    rw [raise_aged, assertAdapters_aged]

/-- The scheduler drives circuits of different ages alike. -/
theorem alike_aged {τ : Type} [Duration τ] :
    Host.Alike (fun x x' => x = aged k d x') (Circuit.host τ) (Circuit.host τ) where
  runCpu := by
    rintro _ c rfl budget
    have h : (host τ).runCpu budget (aged k d c) = _ := runCycles_aged k d c budget
    exact ⟨congrArg (·.1) h, congrArg (·.2) h⟩
  sample := by
    rintro _ c rfl
    exact takeSample_aged k d c
  timerExpired := by
    rintro _ c rfl
    exact raise_aged k d c _
  timerUpdate := by
    rintro _ c rfl
    exact ⟨rfl, rfl⟩
  multiplier := by
    rintro _ c rfl
    rfl

end Circuit

/-! ### The machine -/

namespace Machine

variable {τ : Type} [Duration τ]

omit [Duration τ] in
/-- The machine, had it counted more, and with another frame if one is given. -/
def aged (k d : Nat) (stale : Option Frame) (m : Machine τ) : Machine τ :=
  ⟨m.circuit.aged k d, m.scheduler, stale.getD m.frame, m.frames⟩

variable (k d : Nat) (stale : Option Frame) (m : Machine τ)

theorem runSlice_eq (time : τ) : m.runSlice time =
    ((m.scheduler.run (Circuit.host τ) m.circuit time).events,
      ⟨(m.scheduler.run (Circuit.host τ) m.circuit time).host,
        (m.scheduler.run (Circuit.host τ) m.circuit time).scheduler, m.frame, m.frames⟩) := rfl

theorem runSlice_aged (time : τ) : (m.aged k d stale).runSlice time =
    ((m.runSlice time).1, (m.runSlice time).2.aged k d stale) := by
  have h := (Circuit.alike_aged k d).run (rfl : _ = m.circuit.aged k d) m.scheduler time
  rw [runSlice_eq, runSlice_eq]
  dsimp only [aged]
  rw [h.events, h.scheduler, h.host]

omit [Duration τ] in
theorem runCycles_aged (budget : Nat) : (m.aged k d stale).runCycles budget =
    ((m.runCycles budget).1, (m.runCycles budget).2.aged k d stale) := by
  have h := m.circuit.runCycles_aged k d budget
  refine Prod.ext (congrArg (·.1) h) ?_
  exact congrArg (fun c => (⟨c.2, _, _, _⟩ : Machine τ)) h

omit [Duration τ] in
theorem driveLine_aged (level : Bool) : (m.aged k d stale).mapCircuit (·.driveLine level) =
    (m.mapCircuit (·.driveLine level)).aged k d stale :=
  congrArg (fun c => (⟨c, _, _, _⟩ : Machine τ)) (m.circuit.driveLine_aged k d level)

omit [Duration τ] in
theorem driveField_aged (level : Bool) : (m.aged k d stale).mapCircuit (·.driveField level) =
    (m.mapCircuit (·.driveField level)).aged k d stale :=
  congrArg (fun c => (⟨c, _, _, _⟩ : Machine τ)) (m.circuit.driveField_aged k d level)

theorem runLine_aged (last : Bool) : (m.aged k d stale).runLine last =
    ((m.runLine last).1, (m.runLine last).2.aged k d stale) := by
  unfold runLine
  cases last with
  | true =>
    simp only [if_true, driveField_aged, runSlice_aged, driveLine_aged]
  | false =>
    simp only [Bool.false_eq_true, if_false, runSlice_aged, driveLine_aged]

theorem runLines_aged (count : Nat) : runLines count (m.aged k d stale) =
    ((runLines count m).1, (runLines count m).2.aged k d stale) := by
  induction count generalizing m with
  | zero => rfl
  | succ left ih =>
    unfold runLines
    rw [runLine_aged]
    dsimp only
    rw [ih]

/-- A field paints the frame, and it is no longer stale. -/
theorem runFrame_aged : (m.aged k d stale).runFrame =
    (m.runFrame.1, m.runFrame.2.aged k d none) := by
  unfold runFrame
  generalize linesPerField = count
  rw [runLines_aged]
  rfl

end Machine

/-! ### Operations -/

/-- The frame is stale until an operation paints it. -/
def Operation.leaves {τ : Type} (stale : Option Frame) (operation : Operation τ) : Option Frame :=
  if operation.paints then none else stale

section

variable {τ : Type} [Duration τ] (k d : Nat) (stale : Option Frame) (m : Machine τ)

omit [Duration τ] in
theorem fit_aged (variant : Variant) :
    (m.aged k d stale).fit variant = (m.fit variant).aged k d stale := by
  have hc : (if (m.circuit.cpu.aged k).variant = variant then m.circuit.cpu.aged k
      else (m.circuit.cpu.aged k).fit variant) =
      (if m.circuit.cpu.variant = variant then m.circuit.cpu
        else m.circuit.cpu.fit variant).aged k := by
    have hv : (m.circuit.cpu.aged k).variant = m.circuit.cpu.variant := rfl
    rw [hv]
    split <;> rfl
  exact congrArg (fun cpu => (⟨⟨cpu, _, _⟩, _, _, _⟩ : Machine τ)) hc

theorem perform_aged (operation : Operation τ) : operation.perform (m.aged k d stale) =
    (operation.perform m).aged k d (operation.leaves stale) := by
  cases operation with
  | control c =>
    cases c with
    | call c =>
      cases c with
      | slice time => exact congrArg (·.2) (m.runSlice_aged k d stale time)
      | frame =>
        show (m.aged k d stale).runFrame.2 = m.runFrame.2.aged k d none
        rw [Machine.runFrame_aged]
      | cycles budget => exact congrArg (·.2) (m.runCycles_aged k d stale budget)
      | insert cartridge => rfl
      | eject => rfl
      | touch f => rfl
    | reset => rfl
    | fit variant => exact fit_aged k d stale m variant
  | drain buffer => rfl
  | read address => rfl
  | write address value => rfl
  | assert line => rfl
  | deassert line => rfl
  | load regs => rfl

theorem answer_aged (operation : Operation τ) :
    operation.answer (m.aged k d stale) = operation.answer m := by
  cases operation with
  | control c =>
    cases c with
    | call c =>
      cases c with
      | slice time => exact congrArg (Answer.events ·.1) (m.runSlice_aged k d stale time)
      | frame =>
        show Answer.events (m.aged k d stale).runFrame.1 = Answer.events m.runFrame.1
        rw [Machine.runFrame_aged]
      | cycles budget => exact congrArg (Answer.cycles ·.1) (m.runCycles_aged k d stale budget)
      | insert cartridge => rfl
      | eject => rfl
      | touch f => rfl
    | reset => rfl
    | fit variant => rfl
  | drain buffer => rfl
  | read address => rfl
  | write address value => rfl
  | assert line => rfl
  | deassert line => rfl
  | load regs => rfl

/-- The frame is stale until one of the operations paints it. -/
theorem after_aged (operations : List (Operation τ)) : (m.aged k d stale).after operations =
    (m.after operations).aged k d (if operations.any (·.paints) then none else stale) := by
  induction operations generalizing m stale with
  | nil => rfl
  | cons operation rest ih =>
    rw [Machine.after_cons, Machine.after_cons, perform_aged, ih, List.any_cons, Operation.leaves]
    cases operation.paints <;> cases rest.any (·.paints) <;> rfl

/-- Machines of different ages answer alike. -/
theorem answers_aged (operations : List (Operation τ)) :
    (m.aged k d stale).answers operations = m.answers operations := by
  induction operations generalizing m stale with
  | nil => rfl
  | cons operation rest ih => rw [Machine.answers, Machine.answers, answer_aged, perform_aged, ih]

end

end ColorComputer
