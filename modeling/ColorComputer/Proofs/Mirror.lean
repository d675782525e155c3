import ColorComputer.Proofs.Account
import ColorComputer.Proofs.Operation

/-!
# The lines as the processor sees them

The board puts a level on each line, and the processor has its own record of it, taken over after
each run and raised by events in between. A level that *rises* — the end of a pulse — can set the
flag of an adapter as well as one that falls, but it is no event: the line of that adapter goes up,
and the processor does not see it until its next run ends. A line is *late* for that time.

* `late` — what was written down about a line tells whether it is late.
* `Mirror` — the processor sees the level of a line unless the line is late.
* `Mirror.rise`, `Mirror.sample`, `Mirrored.driveLine` — what changes a level keeps that.
* `Mirrored.pass`, `Mirrored.steer` — so does all that a machine goes through.
-/

namespace ColorComputer

/-! ### What is written down -/

/-- What is written down about the lines as the processor sees them. -/
inductive Sighting
  /-- The processor begins to run in this circuit. -/
  | running (circuit : Circuit)
  /-- A run ended, and the levels were taken over. -/
  | sampled
  /-- An event at a device latched a request. -/
  | requested (line : Interrupt)
  /-- The level that marks the end of a line or of a field rose: the board before and after. -/
  | rose (before after : Board)
  /-- Everything was reset. -/
  | reset

/-- The processor begins to run. -/
def Sighting.begins : Sighting → Bool
  | running _ => true
  | _ => false

/-- A line went up where a level rose, and since then no run ended and no event latched a
request. -/
def late (line : Interrupt) : List Sighting → Bool
  | [] => false
  | .running _ :: older => late line older
  | .sampled :: _ => false
  | .requested other :: older => other ≠ line && late line older
  | .rose before after :: older =>
    late line older || !before.level line && after.level line
  | .reset :: _ => false

/-- The processor takes a line to be up exactly if it is up. -/
def Circuit.Agrees (c : Circuit) (line : Interrupt) : Prop :=
  (c.cpu.lines.get line).asserted = c.board.level line

/-- An event latches a request on a line. -/
def Raised.on (raised : Raised) : Interrupt → Bool
  | .nmi => false
  | .firq => raised.firq
  | .irq => raised.irq

/-- The requests that an event latches. -/
def Raised.sightings (raised : Raised) : List Sighting :=
  (if raised.firq then [.requested .firq] else []) ++
    if raised.irq then [.requested .irq] else []

/-- The level that marks the end of a line reaches the adapters. -/
def Board.lineEdge (b : Board) (level : Bool) : Board :=
  let b' := { b with pia0 := b.pia0.setCA1 level }
  if b.cartridge.isSome then { b' with pia1 := b.pia1.setCB1 level } else b'

/-- The level that marks the end of a field reaches the adapters. -/
def Board.fieldEdge (b : Board) (level : Bool) : Board := { b with pia0 := b.pia0.setCB1 level }

/-- What the adapters ask for. -/
def Board.adapters (b : Board) : Raised := ⟨b.pia0.interrupt, b.pia1.interrupt⟩

/-! ### A circuit that is watched -/

/-- A circuit, and what was written down about its lines. -/
structure Sighted where
  circuit : Circuit
  log : List Sighting

namespace Sighted

/-- A source of the GIME happens. -/
def raise (w : Sighted) (source : Byte) : Sighted :=
  ⟨w.circuit.raise source, (w.circuit.board.gime.raise source).1.sightings ++ w.log⟩

/-- Latch a request on each line that an adapter drives. -/
def assertAdapters (w : Sighted) : Sighted :=
  ⟨w.circuit.assertAdapters, w.circuit.board.adapters.sightings ++ w.log⟩

/-- Run the processor for a budget of cycles. -/
def runCycles (w : Sighted) (budget : Nat) : Nat × Sighted :=
  ((w.circuit.runCycles budget).1,
    ⟨(w.circuit.runCycles budget).2, .sampled :: .running w.circuit :: w.log⟩)

/-- The circuit as the scheduler drives it, watched. -/
def host (τ : Type) [Duration τ] : Host Sighted τ where
  runCpu budget w := w.runCycles budget
  sample w := ⟨w.circuit.takeSample, w.log⟩
  timerExpired w := w.raise Gime.sourceTimer
  timerUpdate w :=
    let (update, circuit) := w.circuit.takeTimerUpdate (τ := τ)
    (update, ⟨circuit, w.log⟩)
  multiplier w := w.circuit.board.multiplier

/-- A level rises and leaves another board: no more than that is written down. -/
def rise (w : Sighted) (board : Board) : Sighted :=
  ⟨{ w.circuit with board := board }, .rose w.circuit.board board :: w.log⟩

/-- A level falls and leaves another board: these sources of the GIME happen, and then the adapters
are asked. -/
def fall (w : Sighted) (board : Board) (sources : List Byte) : Sighted :=
  (sources.foldl raise ⟨{ w.circuit with board := board }, w.log⟩).assertAdapters

/-- The level that marks the end of a line changes. -/
def driveLine (w : Sighted) (level : Bool) : Sighted :=
  let board := w.circuit.board.lineEdge level
  if level then w.rise board
  else
    w.fall board (if w.circuit.board.cartridge.isSome then [Gime.sourceLine, Gime.sourceCartridge]
      else [Gime.sourceLine])

/-- The level that marks the end of a field changes. -/
def driveField (w : Sighted) (level : Bool) : Sighted :=
  let board := w.circuit.board.fieldEdge level
  if level then w.rise board else w.fall board [Gime.sourceField]

@[simp] theorem circuit_driveLine (w : Sighted) (level : Bool) :
    (w.driveLine level).circuit = w.circuit.driveLine level := by
  unfold driveLine Circuit.driveLine Board.lineEdge
  cases w.circuit.board.cartridge.isSome <;> cases level <;> rfl

@[simp] theorem circuit_driveField (w : Sighted) (level : Bool) :
    (w.driveField level).circuit = w.circuit.driveField level := by
  cases level <;> rfl

end Sighted

/-! ### The mirror -/

/-- The processor sees the level of a line unless the line is late, and a line that is late is
up. -/
structure Mirror (line : Interrupt) (c : Circuit) (log : List Sighting) : Prop where
  asserted : (c.cpu.lines.get line).asserted = (c.board.level line && !late line log)
  level : late line log = true → c.board.level line = true

namespace Mirror

variable {line : Interrupt} {c : Circuit} {log : List Sighting}

theorem agrees_iff (h : Mirror line c log) : c.Agrees line ↔ late line log = false := by
  rw [Circuit.Agrees, h.asserted]
  cases hl : late line log with
  | false => simp
  | true => simp [h.level hl]

theorem of_not_late (ha : c.Agrees line) (hl : late line log = false) : Mirror line c log where
  asserted := by rw [hl, Bool.not_false, Bool.and_true, ha]
  level h := by rw [hl] at h; cases h

/-- What leaves the level as it was, and the processor, keeps the mirror. -/
theorem same (h : Mirror line c log) {c' : Circuit} (hc : c'.cpu.lines = c.cpu.lines)
    (hb : c'.board.level line = c.board.level line) : Mirror line c' log where
  asserted := by rw [hc, hb, h.asserted]
  level hl := by rw [hb, h.level hl]

/-- A line that goes up where a level rises is late. -/
theorem rise (h : Mirror line c log) {board : Board}
    (hb : c.board.level line = true → board.level line = true) :
    Mirror line { c with board := board } (.rose c.board board :: log) := by
  have ha := h.asserted
  have hl := h.level
  constructor
  · show (c.cpu.lines.get line).asserted =
      (board.level line && !(late line log || !c.board.level line && board.level line))
    rw [ha]
    cases hc : c.board.level line <;> cases hd : late line log <;> simp_all
  · intro h
    change (late line log || !c.board.level line && board.level line) = true at h
    cases hd : late line log <;> simp_all

/-- Taking over the levels sees every line. -/
theorem sample (hn : line ≠ .nmi) (c : Circuit) (log : List Sighting) :
    Mirror line c.syncLines (.sampled :: log) := by
  refine of_not_late ?_ rfl
  show (c.syncLines.cpu.lines.get line).asserted = c.board.level line
  rw [c.get_syncLines hn]
  split
  · rename_i he
    exact he.symm
  · rfl

theorem late_sightings (raised : Raised) (log : List Sighting) :
    late line (raised.sightings ++ log) = (!raised.on line && late line log) := by
  obtain ⟨irq, firq⟩ := raised
  cases irq <;> cases firq <;> cases line <;> simp [Raised.sightings, Raised.on, late]

theorem asserted_assertRaised (cpu : Cpu) (raised : Raised) :
    ((Circuit.assertRaised cpu raised).lines.get line).asserted =
      (raised.on line || (cpu.lines.get line).asserted) := by
  obtain ⟨irq, firq⟩ := raised
  cases irq <;> cases firq <;> cases line <;> rfl

/-- A request is seen at once, whatever was seen before. -/
theorem request {raised : Raised} (hr : raised.on line = true) {cpu : Cpu} {board : Board}
    (hb : board.level line = true) (samples : SampleQueue) (log : List Sighting) :
    Mirror line ⟨Circuit.assertRaised cpu raised, board, samples⟩ (raised.sightings ++ log) := by
  refine of_not_late ?_ ?_
  · show ((Circuit.assertRaised cpu raised).lines.get line).asserted = board.level line
    rw [asserted_assertRaised, hr, hb]
    rfl
  · rw [late_sightings, hr]
    rfl

/-- A request on another line is no matter. -/
theorem other (h : Mirror line c log) {raised : Raised} (hr : raised.on line = false)
    {board : Board} (hb : board.level line = c.board.level line) (samples : SampleQueue) :
    Mirror line ⟨Circuit.assertRaised c.cpu raised, board, samples⟩
      (raised.sightings ++ log) where
  asserted := by
    rw [asserted_assertRaised, late_sightings, hr, hb]
    exact h.asserted
  level hl := by
    rw [late_sightings, hr] at hl
    rw [hb]
    exact h.level hl

end Mirror

/-! ### Devices -/

/-- The level of a line is what its adapter and the GIME put on it. -/
theorem Board.level_eq (b : Board) (line : Interrupt) :
    b.level line = (b.adapters.on line || b.gime.drives line) := by
  cases line <;> rfl

/-- A source that is raised for a line drives it. -/
theorem Gime.drives_of_raised {g : Gime} {source : Byte} {line : Interrupt}
    (h : (g.raise source).1.on line = true) : (g.raise source).2.drives line = true := by
  have ho : ∀ enable latched : Byte, (enable &&& source != 0) = true →
      (latched ||| source != 0) = true := by
    intro enable latched he
    rw [bne_iff_ne] at he ⊢
    intro hz
    have hs : source = 0 := (BitVec.or_eq_zero_iff.1 hz).2
    rw [hs] at he
    exact he BitVec.and_zero
  cases line with
  | nmi => cases h
  | firq =>
    have hr : g.raisesFirq source = true := h
    show ((g.raise source).2.firqLatched != 0) = true
    rw [Gime.firqLatched_raise, hr, if_pos rfl]
    exact ho _ _ (Bool.and_eq_true _ _ ▸ hr).2
  | irq =>
    have hr : g.raisesIrq source = true := h
    show ((g.raise source).2.irqLatched != 0) = true
    rw [Gime.irqLatched_raise, hr, if_pos rfl]
    exact ho _ _ (Bool.and_eq_true _ _ ▸ hr).2

/-- The second board is the first one after edges, which set flags of the adapters and clear
none. -/
structure Board.Edged (b b' : Board) : Prop where
  gime : b'.gime = b.gime
  adapters : ∀ line, b.adapters.on line = true → b'.adapters.on line = true

theorem Port.interrupt_setC1 {p : Port} (h : p.interrupt = true) (level : Bool) :
    (p.setC1 level).interrupt = true := by
  rw [interrupt_eq, Bool.and_eq_true] at h
  rw [interrupt_eq]
  show ((p.flag || p.isActiveEdge level) && p.interruptEnabled) = true
  rw [h.1, h.2]
  rfl

theorem Pia.interrupt_setCA1 {pia : Pia} (h : pia.interrupt = true) (level : Bool) :
    (pia.setCA1 level).interrupt = true := by
  rw [interrupt, Bool.or_eq_true] at h ⊢
  exact h.imp (Port.interrupt_setC1 · level) id

theorem Pia.interrupt_setCB1 {pia : Pia} (h : pia.interrupt = true) (level : Bool) :
    (pia.setCB1 level).interrupt = true := by
  rw [interrupt, Bool.or_eq_true] at h ⊢
  exact h.imp id (Port.interrupt_setC1 · level)

namespace Board

theorem edged_fieldEdge (b : Board) (level : Bool) : b.Edged (b.fieldEdge level) where
  gime := rfl
  adapters line h := by
    cases line with
    | nmi => cases h
    | firq => exact h
    | irq => exact Pia.interrupt_setCB1 h level

theorem edged_lineEdge (b : Board) (level : Bool) : b.Edged (b.lineEdge level) := by
  unfold lineEdge
  cases b.cartridge.isSome with
  | false =>
    refine ⟨rfl, fun line h => ?_⟩
    cases line with
    | nmi => cases h
    | firq => exact h
    | irq => exact Pia.interrupt_setCA1 h level
  | true =>
    refine ⟨rfl, fun line h => ?_⟩
    cases line with
    | nmi => cases h
    | firq => exact Pia.interrupt_setCB1 h level
    | irq => exact Pia.interrupt_setCA1 h level

theorem Edged.level {b b' : Board} (h : b.Edged b') {line : Interrupt}
    (hl : b.level line = true) : b'.level line = true := by
  rw [level_eq, Bool.or_eq_true] at hl ⊢
  rw [h.gime]
  exact hl.imp (h.adapters line) id

/-- An edge that sets no flag leaves the level. -/
theorem Edged.level_eq_of_off {b b' : Board} (h : b.Edged b') {line : Interrupt}
    (ho : b'.adapters.on line = false) : b'.level line = b.level line := by
  have hb : b.adapters.on line = false := by
    cases hb : b.adapters.on line with
    | false => rfl
    | true => rw [h.adapters line hb] at ho; cases ho
  rw [level_eq, level_eq, ho, hb, h.gime]

end Board

/-! ### Events -/

namespace Mirror

variable {line : Interrupt} {w : Sighted}

theorem raise (h : Mirror line w.circuit w.log) (source : Byte) :
    Mirror line (w.raise source).circuit (w.raise source).log := by
  have hb : (w.circuit.raise source).board.level line =
      (w.circuit.board.adapters.on line || (w.circuit.board.gime.raise source).2.drives line) :=
    Board.level_eq _ _
  cases hr : (w.circuit.board.gime.raise source).1.on line with
  | true =>
    refine request hr ?_ _ _
    exact hb.trans (by rw [Gime.drives_of_raised hr, Bool.or_true])
  | false =>
    have hd : (w.circuit.board.gime.raise source).2.drives line =
        w.circuit.board.gime.drives line :=
      Gime.drives_raise (fun hl => by subst hl; exact hr) fun hl => by subst hl; exact hr
    refine h.other hr ?_ _
    exact hb.trans (by rw [hd, Board.level_eq])

/-- What the adapters drive is seen after an event, even where it was not before. -/
theorem assertAdapters
    (h : w.circuit.board.adapters.on line = false → Mirror line w.circuit w.log) :
    Mirror line w.assertAdapters.circuit w.assertAdapters.log := by
  cases hr : w.circuit.board.adapters.on line with
  | true =>
    refine request hr ?_ _ _
    rw [Board.level_eq, hr]
    rfl
  | false => exact (h hr).other hr rfl _

end Mirror

/-! ### All along -/

/-- Whenever the processor began to run, what was written down mirrored its lines. -/
def Faithful (log : List Sighting) : Prop :=
  ∀ newer c older, log = newer ++ .running c :: older →
    ∀ line, line ≠ .nmi → Mirror line c older

theorem faithful_nil : Faithful [] := by
  intro newer c older h
  cases newer <;> cases h

theorem Faithful.cons {s : Sighting} {log : List Sighting} (h : Faithful log)
    (hs : ∀ c, s = .running c → ∀ line, line ≠ .nmi → Mirror line c log) :
    Faithful (s :: log) := by
  intro newer c older hl
  cases newer with
  | nil =>
    rw [List.nil_append, List.cons.injEq] at hl
    obtain ⟨hc, rfl⟩ := hl
    exact hs c hc
  | cons first newer =>
    rw [List.cons_append, List.cons.injEq] at hl
    exact h newer c older hl.2

theorem Faithful.quiet {s : Sighting} {log : List Sighting} (h : Faithful log)
    (hs : s.begins = false) : Faithful (s :: log) := by
  refine h.cons fun c hc => ?_
  rw [hc] at hs
  cases hs

theorem Faithful.sightings {log : List Sighting} (h : Faithful log) (raised : Raised) :
    Faithful (raised.sightings ++ log) := by
  obtain ⟨irq, firq⟩ := raised
  cases irq <;> cases firq
  · exact h
  · exact h.quiet rfl
  · exact h.quiet rfl
  · exact (h.quiet rfl).quiet rfl

/-- What was written down mirrors the lines, and did so whenever the processor began to run. -/
structure Mirrored (w : Sighted) : Prop where
  now : ∀ line, line ≠ .nmi → Mirror line w.circuit w.log
  faithful : Faithful w.log

namespace Mirrored

variable {w : Sighted}

theorem same (h : Mirrored w) {c : Circuit} (hc : c.cpu.lines = w.circuit.cpu.lines)
    (hb : ∀ line, c.board.level line = w.circuit.board.level line) : Mirrored ⟨c, w.log⟩ where
  now line hn := (h.now line hn).same hc (hb line)
  faithful := h.faithful

theorem raise (h : Mirrored w) (source : Byte) : Mirrored (w.raise source) where
  now line hn := (h.now line hn).raise source
  faithful := h.faithful.sightings _

theorem runCycles (h : Mirrored w) (budget : Nat) : Mirrored (w.runCycles budget).2 := by
  let ran : Circuit := ⟨(w.circuit.cpu.run w.circuit.board budget).cpu,
    (w.circuit.cpu.run w.circuit.board budget).bus, w.circuit.samples⟩
  have hw : (w.runCycles budget).2 = ⟨ran.syncLines, .sampled :: .running w.circuit :: w.log⟩ := rfl
  have hf : Faithful (.running w.circuit :: w.log) :=
    h.faithful.cons fun c hc => Sighting.running.inj hc ▸ h.now
  rw [hw]
  exact ⟨fun line hn => Mirror.sample hn ran _, hf.quiet rfl⟩

/-- A level that rises makes lines late. -/
theorem rise (h : Mirrored w) {board : Board} (hb : w.circuit.board.Edged board) :
    Mirrored (w.rise board) where
  now line hn := (h.now line hn).rise hb.level
  faithful := h.faithful.quiet rfl

theorem foldl_raise {line : Interrupt} (sources : List Byte) {w : Sighted} (hf : Faithful w.log)
    (h : w.circuit.board.adapters.on line = false → Mirror line w.circuit w.log) :
    Faithful (sources.foldl Sighted.raise w).log ∧
      ((sources.foldl Sighted.raise w).circuit.board.adapters.on line = false →
        Mirror line (sources.foldl Sighted.raise w).circuit
          (sources.foldl Sighted.raise w).log) := by
  induction sources generalizing w with
  | nil => exact ⟨hf, h⟩
  | cons source rest ih => exact ih (hf.sightings _) fun ho => (h ho).raise source

/-- What a level that falls does to the lines is seen: the adapters are asked in the end. -/
theorem fall (h : Mirrored w) {board : Board} (hb : w.circuit.board.Edged board)
    (sources : List Byte) : Mirrored (w.fall board sources) := by
  have hs : ∀ line : Interrupt, line ≠ .nmi → _ := fun line hn =>
    foldl_raise sources (w := ⟨{ w.circuit with board := board }, w.log⟩) h.faithful
      fun ho => (h.now line hn).same rfl (hb.level_eq_of_off ho)
  exact ⟨fun line hn => Mirror.assertAdapters (hs line hn).2,
    (hs .irq (by decide)).1.sightings _⟩

theorem driveLine (h : Mirrored w) (level : Bool) : Mirrored (w.driveLine level) := by
  cases level with
  | true => exact h.rise (w.circuit.board.edged_lineEdge true)
  | false => exact h.fall (w.circuit.board.edged_lineEdge false) _

theorem driveField (h : Mirrored w) (level : Bool) : Mirrored (w.driveField level) := by
  cases level with
  | true => exact h.rise (w.circuit.board.edged_fieldEdge true)
  | false => exact h.fall (w.circuit.board.edged_fieldEdge false) _

/-- The scheduler drives a watched circuit as it drives the circuit, and keeps it mirrored. -/
theorem alike {τ : Type} [Duration τ] : Host.Alike (fun w c => w.circuit = c ∧ Mirrored w)
    (Sighted.host τ) (Circuit.host τ) where
  runCpu := by
    rintro w _ ⟨rfl, h⟩ budget
    exact ⟨rfl, rfl, h.runCycles budget⟩
  sample := by
    rintro w _ ⟨rfl, h⟩
    exact ⟨rfl, h.same rfl fun _ => rfl⟩
  timerExpired := by
    rintro w _ ⟨rfl, h⟩
    exact ⟨rfl, h.raise _⟩
  timerUpdate := by
    rintro w _ ⟨rfl, h⟩
    refine ⟨rfl, rfl, h.same rfl fun line => ?_⟩
    have hg : ∀ g : Gime, (g.takeTimerUpdate (τ := τ)).2.drives line = g.drives line := by
      intro g
      unfold Gime.takeTimerUpdate
      split
      · cases line <;> rfl
      · rfl
    rw [Board.level_eq, Board.level_eq]
    exact congrArg _ (hg _)
  multiplier := by
    rintro w _ ⟨rfl, h⟩
    rfl

end Mirrored

/-! ### A machine that is watched -/

namespace Machine

variable {τ : Type} [Duration τ]

/-- What is written down once a machine went through a stretch. -/
def sight (m : Machine τ) (log : List Sighting) : Stretch τ → List Sighting
  | .field level => (Sighted.driveField ⟨m.circuit, log⟩ level).log
  | .line level => (Sighted.driveLine ⟨m.circuit, log⟩ level).log
  | .time time => (m.scheduler.run (Sighted.host τ) ⟨m.circuit, log⟩ time).host.log
  | .cycles budget => (Sighted.runCycles ⟨m.circuit, log⟩ budget).2.log
  | .port _ | .touch _ => log

/-- What is written down once a machine went through stretches. -/
def sightAll (m : Machine τ) (log : List Sighting) : List (Stretch τ) → List Sighting
  | [] => log
  | stretch :: rest => (m.pass stretch).sightAll (m.sight log stretch) rest

/-- What is written down once something was done to a machine. -/
def sightControl (m : Machine τ) (log : List Sighting) : Control τ → List Sighting
  | .call c => m.sightAll log c.stretches
  | .reset => .reset :: log
  | .fit _ => log

/-- What is written down while a machine is steered. -/
def sightings (m : Machine τ) (log : List Sighting) : List (Control τ) → List Sighting
  | [] => log
  | control :: rest => (control.perform m).sightings (m.sightControl log control) rest

end Machine

namespace Mirrored

variable {τ : Type} [Duration τ] {m : Machine τ} {log : List Sighting}

theorem pass (h : Mirrored ⟨m.circuit, log⟩) (stretch : Stretch τ) :
    Mirrored ⟨(m.pass stretch).circuit, m.sight log stretch⟩ := by
  cases stretch with
  | field level =>
    have hd := h.driveField level
    have hc := Sighted.circuit_driveField ⟨m.circuit, log⟩ level
    show Mirrored ⟨m.circuit.driveField level, _⟩
    rw [← hc]
    exact hd
  | line level =>
    have hd := h.driveLine level
    have hc := Sighted.circuit_driveLine ⟨m.circuit, log⟩ level
    show Mirrored ⟨m.circuit.driveLine level, _⟩
    rw [← hc]
    exact hd
  | time time =>
    obtain ⟨hc, hw⟩ := (alike.run (x := ⟨m.circuit, log⟩) ⟨rfl, h⟩ m.scheduler time).host
    show Mirrored ⟨(m.scheduler.run (Circuit.host τ) m.circuit time).host, _⟩
    rw [← hc]
    exact hw
  | cycles budget => exact h.runCycles budget
  | port cartridge => exact h.same rfl fun line => by cases line <;> rfl
  | touch f => exact h.same rfl fun line => by cases line <;> rfl

theorem play (h : Mirrored ⟨m.circuit, log⟩) (stretches : List (Stretch τ)) :
    Mirrored ⟨(m.play stretches).circuit, m.sightAll log stretches⟩ := by
  induction stretches generalizing m log with
  | nil => exact h
  | cons stretch rest ih => exact ih (h.pass stretch)

/-- A machine that was reset sees its lines: all of them are down. -/
theorem reset (h : Faithful log) (hl : ∀ line, late line log = false) :
    Mirrored ⟨m.reset.circuit, log⟩ where
  now line _ := by
    refine Mirror.of_not_late ?_ (hl line)
    cases line <;> rfl
  faithful := h

theorem perform (h : Mirrored ⟨m.circuit, log⟩) (control : Control τ) :
    Mirrored ⟨(control.perform m).circuit, m.sightControl log control⟩ := by
  cases control with
  | call c =>
    rw [Control.perform, Call.circuit_perform]
    exact h.play c.stretches
  | reset => exact reset (h.faithful.quiet rfl) fun _ => rfl
  | fit variant =>
    refine h.same ?_ fun line => rfl
    show (if m.circuit.cpu.variant = variant then m.circuit.cpu
      else m.circuit.cpu.fit variant).lines = m.circuit.cpu.lines
    split <;> rfl

theorem steer (h : Mirrored ⟨m.circuit, log⟩) (controls : List (Control τ)) :
    Mirrored ⟨(m.steer controls).circuit, m.sightings log controls⟩ := by
  induction controls generalizing m log with
  | nil => exact h
  | cons control rest ih => exact ih (h.perform control)

end Mirrored

end ColorComputer
