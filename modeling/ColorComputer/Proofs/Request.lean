import ColorComputer.Proofs.Account
import ColorComputer.Proofs.Bare

/-!
# Requests that are lost

What holds of every sampling from reset on, for every source of a request: it has its request unless
its line was held since the last entry. A program that enables a second source in the handler of the
first holds the line, so there are requests that are lost.

* `Told`, `Accounted` — every sampling that was written down is accounted for.
* `Accounted.play`, `Accounted.history` — every stretch and every call keeps that.
* `Takeover` — a program that takes a line over while it is up, and the run of a field with it.
* `pending_iff` — at every sampling, which of the sources that are active have their request.
-/

namespace ColorComputer

/-! ### The whole log -/

/-- At every sampling that was written down, a source that was active had its request unless its
line was held; and the line of a latch that was not active at the last entry was not held. -/
def Told (log : List Notice) : Prop :=
  ∀ newer c older, log = newer ++ .sampled c :: older →
    ∀ source : Source, source.active c.board = true →
      (c.cpu.lines.get source.line).pending = !held source.line older ∧
        (source.isLatch = true →
          (∀ b, lastEntry source.line older = some b → source.active b = false) →
          held source.line older = false)

theorem told_nil : Told [] := by
  intro newer c older h
  cases newer <;> cases h

theorem Told.append {log quiet : List Notice} (h : Told log)
    (hq : ∀ c, Notice.sampled c ∉ quiet) : Told (quiet ++ log) := by
  induction quiet with
  | nil => exact h
  | cons n rest ih =>
    have hr : Told (rest ++ log) := ih fun c hc => hq c (List.mem_cons_of_mem n hc)
    intro newer c older hl
    cases newer with
    | nil =>
      rw [List.cons_append, List.nil_append, List.cons.injEq] at hl
      exact absurd (hl.1 ▸ List.mem_cons_self) (hq c)
    | cons m newer =>
      rw [List.cons_append, List.cons_append, List.cons.injEq] at hl
      exact hr newer c older hl.2

theorem Told.sample {c : Circuit} {log : List Notice} (h : Told log)
    (ha : ∀ line, line ≠ .nmi → Account line c.cpu.lines c.board log) :
    Told (.sampled c.syncLines :: log) := by
  intro newer d older hl
  cases newer with
  | nil =>
    rw [List.nil_append, List.cons.injEq, Notice.sampled.injEq] at hl
    obtain ⟨rfl, rfl⟩ := hl
    intro source hs
    exact (ha source.line source.line_ne_nmi).of_active hs
  | cons m newer =>
    rw [List.cons_append, List.cons.injEq] at hl
    exact h newer d older hl.2

theorem sampled_not_mem_requests (raised : Raised) (c : Circuit) :
    Notice.sampled c ∉ requests raised := by
  obtain ⟨irq, firq⟩ := raised
  cases irq <;> cases firq <;> simp [requests]

theorem sampled_not_mem_entered (entries : List (Interrupt × Board)) (c : Circuit) :
    Notice.sampled c ∉ entered entries := by
  simp [entered]

/-- What was written down in a watched circuit accounts for its lines, and did so all along. -/
structure Accounted (w : Watched) : Prop where
  account : ∀ line, line ≠ .nmi → Account line w.circuit.cpu.lines w.circuit.board w.log
  told : Told w.log

namespace Accounted

variable {w : Watched}

/-- What happens on the board without the GIME is no event. -/
theorem mapBoard (h : Accounted w) (f : Board → Board)
    (hf : (f w.circuit.board).gime = w.circuit.board.gime) : Accounted (w.mapBoard f) where
  account line hn := (h.account line hn).setBoard fun _ hd => hf ▸ hd
  told := h.told

theorem raise (h : Accounted w) (source : Byte) : Accounted (w.raise source) where
  account line hn := by
    refine ((h.account line hn).requests _).setBoard fun hh hd => ?_
    obtain ⟨hi, hf⟩ := held_requests hh
    rwa [← Gime.drives_raise hi hf]
  told := h.told.append (sampled_not_mem_requests _)

theorem assertAdapters (h : Accounted w) : Accounted w.assertAdapters where
  account line hn := (h.account line hn).requests ⟨_, _⟩
  told := h.told.append (sampled_not_mem_requests _)

theorem runCycles (h : Accounted w) (budget : Nat) : Accounted (w.runCycles budget).2 := by
  have hr : ∀ line, line ≠ .nmi → Account line _ _ _ := fun line hn =>
    Account.runUntil budget ⟨w.circuit.cpu, w.circuit.board, 0⟩ w.log (h.account line hn)
  have ht := h.told.append (sampled_not_mem_entered
    (Cpu.entriesUntil budget ⟨w.circuit.cpu, w.circuit.board, 0⟩))
  have hc : ∀ line, line ≠ .nmi → Account line
      (⟨(w.circuit.cpu.run w.circuit.board budget).cpu,
        (w.circuit.cpu.run w.circuit.board budget).bus, w.circuit.samples⟩ : Circuit).cpu.lines
      _ _ := hr
  exact ⟨fun line hn => (hc line hn).sample hn, ht.sample hc⟩

theorem driven {τ : Type} [Duration τ] : Watched.Driven τ Accounted where
  runCycles h budget := h.runCycles budget
  takeSample h := ⟨h.account, h.told⟩
  raiseTimer h := h.raise _
  takeTimerUpdate := by
    intro w h
    refine ⟨fun line hn => (h.account line hn).setBoard fun _ hd => ?_, h.told⟩
    have hg : ∀ g : Gime, (g.takeTimerUpdate (τ := τ)).2.drives line = g.drives line := by
      intro g
      unfold Gime.takeTimerUpdate
      split
      · cases line <;> rfl
      · rfl
    exact hg _ ▸ hd

theorem driveLine (h : Accounted w) (level : Bool) : Accounted (w.driveLine level) := by
  have h0 := h.mapBoard (fun b => { b with pia0 := b.pia0.setCA1 level }) rfl
  have h1 := h0.mapBoard (fun b => { b with pia1 := b.pia1.setCB1 level }) rfl
  unfold Watched.driveLine
  cases w.circuit.board.cartridge.isSome <;> cases level
  · exact (h0.raise Gime.sourceLine).assertAdapters
  · exact h0
  · exact ((h1.raise Gime.sourceLine).raise Gime.sourceCartridge).assertAdapters
  · exact h1

theorem driveField (h : Accounted w) (level : Bool) : Accounted (w.driveField level) := by
  have h0 := h.mapBoard (fun b => { b with pia0 := b.pia0.setCB1 level }) rfl
  cases level with
  | false => exact (h0.raise Gime.sourceField).assertAdapters
  | true => exact h0

variable {τ : Type} [Duration τ] {m : Machine τ} {log : List Notice}

theorem pass (h : Accounted ⟨m.circuit, log⟩) (stretch : Stretch τ) :
    Accounted ⟨(m.pass stretch).circuit, m.watch log stretch⟩ := by
  cases stretch with
  | field level =>
    have hd := h.driveField level
    have hc := Watched.circuit_driveField ⟨m.circuit, log⟩ level
    show Accounted ⟨m.circuit.driveField level, _⟩
    rw [← hc]
    exact hd
  | line level =>
    have hd := h.driveLine level
    have hc := Watched.circuit_driveLine ⟨m.circuit, log⟩ level
    show Accounted ⟨m.circuit.driveLine level, _⟩
    rw [← hc]
    exact hd
  | time time => exact Machine.watch_time driven h time
  | cycles budget => exact h.runCycles budget
  | port cartridge => exact h.mapBoard (fun b => { b with cartridge := cartridge }) rfl
  | touch f => exact h.mapBoard (fun b => { b with panel := f b.panel }) rfl

theorem play (h : Accounted ⟨m.circuit, log⟩) (stretches : List (Stretch τ)) :
    Accounted ⟨(m.play stretches).circuit, m.watchAll log stretches⟩ := by
  induction stretches generalizing m log with
  | nil => exact h
  | cons stretch rest ih => exact ih (h.pass stretch)

theorem history (h : Accounted ⟨m.circuit, log⟩) (calls : List (Call τ)) :
    Told (m.history log calls) := by
  induction calls generalizing m log with
  | nil => exact h.told
  | cons call rest ih =>
    refine ih ?_
    rw [Call.circuit_perform]
    exact h.play call.stretches

/-- A machine that was reset has nothing to account for. -/
theorem reset (m : Machine τ) : Accounted ⟨m.reset.circuit, []⟩ :=
  ⟨fun line _ => Account.idle line _, told_nil⟩

end Accounted

/-! ### A line that is taken over -/

namespace Takeover

/-- A program that enables port B of the first adapter for rising edges and waits, and a handler
that enables port A and waits: `COM $FF03`, `CWAI #$EF` and `COM $FF01`, `CWAI #$FF`. -/
def code (offset : Nat) : UInt8 :=
  (List.lookup offset
    [(0, 0x73), (1, 0xFF), (2, 0x03), (3, 0x3C), (4, 0xEF),
      (16, 0x73), (17, 0xFF), (18, 0x01), (19, 0x3C), (20, 0xFF),
      (0x7FF8, 0x80), (0x7FF9, 0x10), (0x7FFE, 0x80)]).getD 0

/-- The program at the start of the ROM and its two vectors at the end. -/
def rom : ByteArray := ⟨Array.ofFn (n := systemRomSize) fun i => code i.val⟩

def configuration : Configuration := { Configuration.standard with rom := rom, audioRate := 0 }

/-- The memory of the machine, which the program never changes. -/
def memory : Memory := .fresh .k128 rom

theorem rom_memory : memory.rom = romOf code := rfl

/-- How far the program has come: it waits in the stages `waiting` and `resting`, and is `due` to
enter the handler once port B saw its edge. -/
inductive Stage
  | start | armed | waiting | due | entered | enabled | resting
  deriving DecidableEq

namespace Stage

/-- The stage after a step. -/
def next : Stage → Stage
  | start => armed
  | armed => waiting
  | due => entered
  | entered => enabled
  | enabled => resting
  | stage => stage

/-- The cycles of a step. -/
def cost : Stage → Nat
  | start | due | entered => 7
  | armed | enabled => 20
  | waiting | resting => 0

/-- The cycles until the program waits. -/
def left : Stage → Nat
  | start => 27
  | armed | enabled => 20
  | due => 34
  | entered => 27
  | waiting | resting => 0

/-- The stage is no wait. -/
def busy (stage : Stage) : Bool := stage.next != stage

/-- Port B saw its edge. -/
def late : Stage → Bool
  | start | armed | waiting => false
  | _ => true

/-- The handler was entered. -/
def served : Stage → Bool
  | entered | enabled | resting => true
  | _ => false

def codes : Stage → ConditionCodes
  | start => { ConditionCodes.clear with firqMask := true, irqMask := true }
  | armed =>
    { ConditionCodes.clear with firqMask := true, irqMask := true, negative := true, carry := true }
  | waiting | due =>
    { ConditionCodes.clear with entire := true, firqMask := true, negative := true, carry := true }
  | entered =>
    { ConditionCodes.clear with
      entire := true, firqMask := true, irqMask := true, negative := true, carry := true }
  | enabled | resting =>
    { ConditionCodes.clear with entire := true, firqMask := true, irqMask := true, carry := true }

def pc : Stage → Word
  | start => 0x8000
  | armed => 0x8003
  | waiting | due => 0x8005
  | entered => 0x8010
  | enabled => 0x8013
  | resting => 0x8015

def s : Stage → Word
  | start | armed => 0
  | waiting | due | entered | enabled => 0xFFF4
  | resting => 0xFFE8

def wait : Stage → WaitState
  | waiting | due | resting => .cwai
  | _ => .running

/-- The line is up once port B saw its edge, and the entry takes the request. -/
def irq (stage : Stage) : InterruptLine := ⟨stage.late, stage == due⟩

def cpu (stage : Stage) (total : Nat) : Cpu where
  regs := { Registers.zeros with pc := stage.pc, s := stage.s, cc := stage.codes }
  variant := .motorola
  lines := { InterruptLines.idle with irq := stage.irq }
  nmiArmed := false
  wait := stage.wait
  totalCycles := total

/-- The control registers of the two ports. -/
def controls : Stage → BitVec 6 × BitVec 6
  | start => (0, 0)
  | armed | waiting | due | entered => (0, 0x3F)
  | enabled | resting => (0x3F, 0x3F)

end Stage

/-- What the edges left on the two ports. -/
structure Edges where
  flagA : Bool
  levelA : Bool
  levelB : Bool

/-- The edges once the level of the lines changed, where port A takes falling edges. -/
def Edges.line (e : Edges) (level : Bool) : Edges :=
  ⟨e.flagA || (e.levelA && !level), level, e.levelB⟩

def board (stage : Stage) (e : Edges) : Board where
  memory := memory
  gime := .reset
  pia0 := ⟨.bare stage.controls.1 e.flagA e.levelA, .bare stage.controls.2 stage.late e.levelB⟩
  pia1 := .reset
  cartridge := none
  panel := .released
  selector := 0

/-! #### Its steps -/

theorem shows_code {stage : Stage} {e : Edges} {a : Word} {i : Nat}
    (hd : Board.isDevice a = false) (ht : memory.translate a = .rom i) (hi : i < systemRomSize) :
    Bus.Shows (board stage e) a (code i).toBitVec :=
  Board.bare_shows_code rom_memory hd ht hi

theorem shows_vector {stage : Stage} {e : Edges} {a : Word} (ha : 0xFFF0 ≤ a) :
    Bus.Shows (board stage e) a (code (systemRomSize - 16 + a.toNat % 16)).toBitVec :=
  Board.bare_shows_vector rom_memory ha

theorem move_eq_idle_iff (stage : Stage) (total : Nat) :
    (stage.cpu total).move = .idle ↔ stage.busy = false := by
  cases stage <;> first | exact iff_of_true rfl rfl | exact iff_of_false nofun nofun

/-- A stage that is no wait makes a step to the next one. The handler finds the flag of port A set,
which `COM` complements away into an enabled port. -/
theorem step_stage {stage : Stage} (h : stage.busy = true) {e : Edges}
    (he : stage.late = true → e.flagA = true) (total : Nat) :
    (stage.cpu total).step (board stage e) =
      ⟨stage.next.cpu (total + stage.cost), board stage.next e, stage.cost⟩ := by
  cases stage with
  | start =>
    have h0 : Bus.Shows (board .start e) 0x8000 0x73 :=
      shows_code (i := 0) rfl (by decide) (by decide)
    have h1 : Bus.Shows (board .start e) 0x8001 0xFF :=
      shows_code (i := 1) rfl (by decide) (by decide)
    have h2 : Bus.Shows (board .start e) 0x8002 0x03 :=
      shows_code (i := 2) rfl (by decide) (by decide)
    have ha : Word.ofBytes 0xFF 0x03 = 0xFF03 := rfl
    have hr : Bus.read (board .start e) 0xFF03 = (0x00, board .start e) :=
      Prod.ext (Port.controlByte_zero false e.levelB) rfl
    rw [Cpu.step_com rfl rfl h0 h1 h2, ha, hr]
    dsimp only
    rfl
  | armed =>
    have h0 : Bus.Shows (board .armed e) 0x8003 0x3C :=
      shows_code (i := 3) rfl (by decide) (by decide)
    have h1 : Bus.Shows (board .armed e) 0x8004 0xEF :=
      shows_code (i := 4) rfl (by decide) (by decide)
    have hs : ((0 : Word).below 12).all (fun a => 0xFFE0 ≤ a) = true := by decide
    have hm : (Stage.armed.cpu total).move = .execute := rfl
    have hz : RegisterName.totalSize (Frame.entire (Stage.armed.cpu total).native) = 12 := rfl
    have hc : (Stage.armed.cpu total).regs.cc = Stage.armed.codes := rfl
    have hk : ({ Stage.armed.codes.keep 0xEF with entire := true } : ConditionCodes) =
        Stage.waiting.codes := by decide
    rw [Cpu.step_cwai hm rfl h0 h1 (Board.swallows_below hs), hz, hc, hk]
    rfl
  | due =>
    have h0 : Bus.Shows (board .due e) 0xFFF8 0x80 := shows_vector (by decide)
    have h1 : Bus.Shows (board .due e) 0xFFF9 0x10 := shows_vector (by decide)
    rw [Cpu.step_irq_of_cwai rfl rfl h0 h1]
    rfl
  | entered =>
    have h0 : Bus.Shows (board .entered e) 0x8010 0x73 :=
      shows_code (i := 16) rfl (by decide) (by decide)
    have h1 : Bus.Shows (board .entered e) 0x8011 0xFF :=
      shows_code (i := 17) rfl (by decide) (by decide)
    have h2 : Bus.Shows (board .entered e) 0x8012 0x01 :=
      shows_code (i := 18) rfl (by decide) (by decide)
    have ha : Word.ofBytes 0xFF 0x01 = 0xFF01 := rfl
    have hr : Bus.read (board .entered e) 0xFF01 = (0x80, board .entered e) := by
      refine Prod.ext ((Port.controlByte_zero e.flagA e.levelA).trans ?_) rfl
      rw [he rfl]
      rfl
    rw [Cpu.step_com rfl rfl h0 h1 h2, ha, hr]
    dsimp only
    rfl
  | enabled =>
    have h0 : Bus.Shows (board .enabled e) 0x8013 0x3C :=
      shows_code (i := 19) rfl (by decide) (by decide)
    have h1 : Bus.Shows (board .enabled e) 0x8014 0xFF :=
      shows_code (i := 20) rfl (by decide) (by decide)
    have hs : ((0xFFF4 : Word).below 12).all (fun a => 0xFFE0 ≤ a) = true := by decide
    have hm : (Stage.enabled.cpu total).move = .execute := rfl
    have hz : RegisterName.totalSize (Frame.entire (Stage.enabled.cpu total).native) = 12 := rfl
    have hc : (Stage.enabled.cpu total).regs.cc = Stage.enabled.codes := rfl
    have hk : ({ Stage.enabled.codes.keep 0xFF with entire := true } : ConditionCodes) =
        Stage.resting.codes := by decide
    have hp : (Stage.enabled.cpu total).regs.s = Stage.enabled.s := rfl
    have hv : Stage.enabled.s - BitVec.ofNat 16 12 = Stage.resting.s := by decide
    rw [Cpu.step_cwai hm rfl h0 h1 (Board.swallows_below hs), hz, hc, hk, hp, hv]
    rfl
  | waiting => exact absurd h (by decide)
  | resting => exact absurd h (by decide)

/-- The last entry into the handler of IRQ, if there was one, found port A not enabled. -/
def Quiet (log : List Notice) : Prop :=
  ∀ b, lastEntry .irq log = some b → Source.firstA.active b = false

theorem quiet_step {stage : Stage} (h : stage.busy = true) (e : Edges) (total : Nat)
    {log : List Notice} (hq : stage.served = true → Quiet log) (hs : stage.next.served = true) :
    Quiet (entered ((stage.cpu total).move.entry?.toList.map fun line => (line, board stage e)) ++
      log) := by
  cases stage with
  | due =>
    have hn : (0 : BitVec 6).getLsbD 0 = false := by decide
    intro b hb
    have hb' : board .due e = b := Option.some.inj hb
    rw [← hb']
    show (board .due e).pia0.a.interrupt = false
    rw [Port.interrupt_eq]
    show (e.flagA && (0 : BitVec 6).getLsbD 0) = false
    rw [hn, Bool.and_false]
  | entered => exact hq rfl
  | enabled => exact hq rfl
  | start => exact absurd hs (by decide)
  | armed => exact absurd hs (by decide)
  | waiting => exact absurd h (by decide)
  | resting => exact absurd h (by decide)

/-- A run from a stage comes to a stage with no more cycles left than were left before. -/
theorem runUntil_stage {e : Edges} (budget : Nat) (core : Core Board) :
    ∀ (stage : Stage) (total limit : Nat) (log : List Notice),
      core.cpu = stage.cpu total → core.bus = board stage e →
      (stage.late = true → e.flagA = true) → core.cycles + stage.left ≤ limit →
      (stage.served = true → Quiet log) →
      ∃ last total' used, Cpu.runUntil budget core = ⟨last.cpu total', board last e, used⟩ ∧
        last.late = stage.late ∧ used + last.left ≤ max limit budget ∧
        (last.served = true → Quiet (entered (Cpu.entriesUntil budget core) ++ log)) := by
  refine Cpu.runUntil_induction budget ?_ ?_ ?_ core
  · intro core hu stage total limit log hc hb he hl hq
    rw [Cpu.runUntil_of_le hu, Cpu.entriesUntil_of_le hu]
    obtain ⟨cpu, bus, used⟩ := core
    subst hc hb
    exact ⟨stage, total, used, rfl, rfl, Nat.le_trans hl (Nat.le_max_left ..), hq⟩
  · intro core hu hm stage total limit log hc hb he hl hq
    rw [Cpu.runUntil_idle hu hm, Cpu.entriesUntil_idle hm]
    obtain ⟨cpu, bus, used⟩ := core
    subst hc hb
    have hs : stage.busy = false := (move_eq_idle_iff stage total).1 hm
    have h0 : stage.left = 0 := by cases stage <;> first | rfl | exact absurd hs (by decide)
    refine ⟨stage, _, _, rfl, rfl, ?_, hq⟩
    dsimp only at hu ⊢
    omega
  · intro core hu hm ih stage total limit log hc hb he hl hq
    rw [Cpu.runUntil_advance hu hm, Cpu.entriesUntil_advance hu hm]
    obtain ⟨cpu, bus, used⟩ := core
    subst hc hb
    have hs : stage.busy = true := by
      rw [← Bool.not_eq_false]
      exact fun h => hm ((move_eq_idle_iff stage total).2 h)
    have ht : stage.next.late = stage.late := by cases stage <;> rfl
    have hn : stage.left = stage.cost + stage.next.left := by cases stage <;> rfl
    dsimp only at ih hl ⊢
    rw [step_stage hs he] at ih ⊢
    rw [entered, List.map_append, List.append_assoc, ← ht]
    refine ih stage.next _ limit _ rfl rfl (fun h => he (ht ▸ h)) ?_ (quiet_step hs e total hq)
    show used + stage.cost + stage.next.left ≤ limit
    omega

/-! #### The circuit it runs in -/

/-- The circuit is where the program has come to, with no more than so many cycles left until it
waits. -/
def Follows (late : Bool) (e : Edges) (limit : Nat) (w : Watched) : Prop :=
  ∃ stage total samples, w.circuit = ⟨stage.cpu total, board stage e, samples⟩ ∧
    stage.late = late ∧ stage.left ≤ limit ∧ (stage.served = true → Quiet w.log)

/-- The first adapter drives the line where the line is up already. -/
theorem interrupt_board (stage : Stage) (e : Edges) :
    (board stage e).pia0.interrupt = stage.late := by
  obtain ⟨flagA, levelA, levelB⟩ := e
  cases stage <;> cases flagA <;> decide +revert

theorem syncLines_stage (stage : Stage) (e : Edges) (total : Nat) (samples : SampleQueue) :
    (⟨stage.cpu total, board stage e, samples⟩ : Circuit).syncLines =
      ⟨stage.cpu total, board stage e, samples⟩ := by
  refine (Circuit.syncLines_bare (stage.cpu total) (board stage e).pia0 samples).trans ?_
  rw [interrupt_board]
  cases stage <;> rfl

theorem raise_board (cpu : Cpu) (stage : Stage) (e : Edges) (samples : SampleQueue)
    (source : Byte) :
    Circuit.raise ⟨cpu, board stage e, samples⟩ source = ⟨cpu, board stage e, samples⟩ :=
  Circuit.raise_bare cpu _ samples source

theorem assertAdapters_board (cpu : Cpu) (stage : Stage) (e : Edges) (samples : SampleQueue) :
    Circuit.assertAdapters ⟨cpu, board stage e, samples⟩ =
      ⟨if stage.late then cpu.assert .irq else cpu, board stage e, samples⟩ := by
  rw [← interrupt_board stage e]
  exact Circuit.assertAdapters_bare cpu _ samples

theorem setCA1_board {stage : Stage} {e : Edges} (h : stage.controls.1 = 0 ∨ e.flagA = true)
    (level : Bool) :
    { board stage e with pia0 := (board stage e).pia0.setCA1 level } =
      board stage (e.line level) := by
  have ha : (board stage e).pia0.a.setC1 level =
      .bare stage.controls.1 (e.flagA || (e.levelA && !level)) level := by
    obtain ⟨flagA, levelA, levelB⟩ := e
    rcases h with hc | rfl
    · have hr : (board stage ⟨flagA, levelA, levelB⟩).pia0.a.risingEdge = false := by
        show stage.controls.1.getLsbD 1 = false
        rw [hc]
        decide
      rw [Port.setC1_of_falling hr]
      rfl
    · rfl
  rw [Pia.setCA1, ha]
  rfl

/-- Port B waits for a rising edge, and the board is the one that is due if it comes. -/
theorem setCB1_waiting (e : Edges) (level : Bool) :
    { board .waiting e with pia0 := (board .waiting e).pia0.setCB1 level } =
      board (if !e.levelB && level then .due else .waiting) ⟨e.flagA, e.levelA, level⟩ := by
  have hr : (board .waiting e).pia0.b.risingEdge = true := by
    show (0x3F : BitVec 6).getLsbD 1 = true
    decide
  rw [Pia.setCB1, Port.setC1_of_rising hr]
  obtain ⟨flagA, levelA, levelB⟩ := e
  cases levelB <;> cases level <;> rfl

theorem driveLine_board (cpu : Cpu) {stage : Stage} {e : Edges}
    (h : stage.controls.1 = 0 ∨ e.flagA = true) (samples : SampleQueue) (level : Bool) :
    Circuit.driveLine ⟨cpu, board stage e, samples⟩ level =
      ⟨if !level && stage.late then cpu.assert .irq else cpu, board stage (e.line level),
        samples⟩ := by
  have hi : (board stage e).cartridge.isSome = false := rfl
  rw [Circuit.driveLine]
  dsimp only
  rw [hi, setCA1_board h]
  cases level
  · rw [if_neg Bool.false_ne_true, if_neg Bool.false_ne_true, if_neg Bool.false_ne_true,
      raise_board, assertAdapters_board]
    rfl
  · rfl

namespace Follows

theorem runCycles {late : Bool} {e : Edges} {limit : Nat} {w : Watched}
    (h : Follows late e limit w) (he : late = true → e.flagA = true) (budget : Nat) :
    Follows late e (limit - budget) (w.runCycles budget).2 := by
  obtain ⟨⟨cpu, bus, samples⟩, log⟩ := w
  obtain ⟨stage, total, samples, hw, rfl, hl, hq⟩ := h
  cases hw
  obtain ⟨last, total', used, hr, ht, hc, hq'⟩ :=
    runUntil_stage budget ⟨stage.cpu total, board stage e, 0⟩ stage total limit log rfl rfl he
      (by rwa [Nat.zero_add]) hq
  have hb := Cpu.le_cycles_runUntil budget ⟨stage.cpu total, board stage e, 0⟩
  rw [hr] at hb
  refine ⟨last, total', samples, ?_, ht, ?_, hq'⟩
  · show Circuit.syncLines ⟨(Cpu.runUntil budget _).cpu, (Cpu.runUntil budget _).bus, samples⟩ = _
    rw [hr, syncLines_stage]
  · dsimp only at hb
    omega

theorem driven {τ : Type} [Duration τ] {late : Bool} {e : Edges} (limit : Nat)
    (he : late = true → e.flagA = true) : Watched.Driven τ (Follows late e limit) where
  runCycles h budget := by
    obtain ⟨stage, total, samples, hw, ht, hl, hq⟩ := h.runCycles he budget
    exact ⟨stage, total, samples, hw, ht, Nat.le_trans hl (Nat.sub_le ..), hq⟩
  takeSample := by
    rintro ⟨circuit, log⟩ ⟨stage, total, samples, rfl, ht, hl, hq⟩
    exact ⟨stage, total, _, rfl, ht, hl, hq⟩
  raiseTimer := by
    rintro ⟨circuit, log⟩ ⟨stage, total, samples, rfl, ht, hl, hq⟩
    have hg : (board stage e).gime = Gime.reset := rfl
    unfold Watched.raise
    dsimp only
    rw [raise_board, hg, Gime.raise_reset]
    exact ⟨stage, total, samples, rfl, ht, hl, hq⟩
  takeTimerUpdate := by
    rintro ⟨circuit, log⟩ ⟨stage, total, samples, rfl, ht, hl, hq⟩
    exact ⟨stage, total, samples, rfl, ht, hl, hq⟩

/-- A program that is not late and has no cycles left waits. -/
theorem waiting {e : Edges} {c : Circuit} {log : List Notice} (h : Follows false e 0 ⟨c, log⟩) :
    ∃ total samples, c = ⟨Stage.waiting.cpu total, board .waiting e, samples⟩ := by
  obtain ⟨stage, total, samples, hw, ht, hl, -⟩ := h
  cases stage with
  | waiting => exact ⟨total, samples, hw⟩
  | start => exact absurd hl (by decide)
  | armed => exact absurd hl (by decide)
  | due => exact absurd ht (by decide)
  | entered => exact absurd ht (by decide)
  | enabled => exact absurd ht (by decide)
  | resting => exact absurd ht (by decide)

variable {τ : Type} [Duration τ] {m : Machine τ} {log : List Notice} {e : Edges} {flagA : Bool}
  {limit : Nat}

theorem time {late : Bool} (h : Follows late e limit ⟨m.circuit, log⟩)
    (he : late = true → e.flagA = true) (time : τ) :
    Follows late e limit ⟨(m.pass (.time time)).circuit, m.watch log (.time time)⟩ :=
  Machine.watch_time (driven limit he) h time

theorem line (h : Follows false e 0 ⟨m.circuit, log⟩) (level : Bool) :
    Follows false (e.line level) 0
      ⟨(m.pass (.line level)).circuit, m.watch log (.line level)⟩ := by
  obtain ⟨total, samples, hc⟩ := h.waiting
  refine ⟨.waiting, total, samples, ?_, rfl, Nat.le_refl 0, nofun⟩
  show m.circuit.driveLine level = _
  rw [hc, driveLine_board _ (Or.inl rfl)]
  cases level <;> rfl

theorem fieldFalls (h : Follows false e 0 ⟨m.circuit, log⟩) :
    Follows false ⟨e.flagA, e.levelA, false⟩ 0
      ⟨(m.pass (.field false)).circuit, m.watch log (.field false)⟩ := by
  obtain ⟨total, samples, hc⟩ := h.waiting
  refine ⟨.waiting, total, samples, ?_, rfl, Nat.le_refl 0, nofun⟩
  show m.circuit.driveField false = _
  rw [hc, Circuit.driveField]
  dsimp only
  rw [setCB1_waiting, Bool.and_false, if_neg Bool.false_ne_true, if_neg Bool.false_ne_true,
    raise_board, assertAdapters_board]
  rfl

/-- The level of the field rises and that of the lines falls, where both ports take their edges: the
program is late, and the flag of port A is set though the port is not enabled. -/
theorem fieldRises (h : Follows false ⟨flagA, true, false⟩ 0 ⟨m.circuit, log⟩) :
    Follows true ⟨true, false, true⟩ 34
      ⟨((m.pass (.field true)).pass (.line false)).circuit,
        (m.pass (.field true)).watch (m.watch log (.field true)) (.line false)⟩ := by
  obtain ⟨total, samples, hc⟩ := h.waiting
  refine ⟨.due, total, samples, ?_, rfl, Nat.le_refl 34, nofun⟩
  show (m.circuit.driveField true).driveLine false = _
  rw [hc, Circuit.driveField]
  dsimp only
  rw [setCB1_waiting, if_pos rfl]
  show Circuit.driveLine ⟨_, board .due ⟨flagA, true, true⟩, _⟩ false = _
  rw [driveLine_board _ (Or.inl rfl), Edges.line]
  cases flagA <;> rfl

theorem lineRises {levelA levelB : Bool}
    (h : Follows true ⟨true, levelA, levelB⟩ limit ⟨m.circuit, log⟩) :
    Follows true ⟨true, true, levelB⟩ limit
      ⟨(m.pass (.line true)).circuit, m.watch log (.line true)⟩ := by
  obtain ⟨stage, total, samples, hc, ht, hl, hq⟩ := h
  have hc' : m.circuit = _ := hc
  have hw : m.watch log (.line true) = log := by
    show (Watched.driveLine ⟨m.circuit, log⟩ true).log = log
    unfold Watched.driveLine
    cases m.circuit.board.cartridge.isSome <;> rfl
  refine ⟨stage, total, samples, ?_, ht, hl, by rwa [hw]⟩
  show m.circuit.driveLine true = _
  rw [hc', driveLine_board _ (Or.inr rfl)]
  rfl

theorem otherLine (h : Follows false ⟨flagA, true, true⟩ 0 ⟨m.circuit, log⟩) :
    Follows false ⟨true, true, true⟩ 0
      ⟨(m.play (Machine.lineStretches false)).circuit,
        m.watchAll log (Machine.lineStretches false)⟩ := by
  have h1 := (h.time nofun (Duration.line - Machine.pulse)).line false
  have h2 := (h1.time nofun Machine.pulse).line true
  have he : ((⟨flagA, true, true⟩ : Edges).line false).line true = ⟨true, true, true⟩ := by
    cases flagA <;> rfl
  rw [he] at h2
  exact h2

theorem lastLine (h : Follows false ⟨flagA, true, true⟩ 0 ⟨m.circuit, log⟩) :
    Follows true ⟨true, true, true⟩ 34
      ⟨(m.play (Machine.lineStretches true)).circuit,
        m.watchAll log (Machine.lineStretches true)⟩ := by
  have h1 := h.fieldFalls.time nofun (Duration.line - Machine.pulse)
  have h2 := h1.fieldRises.time (fun _ => rfl) Machine.pulse
  exact h2.lineRises

/-- After the last line of a field the program is late. -/
theorem lines (n : Nat) (h : Follows false ⟨flagA, true, true⟩ 0 ⟨m.circuit, log⟩) :
    Follows true ⟨true, true, true⟩ 34
      ⟨(m.play (Machine.linesStretches (n + 1))).circuit,
        m.watchAll log (Machine.linesStretches (n + 1))⟩ := by
  induction n generalizing m log flagA with
  | zero => exact h.lastLine
  | succ n ih => exact ih h.otherLine

theorem frame (h : Follows false ⟨flagA, true, true⟩ 0 ⟨m.circuit, log⟩) :
    Follows true ⟨true, true, true⟩ 34
      ⟨(Call.frame.perform m).circuit, m.watchAll log Call.frame.stretches⟩ := by
  rw [Call.circuit_perform]
  exact h.lines 261

/-- The program waits again once it had the cycles: both ports drive the line, and nothing
requests it. -/
theorem rests {w : Watched} (h : Follows true ⟨true, true, true⟩ 34 w) :
    ∃ older, (w.runCycles 100).2.log = .sampled (w.runCycles 100).2.circuit :: older ∧
      Source.firstA.active (w.runCycles 100).2.circuit.board = true ∧ Quiet older ∧
      ((w.runCycles 100).2.circuit.cpu.lines.get .irq).pending = false := by
  obtain ⟨stage, total, samples, hc, ht, hl, hq⟩ := h.runCycles (fun _ => rfl) 100
  have ha : Source.firstA.active (board .resting ⟨true, true, true⟩) = true := by decide
  have hs : stage = .resting := by
    cases stage with
    | resting => rfl
    | start => exact absurd ht (by decide)
    | armed => exact absurd ht (by decide)
    | waiting => exact absurd ht (by decide)
    | due => exact absurd hl (by decide)
    | entered => exact absurd hl (by decide)
    | enabled => exact absurd hl (by decide)
  subst hs
  refine ⟨_, rfl, ?_, hq rfl, ?_⟩
  · rw [hc]
    exact ha
  · rw [hc]
    rfl

end Follows

/-! #### The machine it runs in -/

variable {τ : Type} [Duration τ]

theorem circuit_reset {m : Machine τ} (hm : m.circuit.board.memory.reset = memory)
    (hv : m.circuit.cpu.variant = .motorola) (hc : m.circuit.board.cartridge = none)
    (hp : m.circuit.board.panel = .released) :
    ∃ total samples, m.reset.circuit =
      ⟨Stage.start.cpu total, board .start ⟨false, true, true⟩, samples⟩ := by
  refine ⟨m.circuit.cpu.totalCycles, m.circuit.samples.clear, ?_⟩
  rw [Machine.circuit_reset_bare hm rom_memory hc hp, hv]
  rfl

/-- From the start on, through a field, until the program waits again. -/
theorem exists_history {m : Machine τ} (h : ∃ total samples, m.circuit =
      ⟨Stage.start.cpu total, board .start ⟨false, true, true⟩, samples⟩) :
    ∃ newer c older, m.history [] [.cycles 100, .frame, .cycles 100] =
        newer ++ .sampled c :: older ∧
      Source.firstA.active c.board = true ∧ Quiet older ∧
      (c.cpu.lines.get .irq).pending = false := by
  obtain ⟨total, samples, hc⟩ := h
  have h0 : Follows false ⟨false, true, true⟩ 27 ⟨m.circuit, []⟩ :=
    ⟨.start, total, samples, hc, rfl, Nat.le_refl 27, nofun⟩
  have h1 : Follows false ⟨false, true, true⟩ 0
      ⟨((Call.cycles 100).perform m).circuit, m.watchAll [] (Call.cycles 100).stretches⟩ :=
    h0.runCycles nofun 100
  obtain ⟨older, hl, hr⟩ := h1.frame.rests
  exact ⟨[], _, older, hl, hr⟩

theorem fault?_configuration : configuration.fault? = none := by
  have hr : configuration.rom = romOf code := rfl
  have ho : configuration.overclock = 1 := rfl
  rw [Configuration.fault?_eq_none_iff, hr, size_romOf, ho]
  exact ⟨rfl, Nat.le_refl 1, by decide⟩

end Takeover

/-- From reset on, at every sampling: a source that is active and was not at the last entry has its
request exactly if its line was not held since; and a latch of the GIME always has it. -/
theorem pending_iff {τ : Type} [Duration τ] {m : Machine τ} {calls : List (Call τ)}
    {newer older : List Notice} {c : Circuit} (source : Source)
    (hl : m.reset.history [] calls = newer ++ .sampled c :: older)
    (ha : source.active c.board = true)
    (hq : ∀ b, lastEntry source.line older = some b → source.active b = false) :
    ((c.cpu.lines.get source.line).pending = true ↔ held source.line older = false) ∧
      (source.isLatch = true → (c.cpu.lines.get source.line).pending = true) := by
  obtain ⟨hp, hh⟩ := (Accounted.reset m).history calls newer c older hl source ha
  constructor
  · rw [hp, Bool.not_eq_true']
  · intro hlatch
    rw [hp, hh hlatch hq]
    rfl

/-- The program that takes a line over meets the premises where it waits again. -/
theorem pending_iff_takeover :
    ∃ newer c older,
      (Machine.build Takeover.configuration .released : Machine Float).reset.history []
        [.cycles 100, .frame, .cycles 100] = newer ++ .sampled c :: older ∧
      Source.firstA.active c.board = true ∧
      (∀ b, lastEntry .irq older = some b → Source.firstA.active b = false) ∧
      ((c.cpu.lines.get .irq).pending = true ↔ held .irq older = false) ∧
      (Source.firstA.isLatch = true → (c.cpu.lines.get .irq).pending = true) := by
  obtain ⟨newer, c, older, hl, ha, hq, -⟩ := Takeover.exists_history
    (Takeover.circuit_reset (m := (Machine.build Takeover.configuration .released : Machine Float))
      rfl rfl rfl rfl)
  exact ⟨newer, c, older, hl, ha, hq, pending_iff .firstA hl ha hq⟩

/-- A machine that can be configured has a run in which a source is active at a sampling, was not at
the last entry, and has no request. -/
theorem pending_not_forall :
    ¬ ∀ (configuration : Configuration) (panel : Panel) (m : Machine Float),
      Machine.ofConfiguration configuration panel = .ok m →
      ∀ (calls : List (Call Float)) (newer older : List Notice) (c : Circuit) (source : Source),
        m.history [] calls = newer ++ .sampled c :: older → source.active c.board = true →
        (∀ b, lastEntry source.line older = some b → source.active b = false) →
        (c.cpu.lines.get source.line).pending = true := by
  intro h
  obtain ⟨newer, c, older, hl, ha, hq, hp⟩ := Takeover.exists_history
    (m := (Machine.build Takeover.configuration .released : Machine Float))
    (Takeover.circuit_reset rfl rfl rfl rfl)
  have hr := h _ _ _
    (Machine.ofConfiguration_of_fault?_eq_none Takeover.fault?_configuration .released)
    _ newer older c .firstA hl ha hq
  exact Bool.noConfusion (hp.symm.trans hr)

end ColorComputer
