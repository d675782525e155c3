import ColorComputer.Proofs.Account
import ColorComputer.Proofs.Reset

/-!
# The period of the timer

The period of the timer is known in two places: the chip has it in its registers, and the scheduler
counts with the period that it was told last. Software may write the registers at any moment of a
piece, and the scheduler is told at the end of the piece, if a flag says that there is something to
tell. A register that is written without need sets the flag or does not; what matters is that the
flag is set wherever the two differ.

* `Gime.Told`, `told_write` — no write makes the two differ without setting the flag.
* `heard_piece` — at the end of a piece they agree.
* `period_agrees` — hence they agree after every call that runs a piece.
-/

namespace ColorComputer

/-! ### The chip -/

/-- What the registers ask of the timer. -/
structure TimerSetting where
  reload : BitVec 12
  /-- The fast clock is chosen. -/
  fast : Bool
  deriving DecidableEq

namespace TimerSetting

/-- The setting after reset. -/
def stopped : TimerSetting := ⟨0, false⟩

variable {τ : Type} [Duration τ]

/-- The time between two expiries. -/
def period (s : TimerSetting) : τ :=
  Duration.ofNat (s.reload.toNat + 1) *
    if s.fast then Duration.second / Duration.crystalHertz else Duration.line

/-- The time between two expiries, if the timer is not set to zero. -/
def period? (s : TimerSetting) : Option τ := if s.reload = 0 then none else some s.period

variable {s : TimerSetting}

theorem period?_of_zero (h : s.reload = 0) : (s.period? : Option τ) = none := if_pos h

theorem period?_of_ne_zero (h : s.reload ≠ 0) : (s.period? : Option τ) = some s.period := if_neg h

end TimerSetting

namespace Gime

/-- What the registers ask of the timer. -/
def setting (g : Gime) : TimerSetting := ⟨g.timer, fastTimer g.init1⟩

/-- What the registers ask of the timer, and the flag. -/
def timing (g : Gime) : TimerSetting × Bool := (g.setting, g.timerChanged)

section

variable {τ : Type} [Duration τ]

/-- A period is the one that the registers ask for, unless a change is still to be told. -/
def Told (p : Option τ) (g : Gime) : Prop := g.timerChanged = true ∨ p = g.setting.period?

/-- A period is the one that the registers ask for, and there is nothing to be told. -/
def Heard (p : Option τ) (g : Gime) : Prop := g.timerChanged = false ∧ p = g.setting.period?

variable {p : Option τ} {g g' : Gime}

theorem setting_of_timing (h : g.timing = g'.timing) : g.setting = g'.setting :=
  congrArg Prod.fst h

theorem Told.congr (h : Told p g) (ht : g.timing = g'.timing) : Told p g' := by
  have hc : g.timerChanged = g'.timerChanged := congrArg Prod.snd ht
  unfold Told at h ⊢
  rwa [← hc, ← setting_of_timing ht]

theorem Heard.congr (h : Heard p g) (ht : g.timing = g'.timing) : Heard p g' := by
  have hc : g.timerChanged = g'.timerChanged := congrArg Prod.snd ht
  unfold Heard at h ⊢
  rwa [← hc, ← setting_of_timing ht]

theorem Heard.told (h : Heard p g) : Told p g := Or.inr h.2

/-! ### What software does -/

/-- A choice of the other clock is told if the timer is set. -/
theorem told_writeInit1 (h : Told p g) (v : Byte) : Told p (g.writeInit1 v) := by
  rcases h with h | h
  · left
    show (g.timerChanged || _) = true
    rw [h, Bool.true_or]
  · by_cases ht : g.timer = 0
    · right
      have ht' : (g.writeInit1 v).setting.reload = 0 := ht
      rw [h, TimerSetting.period?_of_zero ht, TimerSetting.period?_of_zero ht']
    · by_cases hf : fastTimer g.init1 = fastTimer v
      · right
        rw [h]
        exact congrArg (fun fast => TimerSetting.period? ⟨g.timer, fast⟩) hf
      · left
        show (g.timerChanged || (fastTimer g.init1 != fastTimer v && g.timer != 0)) = true
        rw [bne_iff_ne.2 hf, bne_iff_ne.2 ht, Bool.and_self, Bool.or_true]

/-- No write makes the period of the chip another one without setting the flag. -/
theorem told_write (h : Told p g) (a : Word) (v : Byte) : Told p (g.write a v) := by
  unfold write
  split
  · exact h.congr rfl
  · split
    · exact told_writeInit1 h v
    · repeat' split
      all_goals first | exact h.congr rfl | exact Or.inl rfl

/-- Once a change was taken and made, there is nothing to be told. -/
theorem heard_take {s : Scheduler τ} (h : Told s.timerPeriod g) :
    Heard (s.updateTimer (g.takeTimerUpdate (τ := τ)).1).timerPeriod
      (g.takeTimerUpdate (τ := τ)).2 := by
  unfold takeTimerUpdate
  split
  · refine ⟨rfl, ?_⟩
    show (s.updateTimer (some (if g.timer = 0 then .stop else .period g.timerPeriod))).timerPeriod =
      if g.timer = 0 then none else some g.timerPeriod
    split <;> rfl
  · rename_i hc
    exact ⟨Bool.not_eq_true _ ▸ hc, h.resolve_left hc⟩

end

end Gime

section

variable {τ : Type} [Duration τ] {p : Option τ}

theorem told_bus (p : Option τ) : BusInvariant fun b : Board => Gime.Told p b.gime where
  read := by
    intro b h a
    rw [Board.read_eq_without]
    exact h.congr rfl
  write := by
    intro b h a v
    refine b.write_cases a v ?_ ?_ ?_ ?_ ?gime ?_ ?_ ?_
    case gime => exact fun _ => Gime.told_write h a v
    all_goals intros; exact h

/-! ### The circuit and the scheduler -/

namespace Circuit

theorem told_runCycles {c : Circuit} (h : Gime.Told p c.board.gime) (budget : Nat) :
    Gime.Told p (c.runCycles budget).2.board.gime :=
  Cpu.runUntil_kept (told_bus p) budget ⟨c.cpu, c.board, 0⟩ h

theorem timing_driveLine (c : Circuit) (level : Bool) :
    (c.driveLine level).board.gime.timing = c.board.gime.timing := by
  unfold driveLine
  cases c.board.cartridge.isSome <;> cases level <;> rfl

theorem timing_driveField (c : Circuit) (level : Bool) :
    (c.driveField level).board.gime.timing = c.board.gime.timing := by
  cases level <;> rfl

end Circuit

/-- Up to its ticks, a piece makes no difference that is not to be told. -/
theorem told_settled {s : Scheduler τ} {c : Circuit} (h : Gime.Told s.timerPeriod c.board.gime) :
    Gime.Told (s.settled (Circuit.host τ) c).1.timerPeriod
      (s.settled (Circuit.host τ) c).2.board.gime := by
  have hs : (s.settled (Circuit.host τ) c).1.timerPeriod = s.timerPeriod :=
    s.period?_settled (Circuit.host τ) c .timer
  rw [hs]
  exact s.settled_kept (Circuit.host τ) c (P := fun c => Gime.Told s.timerPeriod c.board.gime)
    (fun _ h budget => Circuit.told_runCycles h budget) (fun _ h => h) (fun _ h => h.congr rfl) h

/-- A piece ends with the scheduler told. -/
theorem heard_piece {s : Scheduler τ} {c : Circuit} (h : Gime.Told s.timerPeriod c.board.gime) :
    Gime.Heard (s.piece (Circuit.host τ) c).scheduler.timerPeriod
      (s.piece (Circuit.host τ) c).host.board.gime :=
  Gime.heard_take (told_settled h)

theorem heard_advance (slice : Slice Circuit τ)
    (h : Gime.Told slice.scheduler.timerPeriod slice.host.board.gime) :
    Gime.Heard (Scheduler.advance (Circuit.host τ) slice).scheduler.timerPeriod
      (Scheduler.advance (Circuit.host τ) slice).host.board.gime :=
  heard_piece h

/-! ### The machine -/

namespace Machine

variable {m : Machine τ}

/-- The scheduler counts with the period that the chip asks for: none if the timer is set to zero,
and else the period of the reload value and the clock that are chosen. -/
def PeriodAgrees (m : Machine τ) : Prop :=
  m.scheduler.timerPeriod =
    if m.circuit.board.gime.timer = 0 then none else some m.circuit.board.gime.timerPeriod

/-- The scheduler counts with this period, unless a change is still to be told. -/
def Told (m : Machine τ) : Prop := Gime.Told m.scheduler.timerPeriod m.circuit.board.gime

/-- The scheduler counts with this period, and there is nothing to be told. -/
def Heard (m : Machine τ) : Prop := Gime.Heard m.scheduler.timerPeriod m.circuit.board.gime

/-- So much time, with what is pending, is enough for a piece. -/
def Suffices (m : Machine τ) (time : τ) : Prop :=
  ({ m.scheduler with pending := m.scheduler.pending + time } : Scheduler τ).due = true

/-- Time passes in one of these stretches, enough for a piece. -/
def RunsPiece (m : Machine τ) : List (Stretch τ) → Prop
  | [] => False
  | stretch :: rest =>
    (∃ time, stretch = .time time ∧ m.Suffices time) ∨ (m.pass stretch).RunsPiece rest

theorem Heard.agrees (h : m.Heard) : m.PeriodAgrees := h.2

theorem heard_reset (m : Machine τ) : m.reset.Heard := ⟨rfl, rfl⟩

/-- Where time suffices for a piece, the scheduler is told. -/
theorem Told.heard_time (h : m.Told) {time : τ} (hd : m.Suffices time) :
    (m.pass (.time time)).Heard :=
  Scheduler.run_kept_of_due (I := fun slice : Slice Circuit τ =>
      Gime.Heard slice.scheduler.timerPeriod slice.host.board.gime)
    (fun slice h => heard_advance slice h.told) m.circuit time hd (heard_piece h)

theorem Heard.pass_time (h : m.Heard) (time : τ) : (m.pass (.time time)).Heard :=
  Scheduler.run_kept (I := fun slice : Slice Circuit τ =>
      Gime.Heard slice.scheduler.timerPeriod slice.host.board.gime)
    (fun slice h => heard_advance slice h.told) m.circuit time h

theorem Told.pass (h : m.Told) (stretch : Stretch τ) : (m.pass stretch).Told := by
  cases stretch with
  | field level => exact Gime.Told.congr h (m.circuit.timing_driveField level).symm
  | line level => exact Gime.Told.congr h (m.circuit.timing_driveLine level).symm
  | time time =>
    exact Scheduler.run_kept (I := fun slice : Slice Circuit τ =>
        Gime.Told slice.scheduler.timerPeriod slice.host.board.gime)
      (fun slice h => (heard_advance slice h).told) m.circuit time h
  | cycles budget => exact Circuit.told_runCycles (c := m.circuit) h budget
  | port cartridge => exact h
  | touch f => exact h

/-- Only cycles that are run while no time passes leave something to be told. -/
theorem Heard.pass (h : m.Heard) {stretch : Stretch τ} (hc : ∀ budget, stretch ≠ .cycles budget) :
    (m.pass stretch).Heard := by
  cases stretch with
  | field level => exact Gime.Heard.congr h (m.circuit.timing_driveField level).symm
  | line level => exact Gime.Heard.congr h (m.circuit.timing_driveLine level).symm
  | time time => exact h.pass_time time
  | cycles budget => exact absurd rfl (hc budget)
  | port cartridge => exact h
  | touch f => exact h

theorem Told.play (h : m.Told) (stretches : List (Stretch τ)) : (m.play stretches).Told := by
  induction stretches generalizing m with
  | nil => exact h
  | cons stretch rest ih => exact ih (h.pass stretch)

theorem Heard.play (h : m.Heard) {stretches : List (Stretch τ)}
    (hc : ∀ stretch ∈ stretches, ∀ budget, stretch ≠ .cycles budget) :
    (m.play stretches).Heard := by
  induction stretches generalizing m with
  | nil => exact h
  | cons stretch rest ih =>
    exact ih (h.pass (hc stretch List.mem_cons_self)) fun s hs => hc s (List.mem_cons_of_mem _ hs)

/-- Where one of the stretches suffices for a piece, the scheduler is told in the end. -/
theorem Told.heard_play (h : m.Told) {stretches : List (Stretch τ)}
    (hc : ∀ stretch ∈ stretches, ∀ budget, stretch ≠ .cycles budget)
    (hr : m.RunsPiece stretches) : (m.play stretches).Heard := by
  induction stretches generalizing m with
  | nil => exact hr.elim
  | cons stretch rest ih =>
    have hrest := fun s hs => hc s (List.mem_cons_of_mem stretch hs)
    rcases hr with ⟨time, rfl, hd⟩ | hr
    · exact (h.heard_time hd).play hrest
    · exact ih (h.pass stretch) hrest hr

/-! ### Calls -/

theorem cycles_not_mem_lines (count : Nat) :
    ∀ stretch ∈ linesStretches (τ := τ) count, ∀ budget, stretch ≠ .cycles budget := by
  induction count with
  | zero => exact fun _ h => absurd h List.not_mem_nil
  | succ left ih =>
    intro stretch h budget
    rcases List.mem_append.1 h with h | h
    · rintro rfl
      cases hl : decide (left = 0) <;> rw [hl] at h <;> simp [lineStretches] at h
    · exact ih stretch h budget

theorem Told.runFrame (h : m.Told) : m.runFrame.2.Told := by
  unfold Told
  rw [circuit_runFrame, scheduler_runFrame]
  exact h.play _

theorem Told.perform (h : m.Told) (operation : Operation τ) : (operation.perform m).Told := by
  cases operation with
  | control control =>
    cases control with
    | call call =>
      cases call with
      | slice time => exact h.pass (.time time)
      | frame => exact h.runFrame
      | cycles budget => exact h.pass (.cycles budget)
      | insert cartridge => exact h
      | eject => exact h
      | touch f => exact h
    | reset => exact (heard_reset m).told
    | fit variant => exact h
  | read address => exact (told_bus _).read h address
  | write address value => exact (told_bus _).write h address value
  | drain buffer => exact h
  | assert line => exact h
  | deassert line => exact h
  | load regs => exact h

theorem Told.after (h : m.Told) (operations : List (Operation τ)) : (m.after operations).Told := by
  induction operations generalizing m with
  | nil => exact h
  | cons operation rest ih => exact ih (h.perform operation)

/-- A call that runs a piece ends with the scheduler told. -/
theorem Told.heard_call (h : m.Told) {call : Call τ} (hr : m.RunsPiece call.stretches) :
    (call.perform m).Heard := by
  cases call with
  | slice time =>
    have hc : ∀ stretch ∈ [Stretch.time time], ∀ budget, stretch ≠ .cycles budget := by
      rintro stretch hs budget rfl
      simp at hs
    exact h.heard_play hc hr
  | frame =>
    have hp := h.heard_play (cycles_not_mem_lines linesPerField) hr
    unfold Heard Call.perform
    rw [circuit_runFrame, scheduler_runFrame]
    exact hp
  | cycles budget | insert cartridge | eject | touch f =>
    rcases hr with ⟨time, ht, _⟩ | hr
    · cases ht
    · exact hr.elim

end Machine

/-- Whatever was done to a machine since it was reset, and whatever its software wrote: the
scheduler counts with the period that the chip asks for once the machine is reset again, and after
every call in which time passes, enough for a piece. -/
theorem period_agrees (m : Machine τ) (history : List (Operation τ)) :
    (m.reset.after history).reset.PeriodAgrees ∧
    ∀ call : Call τ, (m.reset.after history).RunsPiece call.stretches →
      (call.perform (m.reset.after history)).PeriodAgrees := by
  refine ⟨(Machine.heard_reset _).agrees, fun call hr => ?_⟩
  have h : (m.reset.after history).Told := Machine.Told.after (Machine.heard_reset m).told history
  exact (h.heard_call hr).agrees

end

end ColorComputer
