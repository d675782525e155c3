import ColorComputer.Proofs.Looking

/-!
# The account of a line

Several sources share a line, and a request is latched by an event at a device or by a level that
rises. A source that becomes active while another one holds the line up is therefore noticed only
if an event comes after it. What was written down about a line since the last entry tells exactly
whether its request is pending.

* `Account` — the invariant: a request is pending unless the line was held since an entry.
* `sample` — taking over the levels keeps it, whatever the sources did.
* `runUntil` — a run keeps it, since each of its steps does.
* `of_active` — what it says about a source that is active.
-/

namespace ColorComputer

/-! ### Levels -/

namespace InterruptLines

theorem get_setLevel_of_ne (lines : InterruptLines) {line other : Interrupt} (active : Bool)
    (h : other ≠ line) : (lines.setLevel line active).get other = lines.get other := by
  unfold setLevel
  split
  · rfl
  · split
    · exact lines.get_set_of_ne _ h
    · exact lines.get_set_of_ne _ h

theorem get_setLevel_self (lines : InterruptLines) {line : Interrupt} (active : Bool)
    (h : line ≠ .nmi) : (lines.setLevel line active).get line =
      if active = (lines.get line).asserted then lines.get line else ⟨active, active⟩ := by
  unfold setLevel
  split
  · rfl
  · cases active with
    | true => exact lines.get_set_self line _
    | false =>
      show (lines.set line ⟨false, line = .nmi && (lines.get line).pending⟩).get line = _
      rw [lines.get_set_self, decide_eq_false h, Bool.false_and]

end InterruptLines

/-- Taking over the levels concerns each line by itself. -/
theorem Circuit.get_syncLines (c : Circuit) {line : Interrupt} (h : line ≠ .nmi) :
    c.syncLines.cpu.lines.get line =
      if c.board.level line = (c.cpu.lines.get line).asserted then c.cpu.lines.get line
      else ⟨c.board.level line, c.board.level line⟩ := by
  show ((c.cpu.lines.setLevel .irq c.board.irqLevel).setLevel .firq c.board.firqLevel).get line = _
  cases line with
  | nmi => exact absurd rfl h
  | firq =>
    rw [InterruptLines.get_setLevel_self _ _ h,
      InterruptLines.get_setLevel_of_ne _ _ (by decide)]
    rfl
  | irq =>
    rw [InterruptLines.get_setLevel_of_ne _ _ (by decide),
      InterruptLines.get_setLevel_self _ _ h]
    rfl

/-! ### The account of a line -/

/-- What was written down about a line tells the state of the line. A request is pending while the
line is up, unless an entry took it and the line was held since. A latch of the GIME that is active
in spite of that was active at the entry. -/
structure Account (line : Interrupt) (lines : InterruptLines) (board : Board)
    (log : List Notice) : Prop where
  pending : (lines.get line).pending = ((lines.get line).asserted && !held line log)
  asserted : held line log = true → (lines.get line).asserted = true
  latch : held line log = true → board.gime.drives line = true →
    (lastEntry line log).any (·.gime.drives line) = true

namespace Account

variable {line other : Interrupt} {lines : InterruptLines} {board : Board} {log : List Notice}

theorem idle (line : Interrupt) (board : Board) : Account line .idle board [] where
  pending := by cases line <;> rfl
  asserted h := Bool.noConfusion h
  latch h := Bool.noConfusion h

/-- The board may change as long as no latch becomes active unnoticed. -/
theorem setBoard (h : Account line lines board log) {board' : Board}
    (hb : held line log = true → board'.gime.drives line = true →
      board.gime.drives line = true) : Account line lines board' log :=
  ⟨h.pending, h.asserted, fun hh hd => h.latch hh (hb hh hd)⟩

/-- An entry takes the request off its own line. -/
theorem enter (h : Account line lines board log) (hp : (lines.get other).pending = true) :
    Account line (lines.consume other) board (.entered other board :: log) := by
  by_cases he : other = line
  · subst he
    have hg : (lines.consume other).get other = ⟨(lines.get other).asserted, false⟩ :=
      lines.get_set_self other _
    have hh : held other (.entered other board :: log) = true := by simp [held]
    have ha : (lines.get other).asserted = true := by
      rw [h.pending, Bool.and_eq_true] at hp
      exact hp.1
    refine ⟨by rw [hg, hh, Bool.not_true, Bool.and_false], fun _ => by rw [hg, ha], ?_⟩
    intro _ hd
    simp [lastEntry, hd]
  · have hg : (lines.consume other).get line = lines.get line :=
      lines.get_set_of_ne _ (Ne.symm he)
    have hh : held line (.entered other board :: log) = held line log := by simp [held, he]
    have hl : lastEntry line (.entered other board :: log) = lastEntry line log := by
      simp [lastEntry, he]
    refine ⟨?_, ?_, ?_⟩
    · rw [hg, hh, h.pending]
    · rw [hg, hh]
      exact h.asserted
    · rw [hh, hl]
      exact h.latch

/-- An event latches a request, whatever the level was. -/
theorem request (h : Account line lines board log) (other : Interrupt) :
    Account line (lines.assert other) board (.requested other :: log) := by
  by_cases he : other = line
  · subst he
    have hg : (lines.assert other).get other = ⟨true, true⟩ := lines.get_set_self other _
    have hh : held other (.requested other :: log) = false := by simp [held]
    refine ⟨by rw [hg, hh]; rfl, fun _ => by rw [hg], fun hc => ?_⟩
    rw [hh] at hc
    exact Bool.noConfusion hc
  · have hg : (lines.assert other).get line = lines.get line := lines.get_set_of_ne _ (Ne.symm he)
    have hh : held line (.requested other :: log) = held line log := by simp [held, he]
    refine ⟨?_, ?_, ?_⟩
    · rw [hg, hh, h.pending]
    · rw [hg, hh]
      exact h.asserted
    · rw [hh]
      exact h.latch

/-- Taking over the level: a line that rises gets a request, and one that falls loses it. -/
theorem sample {c : Circuit} (h : Account line c.cpu.lines c.board log) (hn : line ≠ .nmi) :
    Account line c.syncLines.cpu.lines c.board (.sampled c.syncLines :: log) := by
  have hh : held line (.sampled c.syncLines :: log) = (c.board.level line && held line log) := rfl
  have hp := h.pending
  have ha := h.asserted
  refine ⟨?_, ?_, fun hc => h.latch (Bool.and_eq_true _ _ ▸ (hh ▸ hc)).2⟩
  · rw [c.get_syncLines hn, hh]
    split
    · rename_i he
      rw [hp, he]
      cases (c.cpu.lines.get line).asserted <;> rfl
    · rename_i he
      cases hl : c.board.level line <;> cases hk : held line log <;>
        cases hs : (c.cpu.lines.get line).asserted <;> simp_all
  · rw [c.get_syncLines hn, hh]
    intro hc
    rw [Bool.and_eq_true] at hc
    rw [if_pos (by rw [hc.1, ha hc.2])]
    exact ha hc.2

/-- Where the levels were just taken over, a source that is active has its request unless the line
was held; and a latch that was not active at the last entry was not held. -/
theorem of_active {c : Circuit} {source : Source}
    (h : Account source.line c.cpu.lines c.board log) (ha : source.active c.board = true) :
    (c.syncLines.cpu.lines.get source.line).pending = !held source.line log ∧
      (source.isLatch = true → (∀ b, lastEntry source.line log = some b → source.active b = false) →
        held source.line log = false) := by
  have hs := (h.sample source.line_ne_nmi).pending
  have hl := Source.level_of_active ha
  constructor
  · have hg : (c.syncLines.cpu.lines.get source.line).asserted = true := by
      rw [c.get_syncLines source.line_ne_nmi, hl]
      split
      · rename_i he
        exact he.symm
      · rfl
    have hh : held source.line (.sampled c.syncLines :: log) = held source.line log := by
      show (c.board.level source.line && _) = _
      rw [hl, Bool.true_and]
    rw [hs, hg, hh, Bool.true_and]
  · intro hlatch hq
    cases hh : held source.line log with
    | false => rfl
    | true =>
      have hd := h.latch hh (by rw [← Source.active_of_isLatch hlatch, ha])
      cases hb : lastEntry source.line log with
      | none =>
        rw [hb, Option.any_none] at hd
        exact hd.symm
      | some b =>
        rw [hb, Option.any_some, ← Source.active_of_isLatch hlatch, hq b hb] at hd
        exact hd.symm

end Account

/-! ### Runs of the processor -/

theorem Gime.drives_without {g : Gime} {line : Interrupt} {irq firq : Bool}
    (h : (g.without irq firq).drives line = true) : g.drives line = true := by
  cases line with
  | nmi => exact h
  | irq => exact (Bool.and_eq_true_iff.1 ((g.irqActive_without irq firq).symm.trans h)).1
  | firq => exact (Bool.and_eq_true_iff.1 ((g.firqActive_without irq firq).symm.trans h)).1

theorem Gime.drives_write (g : Gime) (line : Interrupt) (a : Word) (v : Byte) :
    (g.write a v).drives line = g.drives line := by
  unfold write
  repeat' split
  all_goals rfl

theorem Board.drives_write (b : Board) (line : Interrupt) (a : Word) (v : Byte) :
    (Bus.write b a v).gime.drives line = b.gime.drives line := by
  refine b.write_cases a v ?_ ?_ ?_ ?_ ?gime ?_ ?_ ?_
  case gime => exact fun _ => b.gime.drives_write line a v
  all_goals intros; rfl

/-- Software can clear a latch of the GIME and never set one. -/
theorem drives_mono (line : Interrupt) (was : Bool) :
    BusInvariant fun b : Board => b.gime.drives line = true → was = true where
  read := by
    intro b h a hd
    rw [Board.read_eq_without] at hd
    exact h (Gime.drives_without hd)
  write := by
    intro b h a v hd
    rw [b.drives_write] at hd
    exact h hd

/-- A step sets no latch of the GIME. -/
theorem Cpu.drives_step {cpu : Cpu} {board : Board} {line : Interrupt}
    (h : (cpu.step board).bus.gime.drives line = true) : board.gime.drives line = true :=
  have hb : board.gime.drives line = true → board.gime.drives line = true := id
  Cpu.step_kept (drives_mono line (board.gime.drives line)) cpu hb h

/-- A line is served only while its request is pending. -/
theorem Cpu.pending_of_enter {cpu : Cpu} {line : Interrupt} (h : cpu.move = .enter line) :
    (cpu.lines.get line).pending = true := by
  rw [Cpu.move_eq_enter_iff, InterruptLines.highest_eq_some_iff] at h
  have hr := h.1
  rw [InterruptLines.ready, Bool.and_eq_true] at hr
  exact hr.1

theorem Account.step {line : Interrupt} {cpu : Cpu} {board : Board} {log : List Notice}
    (h : Account line cpu.lines board log) :
    Account line (cpu.step board).cpu.lines (cpu.step board).bus
      (entered (cpu.move.entry?.toList.map fun line => (line, board)) ++ log) := by
  cases hm : cpu.move with
  | enter other =>
    rw [Cpu.lines_step_enter hm]
    exact (h.enter (Cpu.pending_of_enter hm)).setBoard fun _ => Cpu.drives_step
  | execute =>
    rw [Cpu.lines_step_execute hm]
    exact h.setBoard fun _ => Cpu.drives_step
  | idle =>
    rw [Cpu.step_idle hm]
    exact h

theorem Account.runUntil {line : Interrupt} (budget : Nat) (core : Core Board) :
    ∀ log, Account line core.cpu.lines core.bus log →
      Account line (Cpu.runUntil budget core).cpu.lines (Cpu.runUntil budget core).bus
        (entered (Cpu.entriesUntil budget core) ++ log) := by
  refine Cpu.runUntil_induction budget ?_ ?_ ?_ core
  · intro core hu log h
    rwa [Cpu.runUntil_of_le hu, Cpu.entriesUntil_of_le hu]
  · intro core hu hm log h
    rw [Cpu.runUntil_idle hu hm, Cpu.entriesUntil_idle hm]
    exact h
  · intro core hu hm ih log h
    rw [Cpu.runUntil_advance hu hm, Cpu.entriesUntil_advance hu hm, entered, List.map_append,
      List.append_assoc]
    exact ih _ h.step

/-! ### Devices -/

theorem held_requests {line : Interrupt} {raised : Raised} {log : List Notice}
    (h : held line (requests raised ++ log) = true) :
    (line = .irq → raised.irq = false) ∧ (line = .firq → raised.firq = false) := by
  obtain ⟨irq, firq⟩ := raised
  constructor
  · rintro rfl
    cases irq <;> cases firq <;> first | rfl | simp [requests, held] at h
  · rintro rfl
    cases irq <;> cases firq <;> first | rfl | simp [requests, held] at h

theorem Account.requests {line : Interrupt} {cpu : Cpu} {board : Board} {log : List Notice}
    (h : Account line cpu.lines board log) (raised : Raised) :
    Account line (Circuit.assertRaised cpu raised).lines board (requests raised ++ log) := by
  obtain ⟨irq, firq⟩ := raised
  cases irq <;> cases firq
  · exact h
  · exact h.request .firq
  · exact h.request .irq
  · exact (h.request .irq).request .firq

/-- A source that is not enabled for a line leaves its latch as it was. -/
theorem Gime.drives_raise {g : Gime} {source : Byte} {line : Interrupt}
    (hi : line = .irq → (g.raise source).1.irq = false)
    (hf : line = .firq → (g.raise source).1.firq = false) :
    (g.raise source).2.drives line = g.drives line := by
  cases line with
  | nmi => rfl
  | firq =>
    have hr : g.raisesFirq source = false := hf rfl
    show ((g.raise source).2.firqLatched != 0) = _
    rw [Gime.firqLatched_raise, hr]
    rfl
  | irq =>
    have hr : g.raisesIrq source = false := hi rfl
    show ((g.raise source).2.irqLatched != 0) = _
    rw [Gime.irqLatched_raise, hr]
    rfl

end ColorComputer
