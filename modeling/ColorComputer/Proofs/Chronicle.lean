import Mathlib.Algebra.Order.BigOperators.Group.List
import ColorComputer.Proofs.Punctuality
import ColorComputer.Proofs.Service
import ColorComputer.Proofs.Timer

/-!
# The chronicle of the timer

Software sets the timer at any moment of a piece, and the scheduler looks at the setting once, at
the end of the piece. Both are written down beside the run, the latest first: the setting at every
step of the processor, the time of each piece, the expiries, and what the scheduler found.

* `Chronicle.left` — the chronicle tells what is left of the countdown, by what the scheduler found.
* `Tracked` — the scheduler and the chip are as the chronicle says.
* `Tracked.piece`, `Tracked.chronicle` — a piece keeps that, and so does all that is done to a
  machine.
-/

namespace ColorComputer

/-! ### Notes -/

/-- What is written down about the timer. -/
inductive TimerNote
  /-- The registers had this setting when the processor made a step, or when its run ended. -/
  | had (setting : TimerSetting)
  /-- A piece ran for so long. -/
  | passed (time : Rat)
  | expired
  /-- The scheduler looked at the registers, and they had this setting. -/
  | looked (setting : TimerSetting)
  /-- Everything was reset. -/
  | reset

namespace TimerNote

/-- The setting as software wrote it. -/
def written? : TimerNote → Option TimerSetting
  | had setting => some setting
  | reset => some .stopped
  | _ => none

/-- The setting as the scheduler knows it. -/
def found? : TimerNote → Option TimerSetting
  | looked setting => some setting
  | reset => some .stopped
  | _ => none

/-- The time that was run. -/
def time : TimerNote → Rat
  | passed time => time
  | _ => 0

end TimerNote

namespace Chronicle

/-- The setting that was shown last. -/
def shown (view : TimerNote → Option TimerSetting) : List TimerNote → TimerSetting
  | [] => .stopped
  | note :: older => (view note).getD (shown view older)

/-- The time that was run. The first of the notes may come from the middle of a piece, so it is at
most so long ago. -/
def elapsed (log : List TimerNote) : Rat := (log.map TimerNote.time).sum

/-- The time of the pieces that were run since the scheduler looked first. The first of the notes is
at least so long ago. -/
def elapsedWhole : List TimerNote → Rat
  | [] => 0
  | note :: older =>
    if older.any (·.found?.isSome) then note.time + elapsedWhole older else 0

/-- What is left of the countdown. It begins where the scheduler finds a setting after zero, and at
each expiry, and ends where the scheduler finds zero. -/
def left : List TimerNote → Option Rat
  | [] => none
  | .had _ :: older => left older
  | .passed time :: older => (left older).map (· - time)
  | .expired :: older => (shown TimerNote.found? older).period?
  | .looked setting :: older =>
    if setting.reload = 0 then none else some ((left older).getD setting.period)
  | .reset :: _ => none

/-- No piece ran backwards, every expiry comes when nothing is left, and the scheduler finds what
was written last. -/
def Sound : List TimerNote → Prop
  | [] => True
  | .passed time :: older => 0 ≤ time ∧ Sound older
  | .expired :: older => left older = some 0 ∧ Sound older
  | .looked setting :: older => setting = shown TimerNote.written? older ∧ Sound older
  | _ :: older => Sound older

variable {log newer older since first : List TimerNote}

theorem Sound.of_cons {note : TimerNote} (h : Sound (note :: older)) : Sound older := by
  cases note with
  | passed | expired | looked => exact h.2
  | had | reset => exact h

theorem Sound.of_append (h : Sound (newer ++ older)) : Sound older := by
  induction newer with
  | nil => exact h
  | cons note newer ih => exact ih h.of_cons

/-- A countdown runs exactly if the scheduler knows a setting that is not zero. -/
theorem isSome_left (log : List TimerNote) :
    (left log).isSome = true ↔ (shown TimerNote.found? log).reload ≠ 0 := by
  induction log with
  | nil => exact iff_of_false Bool.false_ne_true fun h => h rfl
  | cons note older ih =>
    cases note with
    | had setting => exact ih
    | passed time =>
      rw [left, Option.isSome_map]
      exact ih
    | expired =>
      show (TimerSetting.period? (τ := Rat) _).isSome = true ↔
        (shown TimerNote.found? older).reload ≠ 0
      unfold TimerSetting.period?
      split <;> simp_all
    | looked setting =>
      show (if setting.reload = 0 then none else some _).isSome = true ↔ setting.reload ≠ 0
      split <;> simp_all
    | reset => exact iff_of_false Bool.false_ne_true fun h => h rfl

/-- While a countdown goes on, the time that is run is taken off it. -/
theorem left_append {q : Rat} (hl : left older = some q)
    (hs : ∀ n ∈ since, n ≠ .expired ∧ ∀ setting, n.found? = some setting → setting.reload ≠ 0) :
    left (since ++ older) = some (q - elapsed since) := by
  induction since with
  | nil => simpa [elapsed] using hl
  | cons note since ih =>
    obtain ⟨⟨he, hf⟩, hs⟩ := List.forall_mem_cons.1 hs
    have ih := ih hs
    have ht : elapsed (note :: since) = note.time + elapsed since := rfl
    rw [List.cons_append, ht]
    cases note with
    | had setting =>
      rw [left, ih]
      exact congrArg (fun t => some (q - t)) (zero_add _).symm
    | passed time =>
      rw [left, ih]
      show some (q - elapsed since - time) = some (q - (time + elapsed since))
      rw [sub_sub, add_comm]
    | expired => exact absurd rfl he
    | looked setting =>
      rw [left, ih, if_neg (hf setting rfl)]
      exact congrArg (fun t => some (q - t)) (zero_add _).symm
    | reset => exact absurd rfl (hf .stopped rfl)

/-- What the scheduler finds after zero counts a whole period, and no more. -/
theorem Sound.elapsed_eq {setting : TimerSetting}
    (h : Sound (newer ++ .expired :: (since ++ .looked setting :: older)))
    (hs : setting.reload ≠ 0) (hz : (shown TimerNote.found? older).reload = 0)
    (hk : ∀ n ∈ since, n ≠ .expired ∧ ∀ s, n.found? = some s → s.reload ≠ 0) :
    elapsed since = setting.period := by
  have hl : left older = none := by
    rw [← Option.not_isSome_iff_eq_none, isSome_left, not_not]
    exact hz
  have hb : left (.looked setting :: older) = some setting.period := by
    rw [left, if_neg hs, hl]
    rfl
  have hd := h.of_append.1
  rw [left_append hb hk] at hd
  exact (sub_eq_zero.1 (Option.some.inj hd)).symm

/-! ### What is asked of a timer -/

/-- The timer never expires while its register is zero, on this condition. -/
def Stops (condition : List TimerNote → Prop) (log : List TimerNote) : Prop :=
  ∀ newer older, log = newer ++ .expired :: older → condition older →
    (shown TimerNote.written? older).reload ≠ 0

/-- Where software starts the timer after a stop, the next expiry comes no earlier than a whole
period later, by the setting that counts and as the time is measured, if the timer is not stopped
again before, and on this condition. -/
def Restarts (measure : List TimerNote → Rat)
    (counted : TimerSetting → List TimerNote → TimerSetting) (condition : List TimerNote → Prop)
    (log : List TimerNote) : Prop :=
  ∀ newer since setting older, log = newer ++ .expired :: (since ++ .had setting :: older) →
    setting.reload ≠ 0 → (shown TimerNote.written? older).reload = 0 →
    (∀ n ∈ since, n ≠ .expired ∧ ∀ s, n.written? = some s → s.reload ≠ 0) →
    condition older → (counted setting since).period ≤ measure since

/-- If software stopped the timer, the scheduler found it stopped. -/
def FoundStop (log : List TimerNote) : Prop :=
  (shown TimerNote.written? log).reload = 0 → (shown TimerNote.found? log).reload = 0

/-- The setting that the scheduler found first, or this one if it found none. -/
def foundFirst (setting : TimerSetting) (since : List TimerNote) : TimerSetting :=
  (since.filterMap TimerNote.found?).getLast?.getD setting

theorem Sound.stops (h : Sound log) : Stops FoundStop log := by
  rintro newer older rfl hf hz
  have hs := (isSome_left older).1 (by rw [h.of_append.1]; rfl)
  exact hs (hf hz)

theorem shown_append {view : TimerNote → Option TimerSetting} (hs : ∀ n ∈ since, view n = none) :
    shown view (since ++ older) = shown view older := by
  induction since with
  | nil => rfl
  | cons note since ih =>
    obtain ⟨hn, hs⟩ := List.forall_mem_cons.1 hs
    show (view note).getD _ = _
    rw [hn]
    exact ih hs

/-- Where nothing that is shown is zero, nothing else is shown last. -/
theorem shown_append_ne_zero {view : TimerNote → Option TimerSetting}
    (hs : ∀ n ∈ since, ∀ s, view n = some s → s.reload ≠ 0) (ho : (shown view older).reload ≠ 0) :
    (shown view (since ++ older)).reload ≠ 0 := by
  induction since with
  | nil => exact ho
  | cons note since ih =>
    obtain ⟨hn, hs⟩ := List.forall_mem_cons.1 hs
    show ((view note).getD _).reload ≠ 0
    cases hv : view note with
    | none => exact ih hs
    | some s => exact hn s hv

/-- While nothing that is written is zero, nothing that is found is. -/
theorem Sound.found_ne_zero (h : Sound (since ++ older))
    (hs : ∀ n ∈ since, ∀ s, n.written? = some s → s.reload ≠ 0)
    (ho : (shown TimerNote.written? older).reload ≠ 0) :
    ∀ n ∈ since, ∀ s, n.found? = some s → s.reload ≠ 0 := by
  induction since with
  | nil => exact fun n hn => absurd hn List.not_mem_nil
  | cons note since ih =>
    obtain ⟨hn, hr⟩ := List.forall_mem_cons.1 hs
    have ih := ih (Sound.of_cons h) hr
    refine List.forall_mem_cons.2 ⟨fun s hf => ?_, ih⟩
    cases note with
    | looked setting =>
      cases hf
      rw [h.1]
      exact shown_append_ne_zero hr ho
    | reset => exact absurd rfl (hn .stopped rfl)
    | had | passed | expired => cases hf

/-- Before what was found first nothing was found. -/
theorem exists_first {setting : TimerSetting}
    (h : (since.filterMap TimerNote.found?).getLast? = some setting) :
    ∃ later note first, since = later ++ note :: first ∧ note.found? = some setting ∧
      ∀ n ∈ first, n.found? = none := by
  -- the latest note is first, so what was found first is the last one that was found
  induction since with
  | nil => cases h
  | cons note since ih =>
    have later : (since.filterMap TimerNote.found?).getLast? = some setting →
        ∃ later other first, note :: since = later ++ other :: first ∧
          other.found? = some setting ∧ ∀ n ∈ first, n.found? = none := by
      intro h
      obtain ⟨later, other, first, rfl, ho, hf⟩ := ih h
      exact ⟨note :: later, other, first, rfl, ho, hf⟩
    cases hn : note.found? with
    | none =>
      rw [List.filterMap_cons_none hn] at h
      exact later h
    | some s =>
      rw [List.filterMap_cons_some hn, List.getLast?_cons] at h
      cases hl : (since.filterMap TimerNote.found?).getLast? with
      | none =>
        rw [hl] at h
        rw [List.getLast?_eq_none_iff] at hl
        exact ⟨[], note, since, rfl, hn.trans h, List.filterMap_eq_nil_iff.1 hl⟩
      | some t =>
        rw [hl] at h
        exact later (hl.trans h)

theorem Sound.time_nonneg (h : Sound log) : ∀ n ∈ log, 0 ≤ n.time := by
  induction log with
  | nil => exact fun n hn => absurd hn List.not_mem_nil
  | cons note older ih =>
    refine List.forall_mem_cons.2 ?_
    cases note with
    | passed time => exact ⟨h.1, ih h.2⟩
    | expired | looked => exact ⟨le_rfl, ih h.2⟩
    | had | reset => exact ⟨le_rfl, ih h⟩

theorem elapsedWhole_append {later first : List TimerNote} {note : TimerNote}
    {setting : TimerSetting} (hn : note.found? = some setting)
    (hf : ∀ n ∈ first, n.found? = none) :
    elapsedWhole (later ++ note :: first) = elapsed later := by
  induction later with
  | nil =>
    refine if_neg fun h => ?_
    obtain ⟨n, hm, hs⟩ := List.any_eq_true.1 h
    rw [hf n hm] at hs
    cases hs
  | cons next later ih =>
    have ha : (later ++ note :: first).any (·.found?.isSome) = true :=
      List.any_eq_true.2 ⟨note, List.mem_append_right _ List.mem_cons_self, by rw [hn]; rfl⟩
    rw [List.cons_append, elapsedWhole, if_pos ha, ih]
    rfl

/-- A restart after a stop that the scheduler found counts a whole period of the setting that it
finds first. -/
theorem Sound.restarts (h : Sound log) : Restarts elapsedWhole foundFirst FoundStop log := by
  rintro newer since setting older rfl hs hz hk hf
  have hf : (shown TimerNote.found? (.had setting :: older)).reload = 0 := hf hz
  unfold foundFirst
  cases hl : (since.filterMap TimerNote.found?).getLast? with
  | none =>
    -- what was never found does not count, so nothing expires
    have hn := List.filterMap_eq_nil_iff.1 (List.getLast?_eq_none_iff.1 hl)
    have hd : (left (since ++ .had setting :: older)).isSome = true := by
      rw [h.of_append.1]
      rfl
    rw [isSome_left, shown_append hn] at hd
    exact absurd hf hd
  | some found =>
    obtain ⟨later, note, first, rfl, hn, hb⟩ := exists_first hl
    obtain rfl : note = .looked found := by
      cases note with
      | looked => exact congrArg TimerNote.looked (Option.some.inj hn)
      | reset =>
        exact absurd rfl ((hk .reset (List.mem_append_right _ List.mem_cons_self)).2 .stopped rfl)
      | had | passed | expired => cases hn
    -- what the scheduler finds since the restart is what was written, and that is never zero
    have hw := h.of_append.2.found_ne_zero (fun n hn => (hk n hn).2) hs
    have hm : ∀ n ∈ later, n ∈ later ++ .looked found :: first := fun n hm =>
      List.mem_append_left _ hm
    rw [Option.getD_some, elapsedWhole_append hn hb]
    rw [List.append_assoc, List.cons_append] at h
    refine (h.elapsed_eq ?_ ?_ fun n hn => ⟨(hk n (hm n hn)).1, hw n (hm n hn)⟩).ge
    · exact hw _ (List.mem_append_right _ List.mem_cons_self) found rfl
    · rw [shown_append hb]
      exact hf

/-! ### Steps of the processor -/

theorem left_had (settings : List TimerSetting) (log : List TimerNote) :
    left (settings.map .had ++ log) = left log := by
  induction settings with
  | nil => rfl
  | cons setting rest ih => exact ih

theorem found_had (settings : List TimerSetting) (log : List TimerNote) :
    shown TimerNote.found? (settings.map .had ++ log) = shown TimerNote.found? log := by
  induction settings with
  | nil => rfl
  | cons setting rest ih => exact ih

theorem Sound.had (h : Sound log) (settings : List TimerSetting) :
    Sound (settings.map .had ++ log) := by
  induction settings with
  | nil => exact h
  | cons setting rest ih => exact ih

end Chronicle

/-! ### What is written down -/

/-- The settings at the steps of a run and at its end, the latest first. -/
def Circuit.settings (c : Circuit) (budget : Nat) : List TimerSetting :=
  (c.runCycles budget).2.board.gime.setting ::
    ((Cpu.turnsUntil budget ⟨c.cpu, c.board, 0⟩).map fun turn => turn.bus.gime.setting).reverse

/-- What is written down about a piece. -/
def Scheduler.notesOfPiece (s : Scheduler Rat) (c : Circuit) : List TimerNote :=
  .looked (s.piece (Circuit.host Rat) c).host.board.gime.setting ::
    (List.replicate (s.piece (Circuit.host Rat) c).events.timerInterrupts .expired ++
      .passed s.pieceLength ::
        (c.settings (min (s.asked (Circuit.host Rat) c) maxCycles)).map .had)

/-- What is written down once less than a nanosecond is pending. There is no result if that never
comes. -/
def Slice.record? (slice : Slice Circuit Rat) (log : List TimerNote) : Option (List TimerNote) :=
  if slice.scheduler.due then
    Scheduler.advance (Circuit.host Rat) slice |>.record?
      (slice.scheduler.notesOfPiece slice.host ++ log)
  else some log
partial_fixpoint

namespace Machine

/-- What is written down once a machine went through a stretch. -/
def record (m : Machine Rat) (log : List TimerNote) : Stretch Rat → Option (List TimerNote)
  | .time time =>
    Slice.record? ⟨.none, { m.scheduler with pending := m.scheduler.pending + time }, m.circuit⟩ log
  | .cycles budget => some ((m.circuit.settings budget).map .had ++ log)
  | _ => some log

/-- What is written down once a machine went through stretches. -/
def recordAll (m : Machine Rat) (log : List TimerNote) :
    List (Stretch Rat) → Option (List TimerNote)
  | [] => some log
  | stretch :: rest => (m.record log stretch).bind fun log => (m.pass stretch).recordAll log rest

/-- What is written down once one thing was done to a machine after the other. There is no result if
one of them never ends. -/
def chronicle (m : Machine Rat) (log : List TimerNote) :
    List (Control Rat) → Option (List TimerNote)
  | [] => some log
  | .call call :: rest =>
    (m.recordAll log call.stretches).bind fun log => (call.perform m).chronicle log rest
  | .reset :: rest => m.reset.chronicle (.reset :: log) rest
  | .fit variant :: rest => (m.fit variant).chronicle log rest

end Machine

namespace Slice

variable {slice : Slice Circuit Rat} {log : List TimerNote}

theorem record?_of_not_due (h : slice.scheduler.due = false) : slice.record? log = some log := by
  rw [record?, h, if_neg Bool.false_ne_true]

theorem record?_of_due (h : slice.scheduler.due = true) : slice.record? log =
    (Scheduler.advance (Circuit.host Rat) slice).record?
      (slice.scheduler.notesOfPiece slice.host ++ log) := by
  rw [record?, h, if_pos rfl]

/-- A call that ends is written down to its end, and what each piece keeps holds there. -/
theorem exists_record? {I : Slice Circuit Rat → List TimerNote → Prop}
    (hI : ∀ slice log, slice.scheduler.due = true → I slice log →
      I (Scheduler.advance (Circuit.host Rat) slice)
        (slice.scheduler.notesOfPiece slice.host ++ log))
    {last : Slice Circuit Rat} (hl : slice.toEnd? (Circuit.host Rat) = some last)
    (h : I slice log) : ∃ log', slice.record? log = some log' ∧ I last log' := by
  refine Slice.toEnd?.partial_correctness (Circuit.host Rat)
    (fun slice last => ∀ log, I slice log → ∃ log', slice.record? log = some log' ∧ I last log')
    ?_ slice last hl log h
  intro rest ih slice last hl log h
  split at hl
  · rename_i hd
    obtain ⟨log', hr, hi⟩ := ih _ last hl _ (hI slice log hd h)
    exact ⟨log', (record?_of_due hd).trans hr, hi⟩
  · rename_i hd
    rw [Option.some.injEq] at hl
    subst hl
    exact ⟨log, record?_of_not_due (Bool.eq_false_iff.2 hd), h⟩

end Slice

theorem Machine.chronicle_cycles (m : Machine Rat) (log : List TimerNote) (budget : Nat)
    (rest : List (Control Rat)) : m.chronicle log (.call (.cycles budget) :: rest) =
      (m.pass (.cycles budget)).chronicle ((m.circuit.settings budget).map .had ++ log) rest := rfl

theorem Machine.chronicle_slice {m : Machine Rat} {log log' : List TimerNote} {time : Rat}
    (h : m.record log (.time time) = some log') (rest : List (Control Rat)) :
    m.chronicle log (.call (.slice time) :: rest) =
      (m.pass (.time time)).chronicle log' rest := by
  have hc : m.chronicle log (.call (.slice time) :: rest) =
      ((m.record log (.time time)).bind some).bind
        fun log => (m.pass (.time time)).chronicle log rest := rfl
  rw [hc, h]
  rfl

/-- Time that one piece uses up. -/
theorem Machine.record_once {m : Machine Rat} {s : Scheduler Rat} {time : Rat}
    (hs : ({ m.scheduler with pending := m.scheduler.pending + time } : Scheduler Rat) = s)
    (hd : s.due = true)
    (hn : (s.piece (Circuit.host Rat) m.circuit).scheduler.due = false) (log : List TimerNote) :
    m.record log (.time time) = some (s.notesOfPiece m.circuit ++ log) ∧
      (m.pass (.time time)).circuit = (s.piece (Circuit.host Rat) m.circuit).host ∧
      (m.pass (.time time)).scheduler = (s.piece (Circuit.host Rat) m.circuit).scheduler := by
  let slice : Slice Circuit Rat := ⟨.none, s, m.circuit⟩
  have hd' : slice.scheduler.due = true := hd
  have hn' : (Scheduler.advance (Circuit.host Rat) slice).scheduler.due = false := hn
  have hr : m.scheduler.run (Circuit.host Rat) m.circuit time =
      Scheduler.advance (Circuit.host Rat) slice := by
    rw [Scheduler.run_once (by rwa [hs]) (by rwa [hs]), hs]
  have hl : m.record log (.time time) = slice.record? log := by
    show Slice.record? ⟨.none, { m.scheduler with pending := _ }, m.circuit⟩ log = _
    rw [hs]
  have hh : (m.pass (.time time)).circuit =
      (m.scheduler.run (Circuit.host Rat) m.circuit time).host := rfl
  have hc : (m.pass (.time time)).scheduler =
      (m.scheduler.run (Circuit.host Rat) m.circuit time).scheduler := rfl
  rw [hl, hh, hc, hr, Slice.record?_of_due hd', Slice.record?_of_not_due hn']
  exact ⟨rfl, rfl, rfl⟩

/-! ### What the scheduler finds -/

namespace Circuit

/-- Where nothing is run, the registers have what they had. -/
theorem settings_zero (c : Circuit) : c.settings 0 = [c.board.gime.setting] := by
  have hr := congrArg (fun core : Core Board => core.bus.gime.setting)
    (Cpu.run_zero c.cpu c.board)
  have ht : Cpu.turnsUntil 0 ⟨c.cpu, c.board, 0⟩ = [] := Cpu.turnsUntil_of_le (Nat.zero_le 0)
  unfold settings
  rw [ht]
  exact congrArg (fun s => [s]) hr

/-- The shortest period of a timer: one tick of the fast clock. -/
def shortest : Rat := Duration.second / Duration.crystalHertz

theorem shortest_pos : 0 < shortest := by
  decide +kernel

/-- A setting asks for no period shorter than a tick of the fast clock. -/
theorem shortest_le_period (s : TimerSetting) : shortest ≤ s.period := by
  have hl : shortest ≤ (Duration.line : Rat) := by decide +kernel
  have ht : shortest ≤ if s.fast then Duration.second / Duration.crystalHertz else
      (Duration.line : Rat) := by
    split
    · exact le_rfl
    · exact hl
  have hn : (1 : Rat) ≤ ((s.reload.toNat + 1 : Nat) : Rat) := by
    exact_mod_cast Nat.le_add_left 1 _
  exact ht.trans (le_mul_of_one_le_left (shortest_pos.le.trans ht) hn)

theorem spaced {ε : Rat} (hε : ε ≤ shortest) : (host Rat).Spaced ε := by
  intro c p hp
  have hp : (c.board.gime.takeTimerUpdate (τ := Rat)).1 = some (.period p) := hp
  unfold Gime.takeTimerUpdate at hp
  split at hp
  · split at hp
    · cases hp
    · cases hp
      exact hε.trans (shortest_le_period c.board.gime.setting)
  · cases hp

theorem setting_takeTimerUpdate (c : Circuit) :
    (c.takeTimerUpdate (τ := Rat)).2.board.gime.setting = c.board.gime.setting := by
  show ((c.board.gime.takeTimerUpdate (τ := Rat)).2).setting = _
  unfold Gime.takeTimerUpdate
  split <;> rfl

end Circuit

/-- What a change leaves of the countdown, once it was taken and made. -/
theorem remaining_updateTimer {s : Scheduler Rat} {g : Gime} (h : Gime.Told s.timerPeriod g) :
    (s.updateTimer (g.takeTimerUpdate (τ := Rat)).1).remaining .timer =
      if g.setting.reload = 0 then none
      else some ((s.remaining .timer).getD g.setting.period) := by
  have hg : g.setting.reload = g.timer := rfl
  unfold Gime.takeTimerUpdate
  by_cases hc : g.timerChanged = true
  · rw [if_pos hc, hg]
    obtain ⟨drift, pending, timerPeriod, untilTimer, samplePeriod, untilSample, overclock⟩ := s
    by_cases ht : g.timer = 0
    · rw [if_pos ht, if_pos ht]
      rfl
    · rw [if_neg ht, if_neg ht]
      cases timerPeriod <;> rfl
  · rw [if_neg hc]
    have hp : s.period? .timer = g.setting.period? := h.resolve_left hc
    show s.remaining .timer = _
    unfold Scheduler.remaining
    rw [hp]
    by_cases ht : g.setting.reload = 0
    · rw [TimerSetting.period?_of_zero ht, if_pos ht]
      rfl
    · rw [TimerSetting.period?_of_ne_zero ht, if_neg ht]
      rfl

namespace Scheduler

variable (s : Scheduler Rat) (c : Circuit)

theorem timerInterrupts_piece : (s.piece (Circuit.host Rat) c).events.timerInterrupts =
    Ledger.ticks .timer (s.tick s.pieceLength .timer) := by
  have hl : Ledger.ticks .timer (s.tick s.pieceLength .timer) < 2 ^ 32 := by
    rcases s.tick_cases s.pieceLength .timer with h | ⟨-, period, h⟩
    · rw [h]
      decide
    · rw [h]
      exact Nat.one_lt_two_pow (by decide)
  rw [← UInt32.toNat_ofNat_of_lt' hl]
  unfold piece
  dsimp only
  rw [passTimer_fst, passSample_eq, runCpu_eq]
  rfl

/-- A piece leaves the registers as the run of the processor left them. -/
theorem setting_piece : (s.piece (Circuit.host Rat) c).host.board.gime.setting =
    (c.runCycles (min (s.asked (Circuit.host Rat) c) maxCycles)).2.board.gime.setting := by
  have hr : (s.runCpu (Circuit.host Rat) c s.pieceLength).2.2.board.gime.setting =
      (c.runCycles (min (s.asked (Circuit.host Rat) c) maxCycles)).2.board.gime.setting := by
    rw [host_runCpu]
    by_cases ho : Duration.atMost (Duration.ofNat 1) (s.owed (Circuit.host Rat) c) = true
    · rw [if_pos ho]
      rfl
    · rw [if_neg ho, asked, if_neg ho, Nat.zero_min]
      exact congrArg (fun core : Core Board => core.bus.gime.setting)
        (Cpu.run_zero c.cpu c.board).symm
  have hs := settled_kept_of_run (Circuit.host Rat) s c
    (P := fun x => x.board.gime.setting = _) (fun _ h => h) (fun _ h => h) hr
  exact (Circuit.setting_takeTimerUpdate _).trans hs

end Scheduler

/-- The scheduler and the chip are as the chronicle says. -/
structure Tracked (ε : Rat) (s : Scheduler Rat) (c : Circuit) (log : List TimerNote) : Prop where
  lively : s.Lively ε
  told : Gime.Told s.timerPeriod c.board.gime
  period : s.timerPeriod = (Chronicle.shown TimerNote.found? log).period?
  left : s.remaining .timer = Chronicle.left log
  setting : c.board.gime.setting = Chronicle.shown TimerNote.written? log
  sound : Chronicle.Sound log

/-- A piece as it is written down up to its expiries. -/
def Scheduler.ticked (s : Scheduler Rat) (log : List TimerNote) : List TimerNote :=
  List.replicate (Ledger.ticks .timer (s.tick s.pieceLength .timer)) .expired ++
    .passed s.pieceLength :: log

namespace Tracked

open Chronicle

variable {ε : Rat} {s : Scheduler Rat} {c : Circuit} {log : List TimerNote}

theorem shown_ticked (view : TimerNote → Option TimerSetting) (he : view .expired = none)
    (hp : ∀ time, view (.passed time) = none) (s : Scheduler Rat) (log : List TimerNote) :
    shown view (s.ticked log) = shown view log := by
  have h : ∀ n, shown view (List.replicate n .expired ++ .passed s.pieceLength :: log) =
      shown view log := by
    intro n
    induction n with
    | zero =>
      show (view (.passed s.pieceLength)).getD _ = _
      rw [hp]
      rfl
    | succ n ih =>
      show (view .expired).getD _ = _
      rw [he]
      exact ih
  exact h _

/-- The expiries of a piece come when nothing is left, and leave what the scheduler has left. -/
theorem tick (hp : s.timerPeriod = (shown TimerNote.found? log).period?)
    (hl : s.remaining .timer = Chronicle.left log) (h₀ : 0 ≤ s.pieceLength) (hs : Sound log)
    (c : Circuit) :
    Chronicle.left (s.ticked log) = (s.settled (Circuit.host Rat) c).1.remaining .timer ∧
      Sound (s.ticked log) := by
  rw [Scheduler.remaining_settled_eq]
  unfold Scheduler.ticked Scheduler.tick Scheduler.leftAfter
  unfold Scheduler.remaining at hl
  cases hc : s.period? .timer with
  | none =>
    rw [hc] at hl
    refine ⟨?_, h₀, hs⟩
    show (Chronicle.left log).map _ = none
    rw [← hl]
    rfl
  | some period =>
    have hlen : s.pieceLength ≤ s.left .timer := by
      refine s.pieceLength_le (c := .timer) ?_
      unfold Scheduler.remaining
      rw [hc]
      rfl
    rw [hc] at hl
    dsimp only [Option.map_some] at hl ⊢
    have hd : Chronicle.left (.passed s.pieceLength :: log) =
        some (s.left .timer - s.pieceLength) := by
      rw [Chronicle.left, ← hl]
      rfl
    by_cases hz : Duration.atMost (s.left .timer - s.pieceLength) (Duration.ofNat 0) = true
    · -- a piece is never longer than the countdown, so at the expiry exactly nothing is left
      rw [if_pos hz, if_pos hz]
      rw [Duration.atMost_rat, Duration.ofNat_rat, Nat.cast_zero] at hz
      refine ⟨hp.symm.trans hc, ?_, h₀, hs⟩
      show Chronicle.left (.passed s.pieceLength :: log) = some 0
      rw [hd, le_antisymm hz (sub_nonneg.2 hlen)]
    · rw [if_neg hz, if_neg hz]
      exact ⟨hd, h₀, hs⟩

/-- What is written down about a piece keeps the chronicle true. -/
theorem piece (hε : 0 < ε) (hs : ε ≤ Circuit.shortest) (h : Tracked ε s c log)
    (hd : s.due = true) :
    Tracked ε (s.piece (Circuit.host Rat) c).scheduler (s.piece (Circuit.host Rat) c).host
      (s.notesOfPiece c ++ log) := by
  let settings := c.settings (min (s.asked (Circuit.host Rat) c) Scheduler.maxCycles)
  -- the processor runs first, then the countdown, and the scheduler looks at the end
  let before := settings.map .had ++ log
  let after := (s.piece (Circuit.host Rat) c).host.board.gime.setting
  have hn : s.notesOfPiece c ++ log = .looked after :: s.ticked before := by
    unfold Scheduler.notesOfPiece Scheduler.ticked
    rw [Scheduler.timerInterrupts_piece, List.cons_append, List.append_assoc]
    rfl
  have hw : after = shown TimerNote.written? (s.ticked before) := by
    rw [shown_ticked TimerNote.written? rfl (fun _ => rfl)]
    exact s.setting_piece c
  obtain ⟨hl, hc⟩ := tick (h.period.trans (congrArg _ (found_had settings log).symm))
    (h.left.trans (left_had settings log).symm) (h.lively.pieceLength_nonneg hd)
    (h.sound.had settings) c
  have hg : (s.settled (Circuit.host Rat) c).2.board.gime.setting = after :=
    (Circuit.setting_takeTimerUpdate _).symm
  have hr : (s.piece (Circuit.host Rat) c).scheduler.remaining .timer =
      if after.reload = 0 then none
      else some (((s.settled (Circuit.host Rat) c).1.remaining .timer).getD after.period) := by
    rw [← hg]
    exact remaining_updateTimer (told_settled h.told)
  rw [hn]
  exact
    { lively := h.lively.piece hε (Circuit.spaced hs) c
      told := (heard_piece h.told).told
      period := (heard_piece h.told).2
      left := by rw [hr, ← hl]; rfl
      setting := hw
      sound := ⟨hw, hc⟩ }

/-- What time brings is written down to its end. -/
theorem time (hε : 0 < ε) (hs : ε ≤ Circuit.shortest) {m : Machine Rat}
    (h : Tracked ε m.scheduler m.circuit log) (time : Rat) :
    ∃ log', m.record log (.time time) = some log' ∧
      Tracked ε (m.pass (.time time)).scheduler (m.pass (.time time)).circuit log' := by
  let s : Scheduler Rat := { m.scheduler with pending := m.scheduler.pending + time }
  have hg : Tracked ε s m.circuit log := { h with lively := h.lively.give time }
  obtain ⟨last, hl⟩ := hg.lively.ends hε (Circuit.spaced hs) .none m.circuit
  obtain ⟨log', hr, ht⟩ := Slice.exists_record?
    (I := fun slice log => Tracked ε slice.scheduler slice.host log)
    (fun slice log hd h => h.piece hε hs hd) hl hg
  have hm : m.scheduler.run (Circuit.host Rat) m.circuit time = last := Scheduler.run_of_toEnd? hl
  rw [← hm] at ht
  exact ⟨log', hr, ht⟩

/-- So is what a stretch brings. -/
theorem pass (hε : 0 < ε) (hs : ε ≤ Circuit.shortest) {m : Machine Rat}
    (h : Tracked ε m.scheduler m.circuit log) (stretch : Stretch Rat) :
    ∃ log', m.record log stretch = some log' ∧
      Tracked ε (m.pass stretch).scheduler (m.pass stretch).circuit log' := by
  -- a level that changes is no access of the processor
  have level : ∀ c : Circuit, c.board.gime.timing = m.circuit.board.gime.timing →
      Tracked ε m.scheduler c log := fun c hc =>
    { h with
      told := h.told.congr hc.symm
      setting := (Gime.setting_of_timing hc).trans h.setting }
  cases stretch with
  | field up => exact ⟨log, rfl, level _ (m.circuit.timing_driveField up)⟩
  | line up => exact ⟨log, rfl, level _ (m.circuit.timing_driveLine up)⟩
  | time time => exact h.time hε hs time
  | cycles budget =>
    refine ⟨_, rfl, ?_⟩
    exact
      { lively := h.lively
        told := Circuit.told_runCycles h.told budget
        period := h.period.trans (congrArg _ (found_had _ log).symm)
        left := h.left.trans (left_had _ log).symm
        setting := rfl
        sound := h.sound.had _ }
  | port cartridge => exact ⟨log, rfl, level _ rfl⟩
  | touch f => exact ⟨log, rfl, level _ rfl⟩

theorem play (hε : 0 < ε) (hs : ε ≤ Circuit.shortest) {m : Machine Rat}
    (h : Tracked ε m.scheduler m.circuit log) (stretches : List (Stretch Rat)) :
    ∃ log', m.recordAll log stretches = some log' ∧
      Tracked ε (m.play stretches).scheduler (m.play stretches).circuit log' := by
  induction stretches generalizing m log with
  | nil => exact ⟨log, rfl, h⟩
  | cons stretch rest ih =>
    obtain ⟨next, hn, ht⟩ := h.pass hε hs stretch
    obtain ⟨log', hl, ht⟩ := ih ht
    refine ⟨log', ?_, ht⟩
    rw [Machine.recordAll, hn]
    exact hl

theorem call (hε : 0 < ε) (hs : ε ≤ Circuit.shortest) {m : Machine Rat}
    (h : Tracked ε m.scheduler m.circuit log) (call : Call Rat) :
    ∃ log', m.recordAll log call.stretches = some log' ∧
      Tracked ε (call.perform m).scheduler (call.perform m).circuit log' := by
  obtain ⟨log', hl, ht⟩ := h.play hε hs call.stretches
  refine ⟨log', hl, ?_⟩
  rwa [call.circuit_perform, call.scheduler_perform]

theorem reset (hε : 0 < ε) {m : Machine Rat} (hp : ∀ p, m.scheduler.samplePeriod = some p → ε ≤ p)
    (hl : Sound log) : Tracked ε m.reset.scheduler m.reset.circuit (.reset :: log) where
  lively := .reset hε hp
  told := (Machine.heard_reset m).told
  period := rfl
  left := rfl
  setting := by
    show Gime.reset.setting = .stopped
    decide
  sound := hl

/-- All that is done to a machine is written down to its end, and the chronicle stays true. -/
theorem chronicle (hε : 0 < ε) (hs : ε ≤ Circuit.shortest) {m : Machine Rat}
    (h : Tracked ε m.scheduler m.circuit log) (controls : List (Control Rat)) :
    ∃ log', m.chronicle log controls = some log' ∧
      Tracked ε (m.steer controls).scheduler (m.steer controls).circuit log' := by
  induction controls generalizing m log with
  | nil => exact ⟨log, rfl, h⟩
  | cons control rest ih =>
    cases control with
    | call call =>
      obtain ⟨next, hn, ht⟩ := h.call hε hs call
      obtain ⟨log', hl, ht⟩ := ih ht
      refine ⟨log', ?_, ht⟩
      rw [Machine.chronicle, hn]
      exact hl
    | reset => exact ih (.reset hε (h.lively.period .sample) h.sound)
    | fit variant => exact ih { h with told := h.told, setting := h.setting }

end Tracked

end ColorComputer
