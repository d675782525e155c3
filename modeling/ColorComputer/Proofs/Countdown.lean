import ColorComputer.Proofs.Ledger

/-!
# The countdowns of a scheduler

The ledger says what is left of a countdown without looking at the scheduler: the period with which
it began, less the time that was run since. This is what the scheduler counts, however the time was
cut into calls and pieces.

* `Ledger.Tells` — the ledger says of both countdowns what the scheduler says, and every tick came
  when nothing was left.
* `Ledger.Sound` — nothing runs backwards, and nothing that is left is negative.
* `Course.keeps` — calls, orders and pieces up to their ticks are all that has to be looked at.
* `Course.toEnd?` — a call that ends adds its pieces to the ledger and counts what they count.
-/

namespace ColorComputer

/-! ### What is left of a countdown -/

namespace Scheduler

open Duration

section Orders

variable (s : Scheduler Rat) (o : Order Rat) (c : Countdown) {log : List (Posting Rat)}

theorem period?_apply (h : s.period? c = Ledger.inForce c log) :
    (o.apply s).period? c = Ledger.inForce c (s.entriesOf o ++ log) := by
  obtain ⟨drift, pending, timerPeriod, untilTimer, samplePeriod, untilSample, overclock⟩ := s
  cases o with
  | timerPeriod period => cases c <;> cases timerPeriod <;> first | rfl | exact h
  | stopTimer => cases c <;> cases timerPeriod <;> first | rfl | exact h
  | audioRate rate =>
    show period? ⟨_, _, timerPeriod, _, periodOfRate? rate, _, _⟩ c =
      Ledger.inForce c (Posting.retimed .sample samplePeriod (periodOfRate? rate) ++ log)
    generalize (periodOfRate? rate : Option Rat) = now
    cases c <;> cases samplePeriod <;> cases now <;> first | rfl | exact h
  | overclock n => cases c <;> exact h
  | reset => cases c <;> cases samplePeriod <;> rfl

theorem remaining_apply (h : s.remaining c = Ledger.due c log) :
    (o.apply s).remaining c = Ledger.due c (s.entriesOf o ++ log) := by
  obtain ⟨drift, pending, timerPeriod, untilTimer, samplePeriod, untilSample, overclock⟩ := s
  cases o with
  | timerPeriod period => cases c <;> cases timerPeriod <;> first | rfl | exact h
  | stopTimer => cases c <;> cases timerPeriod <;> first | rfl | exact h
  | audioRate rate =>
    show remaining ⟨_, _, timerPeriod, untilTimer, periodOfRate? rate,
      if samplePeriod.isNone then (periodOfRate? rate).getD (ofNat 0) else untilSample, _⟩ c =
      Ledger.due c (Posting.retimed .sample samplePeriod (periodOfRate? rate) ++ log)
    generalize (periodOfRate? rate : Option Rat) = now
    cases c <;> cases samplePeriod <;> cases now <;> first | rfl | exact h
  | overclock n => cases c <;> exact h
  | reset => cases c <;> cases samplePeriod <;> rfl

end Orders

section Run

variable {σ : Type} (host : Host σ Rat) (s : Scheduler Rat) (x : σ) (c : Countdown)
  {log : List (Posting Rat)}

theorem inForce_tick (length : Rat) (other : Countdown) :
    Ledger.inForce c (s.tick length other ++ log) = Ledger.inForce c log := by
  unfold tick
  split
  · split <;> rfl
  · rfl

theorem due_tick_of_ne (length : Rat) {other : Countdown} (h : other ≠ c) :
    Ledger.due c (s.tick length other ++ log) = Ledger.due c log := by
  unfold tick
  split
  · split
    · exact if_neg h
    · rfl
  · rfl

/-- A countdown begins anew where nothing is left of it. -/
theorem due_tick (length : Rat) (h : Ledger.due c log = (s.remaining c).map (· - length)) :
    Ledger.due c (s.tick length c ++ log) = (s.period? c).map fun _ => s.leftAfter length c := by
  unfold tick leftAfter
  unfold remaining at h
  cases hp : s.period? c with
  | none =>
    rw [hp] at h
    exact h
  | some period =>
    rw [hp] at h
    dsimp only
    split
    · exact if_pos rfl
    · exact h

theorem inForce_entriesOfRun :
    Ledger.inForce c (s.entriesOfRun host x ++ log) = Ledger.inForce c log := by
  unfold entriesOfRun
  rw [List.append_assoc, List.append_assoc, inForce_tick, inForce_tick]
  rfl

/-- The ledger says what a piece leaves of a countdown. -/
theorem remaining_settled (h : s.remaining c = Ledger.due c log) :
    (s.settled host x).1.remaining c = Ledger.due c (s.entriesOfRun host x ++ log) := by
  have hr : Ledger.due c ([.ran s.pieceLength s.overclock (host.multiplier x) (s.asked host x)
      (s.runCpu host x s.pieceLength).1] ++ log) = (s.remaining c).map (· - s.pieceLength) := by
    rw [h]
    rfl
  unfold remaining entriesOfRun
  rw [period?_settled, left_settled, List.append_assoc, List.append_assoc]
  cases c with
  | sample => rw [due_tick_of_ne s .sample _ (by decide), due_tick s .sample _ hr]
  | timer =>
    rw [due_tick s .timer]
    rw [due_tick_of_ne s .timer _ (by decide), hr]

end Run

/-! ### Pieces and countdowns -/

section Length

/-- A time, cut short by what is left of a countdown. -/
def cut (whole : Rat) (remaining : Option Rat) : Rat := remaining.elim whole (min whole)

theorem cut_le (whole : Rat) (remaining : Option Rat) : cut whole remaining ≤ whole := by
  cases remaining with
  | none => exact le_rfl
  | some l => exact min_le_left whole l

theorem cut_eq (whole : Rat) (remaining : Option Rat) :
    cut whole remaining = whole ∨ remaining = some (cut whole remaining) := by
  cases remaining with
  | none => exact Or.inl rfl
  | some l =>
    rcases min_choice whole l with h | h
    · exact Or.inl h
    · exact Or.inr (congrArg some h.symm)

variable (s : Scheduler Rat)

theorem pieceLength_rat :
    s.pieceLength = cut (cut s.pending (s.remaining .sample)) (s.remaining .timer) := by
  obtain ⟨drift, pending, timerPeriod, untilTimer, samplePeriod, untilSample, overclock⟩ := s
  cases samplePeriod <;> cases timerPeriod <;> simp [pieceLength, cut, remaining, period?, left]

theorem due_eq_false {s : Scheduler Rat} : s.due = false ↔ s.pending < 1 := by
  rw [due, Bool.eq_false_iff, ne_eq, atMost_rat, ofNat_rat, Nat.cast_one, not_le]

theorem pieceLength_le_pending : s.pieceLength ≤ s.pending := by
  rw [pieceLength_rat]
  exact (cut_le _ _).trans (cut_le _ _)

/-- A piece is no longer than what is left of a countdown. -/
theorem pieceLength_le {c : Countdown} {l : Rat} (h : s.remaining c = some l) :
    s.pieceLength ≤ l := by
  rw [pieceLength_rat]
  cases c with
  | sample =>
    rw [h]
    exact (cut_le _ _).trans (min_le_right _ l)
  | timer =>
    rw [h]
    exact min_le_right _ l

/-- A piece takes all the time, or all that is left of a countdown. -/
theorem pieceLength_eq :
    s.pieceLength = s.pending ∨ ∃ c, s.remaining c = some s.pieceLength := by
  rw [pieceLength_rat]
  rcases cut_eq (cut s.pending (s.remaining .sample)) (s.remaining .timer) with h | h
  · rcases cut_eq s.pending (s.remaining .sample) with h' | h'
    · exact Or.inl (h.trans h')
    · exact Or.inr ⟨.sample, by rw [h, ← h']⟩
  · exact Or.inr ⟨.timer, h⟩

theorem pieceLength_nonneg (hp : 0 ≤ s.pending)
    (hr : ∀ c l, s.remaining c = some l → 0 ≤ l) : 0 ≤ s.pieceLength := by
  rcases s.pieceLength_eq with h | ⟨c, h⟩
  · rwa [h]
  · exact hr c _ h

end Length

end Scheduler

/-! ### Courses -/

theorem Posting.ofPiece_of_mem_retimed {τ : Type} {c : Countdown} {was now : Option τ}
    {e : Posting τ} (h : e ∈ Posting.retimed c was now) : e.ofPiece = true := by
  cases was <;> cases now <;> simp_all [Posting.retimed, Posting.ofPiece]

theorem Scheduler.eq_ticked_of_mem {s : Scheduler Rat} {length : Rat} {c : Countdown}
    {e : Posting Rat} (h : e ∈ s.tick length c) : ∃ period, e = .ticked c period := by
  unfold Scheduler.tick at h
  split at h
  · split at h
    · exact ⟨_, List.mem_singleton.1 h⟩
    · exact absurd h List.not_mem_nil
  · exact absurd h List.not_mem_nil

/-- About a piece are written down the change that the host asks for, the countdowns that came to
their end, and the run of the processor. -/
theorem Scheduler.cases_of_mem {σ : Type} (host : Host σ Rat) (s : Scheduler Rat) (x : σ)
    {e : Posting Rat} (h : e ∈ s.entriesOfPiece host x) :
    (∃ u, s.update host x = some u ∧ e ∈ (s.settled host x).1.entriesOf (.ofUpdate u)) ∨
      (∃ c period, e = .ticked c period) ∨
      ∃ length overclock multiplier asked used, e = .ran length overclock multiplier asked used := by
  unfold Scheduler.entriesOfPiece Scheduler.entriesOfRun at h
  rcases List.mem_append.1 h with h | h
  · cases hu : s.update host x with
    | none =>
      rw [hu] at h
      exact absurd h List.not_mem_nil
    | some u =>
      rw [hu] at h
      exact Or.inl ⟨u, rfl, h⟩
  · rcases List.mem_append.1 h with h | h
    · exact Or.inr (Or.inl ⟨_, s.eq_ticked_of_mem h⟩)
    · rcases List.mem_append.1 h with h | h
      · exact Or.inr (Or.inl ⟨_, s.eq_ticked_of_mem h⟩)
      · exact Or.inr (Or.inr ⟨_, _, _, _, _, List.mem_singleton.1 h⟩)

/-- What is written down about a piece is about a piece. -/
theorem Scheduler.ofPiece_of_mem {σ : Type} (host : Host σ Rat) (s : Scheduler Rat) (x : σ)
    {e : Posting Rat} (h : e ∈ s.entriesOfPiece host x) : e.ofPiece = true := by
  rcases s.cases_of_mem host x h with ⟨u, -, hm⟩ | ⟨c, period, rfl⟩ | ⟨_, _, _, _, _, rfl⟩
  · cases u <;> exact Posting.ofPiece_of_mem_retimed hm
  · rfl
  · rfl

theorem Posting.ofOrder_of_mem_retimed {τ : Type} {c : Countdown} {was now : Option τ}
    {e : Posting τ} (h : e ∈ Posting.retimed c was now) : e.ofOrder = true := by
  cases was <;> cases now <;> simp_all [Posting.retimed, Posting.ofOrder]

theorem Posting.length_of_ofOrder {e : Posting Rat} (h : e.ofOrder = true) : e.length = 0 := by
  cases e with
  | ran => cases h
  | _ => rfl

theorem Scheduler.ofOrder_of_mem_opening {s : Scheduler Rat} {e : Posting Rat} (h : e ∈ s.opening) :
    e.ofOrder = true :=
  (List.mem_append.1 h).elim Posting.ofOrder_of_mem_retimed Posting.ofOrder_of_mem_retimed

/-- What is written down about an order is about an order. -/
theorem Scheduler.ofOrder_of_mem {s : Scheduler Rat} {o : Order Rat} {e : Posting Rat}
    (h : e ∈ s.entriesOf o) : e.ofOrder = true := by
  cases o with
  | timerPeriod period => exact Posting.ofOrder_of_mem_retimed h
  | stopTimer => exact Posting.ofOrder_of_mem_retimed h
  | audioRate rate => exact Posting.ofOrder_of_mem_retimed h
  | overclock n => exact absurd h List.not_mem_nil
  | reset =>
    rcases List.mem_append.1 h with h | h
    · exact Scheduler.ofOrder_of_mem_opening h
    · rw [List.mem_singleton.1 h]
      rfl

namespace Ledger

theorem Punctual.append {newer log : List (Posting Rat)} (h : Punctual log)
    (hn : ∀ e ∈ newer, e.ofOrder = true) : Punctual (newer ++ log) := by
  induction newer with
  | nil => exact h
  | cons e rest ih =>
    have hr : Punctual (rest ++ log) := ih fun e' hm => hn e' (List.mem_cons_of_mem e hm)
    cases e with
    | ticked c period => exact absurd (hn _ List.mem_cons_self) Bool.false_ne_true
    | _ => exact hr

theorem Punctual.of_cons {e : Posting Rat} {log : List (Posting Rat)} (h : Punctual (e :: log)) :
    Punctual log := by
  cases e with
  | ticked c period => exact h.2
  | _ => exact h

theorem Punctual.of_append {newer log : List (Posting Rat)} (h : Punctual (newer ++ log)) :
    Punctual log := by
  induction newer with
  | nil => exact h
  | cons e rest ih => exact ih h.of_cons

/-- A tick after a piece is punctual where the piece was no longer than what was left. -/
theorem Punctual.tick {s : Scheduler Rat} {c : Countdown} {length : Rat} {log : List (Posting Rat)}
    (h : Punctual log) (hf : inForce c log = s.period? c)
    (hd : due c log = (s.remaining c).map (· - length))
    (hl : ∀ l, s.remaining c = some l → length ≤ l) : Punctual (s.tick length c ++ log) := by
  unfold Scheduler.tick
  unfold Scheduler.remaining at hd hl
  cases hp : s.period? c with
  | none => exact h
  | some period =>
    rw [hp] at hd hl hf
    dsimp only
    split
    · rename_i ht
      rw [Duration.atMost_rat, Duration.ofNat_rat, Nat.cast_zero] at ht
      have hz : s.left c - length = 0 := le_antisymm ht (sub_nonneg.2 (hl _ rfl))
      exact ⟨⟨hd.trans (congrArg some hz), hf⟩, h⟩
    · exact h

end Ledger

namespace Course

variable {σ : Type} {host : Host σ Rat} {s₀ s : Scheduler Rat} {x₀ x : σ}
  {log : List (Posting Rat)}

/-- What holds at the start and is kept by calls, by orders and by pieces up to their ticks holds
all along: the change of which the host tells after a piece is an order. -/
theorem keeps {P : Scheduler Rat → List (Posting Rat) → Prop} (h : Course host s₀ x₀ s x log)
    (start : P s₀ s₀.opening)
    (give : ∀ {s log}, P s log → ∀ time,
      P { s with pending := s.pending + time } (.given time :: log))
    (order : ∀ {s log}, P s log → ∀ o : Order Rat, P (o.apply s) (s.entriesOf o ++ log))
    (run : ∀ {s log}, P s log → ∀ x, s.due = true →
      P (s.settled host x).1 (s.entriesOfRun host x ++ log)) : P s log := by
  induction h with
  | start => exact start
  | give _ time ih => exact give ih time
  | order _ o ih => exact order ih o
  | @piece s x log _ hd ih =>
    have hr := run ih x hd
    rw [Scheduler.scheduler_piece, Scheduler.entriesOfPiece]
    cases s.update host x with
    | none => exact hr
    | some u =>
      rw [Scheduler.updateTimer_eq_apply, List.append_assoc]
      exact order hr _

end Course

/-- A ledger tells the countdowns of a scheduler, and every tick in it was punctual. -/
structure Ledger.Tells (s : Scheduler Rat) (log : List (Posting Rat)) : Prop where
  period? : ∀ c, s.period? c = Ledger.inForce c log
  remaining : ∀ c, s.remaining c = Ledger.due c log
  punctual : Ledger.Punctual log

namespace Ledger.Tells

variable {σ : Type} {s : Scheduler Rat} {log : List (Posting Rat)}

theorem opening (h : s.reset = s) : Ledger.Tells s s.opening := by
  rw [← h]
  obtain ⟨drift, pending, timerPeriod, untilTimer, samplePeriod, untilSample, overclock⟩ := s
  refine ⟨fun c => ?_, fun c => ?_, ?_⟩
  · cases c <;> cases samplePeriod <;> rfl
  · cases c <;> cases samplePeriod <;> rfl
  · cases samplePeriod <;> trivial

theorem give (h : Ledger.Tells s log) (time : Rat) :
    Ledger.Tells { s with pending := s.pending + time } (.given time :: log) where
  period? c := by
    cases c with
    | sample => exact h.period? .sample
    | timer => exact h.period? .timer
  remaining c := by
    cases c with
    | sample => exact h.remaining .sample
    | timer => exact h.remaining .timer
  punctual := h.punctual

theorem order (h : Ledger.Tells s log) (o : Order Rat) :
    Ledger.Tells (o.apply s) (s.entriesOf o ++ log) where
  period? c := s.period?_apply o c (h.period? c)
  remaining c := s.remaining_apply o c (h.remaining c)
  punctual := h.punctual.append fun _ => Scheduler.ofOrder_of_mem

theorem run (h : Ledger.Tells s log) (host : Host σ Rat) (x : σ) :
    Ledger.Tells (s.settled host x).1 (s.entriesOfRun host x ++ log) where
  period? c := by rw [s.inForce_entriesOfRun host x, s.period?_settled host x, h.period?]
  remaining c := s.remaining_settled host x c (h.remaining c)
  punctual := by
    let ran : Posting Rat := .ran s.pieceLength s.overclock (host.multiplier x) (s.asked host x)
      (s.runCpu host x s.pieceLength).1
    have hp : Ledger.Punctual ([ran] ++ log) := h.punctual
    have hf : ∀ c, Ledger.inForce c ([ran] ++ log) = s.period? c := fun c => (h.period? c).symm
    have hd : ∀ c, Ledger.due c ([ran] ++ log) = (s.remaining c).map (· - s.pieceLength) :=
      fun c => by rw [h.remaining]; rfl
    have hs := hp.tick (hf .sample) (hd .sample) fun l => s.pieceLength_le
    have ht := hs.tick (s := s) (c := .timer) (by rw [s.inForce_tick, hf])
      (by rw [s.due_tick_of_ne _ _ (by decide), hd]) fun l => s.pieceLength_le
    unfold Scheduler.entriesOfRun
    rw [List.append_assoc, List.append_assoc]
    exact ht

end Ledger.Tells

namespace Course

variable {σ : Type} {host : Host σ Rat} {s₀ s : Scheduler Rat} {x₀ x : σ}
  {log : List (Posting Rat)}

/-- From a scheduler on that was reset, the ledger tells the countdowns. -/
theorem tells (h : Course host s₀ x₀ s x log) (h₀ : s₀.reset = s₀) : Ledger.Tells s log :=
  h.keeps (.opening h₀) (fun h time => h.give time) (fun h o => h.order o)
    (fun h x _ => h.run host x)

/-- A call that ends adds its pieces to the ledger, counts what they count, and keeps what each of
them keeps. -/
theorem toEnd? (h : Course host s₀ x₀ s x log) {events : SliceEvents} {last : Slice σ Rat}
    (hl : Slice.toEnd? host ⟨events, s, x⟩ = some last) {Q : List (Posting Rat) → Prop}
    (hQ : ∀ s x log, Q log → Q (Scheduler.entriesOfPiece host s x ++ log)) (hq : Q log) :
    ∃ entries, Course host s₀ x₀ last.scheduler last.host (entries ++ log) ∧
      (∀ e ∈ entries, e.ofPiece = true) ∧ last.events = events + (Ledger.tally entries).told ∧
      last.scheduler.due = false ∧ Q (entries ++ log) := by
  refine Slice.toEnd?.partial_correctness host (fun a last => ∀ log,
    Course host s₀ x₀ a.scheduler a.host log → Q log →
    ∃ entries, Course host s₀ x₀ last.scheduler last.host (entries ++ log) ∧
      (∀ e ∈ entries, e.ofPiece = true) ∧ last.events = a.events + (Ledger.tally entries).told ∧
      last.scheduler.due = false ∧ Q (entries ++ log)) ?_ _ last hl log h hq
  intro rest ih a last hl log h hq
  split at hl
  · rename_i hd
    obtain ⟨entries, hc, he, ht, hn, hr⟩ := ih _ last hl _ (h.piece hd) (hQ _ _ _ hq)
    refine ⟨entries ++ a.scheduler.entriesOfPiece host a.host, ?_, ?_, ?_, hn, ?_⟩
    · rwa [List.append_assoc]
    · intro e hm
      rcases List.mem_append.1 hm with hm | hm
      · exact he e hm
      · exact a.scheduler.ofPiece_of_mem host a.host hm
    · rw [ht, Ledger.tally_append, Tally.told_add, ← Scheduler.events_piece, ← add_assoc]
      rfl
    · rwa [List.append_assoc]
  · rename_i hd
    rw [Option.some.injEq] at hl
    subst hl
    exact ⟨[], h, fun e he => absurd he List.not_mem_nil, (add_zero _).symm,
      Bool.eq_false_iff.2 hd, hq⟩

end Course

/-! ### Time that is not negative -/

namespace Ledger

/-- Every call gave time that is not negative, and every period has a property. -/
structure Fair (P : Rat → Prop) (log : List (Posting Rat)) : Prop where
  given : ∀ time, .given time ∈ log → 0 ≤ time
  periods : ∀ period ∈ periods log, P period

theorem Fair.of_append {P : Rat → Prop} {newer log : List (Posting Rat)}
    (h : Fair P (newer ++ log)) : Fair P log where
  given time hm := h.given time (List.mem_append_right newer hm)
  periods period hm := h.periods period (by
    unfold Ledger.periods
    rw [List.filterMap_append]
    exact List.mem_append_right _ hm)

theorem Fair.of_cons {P : Rat → Prop} {e : Posting Rat} {log : List (Posting Rat)}
    (h : Fair P (e :: log)) : Fair P log :=
  Fair.of_append (show Fair P ([e] ++ log) from h)

theorem mem_periods {log : List (Posting Rat)} {e : Posting Rat} {period : Rat} (he : e ∈ log)
    (hp : e.period? = some period) : period ∈ periods log :=
  List.mem_filterMap.2 ⟨e, he, hp⟩

theorem mem_periods_of_inForce {c : Countdown} {log : List (Posting Rat)} {period : Rat}
    (h : inForce c log = some period) : period ∈ periods log := by
  induction log with
  | nil => cases h
  | cons e older ih =>
    have ho : inForce c older = some period → period ∈ periods (e :: older) := by
      intro h
      obtain ⟨e', he, hp⟩ := List.mem_filterMap.1 (ih h)
      exact mem_periods (List.mem_cons_of_mem e he) hp
    cases e with
    | started other p =>
      unfold inForce at h
      split at h
      · exact mem_periods List.mem_cons_self h
      · exact ho h
    | changed other p =>
      unfold inForce at h
      split at h
      · exact mem_periods List.mem_cons_self h
      · exact ho h
    | stopped other =>
      unfold inForce at h
      split at h
      · cases h
      · exact ho h
    | reset => cases h
    | given time => exact ho h
    | ran => exact ho h
    | ticked => exact ho h

/-- An order leaves of a countdown what was left of it, or starts it. -/
theorem due_append_of_ofOrder {c : Countdown} {newer log : List (Posting Rat)} {l : Rat}
    (hn : ∀ e ∈ newer, e.ofOrder = true) (h : due c (newer ++ log) = some l) :
    due c log = some l ∨ .started c l ∈ newer := by
  induction newer with
  | nil => exact Or.inl h
  | cons e rest ih =>
    have ho : due c (rest ++ log) = some l → due c log = some l ∨ .started c l ∈ e :: rest :=
      fun h => (ih (fun e' hm => hn e' (List.mem_cons_of_mem e hm)) h).imp id
        (List.mem_cons_of_mem e)
    have he := hn e List.mem_cons_self
    cases e with
    | started other p =>
      rw [List.cons_append, due] at h
      split at h
      · rename_i hc
        rw [Option.some.injEq] at h
        subst hc h
        exact Or.inr List.mem_cons_self
      · exact ho h
    | changed other p => exact ho h
    | stopped other =>
      rw [List.cons_append, due] at h
      split at h
      · cases h
      · exact ho h
    | reset => cases h
    | given time => cases he
    | ran => cases he
    | ticked => cases he

/-- What is left of time and of countdowns is not negative, and no piece ran backwards. -/
structure Sound (P : Rat → Prop) (s : Scheduler Rat) (log : List (Posting Rat)) : Prop where
  pending : 0 ≤ s.pending
  remaining : ∀ c l, s.remaining c = some l → P l
  length : ∀ e ∈ log, 0 ≤ e.length

namespace Sound

variable {P : Rat → Prop} {σ : Type} {s : Scheduler Rat} {log : List (Posting Rat)}

theorem order (h : Sound P s log) (ht : Tells s log) (o : Order Rat)
    (hf : Fair P (s.entriesOf o ++ log)) : Sound P (o.apply s) (s.entriesOf o ++ log) where
  pending := by
    cases o with
    | reset => exact le_rfl
    | _ => exact h.pending
  remaining c l hl := by
    rw [(ht.order o).remaining] at hl
    rcases due_append_of_ofOrder (fun _ => Scheduler.ofOrder_of_mem) hl with hd | hm
    · exact h.remaining c l ((ht.remaining c).trans hd)
    · exact hf.periods l (mem_periods (List.mem_append_left log hm) rfl)
  length e hm := by
    rcases List.mem_append.1 hm with hm | hm
    · exact (Posting.length_of_ofOrder (Scheduler.ofOrder_of_mem hm)).ge
    · exact h.length e hm

theorem run (h : Sound P s log) (ht : Tells s log) (hf : Fair P log) (hP : ∀ l, 0 < l → P l)
    (hP' : ∀ l, P l → 0 ≤ l) (host : Host σ Rat) (x : σ) :
    Sound P (s.settled host x).1 (s.entriesOfRun host x ++ log) where
  pending := by
    rw [s.settled_fst host x]
    exact sub_nonneg.2 s.pieceLength_le_pending
  remaining c l hl := by
    unfold Scheduler.remaining at hl
    rw [s.period?_settled host x, s.left_settled host x, Scheduler.leftAfter] at hl
    cases hp : s.period? c with
    | none => rw [hp] at hl; cases hl
    | some period =>
      rw [hp] at hl
      dsimp only [Option.map_some] at hl
      split at hl
      · cases hl
        exact hf.periods l (mem_periods_of_inForce ((ht.period? c).symm.trans hp))
      · rename_i hn
        cases hl
        rw [Duration.atMost_rat, Duration.ofNat_rat, Nat.cast_zero, not_le] at hn
        exact hP _ hn
  length e hm := by
    have hl : 0 ≤ s.pieceLength :=
      s.pieceLength_nonneg h.pending fun c l hr => hP' l (h.remaining c l hr)
    have hk : ∀ c, e ∈ s.tick s.pieceLength c → 0 ≤ e.length := by
      intro c hm
      obtain ⟨period, rfl⟩ := s.eq_ticked_of_mem hm
      exact le_rfl
    rcases List.mem_append.1 hm with hm | hm
    · unfold Scheduler.entriesOfRun at hm
      rcases List.mem_append.1 hm with hm | hm
      · exact hk _ hm
      · rcases List.mem_append.1 hm with hm | hm
        · exact hk _ hm
        · rw [List.mem_singleton.1 hm]
          exact hl
    · exact h.length e hm

end Sound

end Ledger

/-- From a scheduler on that was reset, fair calls leave it sound. -/
theorem Course.sound {σ : Type} {host : Host σ Rat} {s₀ s : Scheduler Rat} {x₀ x : σ}
    {log : List (Posting Rat)} (h : Course host s₀ x₀ s x log) (h₀ : s₀.reset = s₀)
    {P : Rat → Prop} (hP : ∀ l, 0 < l → P l) (hP' : ∀ l, P l → 0 ≤ l) (hf : Ledger.Fair P log) :
    Ledger.Sound P s log := by
  refine (h.keeps (P := fun s log => Ledger.Tells s log ∧
    (Ledger.Fair P log → Ledger.Sound P s log)) ?_ ?_ ?_ ?_).2 hf
  · refine ⟨.opening h₀, fun hf => ⟨?_, fun c l hl => ?_, fun e hm => ?_⟩⟩
    · rw [← h₀]
      exact le_rfl
    · have ho : ∀ e ∈ s₀.opening, e.ofOrder = true := fun _ => Scheduler.ofOrder_of_mem_opening
      rw [(Ledger.Tells.opening h₀).remaining, ← s₀.opening.append_nil] at hl
      rcases Ledger.due_append_of_ofOrder ho hl with hd | hm
      · cases hd
      · exact hf.periods l (Ledger.mem_periods hm rfl)
    · exact (Posting.length_of_ofOrder (Scheduler.ofOrder_of_mem_opening hm)).ge
  · rintro s log ⟨ht, hs⟩ time
    refine ⟨ht.give time, fun hf => ?_⟩
    have h := hs hf.of_cons
    refine ⟨add_nonneg h.pending (hf.given time List.mem_cons_self), fun c l hl => ?_, ?_⟩
    · exact h.remaining c l (by cases c <;> exact hl)
    · intro e hm
      rcases List.mem_cons.1 hm with rfl | hm
      · exact le_rfl
      · exact h.length e hm
  · rintro s log ⟨ht, hs⟩ o
    exact ⟨ht.order o, fun hf => (hs hf.of_append).order ht o hf⟩
  · rintro s log ⟨ht, hs⟩ x _
    exact ⟨ht.run host x, fun hf => (hs hf.of_append).run ht hf.of_append hP hP' host x⟩

end ColorComputer
