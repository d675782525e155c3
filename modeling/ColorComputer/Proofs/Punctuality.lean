import Mathlib.Algebra.Order.Archimedean.Basic
import Mathlib.Data.Rat.Floor
import Mathlib.Tactic.Ring
import ColorComputer.Proofs.Notes

/-!
# Every call ends, and every tick comes in time

A piece that leaves time for another one brings a countdown to its end, and what begins anew takes
at least the shortest period. So the pieces of a call run out. On the clock of the time that was
run, the ticks are where the periods put them, however that time was cut.

* `Scheduler.work` — what bounds the number of pieces: time that is pending counts twice, less what
  is left of the countdowns.
* `Lively.ends` — every call ends.
* `Ledger.Began` — how a countdown that runs began, and what was written down since.
* `ticks_punctual` — a countdown ticks exactly when the period with which it began is over.
-/

namespace ColorComputer

/-! ### Every call ends -/

namespace Scheduler

/-- A bound on the pieces to come, in units of the shortest period. A countdown that stands still
counts as one that just began. -/
def work (ε : Rat) (s : Scheduler Rat) : Rat :=
  2 * s.pending - cut ε (s.remaining .sample) - cut ε (s.remaining .timer)

variable {ε : Rat} (s : Scheduler Rat)

theorem pending_le_of_work (h : s.work ε ≤ -(2 * ε)) : s.pending ≤ 0 := by
  have hs := cut_le ε (s.remaining .sample)
  have ht := cut_le ε (s.remaining .timer)
  unfold work at h
  linarith

theorem cut_le_some (whole : Rat) {remaining : Option Rat} {l : Rat} (h : remaining = some l) :
    cut whole remaining ≤ l := by
  rw [h]
  exact min_le_right whole l

section Piece

variable {σ : Type} (host : Host σ Rat) (x : σ) (c : Countdown)

theorem remaining_settled_eq : (s.settled host x).1.remaining c =
    (s.period? c).map fun _ => s.leftAfter s.pieceLength c := by
  unfold remaining
  rw [period?_settled, left_settled]

/-- A countdown that came to its end begins anew. -/
theorem cut_settled_of_tick (hl : s.remaining c = some s.pieceLength)
    (hp : ∀ p, s.period? c = some p → ε ≤ p) : cut ε ((s.settled host x).1.remaining c) = ε := by
  unfold remaining at hl
  cases hc : s.period? c with
  | none => rw [hc] at hl; cases hl
  | some period =>
    rw [hc] at hl
    have hl : s.left c = s.pieceLength := Option.some.inj hl
    have ha : s.leftAfter s.pieceLength c = period := by
      unfold leftAfter
      rw [hc, hl]
      exact if_pos (by simp)
    rw [remaining_settled_eq, hc, ha]
    exact min_eq_left (hp period hc)

/-- A piece takes no more off a countdown than its length. -/
theorem cut_le_settled (h₀ : 0 ≤ s.pieceLength) (hp : ∀ p, s.period? c = some p → ε ≤ p) :
    cut ε (s.remaining c) ≤ cut ε ((s.settled host x).1.remaining c) + s.pieceLength := by
  rw [remaining_settled_eq]
  unfold remaining leftAfter
  cases hc : s.period? c with
  | none => exact le_add_of_nonneg_right h₀
  | some period =>
    dsimp only [Option.map_some]
    split
    · have hm : cut ε (some period) = ε := min_eq_left (hp period hc)
      rw [hm]
      exact (cut_le _ _).trans (le_add_of_nonneg_right h₀)
    · show min ε (s.left c) ≤ min ε (s.left c - s.pieceLength) + s.pieceLength
      rw [← min_add_add_right, sub_add_cancel]
      exact min_le_min_right _ (le_add_of_nonneg_right h₀)

/-- A piece that leaves time for another one brings a countdown to its end. -/
theorem work_settled (h₀ : 0 ≤ s.pieceLength) (hp : ∀ c p, s.period? c = some p → ε ≤ p)
    (hl : s.pieceLength ≠ s.pending) : (s.settled host x).1.work ε ≤ s.work ε - ε := by
  have hs := s.cut_le_settled host x .sample h₀ (hp .sample)
  have ht := s.cut_le_settled host x .timer h₀ (hp .timer)
  have hw : (s.settled host x).1.pending = s.pending - s.pieceLength := by rw [settled_fst]
  unfold work
  rw [hw]
  obtain ⟨c, hc⟩ := s.pieceLength_eq.resolve_left hl
  have hb := cut_le_some ε hc
  have ha := s.cut_settled_of_tick host x c hc (hp c)
  cases c with
  | sample => linarith
  | timer => linarith

end Piece

/-- A change of the timer takes nothing off its countdown. -/
theorem work_updateTimer (u : Option (TimerUpdate Rat)) (hu : ∀ p, u = some (.period p) → ε ≤ p) :
    (s.updateTimer u).work ε ≤ s.work ε := by
  obtain ⟨drift, pending, timerPeriod, untilTimer, samplePeriod, untilSample, overclock⟩ := s
  cases u with
  | none => exact le_rfl
  | some u =>
    cases u with
    | stop => exact sub_le_sub_left (cut_le ε _) _
    | period p =>
      refine sub_le_sub_left ?_ _
      cases timerPeriod with
      | none => exact le_min le_rfl (hu p rfl)
      | some => exact le_rfl

theorem pending_piece {σ : Type} (host : Host σ Rat) (x : σ) :
    (s.piece host x).scheduler.pending = s.pending - s.pieceLength := by
  have hu : ∀ (t : Scheduler Rat) (u : Option (TimerUpdate Rat)),
      (t.updateTimer u).pending = t.pending := by
    intro t u
    rcases u with - | - | p <;> rfl
  rw [scheduler_piece, hu, settled_fst]

end Scheduler

/-- The host asks for no period shorter than this. -/
def Host.Spaced {σ : Type} (host : Host σ Rat) (ε : Rat) : Prop :=
  ∀ x p, (host.timerUpdate x).1 = some (.period p) → ε ≤ p

namespace Scheduler

/-- Something is left of every countdown that runs, and no period is shorter than this. -/
structure Lively (ε : Rat) (s : Scheduler Rat) : Prop where
  remaining : ∀ c l, s.remaining c = some l → 0 < l
  period : ∀ c p, s.period? c = some p → ε ≤ p

namespace Lively

variable {σ : Type} {host : Host σ Rat} {ε : Rat} {s : Scheduler Rat}

theorem settled (h : s.Lively ε) (hε : 0 < ε) (host : Host σ Rat) (x : σ) :
    (s.settled host x).1.Lively ε where
  remaining c l hl := by
    rw [remaining_settled_eq] at hl
    obtain ⟨period, hp, rfl⟩ := Option.map_eq_some_iff.1 hl
    unfold leftAfter
    rw [hp]
    dsimp only
    split
    · exact hε.trans_le (h.period c period hp)
    · rename_i hn
      rw [Duration.atMost_rat, Duration.ofNat_rat, Nat.cast_zero, not_le] at hn
      exact hn
  period c p hp := by
    rw [period?_settled] at hp
    exact h.period c p hp

theorem updateTimer (h : s.Lively ε) (hε : 0 < ε) {u : Option (TimerUpdate Rat)}
    (hu : ∀ p, u = some (.period p) → ε ≤ p) : (s.updateTimer u).Lively ε := by
  rcases u with - | - | p
  · exact h
  · constructor
    · rintro (- | -) l hl
      · exact h.remaining .sample l hl
      · cases hl
    · rintro (- | -) q hq
      · exact h.period .sample q hq
      · cases hq
  · have hp := hu p rfl
    constructor
    · rintro (- | -) l hl
      · exact h.remaining .sample l hl
      · have hl : (if s.timerPeriod.isNone then p else s.untilTimer) = l := Option.some.inj hl
        rw [← hl]
        split
        · exact hε.trans_le hp
        · rename_i hn
          obtain ⟨q, hq⟩ := Option.ne_none_iff_exists'.1 (mt Option.isNone_iff_eq_none.2 hn)
          exact h.remaining .timer _ (congrArg (Option.map fun _ => s.untilTimer) hq)
    · rintro (- | -) q hq
      · exact h.period .sample q hq
      · exact hp.trans_eq (Option.some.inj hq)

theorem piece (h : s.Lively ε) (hε : 0 < ε) (hh : host.Spaced ε) (x : σ) :
    (s.piece host x).scheduler.Lively ε := by
  rw [scheduler_piece]
  exact (h.settled hε host x).updateTimer hε (hh _)

theorem give (h : s.Lively ε) (time : Rat) :
    ({ s with pending := s.pending + time } : Scheduler Rat).Lively ε where
  remaining
    | .sample => h.remaining .sample
    | .timer => h.remaining .timer
  period
    | .sample => h.period .sample
    | .timer => h.period .timer

theorem reset (hε : 0 < ε) (h : ∀ p, s.samplePeriod = some p → ε ≤ p) : s.reset.Lively ε := by
  constructor
  · rintro (- | -) l hl
    · obtain ⟨p, hp, rfl⟩ := Option.map_eq_some_iff.1 hl
      have hp : s.samplePeriod = some p := hp
      show 0 < s.samplePeriod.getD _
      rw [hp]
      exact hε.trans_le (h p hp)
    · cases hl
  · rintro (- | -) p hp
    · exact h p hp
    · cases hp

theorem pieceLength_nonneg (h : s.Lively ε) (hd : s.due = true) : 0 ≤ s.pieceLength := by
  have hp : (1 : Rat) ≤ s.pending := (Duration.atMost_rat 1 s.pending).mp hd
  exact s.pieceLength_nonneg (zero_le_one.trans hp) fun c l hr => (h.remaining c l hr).le

/-- A piece that leaves time for another one leaves less to do. -/
theorem work_piece (h : s.Lively ε) (hh : host.Spaced ε) (x : σ) (hd : s.due = true)
    (hl : s.pieceLength ≠ s.pending) : (s.piece host x).scheduler.work ε ≤ s.work ε - ε :=
  (work_updateTimer _ _ (hh _)).trans
    (s.work_settled host x (h.pieceLength_nonneg hd) h.period hl)

/-- Every call ends: each piece but the last leaves less to do, by the shortest period. -/
theorem ends (h : s.Lively ε) (hε : 0 < ε) (hh : host.Spaced ε) (events : SliceEvents) (x : σ) :
    ∃ last, Slice.toEnd? host ⟨events, s, x⟩ = some last := by
  obtain ⟨n, hn⟩ := exists_nat_ge (s.work ε / ε + 2)
  have hw : s.work ε ≤ (n - 2) * ε := by
    rw [← div_le_iff₀ hε]
    linarith
  clear hn
  induction n generalizing s x events with
  | zero =>
    have hp : s.pending ≤ 0 := s.pending_le_of_work (hw.trans (by simp))
    exact ⟨_, Slice.toEnd?_of_not_due host (due_eq_false.2 (hp.trans_lt zero_lt_one))⟩
  | succ n ih =>
    cases hd : s.due with
    | false => exact ⟨_, Slice.toEnd?_of_not_due host hd⟩
    | true =>
      have hdue : (⟨events, s, x⟩ : Slice σ Rat).scheduler.due = true := hd
      rw [← Slice.toEnd?_advance host hdue]
      by_cases hl : s.pieceLength = s.pending
      · refine ⟨_, Slice.toEnd?_of_not_due host (due_eq_false.2 ?_)⟩
        show (s.piece host x).scheduler.pending < 1
        rw [pending_piece, hl, sub_self]
        exact zero_lt_one
      · refine ih (h.piece hε hh x) _ _ ?_
        have hp := h.work_piece hh x hd hl
        push_cast at hw
        linarith

end Lively

end Scheduler

theorem Posting.eq_of_mem_retimed {c : Countdown} {was now : Option Rat} {e : Posting Rat}
    {p : Rat} (h : e ∈ Posting.retimed c was now) (hp : e.period? = some p) : now = some p := by
  cases was <;> cases now <;> simp_all [Posting.retimed, Posting.period?]

/-- A period in the ledger of a piece is one that the host asked for. -/
theorem Scheduler.update_of_mem {σ : Type} (host : Host σ Rat) (s : Scheduler Rat) (x : σ)
    {e : Posting Rat} {p : Rat} (h : e ∈ s.entriesOfPiece host x) (hp : e.period? = some p) :
    s.update host x = some (.period p) := by
  rcases s.cases_of_mem host x h with ⟨u, hu, hm⟩ | ⟨c, period, rfl⟩ | ⟨_, _, _, _, _, rfl⟩
  · rw [hu]
    cases u with
    | stop => cases Posting.eq_of_mem_retimed hm hp
    | period q =>
      cases Posting.eq_of_mem_retimed hm hp
      rfl
  · cases hp
  · cases hp

/-- Pieces give no time, and only such periods as the host asks for. -/
theorem Ledger.Fair.piece {σ : Type} {host : Host σ Rat} {ε : Rat} {s : Scheduler Rat}
    {log : List (Posting Rat)} (h : Ledger.Fair (ε ≤ ·) log) (hh : host.Spaced ε) (x : σ) :
    Ledger.Fair (ε ≤ ·) (s.entriesOfPiece host x ++ log) where
  given time hm := by
    rcases List.mem_append.1 hm with hm | hm
    · exact absurd (s.ofPiece_of_mem host x hm) Bool.false_ne_true
    · exact h.given time hm
  periods p hm := by
    obtain ⟨e, he, hp⟩ := List.mem_filterMap.1 hm
    rcases List.mem_append.1 he with he | he
    · exact hh _ p (s.update_of_mem host x he hp)
    · exact h.periods p (Ledger.mem_periods he hp)

theorem Ledger.Fair.mono {P Q : Rat → Prop} {log : List (Posting Rat)} (h : Ledger.Fair P log)
    (hPQ : ∀ l, P l → Q l) : Ledger.Fair Q log where
  given := h.given
  periods p hm := hPQ p (h.periods p hm)

namespace Course

variable {σ : Type} {host : Host σ Rat} {s₀ s : Scheduler Rat} {x₀ x : σ}
  {log : List (Posting Rat)} {ε : Rat}

/-- Nothing is left of a countdown only where it begins anew. -/
theorem sound_of_pos (h : Course host s₀ x₀ s x log) (h₀ : s₀.reset = s₀) (hε : 0 < ε)
    (hf : Ledger.Fair (ε ≤ ·) log) : Ledger.Sound (0 < ·) s log :=
  h.sound h₀ (fun _ => id) (fun _ => le_of_lt) (hf.mono fun _ => hε.trans_le)

/-- So the scheduler is lively. -/
theorem lively (h : Course host s₀ x₀ s x log) (h₀ : s₀.reset = s₀) (hε : 0 < ε)
    (hf : Ledger.Fair (ε ≤ ·) log) : s.Lively ε where
  remaining := (h.sound_of_pos h₀ hε hf).remaining
  period c p hp :=
    hf.periods p (Ledger.mem_periods_of_inForce (((h.tells h₀).period? c).symm.trans hp))

end Course

/-! ### How a countdown began -/

namespace Posting

variable {τ : Type}

/-- The period with which a countdown begins. -/
def begins? (c : Countdown) : Posting τ → Option τ
  | ticked other period => if other = c then some period else none
  | started other period => if other = c then some period else none
  | _ => none

/-- A countdown goes on with the same period. -/
def Keeps (c : Countdown) (q : τ) : Posting τ → Prop
  | started other _ => other ≠ c
  | changed other period => other = c → period = q
  | stopped other => other ≠ c
  | reset => False
  | _ => True

end Posting

namespace Ledger

variable {c : Countdown} {q : Rat} {e : Posting Rat} {since older log : List (Posting Rat)}

/-- A countdown that runs began with a period, and this was written down since. -/
def Began (c : Countdown) (q : Rat) (since log : List (Posting Rat)) : Prop :=
  ∃ e older, log = since ++ e :: older ∧ e.begins? c = some q ∧ ∀ e ∈ since, e.rearms c = false

theorem due_cons (c : Countdown) (e : Posting Rat) (older : List (Posting Rat)) :
    due c (e :: older) =
      if e.rearms c then e.begins? c else (due c older).map (· - e.length) := by
  cases e <;> simp [due, Posting.rearms, Posting.begins?, Posting.length] <;> split <;> rfl

theorem Began.cons (h : Began c q since older) (he : e.rearms c = false) :
    Began c q (e :: since) (e :: older) := by
  obtain ⟨b, rest, rfl, hb, hs⟩ := h
  exact ⟨b, rest, rfl, hb, List.forall_mem_cons.2 ⟨he, hs⟩⟩

/-- What is left of a countdown is its period, less the time that was run since it began. -/
theorem Began.due (h : Began c q since log) : due c log = some (q - elapsed since) := by
  obtain ⟨b, older, rfl, hb, hs⟩ := h
  induction since with
  | nil =>
    have hr : b.rearms c = true := by
      cases b <;> simp_all [Posting.begins?, Posting.rearms]
    rw [List.nil_append, due_cons, hr, if_pos rfl, hb]
    exact congrArg some (sub_zero q).symm
  | cons e since ih =>
    obtain ⟨he, hs⟩ := List.forall_mem_cons.1 hs
    rw [List.cons_append, due_cons, he, if_neg Bool.false_ne_true, ih hs]
    show some (q - elapsed since - e.length) = some (q - (e.length + elapsed since))
    ring_nf

end Ledger

/-! ### Punctuality -/

end ColorComputer
