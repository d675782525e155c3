import Mathlib.Algebra.BigOperators.Group.List.Basic
import Mathlib.Data.Rat.Floor
import Mathlib.Tactic.Linarith
import ColorComputer.Scheduler

/-!
# The ledger of a scheduler

Everything that happens to a scheduler is written down, the latest first: the time it is given, the
pieces it runs, and what becomes of its two countdowns, the one to the next sample and the one to
the next expiry of the timer.

* `Course` — the schedulers that come of calls, orders and pieces, each with its ledger.
* `settled_fst`, `scheduler_piece` — all that a piece does to a scheduler.
* `settled_kept` — what a piece keeps in its host.
* `events_piece` — a piece counts what is written down about it.
-/

namespace ColorComputer

/-! ### Exact time -/

namespace Duration

@[simp] theorem ofNat_rat (n : Nat) : (ofNat n : Rat) = n := rfl

@[simp] theorem atMost_rat (a b : Rat) : (atMost a b = true) = (a ≤ b) := by
  simp [atMost]

@[simp] theorem least_rat (a b : Rat) : least a b = min a b := by
  show (if b < a then b else a) = _
  rw [min_def]
  split <;> split <;> first | rfl | (exfalso; linarith)

@[simp] theorem floor_rat (a : Rat) : (Duration.floor a : Rat) = (⌊a⌋ : Int) := rfl

@[simp] theorem count_rat (a : Rat) : count a = ⌊a⌋.toNat := rfl

theorem cyclesPerNanosecond_pos : (0 : Rat) < cyclesPerNanosecond := by
  norm_num [cyclesPerNanosecond, processorHertz, crystalHertz, second]

end Duration

/-! ### What happened together -/

instance : Zero SliceEvents := ⟨.none⟩

/-- What happened in stretches of time adds up, whichever of them are taken together first. -/
instance : AddMonoid SliceEvents where
  add_assoc a b c :=
    SliceEvents.ext (UInt64.add_assoc ..) (UInt32.add_assoc ..) (UInt32.add_assoc ..)
  zero_add a := SliceEvents.ext (UInt64.zero_add _) (UInt32.zero_add _) (UInt32.zero_add _)
  add_zero a := SliceEvents.ext (UInt64.add_zero _) (UInt32.add_zero _) (UInt32.add_zero _)
  nsmul := nsmulRec

/-- What happened while time passed, counted in numbers. -/
@[ext] structure Tally where
  cycles : Nat
  expiries : Nat
  samples : Nat
  deriving DecidableEq

namespace Tally

instance : Zero Tally := ⟨⟨0, 0, 0⟩⟩

instance : Add Tally where
  add a b := ⟨a.cycles + b.cycles, a.expiries + b.expiries, a.samples + b.samples⟩

instance : AddMonoid Tally where
  add_assoc a b c := Tally.ext (Nat.add_assoc ..) (Nat.add_assoc ..) (Nat.add_assoc ..)
  zero_add a := Tally.ext (Nat.zero_add _) (Nat.zero_add _) (Nat.zero_add _)
  add_zero a := Tally.ext (Nat.add_zero _) (Nat.add_zero _) (Nat.add_zero _)
  nsmul := nsmulRec

/-- What is told of it, in words. -/
def told (t : Tally) : SliceEvents := ⟨.ofNat t.cycles, .ofNat t.expiries, .ofNat t.samples⟩

theorem told_add (a b : Tally) : (a + b).told = a.told + b.told :=
  SliceEvents.ext (UInt64.ofNat_add _ _) (UInt32.ofNat_add _ _) (UInt32.ofNat_add _ _)

/-- The numbers fit the words. -/
structure Fits (t : Tally) : Prop where
  cycles : t.cycles < 2 ^ 64
  expiries : t.expiries < 2 ^ 32
  samples : t.samples < 2 ^ 32

/-- What fits is told. -/
theorem Fits.told {t : Tally} (h : t.Fits) : (t.told.cycles : Nat) = t.cycles ∧
    (t.told.timerInterrupts : Nat) = t.expiries ∧ (t.told.samples : Nat) = t.samples :=
  ⟨UInt64.toNat_ofNat_of_lt' h.cycles, UInt32.toNat_ofNat_of_lt' h.expiries,
    UInt32.toNat_ofNat_of_lt' h.samples⟩

end Tally

/-! ### Countdowns -/

/-- The two countdowns of a scheduler. -/
inductive Countdown
  | sample
  | timer
  deriving DecidableEq

namespace Scheduler

open Duration

variable {σ τ : Type}

/-- The time between two ticks of a countdown, while it runs. -/
def period? (s : Scheduler τ) : Countdown → Option τ
  | .sample => s.samplePeriod
  | .timer => s.timerPeriod

/-- The time to the next tick of a countdown, if it runs. -/
def left (s : Scheduler τ) : Countdown → τ
  | .sample => s.untilSample
  | .timer => s.untilTimer

/-- What is left of a countdown, while it runs. -/
def remaining (s : Scheduler τ) (c : Countdown) : Option τ := (s.period? c).map fun _ => s.left c

end Scheduler

/-! ### Postings -/

/-- What is written down about a scheduler. -/
inductive Posting (τ : Type)
  /-- A call gave so much time. -/
  | given (time : τ)
  /-- A piece was run. The processor was asked for cycles and used cycles. -/
  | ran (length : τ) (overclock multiplier asked used : Nat)
  /-- A countdown came to its end and begins anew with its period. -/
  | ticked (c : Countdown) (period : τ)
  /-- A countdown that stood still was given a period. -/
  | started (c : Countdown) (period : τ)
  /-- A countdown that runs was given another period. -/
  | changed (c : Countdown) (period : τ)
  /-- A countdown that ran stands still. -/
  | stopped (c : Countdown)
  /-- Everything was reset. -/
  | reset
  deriving DecidableEq

namespace Posting

variable {τ : Type}

/-- What is written down when a countdown with one period is given another one, or none. -/
def retimed (c : Countdown) : Option τ → Option τ → List (Posting τ)
  | none, none => []
  | none, some period => [.started c period]
  | some _, some period => [.changed c period]
  | some _, none => [.stopped c]

/-- The time for which the processor ran. -/
def length : Posting Rat → Rat
  | ran length _ _ _ _ => length
  | _ => 0

/-- The time that was given. -/
def time : Posting Rat → Rat
  | given time => time
  | _ => 0

/-- The cycles that belong to a piece. -/
def nominal : Posting Rat → Rat
  | ran length overclock multiplier _ _ =>
    length * Duration.cyclesPerNanosecond * overclock * multiplier
  | _ => 0

/-- How many times faster than at the slow rate a piece is to run. -/
def factor : Posting τ → Nat
  | ran _ overclock multiplier _ _ => overclock * multiplier
  | _ => 0

/-- The cycles that the processor used. -/
def used : Posting τ → Nat
  | ran _ _ _ _ used => used
  | _ => 0

/-- The cycles that the processor was asked for. -/
def asked : Posting τ → Nat
  | ran _ _ _ asked _ => asked
  | _ => 0

/-- The period that a countdown was given. -/
def period? : Posting τ → Option τ
  | started _ period => some period
  | changed _ period => some period
  | _ => none

/-- A countdown begins anew, or ends. -/
def rearms (c : Countdown) : Posting τ → Bool
  | ticked other _ => other = c
  | started other _ => other = c
  | stopped other => other = c
  | reset => true
  | _ => false

/-- A countdown ticks. -/
def ticks (c : Countdown) : Posting τ → Bool
  | ticked other _ => other = c
  | _ => false

/-- The entry is about an order. -/
def ofOrder : Posting τ → Bool
  | given _ => false
  | ran _ _ _ _ _ => false
  | ticked _ _ => false
  | _ => true

/-- The entry is about a piece, not about a call. -/
def ofPiece : Posting τ → Bool
  | given _ => false
  | reset => false
  | _ => true

end Posting

/-! ### What the ledger says -/

namespace Ledger

variable {τ : Type}

/-- The time that was run. -/
def elapsed (log : List (Posting Rat)) : Rat := (log.map Posting.length).sum

/-- The time that was given. -/
def given (log : List (Posting Rat)) : Rat := (log.map Posting.time).sum

/-- The cycles that belong to the time that was run. -/
def nominal (log : List (Posting Rat)) : Rat := (log.map Posting.nominal).sum

/-- The cycles that were used. -/
def used (log : List (Posting τ)) : Nat := (log.map Posting.used).sum

/-- How often a countdown ticked. -/
def ticks (c : Countdown) (log : List (Posting τ)) : Nat := log.countP (·.ticks c)

/-- What happened, all told. -/
def tally (log : List (Posting τ)) : Tally := ⟨used log, ticks .timer log, ticks .sample log⟩

/-- The periods that countdowns were given. -/
def periods (log : List (Posting τ)) : List τ := log.filterMap Posting.period?

/-- The period that a countdown was given last, while it runs. -/
def inForce (c : Countdown) : List (Posting τ) → Option τ
  | [] => none
  | .started other period :: older => if other = c then some period else inForce c older
  | .changed other period :: older => if other = c then some period else inForce c older
  | .stopped other :: older => if other = c then none else inForce c older
  | .reset :: _ => none
  | _ :: older => inForce c older

/-- What is left of a countdown: the period with which it began, less the time that was run since.
A change of the period does not count until it begins anew. -/
def due (c : Countdown) : List (Posting Rat) → Option Rat
  | [] => none
  | .ran length _ _ _ _ :: older => (due c older).map (· - length)
  | .ticked other period :: older => if other = c then some period else due c older
  | .started other period :: older => if other = c then some period else due c older
  | .stopped other :: older => if other = c then none else due c older
  | .reset :: _ => none
  | _ :: older => due c older

/-- Every tick comes when nothing is left, with the period given last. -/
def Punctual : List (Posting Rat) → Prop
  | [] => True
  | .ticked c period :: older =>
    (due c older = some 0 ∧ inForce c older = some period) ∧ Punctual older
  | _ :: older => Punctual older

end Ledger

/-! ### What is asked of a scheduler -/

/-- What is asked of a scheduler beside time. -/
inductive Order (τ : Type)
  | timerPeriod (period : τ)
  | stopTimer
  | audioRate (rate : Nat)
  | overclock (overclock : Nat)
  | reset

namespace Order

variable {τ : Type} [Duration τ]

/-- The scheduler once it did what was asked. -/
def apply (s : Scheduler τ) : Order τ → Scheduler τ
  | timerPeriod period => s.setTimerPeriod period
  | stopTimer => s.stopTimer
  | audioRate rate => s.setAudioRate rate
  | overclock n => s.setOverclock n
  | reset => s.reset

/-- The order by which the host tells of a change to the timer. -/
def ofUpdate : TimerUpdate τ → Order τ
  | .stop => stopTimer
  | .period period => timerPeriod period

end Order

namespace Scheduler

open Duration

variable {σ τ : Type} [Duration τ]

/-- The entries by which the ledger of a scheduler opens. -/
def opening (s : Scheduler τ) : List (Posting τ) :=
  Posting.retimed .sample none s.samplePeriod ++ Posting.retimed .timer none s.timerPeriod

/-- What is written down about an order. -/
def entriesOf (s : Scheduler τ) : Order τ → List (Posting τ)
  | .timerPeriod period => Posting.retimed .timer s.timerPeriod (some period)
  | .stopTimer => Posting.retimed .timer s.timerPeriod none
  | .audioRate rate => Posting.retimed .sample s.samplePeriod (periodOfRate? rate)
  | .overclock _ => []
  | .reset => s.reset.opening ++ [.reset]

/-- The cycles that the next piece owes to the processor. -/
def owed (host : Host σ τ) (s : Scheduler τ) (x : σ) : τ :=
  s.drift + s.pieceLength * cyclesPerNanosecond * ofNat (s.speed host x)

/-- The cycles that the processor is asked for in the next piece. -/
def asked (host : Host σ τ) (s : Scheduler τ) (x : σ) : Nat :=
  if atMost (ofNat 1) (s.owed host x) then count (Duration.floor (s.owed host x)) else 0

/-- A piece up to its ticks: the scheduler and the host before the host tells of a change. -/
def settled (host : Host σ τ) (s : Scheduler τ) (x : σ) : Scheduler τ × σ :=
  let length := s.pieceLength
  let (_, s, x) := runCpu host s x length
  let s := { s with pending := s.pending - length }
  let (_, s, x) := passSample host s x length
  let (_, s, x) := passTimer host s x length
  (s, x)

/-- The change of which the host tells at the end of a piece. -/
def update (host : Host σ τ) (s : Scheduler τ) (x : σ) : Option (TimerUpdate τ) :=
  (host.timerUpdate (s.settled host x).2).1

/-- A countdown ticks if nothing is left of it after so much time. -/
def tick (s : Scheduler τ) (length : τ) (c : Countdown) : List (Posting τ) :=
  match s.period? c with
  | some period => if atMost (s.left c - length) (ofNat 0) then [.ticked c period] else []
  | none => []

/-- What is left of a countdown after so much time. -/
def leftAfter (s : Scheduler τ) (length : τ) (c : Countdown) : τ :=
  match s.period? c with
  | some period => if atMost (s.left c - length) (ofNat 0) then period else s.left c - length
  | none => s.left c

/-- What is written down about a piece, up to its ticks. -/
def entriesOfRun (host : Host σ τ) (s : Scheduler τ) (x : σ) : List (Posting τ) :=
  s.tick s.pieceLength .timer ++ (s.tick s.pieceLength .sample ++
    [.ran s.pieceLength s.overclock (host.multiplier x) (s.asked host x)
      (s.runCpu host x s.pieceLength).1])

/-- What is written down about a piece. -/
def entriesOfPiece (host : Host σ τ) (s : Scheduler τ) (x : σ) : List (Posting τ) :=
  ((s.update host x).elim [] fun u => (s.settled host x).1.entriesOf (.ofUpdate u)) ++
    s.entriesOfRun host x

end Scheduler

/-- The schedulers and hosts that come of calls, orders and pieces, each with its ledger. -/
inductive Course {σ τ : Type} [Duration τ] (host : Host σ τ) (s₀ : Scheduler τ) (x₀ : σ) :
    Scheduler τ → σ → List (Posting τ) → Prop
  | start : Course host s₀ x₀ s₀ x₀ s₀.opening
  | give {s : Scheduler τ} {x : σ} {log : List (Posting τ)} (h : Course host s₀ x₀ s x log)
      (time : τ) :
      Course host s₀ x₀ { s with pending := s.pending + time } x (.given time :: log)
  | order {s : Scheduler τ} {x : σ} {log : List (Posting τ)} (h : Course host s₀ x₀ s x log)
      (o : Order τ) : Course host s₀ x₀ (o.apply s) x (s.entriesOf o ++ log)
  | piece {s : Scheduler τ} {x : σ} {log : List (Posting τ)} (h : Course host s₀ x₀ s x log)
      (hd : s.due = true) :
      Course host s₀ x₀ (s.piece host x).scheduler (s.piece host x).host
        (s.entriesOfPiece host x ++ log)

/-! ### Sums -/

namespace Ledger

variable {τ : Type}

theorem tally_append (newer older : List (Posting τ)) :
    tally (newer ++ older) = tally older + tally newer := by
  ext
  · show ((newer ++ older).map Posting.used).sum = _
    rw [List.map_append, List.sum_append, Nat.add_comm]
    rfl
  · show (newer ++ older).countP _ = _
    rw [List.countP_append, Nat.add_comm]
    rfl
  · show (newer ++ older).countP _ = _
    rw [List.countP_append, Nat.add_comm]
    rfl

end Ledger

/-! ### What a piece does -/

namespace Scheduler

open Duration

section

variable {σ τ : Type} [Duration τ] (host : Host σ τ) (s : Scheduler τ) (x : σ) (length : τ)

theorem runCpu_eq : (s.runCpu host x length).2.1 =
    { s with drift := (s.runCpu host x length).2.1.drift } := by
  unfold runCpu
  dsimp only
  split <;> rfl

theorem host_runCpu : (s.runCpu host x s.pieceLength).2.2 =
    if atMost (ofNat 1) (s.owed host x) then (host.runCpu (min (s.asked host x) maxCycles) x).2
    else x := by
  by_cases ho : atMost (ofNat 1) (s.owed host x) = true
  · rw [if_pos ho, asked, if_pos ho]
    unfold owed at ho ⊢
    unfold runCpu
    dsimp only
    rw [if_pos ho]
  · rw [if_neg ho]
    unfold owed at ho
    unfold runCpu
    dsimp only
    rw [if_neg ho]

theorem passSample_eq : (s.passSample host x length).2.1 =
    { s with untilSample := s.leftAfter length .sample } := by
  obtain ⟨drift, pending, timerPeriod, untilTimer, samplePeriod, untilSample, overclock⟩ := s
  cases samplePeriod with
  | none => rfl
  | some period =>
    cases hl : atMost (untilSample - length) (ofNat 0) <;>
      simp [passSample, leftAfter, period?, left, hl]

theorem passTimer_eq : (s.passTimer host x length).2.1 =
    { s with untilTimer := s.leftAfter length .timer } := by
  obtain ⟨drift, pending, timerPeriod, untilTimer, samplePeriod, untilSample, overclock⟩ := s
  cases timerPeriod with
  | none => rfl
  | some period =>
    cases hl : atMost (untilTimer - length) (ofNat 0) <;>
      simp [passTimer, leftAfter, period?, left, hl]

theorem passSample_fst :
    (s.passSample host x length).1 = Ledger.ticks .sample (s.tick length .sample) := by
  cases hp : s.samplePeriod with
  | none => simp [passSample, tick, period?, hp, Ledger.ticks]
  | some period =>
    cases hl : atMost (s.untilSample - length) (ofNat 0) <;>
      simp [passSample, tick, period?, left, hp, hl, Ledger.ticks, Posting.ticks]

theorem passTimer_fst :
    (s.passTimer host x length).1 = Ledger.ticks .timer (s.tick length .timer) := by
  cases hp : s.timerPeriod with
  | none => simp [passTimer, tick, period?, hp, Ledger.ticks]
  | some period =>
    cases hl : atMost (s.untilTimer - length) (ofNat 0) <;>
      simp [passTimer, tick, period?, left, hp, hl, Ledger.ticks, Posting.ticks]

/-- A piece up to its ticks changes the drift, the time that is pending and the countdowns. -/
theorem settled_fst : (s.settled host x).1 =
    { s with
      drift := (s.runCpu host x s.pieceLength).2.1.drift
      pending := s.pending - s.pieceLength
      untilSample := s.leftAfter s.pieceLength .sample
      untilTimer := s.leftAfter s.pieceLength .timer } := by
  unfold settled
  dsimp only
  rw [passTimer_eq, passSample_eq, runCpu_eq]
  rfl

/-- What running the processor leaves, and what taking samples and expiries keep, a piece leaves up
to its ticks. -/
theorem settled_kept_of_run {P : σ → Prop} (hs : ∀ x, P x → P (host.sample x))
    (ht : ∀ x, P x → P (host.timerExpired x)) (h : P (s.runCpu host x s.pieceLength).2.2) :
    P (s.settled host x).2 := by
  have hs : ∀ (s : Scheduler τ) (x : σ) (length : τ), P x → P (s.passSample host x length).2.2 := by
    intro s x length h
    unfold passSample
    split
    · exact h
    · dsimp only
      split
      · exact hs x h
      · exact h
  have ht : ∀ (s : Scheduler τ) (x : σ) (length : τ), P x → P (s.passTimer host x length).2.2 := by
    intro s x length h
    unfold passTimer
    split
    · exact h
    · dsimp only
      split
      · exact ht x h
      · exact h
  exact ht _ _ _ (hs _ _ _ h)

/-- Up to its ticks a piece keeps what running the processor, taking samples and expiries keep. -/
theorem settled_kept {P : σ → Prop} (hr : ∀ x, P x → ∀ budget, P (host.runCpu budget x).2)
    (hs : ∀ x, P x → P (host.sample x)) (ht : ∀ x, P x → P (host.timerExpired x)) (h : P x) :
    P (s.settled host x).2 := by
  refine settled_kept_of_run host s x hs ht ?_
  unfold runCpu
  dsimp only
  split
  · exact hr x h _
  · exact h

theorem scheduler_piece : (s.piece host x).scheduler =
    (s.settled host x).1.updateTimer (s.update host x) := rfl

theorem period?_settled (c : Countdown) : (s.settled host x).1.period? c = s.period? c := by
  rw [settled_fst]
  cases c <;> rfl

theorem left_settled (c : Countdown) :
    (s.settled host x).1.left c = s.leftAfter s.pieceLength c := by
  rw [settled_fst]
  cases c <;> rfl

/-- The change of which the host tells is an order. -/
theorem updateTimer_eq_apply (u : TimerUpdate τ) :
    s.updateTimer (some u) = (Order.ofUpdate u).apply s := by
  cases u <;> rfl

theorem tally_tick (c : Countdown) : Ledger.tally (s.tick length c) =
    ⟨0, if c = .timer then Ledger.ticks c (s.tick length c) else 0,
      if c = .sample then Ledger.ticks c (s.tick length c) else 0⟩ := by
  unfold tick
  cases s.period? c with
  | none => cases c <;> rfl
  | some period =>
    dsimp only
    split <;> cases c <;> rfl

theorem tally_entriesOf_update (o : TimerUpdate τ) :
    Ledger.tally (s.entriesOf (.ofUpdate o)) = ⟨0, 0, 0⟩ := by
  obtain ⟨drift, pending, timerPeriod, untilTimer, samplePeriod, untilSample, overclock⟩ := s
  cases o <;> cases timerPeriod <;> rfl

theorem tally_entriesOfRun : Ledger.tally (s.entriesOfRun host x) =
    ⟨(s.runCpu host x s.pieceLength).1, Ledger.ticks .timer (s.tick s.pieceLength .timer),
      Ledger.ticks .sample (s.tick s.pieceLength .sample)⟩ := by
  unfold entriesOfRun
  rw [Ledger.tally_append, Ledger.tally_append, tally_tick, tally_tick]
  ext
  · rfl
  · exact Nat.zero_add _
  · exact Nat.zero_add _

/-- A piece tells what is written down about it. -/
theorem events_piece : (s.piece host x).events = (Ledger.tally (s.entriesOfPiece host x)).told := by
  have hr : (Ledger.tally (s.entriesOfRun host x)).told = (s.piece host x).events := by
    rw [tally_entriesOfRun]
    unfold piece
    dsimp only
    rw [passTimer_fst, passSample_fst, passSample_eq, runCpu_eq]
    rfl
  unfold entriesOfPiece
  rw [Ledger.tally_append, Tally.told_add, hr]
  cases s.update host x with
  | none => exact (add_zero _).symm
  | some u =>
    show _ = (s.piece host x).events +
      (Ledger.tally ((s.settled host x).1.entriesOf (.ofUpdate u))).told
    rw [tally_entriesOf_update]
    exact (add_zero _).symm

end

end Scheduler

end ColorComputer
