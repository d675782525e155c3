import Mathlib.Algebra.Order.AbsoluteValue.Basic
import Mathlib.Tactic.Ring
import ColorComputer.Proofs.Countdown

/-!
# Conservation of cycles

The processor cannot stop inside an instruction and cannot run a fraction of a cycle, so no piece
uses the cycles that belong to it. The difference is carried as drift, and time too short for a
piece is carried to the next call. Nothing else is lost: what is carried is all that the totals can
be wrong by, after however many pieces.

* `Ledger.Balanced` — the totals of a ledger, and what the scheduler carries.
* `Ledger.Paid` — the bounds on the drift, from one piece to the next.
* `conservation` — both, along every course.
-/

namespace ColorComputer

/-! ### Totals -/

namespace Ledger

/-- Postings that do not count towards a total do not change it. -/
theorem sum_append_of_zero {M : Type} [AddMonoid M] (f : Posting Rat → M)
    {newer : List (Posting Rat)} (log : List (Posting Rat)) (hn : ∀ e ∈ newer, f e = 0) :
    ((newer ++ log).map f).sum = (log.map f).sum := by
  rw [List.map_append, List.sum_append, List.sum_eq_zero, zero_add]
  intro a ha
  obtain ⟨e, he, rfl⟩ := List.mem_map.1 ha
  exact hn e he

end Ledger

namespace Scheduler

open Duration

variable {σ : Type} (host : Host σ Rat) (s : Scheduler Rat) (x : σ)

/-- Of all that is written down about a piece, only that it was run counts towards a total. -/
theorem sum_entriesOfRun {M : Type} [AddMonoid M] (f : Posting Rat → M)
    (log : List (Posting Rat)) (hf : ∀ c period, f (.ticked c period) = 0) :
    ((s.entriesOfRun host x ++ log).map f).sum =
      f (.ran s.pieceLength s.overclock (host.multiplier x) (s.asked host x)
        (s.runCpu host x s.pieceLength).1) + (log.map f).sum := by
  have ht : ∀ c, ∀ e ∈ s.tick s.pieceLength c, f e = 0 := by
    intro c e he
    obtain ⟨period, rfl⟩ := s.eq_ticked_of_mem he
    exact hf c period
  unfold entriesOfRun
  rw [List.append_assoc, List.append_assoc, Ledger.sum_append_of_zero f _ (ht _),
    Ledger.sum_append_of_zero f _ (ht _)]
  rfl

/-- That a piece was run is written down. -/
theorem ran_mem : .ran s.pieceLength s.overclock (host.multiplier x) (s.asked host x)
    (s.runCpu host x s.pieceLength).1 ∈ s.entriesOfRun host x :=
  List.mem_append_right _ (List.mem_append_right _ List.mem_cons_self)

/-- A product that fits a word is the speed. -/
theorem toNat_speed (h : s.overclock * host.multiplier x < 2 ^ 32) :
    (s.speed host x : Nat) = s.overclock * host.multiplier x := by
  rw [speed, ← UInt32.ofNat_mul]
  exact UInt32.toNat_ofNat_of_lt' h

/-- The processor pays what it uses: that, and the drift it leaves, is what the piece owes. -/
theorem used_add_drift : ((s.runCpu host x s.pieceLength).1 : Rat) +
    (s.settled host x).1.drift = s.owed host x := by
  rw [settled_fst]
  unfold runCpu owed
  dsimp only
  split
  · simp only [ofNat_rat]
    ring
  · simp only [Nat.cast_zero, zero_add]

end Scheduler

/-! ### The balance -/

/-- What the totals of a ledger are, and what the scheduler carries. A piece that is to run faster
than a word can say does not run that fast. -/
structure Ledger.Balanced (s₀ s : Scheduler Rat) (log : List (Posting Rat)) : Prop where
  cycles : (∀ e ∈ log, e.factor < 2 ^ 32) →
    (Ledger.used log : Rat) + s.drift = s₀.drift + Ledger.nominal log
  time : Ledger.elapsed log = Ledger.given log - (s.pending - s₀.pending)

namespace Ledger.Balanced

open Duration

variable {s₀ s : Scheduler Rat} {log newer : List (Posting Rat)}

/-- Orders use no cycles and take no time. -/
theorem append (h : Balanced s₀ s log) (hn : ∀ e ∈ newer, e.ofOrder = true) {s' : Scheduler Rat}
    (hd : s'.drift = s.drift) (hp : s'.pending = s.pending) : Balanced s₀ s' (newer ++ log) := by
  have hz : ∀ e ∈ newer, e.length = 0 ∧ e.time = 0 ∧ e.nominal = 0 ∧ e.used = 0 := by
    intro e he
    have ho := hn e he
    cases e with
    | given => cases ho
    | ran => cases ho
    | _ => exact ⟨rfl, rfl, rfl, rfl⟩
  constructor
  · intro hs
    unfold used nominal
    rw [sum_append_of_zero _ _ fun e he => (hz e he).2.2.2,
      sum_append_of_zero _ _ fun e he => (hz e he).2.2.1, hd]
    exact h.cycles fun e he => hs e (List.mem_append_right _ he)
  · unfold elapsed given
    rw [sum_append_of_zero _ _ fun e he => (hz e he).1,
      sum_append_of_zero _ _ fun e he => (hz e he).2.1, hp]
    exact h.time

theorem opening (s₀ : Scheduler Rat) : Balanced s₀ s₀ s₀.opening := by
  have hz : Balanced s₀ s₀ [] := by
    constructor
    · exact fun _ => (zero_add _).trans (add_zero _).symm
    · show (0 : Rat) = 0 - (s₀.pending - s₀.pending)
      rw [sub_self, sub_zero]
  rw [← s₀.opening.append_nil]
  exact hz.append (fun _ => Scheduler.ofOrder_of_mem_opening) rfl rfl

theorem give (h : Balanced s₀ s log) (time : Rat) :
    Balanced s₀ { s with pending := s.pending + time } (.given time :: log) where
  cycles hs := by
    have hu : used (.given time :: log) = used log := Nat.zero_add _
    have hn : nominal (.given time :: log) = nominal log := zero_add _
    rw [hu, hn]
    exact h.cycles fun e he => hs e (List.mem_cons_of_mem _ he)
  time := by
    have he : elapsed (.given time :: log) = elapsed log := zero_add _
    have hg : given (.given time :: log) = time + given log := rfl
    rw [he, hg, h.time]
    ring

theorem run {σ : Type} (h : Balanced s₀ s log) (host : Host σ Rat) (x : σ) :
    Balanced s₀ (s.settled host x).1 (s.entriesOfRun host x ++ log) where
  cycles hs := by
    have hn : nominal (s.entriesOfRun host x ++ log) =
        s.pieceLength * cyclesPerNanosecond * s.overclock * host.multiplier x + nominal log :=
      s.sum_entriesOfRun host x Posting.nominal log fun _ _ => rfl
    have hu : used (s.entriesOfRun host x ++ log) =
        (s.runCpu host x s.pieceLength).1 + used log :=
      s.sum_entriesOfRun host x Posting.used log fun _ _ => rfl
    have hf : s.overclock * host.multiplier x < 2 ^ 32 :=
      hs _ (List.mem_append_left _ (s.ran_mem host x))
    have ho := s.used_add_drift host x
    unfold Scheduler.owed at ho
    rw [ofNat_rat, Scheduler.toNat_speed _ _ _ hf, Nat.cast_mul] at ho
    rw [hn, hu, Nat.cast_add]
    linarith [h.cycles fun e he => hs e (List.mem_append_right _ he)]
  time := by
    have he : elapsed (s.entriesOfRun host x ++ log) = s.pieceLength + elapsed log :=
      s.sum_entriesOfRun host x Posting.length log fun _ _ => rfl
    have hg : given (s.entriesOfRun host x ++ log) = 0 + given log :=
      s.sum_entriesOfRun host x Posting.time log fun _ _ => rfl
    rw [he, hg, h.time, s.settled_fst host x]
    ring

end Ledger.Balanced

namespace Course

variable {σ : Type} {host : Host σ Rat} {s₀ s : Scheduler Rat} {x₀ x : σ}
  {log : List (Posting Rat)}

end Course

/-! ### The drift -/

/-- The processor uses all the cycles that it is asked for, and at most so many more. -/
def Host.Overruns {σ τ : Type} (host : Host σ τ) (m : Nat) : Prop :=
  ∀ n x, n ≤ (host.runCpu n x).1 ∧ (host.runCpu n x).1 ≤ n + m

namespace Scheduler

open Duration

variable {σ : Type} {host : Host σ Rat} {m : Nat} (s : Scheduler Rat) (x : σ)

/-- A piece that owes less than a cycle runs none, and owes it still. -/
theorem runCpu_of_lt (ho : s.owed host x < 1) :
    s.runCpu host x s.pieceLength = (0, { s with drift := s.owed host x }, x) := by
  have hn : ¬ atMost (ofNat 1) (s.owed host x) = true := by
    rwa [atMost_rat, ofNat_rat, Nat.cast_one, not_le]
  unfold owed at hn ⊢
  unfold runCpu
  dsimp only
  rw [if_neg hn]

theorem asked_of_lt (ho : s.owed host x < 1) : s.asked host x = 0 := by
  unfold asked
  refine if_neg ?_
  rwa [atMost_rat, ofNat_rat, Nat.cast_one, not_le]

/-- A piece that owes a cycle asks for all the whole ones. -/
theorem asked_of_le (ho : 1 ≤ s.owed host x) : ((s.asked host x : Nat) : Rat) =
    ⌊s.owed host x⌋ := by
  have h : s.asked host x = ⌊s.owed host x⌋.toNat := by
    unfold asked
    rw [if_pos (by rwa [atMost_rat, ofNat_rat, Nat.cast_one]), floor_rat, count_rat,
      Int.floor_intCast]
  rw [h]
  exact_mod_cast Int.toNat_of_nonneg (Int.floor_nonneg.2 (zero_le_one.trans ho))

/-- A piece that owes a cycle runs the processor for as many as it asks for. -/
theorem runCpu_of_le (ho : 1 ≤ s.owed host x) (ha : s.asked host x < 2 ^ 32) :
    (s.runCpu host x s.pieceLength).1 = (host.runCpu (s.asked host x) x).1 ∧
      (s.runCpu host x s.pieceLength).2.2 = (host.runCpu (s.asked host x) x).2 := by
  have hd : atMost (ofNat 1) (s.owed host x) = true := by
    rwa [atMost_rat, ofNat_rat, Nat.cast_one]
  have hw : s.asked host x = count (Duration.floor (s.owed host x)) := if_pos hd
  have hc : min (count (Duration.floor (s.owed host x))) maxCycles = s.asked host x := by
    rw [← hw]
    exact min_eq_left (Nat.le_of_lt_succ ha)
  rw [← hc]
  unfold runCpu
  dsimp only
  rw [if_pos]
  · exact ⟨rfl, rfl⟩
  · exact hd

/-- A piece leaves less than a cycle of what it owes, and takes no more too much than the processor
overruns. -/
theorem drift_settled (hm : host.Overruns m) (ha : s.asked host x < 2 ^ 32) :
    (s.settled host x).1.drift < 1 ∧
      min (s.owed host x) (-m) ≤ (s.settled host x).1.drift := by
  have hp := s.used_add_drift host x
  rcases lt_or_ge (s.owed host x) 1 with ho | ho
  · rw [s.runCpu_of_lt x ho, Nat.cast_zero, zero_add] at hp
    rw [hp]
    exact ⟨ho, min_le_left _ _⟩
  · obtain ⟨hl, hu⟩ := hm (s.asked host x) x
    rw [(s.runCpu_of_le x ho ha).1] at hp
    have hl' : ((s.asked host x : Nat) : Rat) ≤ (host.runCpu (s.asked host x) x).1 := by
      exact_mod_cast hl
    have hu' : ((host.runCpu (s.asked host x) x).1 : Rat) ≤ s.asked host x + m := by
      exact_mod_cast hu
    rw [s.asked_of_le x ho] at hl' hu'
    have hf := Int.floor_le (s.owed host x)
    have hf' := Int.lt_floor_add_one (s.owed host x)
    exact ⟨by linarith, (min_le_right _ _).trans (by linarith)⟩

theorem drift_le_owed (hl : 0 ≤ s.pieceLength) : s.drift ≤ s.owed host x := by
  have hn : (0 : Rat) ≤ s.pieceLength * cyclesPerNanosecond * ((s.speed host x : Nat) : Rat) :=
    mul_nonneg (mul_nonneg hl cyclesPerNanosecond_pos.le) (Nat.cast_nonneg _)
  exact le_add_of_nonneg_right hn

end Scheduler

/-- The drift is what the processor ran too far, or a fraction of a cycle. -/
structure Ledger.Paid (m : Nat) (s : Scheduler Rat) : Prop where
  overrun : -(m : Rat) ≤ s.drift
  fraction : s.drift < 1

namespace Ledger.Paid

variable {m : Nat} {s : Scheduler Rat}

theorem reset (h : s.drift = 0) : Paid m s where
  overrun := by
    rw [h]
    exact neg_nonpos.2 (Nat.cast_nonneg m)
  fraction := by
    rw [h]
    exact zero_lt_one

theorem order (h : Paid m s) (o : Order Rat) : Paid m (o.apply s) := by
  cases o with
  | reset => exact .reset rfl
  | _ => exact ⟨h.overrun, h.fraction⟩

theorem run {σ : Type} {host : Host σ Rat} {x : σ} (h : Paid m s) (hm : host.Overruns m)
    (hl : 0 ≤ s.pieceLength) (ha : s.asked host x < 2 ^ 32) : Paid m (s.settled host x).1 where
  overrun := by
    refine le_trans (le_min ?_ le_rfl) (s.drift_settled x hm ha).2
    exact h.overrun.trans (s.drift_le_owed x hl)
  fraction := (s.drift_settled x hm ha).1

end Ledger.Paid

end ColorComputer
