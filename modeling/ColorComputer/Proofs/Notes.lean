import ColorComputer.Proofs.Countdown

/-!
# The calls to a host

A host that writes down every call to it is driven as if it did not. What it writes down in a piece
is what the ledger of its scheduler says of the piece: a sample is taken, and the timer expires,
where a countdown ticks.

* `HostCall` — a call of the scheduler to its host.
* `Host.noting` — the host that writes down every call.
* `piece_noting` — what it writes down in a piece.
* `Course.noting` — along a course it is called for every tick of the ledger, and in their order.
-/

namespace ColorComputer

/-! ### Calls -/

/-- A call of the scheduler to its host. -/
inductive HostCall (τ : Type)
  /-- The processor ran for a budget and used so many cycles. -/
  | ran (budget used : Nat)
  /-- A sample was taken. -/
  | sampled
  /-- The timer expired. -/
  | expired
  /-- The host was asked for a change of the timer. -/
  | asked (update : Option (TimerUpdate τ))

namespace HostCall

variable {τ : Type}

/-- The place of a call within a piece. -/
def rank : HostCall τ → Nat
  | ran _ _ => 0
  | sampled => 1
  | expired => 2
  | asked _ => 3

/-- The cycles that the processor told it used. -/
def used : HostCall τ → Nat
  | ran _ used => used
  | _ => 0

def isSampled : HostCall τ → Bool
  | sampled => true
  | _ => false

def isExpired : HostCall τ → Bool
  | expired => true
  | _ => false

/-- What calls come to: the sum of the cycles used, the expiries and the samples. -/
def tally (calls : List (HostCall τ)) : Tally :=
  ⟨(calls.map used).sum, calls.countP isExpired, calls.countP isSampled⟩

theorem tally_append (calls more : List (HostCall τ)) :
    tally (calls ++ more) = tally calls + tally more := by
  ext
  · show ((calls ++ more).map used).sum = _
    rw [List.map_append, List.sum_append]
    rfl
  · exact List.countP_append
  · exact List.countP_append

/-- The countdown at whose tick a host is called so. -/
def tick? : HostCall τ → Option Countdown
  | sampled => some .sample
  | expired => some .timer
  | _ => none

end HostCall

/-- The countdown that ticked. -/
def Posting.tick? {τ : Type} : Posting τ → Option Countdown
  | ticked c _ => some c
  | _ => none

/-- The host that writes down every call to it, the latest last. -/
def Host.noting {σ τ : Type} (host : Host σ τ) : Host (σ × List (HostCall τ)) τ where
  runCpu budget x :=
    ((host.runCpu budget x.1).1, (host.runCpu budget x.1).2,
      x.2 ++ [.ran budget (host.runCpu budget x.1).1])
  sample x := (host.sample x.1, x.2 ++ [.sampled])
  timerExpired x := (host.timerExpired x.1, x.2 ++ [.expired])
  timerUpdate x :=
    ((host.timerUpdate x.1).1, (host.timerUpdate x.1).2, x.2 ++ [.asked (host.timerUpdate x.1).1])
  multiplier x := host.multiplier x.1

/-! ### Pieces -/

namespace Scheduler

variable {σ τ : Type} [Duration τ] (host : Host σ τ) (s : Scheduler τ) (x : σ)

/-- The calls of a piece up to its ticks: the processor runs if it is owed a cycle, then comes the
sample if it is due, then the expiry if it is due. -/
def callsOfRun : List (HostCall τ) :=
  (if Duration.atMost (Duration.ofNat 1) (s.owed host x) then
    [.ran (min (s.asked host x) maxCycles) (s.runCpu host x s.pieceLength).1] else []) ++
  (s.tick s.pieceLength .sample).map (fun _ => .sampled) ++
  (s.tick s.pieceLength .timer).map fun _ => .expired

/-- The calls of a piece. Last the host is asked for a change of the timer. -/
def calls : List (HostCall τ) := s.callsOfRun host x ++ [.asked (s.update host x)]

/-! What is written down in each part of a piece. -/

theorem runCpu_noting (log : List (HostCall τ)) :
    s.runCpu host.noting (x, log) s.pieceLength =
      ((s.runCpu host x s.pieceLength).1, (s.runCpu host x s.pieceLength).2.1,
        (s.runCpu host x s.pieceLength).2.2,
        log ++ if Duration.atMost (Duration.ofNat 1) (s.owed host x) then
          [.ran (min (s.asked host x) maxCycles) (s.runCpu host x s.pieceLength).1] else []) := by
  have hs : s.speed host.noting (x, log) = s.speed host x := rfl
  by_cases ho : Duration.atMost (Duration.ofNat 1) (s.owed host x) = true
  · rw [asked, if_pos ho, if_pos ho]
    unfold owed at ho ⊢
    simp only [runCpu, hs, ho, if_true]
    rfl
  · rw [if_neg ho, List.append_nil]
    unfold owed at ho
    simp only [runCpu, hs, ho]
    rfl

theorem passSample_noting (length : τ) (log : List (HostCall τ)) :
    s.passSample host.noting (x, log) length =
      ((s.passSample host x length).1, (s.passSample host x length).2.1,
        (s.passSample host x length).2.2,
        log ++ (s.tick length .sample).map fun _ => .sampled) := by
  cases hp : s.samplePeriod with
  | none => simp [passSample, tick, period?, hp]
  | some period =>
    cases hl : Duration.atMost (s.untilSample - length) (Duration.ofNat 0) <;>
      simp [passSample, tick, period?, left, hp, hl, Host.noting]

theorem passTimer_noting (length : τ) (log : List (HostCall τ)) :
    s.passTimer host.noting (x, log) length =
      ((s.passTimer host x length).1, (s.passTimer host x length).2.1,
        (s.passTimer host x length).2.2,
        log ++ (s.tick length .timer).map fun _ => .expired) := by
  cases hp : s.timerPeriod with
  | none => simp [passTimer, tick, period?, hp]
  | some period =>
    cases hl : Duration.atMost (s.untilTimer - length) (Duration.ofNat 0) <;>
      simp [passTimer, tick, period?, left, hp, hl, Host.noting]

theorem settled_noting (log : List (HostCall τ)) : s.settled host.noting (x, log) =
    ((s.settled host x).1, (s.settled host x).2, log ++ s.callsOfRun host x) := by
  let length := s.pieceLength
  let ran := s.runCpu host x length
  let s1 : Scheduler τ := { ran.2.1 with pending := ran.2.1.pending - length }
  -- the countdowns tick as they would have at the start of the piece
  have h1 : s1 = { s with drift := s1.drift, pending := s1.pending } :=
    congrArg (fun t : Scheduler τ => { t with pending := s1.pending }) (s.runCpu_eq host x length)
  have hs : s1.tick length .sample = s.tick length .sample := by
    rw [h1]
    rfl
  have ht : (s1.passSample host ran.2.2 length).2.1.tick length .timer = s.tick length .timer := by
    rw [passSample_eq, h1]
    rfl
  have hn : s.settled host.noting (x, log) = ((s.settled host x).1, (s.settled host x).2,
      log ++ (if Duration.atMost (Duration.ofNat 1) (s.owed host x) then
        [.ran (min (s.asked host x) maxCycles) ran.1] else []) ++
        (s1.tick length .sample).map (fun _ => .sampled) ++
        ((s1.passSample host ran.2.2 length).2.1.tick length .timer).map fun _ => .expired) := by
    unfold settled
    dsimp only
    rw [runCpu_noting]
    dsimp only
    rw [passSample_noting]
    dsimp only
    rw [passTimer_noting]
  rw [hn, hs, ht, callsOfRun, ← List.append_assoc, ← List.append_assoc]

theorem update_noting (log : List (HostCall τ)) :
    s.update host.noting (x, log) = s.update host x := by
  unfold update
  rw [settled_noting]
  rfl

/-- The ledger does not know whether the host writes anything down. -/
theorem entriesOfPiece_noting (log : List (HostCall τ)) :
    s.entriesOfPiece host.noting (x, log) = s.entriesOfPiece host x := by
  have ha : s.asked host.noting (x, log) = s.asked host x := rfl
  have hm : host.noting.multiplier (x, log) = host.multiplier x := rfl
  unfold entriesOfPiece entriesOfRun
  rw [update_noting, settled_noting, runCpu_noting, ha, hm]

/-- In a piece its calls are written down. -/
theorem piece_noting (log : List (HostCall τ)) :
    s.piece host.noting (x, log) = ⟨(s.piece host x).events, (s.piece host x).scheduler,
      (s.piece host x).host, log ++ s.calls host x⟩ := by
  have he : (s.piece host.noting (x, log)).events = (s.piece host x).events := by
    rw [events_piece, events_piece, entriesOfPiece_noting]
  have hs : (s.piece host.noting (x, log)).scheduler = (s.piece host x).scheduler := by
    rw [scheduler_piece, scheduler_piece, settled_noting, update_noting]
  have hx : (s.piece host.noting (x, log)).host =
      ((s.piece host x).host, log ++ s.calls host x) := by
    show (host.noting.timerUpdate (s.settled host.noting (x, log)).2).2 = _
    rw [settled_noting, calls, ← List.append_assoc]
    rfl
  rw [← he, ← hs, ← hx]

theorem tick_cases (length : τ) (c : Countdown) : s.tick length c = [] ∨
    (s.period? c).isSome ∧ ∃ period, s.tick length c = [.ticked c period] := by
  unfold tick
  cases s.period? c with
  | none => exact .inl rfl
  | some period =>
    dsimp only
    split
    · exact .inr ⟨rfl, period, rfl⟩
    · exact .inl rfl

/-- The host is called for the ticks of a piece, the sample first. -/
theorem ticks_callsOfRun : (s.callsOfRun host x).filterMap HostCall.tick? =
    ((s.entriesOfRun host x).filterMap Posting.tick?).reverse := by
  have hr : (if Duration.atMost (Duration.ofNat 1) (s.owed host x) then
      [HostCall.ran (min (s.asked host x) maxCycles) (s.runCpu host x s.pieceLength).1]
      else []).filterMap (HostCall.tick? (τ := τ)) = [] := by
    split <;> rfl
  have ht : ∀ c (call : HostCall τ), call.tick? = some c →
      ((s.tick s.pieceLength c).map fun _ => call).filterMap HostCall.tick? =
        ((s.tick s.pieceLength c).filterMap Posting.tick?).reverse := by
    intro c call hc
    rcases s.tick_cases s.pieceLength c with h | ⟨-, period, h⟩
    · rw [h]
      rfl
    · rw [h]
      exact List.filterMap_cons_some hc
  unfold callsOfRun entriesOfRun
  rw [List.filterMap_append, List.filterMap_append, hr, ht .sample _ rfl, ht .timer _ rfl,
    List.filterMap_append, List.filterMap_append, List.reverse_append, List.reverse_append]
  rfl

end Scheduler

/-! ### Courses -/

namespace Course

variable {σ : Type} {host : Host σ Rat} {s₀ s : Scheduler Rat} {x₀ x : σ}
  {log : List (Posting Rat)}

/-- No order is a tick. -/
theorem ticks_of_ofOrder {entries : List (Posting Rat)} (h : ∀ e ∈ entries, e.ofOrder = true) :
    entries.filterMap Posting.tick? = [] := by
  refine List.filterMap_eq_nil_iff.2 fun e he => ?_
  have ho := h e he
  cases e with
  | ticked => cases ho
  | _ => rfl

/-- The host is called to take a sample, and to let the timer expire, for every tick in the ledger,
and in the order of the ticks. -/
theorem noting (h : Course host s₀ x₀ s x log) :
    ∃ calls, Course host.noting s₀ (x₀, []) s (x, calls) log ∧
      calls.filterMap HostCall.tick? = (log.filterMap Posting.tick?).reverse := by
  induction h with
  | start =>
    refine ⟨[], .start, ?_⟩
    rw [ticks_of_ofOrder fun _ => Scheduler.ofOrder_of_mem_opening]
    rfl
  | give _ time ih =>
    obtain ⟨calls, hc, ht⟩ := ih
    exact ⟨calls, hc.give time, ht⟩
  | order _ o ih =>
    obtain ⟨calls, hc, ht⟩ := ih
    refine ⟨calls, hc.order o, ?_⟩
    rw [List.filterMap_append, ticks_of_ofOrder fun _ => Scheduler.ofOrder_of_mem]
    exact ht
  | @piece s x log _ hd ih =>
    obtain ⟨calls, hc, ht⟩ := ih
    have hp := hc.piece hd
    rw [Scheduler.piece_noting, Scheduler.entriesOfPiece_noting] at hp
    refine ⟨calls ++ s.calls host x, hp, ?_⟩
    have hu : ((s.update host x).elim [] fun u =>
        (s.settled host x).1.entriesOf (.ofUpdate u)).filterMap Posting.tick? = [] := by
      cases s.update host x with
      | none => rfl
      | some u => exact ticks_of_ofOrder fun _ => Scheduler.ofOrder_of_mem
    rw [List.filterMap_append, ht, Scheduler.calls, List.filterMap_append,
      Scheduler.ticks_callsOfRun, Scheduler.entriesOfPiece, List.filterMap_append,
      List.filterMap_append, hu, List.nil_append, List.reverse_append]
    exact congrArg _ (List.append_nil _)

end Course

end ColorComputer
