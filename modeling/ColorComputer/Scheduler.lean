import ColorComputer.Chip.Gime

/-!
# The scheduler

Time given to the machine is cut into pieces: a piece ends where the time ends, where the next
sample is due, or where the timer expires, whichever comes first. In each piece the processor runs,
then the sample is taken if it is due, then the timer expires if it is due, and last the host tells
of a change to the timer. The processor finishes whole instructions, so it may run too far; what it
ran too far, and the fraction of a cycle not run, is carried as drift. Time shorter than a
nanosecond is left for the next call.

What is told of a stretch of time, and how much faster the processor runs, are words: what does not
fit is lost. A build that checks its arithmetic stops there instead.

* `pieces_of_not_due`: nothing happens while less than a nanosecond is pending.
* `pieces_succ`: otherwise one piece is run, and then the pieces after it.
* `run_of_toEnd?`: time that ends is run to its end, in however many pieces.
-/

namespace ColorComputer

/-- What the scheduler drives: a machine with states of type `σ`. -/
structure Host (σ τ : Type) where
  /-- Run the processor for so many cycles; tells how many it used. -/
  runCpu : Nat → σ → Nat × σ
  /-- Take a sample. -/
  sample : σ → σ
  /-- The timer expired. -/
  timerExpired : σ → σ
  /-- The change of the timer that was not told yet. -/
  timerUpdate : σ → Option (TimerUpdate τ) × σ
  /-- How many times faster than the slow rate the processor runs. -/
  multiplier : σ → Nat

/-- A word stands for its number. -/
instance instCoeUInt32Nat : Coe UInt32 Nat := ⟨UInt32.toNat⟩

instance instCoeUInt64Nat : Coe UInt64 Nat := ⟨UInt64.toNat⟩

/-- What happened while time passed, counted in words. -/
@[ext] structure SliceEvents where
  cycles : UInt64
  timerInterrupts : UInt32
  samples : UInt32
  deriving DecidableEq

namespace SliceEvents

/-- Nothing happened. -/
def none : SliceEvents := ⟨0, 0, 0⟩

instance : Inhabited SliceEvents := ⟨none⟩

/-- What happened in two stretches of time together. -/
instance : Add SliceEvents where
  add a b := ⟨a.cycles + b.cycles, a.timerInterrupts + b.timerInterrupts, a.samples + b.samples⟩

end SliceEvents

/-- The state of the scheduler. -/
structure Scheduler (τ : Type) where
  /-- Cycles owed to the processor, or run too far if negative. -/
  drift : τ
  /-- Time given and not run yet. -/
  pending : τ
  /-- The time between two expiries, while the timer runs. -/
  timerPeriod : Option τ
  untilTimer : τ
  /-- The time between two samples, if any are taken. -/
  samplePeriod : Option τ
  untilSample : τ
  overclock : Nat

/-- Where a stretch of time ends: what happened in it, and the states after. -/
structure Slice (σ τ : Type) where
  events : SliceEvents
  scheduler : Scheduler τ
  host : σ

namespace Scheduler

open Duration

variable {σ τ : Type} [Duration τ]

/-- A scheduler that has seen no time yet. A processor cannot be slowed down. -/
def fresh (audioRate overclock : Nat) : Scheduler τ where
  drift := ofNat 0
  pending := ofNat 0
  timerPeriod := none
  untilTimer := ofNat 0
  samplePeriod := periodOfRate? audioRate
  untilSample := (periodOfRate? audioRate).getD (ofNat 0)
  overclock := max overclock 1

/-- Forget the time owed, stop the timer, begin to count for the next sample. -/
def reset (s : Scheduler τ) : Scheduler τ where
  drift := ofNat 0
  pending := ofNat 0
  timerPeriod := none
  untilTimer := ofNat 0
  samplePeriod := s.samplePeriod
  untilSample := s.samplePeriod.getD (ofNat 0)
  overclock := s.overclock

/-- Set the time between two expiries. A timer that runs finishes its countdown; one that is stopped
begins to count. -/
def setTimerPeriod (s : Scheduler τ) (period : τ) : Scheduler τ :=
  { s with
    timerPeriod := some period
    untilTimer := if s.timerPeriod.isNone then period else s.untilTimer }

/-- Stop the timer. -/
def stopTimer (s : Scheduler τ) : Scheduler τ :=
  { s with timerPeriod := none, untilTimer := ofNat 0 }

/-- Make a change to the timer, if there is one. -/
def updateTimer (s : Scheduler τ) : Option (TimerUpdate τ) → Scheduler τ
  | some (.period period) => s.setTimerPeriod period
  | some .stop => s.stopTimer
  | none => s

/-- Set the rate of the samples. The countdown to the next one goes on, if there is one. -/
def setAudioRate (s : Scheduler τ) (rate : Nat) : Scheduler τ :=
  { s with
    samplePeriod := periodOfRate? rate
    untilSample :=
      if s.samplePeriod.isNone then (periodOfRate? rate).getD (ofNat 0) else s.untilSample }

/-- Set how much faster the processor runs. -/
def setOverclock (s : Scheduler τ) (overclock : Nat) : Scheduler τ :=
  { s with overclock := max overclock 1 }

/-! ### Pieces -/

/-- The length of the next piece. -/
def pieceLength (s : Scheduler τ) : τ :=
  let whole := s.pending
  let toSample := if s.samplePeriod.isSome then least whole s.untilSample else whole
  if s.timerPeriod.isSome then least toSample s.untilTimer else toSample

/-- The most cycles that the processor is asked for at once. -/
def maxCycles : Nat := 4294967295

/-- How many times faster than at the slow rate the processor runs in a piece. -/
def speed (host : Host σ τ) (s : Scheduler τ) (x : σ) : UInt32 :=
  .ofNat s.overclock * .ofNat (host.multiplier x)

/-- Run the processor for a piece and settle what it owes. Tells how many cycles were used. -/
def runCpu (host : Host σ τ) (s : Scheduler τ) (x : σ) (length : τ) : Nat × Scheduler τ × σ :=
  let owed := s.drift + length * cyclesPerNanosecond * ofNat (s.speed host x)
  if atMost (ofNat 1) owed then
    let whole := Duration.floor owed
    let (used, x) := host.runCpu (min (count whole) maxCycles) x
    (used, { s with drift := (whole - ofNat used) + (owed - whole) }, x)
  else
    (0, { s with drift := owed }, x)

/-- Count a piece off the time to the next sample, and take the sample if it is due. Tells how many
were taken. -/
def passSample (host : Host σ τ) (s : Scheduler τ) (x : σ) (length : τ) : Nat × Scheduler τ × σ :=
  match s.samplePeriod with
  | none => (0, s, x)
  | some period =>
    let left := s.untilSample - length
    if atMost left (ofNat 0) then (1, { s with untilSample := period }, host.sample x)
    else (0, { s with untilSample := left }, x)

/-- Count a piece off the time to the next expiry, and let the timer expire if it is due. Tells how
many times it expired. -/
def passTimer (host : Host σ τ) (s : Scheduler τ) (x : σ) (length : τ) : Nat × Scheduler τ × σ :=
  match s.timerPeriod with
  | none => (0, s, x)
  | some period =>
    let left := s.untilTimer - length
    if atMost left (ofNat 0) then (1, { s with untilTimer := period }, host.timerExpired x)
    else (0, { s with untilTimer := left }, x)

/-- Run the next piece. -/
def piece (host : Host σ τ) (s : Scheduler τ) (x : σ) : Slice σ τ :=
  let length := s.pieceLength
  let (cycles, s, x) := runCpu host s x length
  let s := { s with pending := s.pending - length }
  let (samples, s, x) := passSample host s x length
  let (expiries, s, x) := passTimer host s x length
  let (update, x) := host.timerUpdate x
  ⟨⟨.ofNat cycles, .ofNat expiries, .ofNat samples⟩, s.updateTimer update, x⟩

/-- A whole nanosecond is pending. -/
def due (s : Scheduler τ) : Bool := atMost (ofNat 1) s.pending

/-- Run the next piece of a stretch of time. -/
def advance (host : Host σ τ) (slice : Slice σ τ) : Slice σ τ :=
  let next := piece host slice.scheduler slice.host
  ⟨slice.events + next.events, next.scheduler, next.host⟩

/-- Run pieces, at most so many, until less than a nanosecond is pending. -/
def pieces (host : Host σ τ) : Nat → Slice σ τ → Slice σ τ
  | 0, slice => slice
  | limit + 1, slice =>
    if slice.scheduler.due then pieces host limit (advance host slice) else slice

end Scheduler

/-- Run pieces until less than a nanosecond is pending. There is no result if that never comes. -/
def Slice.toEnd? {σ τ : Type} [Duration τ] (host : Host σ τ) (slice : Slice σ τ) :
    Option (Slice σ τ) :=
  if slice.scheduler.due then Scheduler.advance host slice |>.toEnd? host else some slice
partial_fixpoint

namespace Scheduler

variable {σ τ : Type} [Duration τ]

/-- The pieces after which a stretch of time that never ends is given up. At a nanosecond a piece
they would take a century. -/
def pieceLimit : Nat := 4611686018427387904

/-- Let time pass: run pieces until less than a nanosecond is pending. A timer that expires in no
time at all keeps that from coming, and what is left then is what many pieces left. -/
def run (host : Host σ τ) (s : Scheduler τ) (x : σ) (time : τ) : Slice σ τ :=
  let slice := pieces host pieceLimit ⟨.none, { s with pending := s.pending + time }, x⟩
  if slice.scheduler.due then (slice.toEnd? host).getD slice else slice

/-! ### Laws -/

/-- Nothing happens while less than a nanosecond is pending. -/
theorem pieces_of_not_due (host : Host σ τ) (limit : Nat) {slice : Slice σ τ}
    (h : slice.scheduler.due = false) : pieces host limit slice = slice := by
  cases limit <;> simp [pieces, h]

/-- While a nanosecond is pending one piece is run, and then the pieces after it. -/
theorem pieces_succ (host : Host σ τ) (limit : Nat) {slice : Slice σ τ}
    (h : slice.scheduler.due = true) :
    pieces host (limit + 1) slice = pieces host limit (advance host slice) := by
  simp [pieces, h]

end Scheduler

namespace Slice

variable {σ τ : Type} [Duration τ] (host : Host σ τ)

theorem toEnd?_of_not_due {slice : Slice σ τ} (h : slice.scheduler.due = false) :
    slice.toEnd? host = some slice := by
  rw [toEnd?, h, if_neg Bool.false_ne_true]

theorem toEnd?_advance {slice : Slice σ τ} (h : slice.scheduler.due = true) :
    (Scheduler.advance host slice).toEnd? host = slice.toEnd? host := by
  rw [toEnd?.eq_def host slice, h, if_pos rfl]

/-- Pieces that are run at first are not run again. -/
theorem toEnd?_pieces (limit : Nat) (slice : Slice σ τ) :
    (Scheduler.pieces host limit slice).toEnd? host = slice.toEnd? host := by
  induction limit generalizing slice with
  | zero => rfl
  | succ limit ih =>
    cases h : slice.scheduler.due with
    | false => rw [Scheduler.pieces_of_not_due host _ h]
    | true => rw [Scheduler.pieces_succ host limit h, ih, toEnd?_advance host h]

end Slice

/-- Time that ends is run to its end. -/
theorem Scheduler.run_of_toEnd? {σ τ : Type} [Duration τ] {host : Host σ τ} {s : Scheduler τ}
    {x : σ} {time : τ} {last : Slice σ τ}
    (h : Slice.toEnd? host ⟨.none, { s with pending := s.pending + time }, x⟩ = some last) :
    s.run host x time = last := by
  rw [← Slice.toEnd?_pieces host pieceLimit] at h
  unfold run
  dsimp only
  split
  · rw [h]
    rfl
  · rename_i hd
    rw [Slice.toEnd?_of_not_due host (Bool.eq_false_iff.2 hd)] at h
    exact Option.some.inj h

end ColorComputer
