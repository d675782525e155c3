import ColorComputer.Machine.Basic

/-!
# Time passing

The scheduler knows what it drives by five actions only, so two hosts that do alike in these five
are driven alike. What is called on a machine from outside comes down to stretches: a level that
changes, time that passes, cycles that are run.

* `Host.Alike.run` — hosts that do alike are driven alike.
* `Scheduler.run_kept`, `Scheduler.run_once` — what every piece keeps, the passing of time keeps,
  and if one piece uses it up, it passes in that piece.
* `circuit_runFrame` — a field is a list of stretches.
* `circuit_perform`, `scheduler_perform` — so is every call.
-/

namespace ColorComputer

/-! ### Hosts that do alike -/

/-- Two hosts do alike on related states. -/
structure Host.Alike {σ σ' τ : Type} (R : σ → σ' → Prop) (host : Host σ τ)
    (host' : Host σ' τ) : Prop where
  runCpu : ∀ {x x'}, R x x' → ∀ budget,
    (host.runCpu budget x).1 = (host'.runCpu budget x').1 ∧
      R (host.runCpu budget x).2 (host'.runCpu budget x').2
  sample : ∀ {x x'}, R x x' → R (host.sample x) (host'.sample x')
  timerExpired : ∀ {x x'}, R x x' → R (host.timerExpired x) (host'.timerExpired x')
  timerUpdate : ∀ {x x'}, R x x' →
    (host.timerUpdate x).1 = (host'.timerUpdate x').1 ∧
      R (host.timerUpdate x).2 (host'.timerUpdate x').2
  multiplier : ∀ {x x'}, R x x' → host.multiplier x = host'.multiplier x'

/-- Two stretches of time in which the same happened end in related states. -/
structure Slice.Alike {σ σ' τ : Type} (R : σ → σ' → Prop) (a : Slice σ τ) (b : Slice σ' τ) :
    Prop where
  events : a.events = b.events
  scheduler : a.scheduler = b.scheduler
  host : R a.host b.host

namespace Host.Alike

variable {σ σ' τ : Type} [Duration τ] {R : σ → σ' → Prop} {host : Host σ τ} {host' : Host σ' τ}
  {x : σ} {x' : σ'}

omit [Duration τ] in
theorem speed_eq (h : Alike R host host') (hx : R x x') (s : Scheduler τ) :
    s.speed host x = s.speed host' x' := by
  unfold Scheduler.speed
  rw [h.multiplier hx]

theorem runCpu_eq (h : Alike R host host') (hx : R x x') (s : Scheduler τ) (length : τ) :
    (s.runCpu host x length).1 = (s.runCpu host' x' length).1 ∧
      (s.runCpu host x length).2.1 = (s.runCpu host' x' length).2.1 ∧
      R (s.runCpu host x length).2.2 (s.runCpu host' x' length).2.2 := by
  unfold Scheduler.runCpu
  rw [h.speed_eq hx]
  dsimp only
  split
  · have hr := h.runCpu hx
    exact ⟨(hr _).1, by rw [(hr _).1], (hr _).2⟩
  · exact ⟨rfl, rfl, hx⟩

theorem passSample (h : Alike R host host') (hx : R x x') (s : Scheduler τ) (length : τ) :
    (s.passSample host x length).1 = (s.passSample host' x' length).1 ∧
      (s.passSample host x length).2.1 = (s.passSample host' x' length).2.1 ∧
      R (s.passSample host x length).2.2 (s.passSample host' x' length).2.2 := by
  unfold Scheduler.passSample
  split
  · exact ⟨rfl, rfl, hx⟩
  · dsimp only
    split
    · exact ⟨rfl, rfl, h.sample hx⟩
    · exact ⟨rfl, rfl, hx⟩

theorem passTimer (h : Alike R host host') (hx : R x x') (s : Scheduler τ) (length : τ) :
    (s.passTimer host x length).1 = (s.passTimer host' x' length).1 ∧
      (s.passTimer host x length).2.1 = (s.passTimer host' x' length).2.1 ∧
      R (s.passTimer host x length).2.2 (s.passTimer host' x' length).2.2 := by
  unfold Scheduler.passTimer
  split
  · exact ⟨rfl, rfl, hx⟩
  · dsimp only
    split
    · exact ⟨rfl, rfl, h.timerExpired hx⟩
    · exact ⟨rfl, rfl, hx⟩

theorem piece (h : Alike R host host') (hx : R x x') (s : Scheduler τ) :
    Slice.Alike R (s.piece host x) (s.piece host' x') := by
  unfold Scheduler.piece
  dsimp only
  obtain ⟨c1, c2, c3⟩ := h.runCpu_eq hx s s.pieceLength
  rw [c1, c2]
  generalize ({ (s.runCpu host' x' s.pieceLength).2.1 with
    pending := (s.runCpu host' x' s.pieceLength).2.1.pending - s.pieceLength } : Scheduler τ) = s1
  obtain ⟨p1, p2, p3⟩ := h.passSample c3 s1 s.pieceLength
  rw [p1, p2]
  obtain ⟨t1, t2, t3⟩ :=
    h.passTimer p3 (s1.passSample host' (s.runCpu host' x' s.pieceLength).2.2 s.pieceLength).2.1
      s.pieceLength
  rw [t1, t2]
  obtain ⟨u1, u2⟩ := h.timerUpdate t3
  exact ⟨rfl, by rw [u1], u2⟩

theorem advance (h : Alike R host host') {a : Slice σ τ} {b : Slice σ' τ}
    (hab : Slice.Alike R a b) :
    Slice.Alike R (Scheduler.advance host a) (Scheduler.advance host' b) := by
  have hp := h.piece hab.host b.scheduler
  unfold Scheduler.advance
  rw [hab.scheduler]
  refine ⟨?_, hp.scheduler, hp.host⟩
  show a.events + _ = b.events + _
  rw [hab.events, hp.events]

theorem pieces (h : Alike R host host') (limit : Nat) {a : Slice σ τ} {b : Slice σ' τ}
    (hab : Slice.Alike R a b) :
    Slice.Alike R (Scheduler.pieces host limit a) (Scheduler.pieces host' limit b) := by
  induction limit generalizing a b with
  | zero => exact hab
  | succ limit ih =>
    unfold Scheduler.pieces
    rw [hab.scheduler]
    split
    · exact ih (h.advance hab)
    · exact hab

omit [Duration τ] in
theorem flip (h : Alike R host host') : Alike (fun x' x => R x x') host' host where
  runCpu hx budget := ⟨(h.runCpu hx budget).1.symm, (h.runCpu hx budget).2⟩
  sample hx := h.sample hx
  timerExpired hx := h.timerExpired hx
  timerUpdate hx := ⟨(h.timerUpdate hx).1.symm, (h.timerUpdate hx).2⟩
  multiplier hx := (h.multiplier hx).symm

/-- Where one of two stretches of time ends, so does the other. -/
theorem toEnd? (h : Alike R host host') {a last : Slice σ τ}
    (ha : Slice.toEnd? host a = some last) :
    ∀ {b : Slice σ' τ}, Slice.Alike R a b →
      ∃ last', Slice.toEnd? host' b = some last' ∧ Slice.Alike R last last' := by
  refine Slice.toEnd?.partial_correctness host (fun a last => ∀ {b : Slice σ' τ},
    Slice.Alike R a b → ∃ last', Slice.toEnd? host' b = some last' ∧
      Slice.Alike R last last') ?_ a last ha
  intro rest ih a last hl b hab
  split at hl
  · rename_i hd
    rw [hab.scheduler] at hd
    rw [← Slice.toEnd?_advance host' hd]
    exact ih _ last hl (h.advance hab)
  · rename_i hd
    rw [hab.scheduler, Bool.not_eq_true] at hd
    rw [Option.some.injEq] at hl
    exact ⟨b, Slice.toEnd?_of_not_due host' hd, hl ▸ hab⟩

/-- Hosts that do alike are driven alike. -/
theorem run (h : Alike R host host') (hx : R x x') (s : Scheduler τ) (time : τ) :
    Slice.Alike R (s.run host x time) (s.run host' x' time) := by
  have hs := h.pieces Scheduler.pieceLimit (a := ⟨.none, { s with pending := s.pending + time }, x⟩)
    (b := ⟨.none, { s with pending := s.pending + time }, x'⟩) ⟨rfl, rfl, hx⟩
  unfold Scheduler.run
  dsimp only
  rw [hs.scheduler]
  split
  · cases ha : Slice.toEnd? host _ with
    | some last =>
      obtain ⟨last', hb, hl⟩ := h.toEnd? ha hs
      rw [hb]
      exact hl
    | none =>
      cases hb : Slice.toEnd? host' _ with
      | none => exact hs
      | some last' =>
        obtain ⟨last, hl, -⟩ := h.flip.toEnd? hb ⟨hs.events.symm, hs.scheduler.symm, hs.host⟩
        rw [ha] at hl
        cases hl
  · exact hs

end Host.Alike

/-! ### What time keeps -/

section Kept

variable {σ τ : Type} [Duration τ] {host : Host σ τ} {I : Slice σ τ → Prop}
  (hI : ∀ slice, I slice → I (Scheduler.advance host slice))
include hI

theorem Scheduler.pieces_kept (limit : Nat) {slice : Slice σ τ} (h : I slice) :
    I (pieces host limit slice) := by
  induction limit generalizing slice with
  | zero => exact h
  | succ limit ih =>
    unfold pieces
    split
    · exact ih (hI slice h)
    · exact h

theorem Slice.toEnd?_kept {slice last : Slice σ τ} (hl : slice.toEnd? host = some last) :
    I slice → I last := by
  refine Slice.toEnd?.partial_correctness host (fun slice last => I slice → I last) ?_ slice last hl
  intro rest ih slice last hl h
  split at hl
  · exact ih _ _ hl (hI slice h)
  · rwa [← Option.some.inj hl]

/-- However many pieces were run at first, the rest keeps what every piece keeps. -/
theorem Scheduler.run_kept_of_pieces {s : Scheduler τ} {x : σ} {time : τ}
    (h : I (pieces host pieceLimit ⟨.none, { s with pending := s.pending + time }, x⟩)) :
    I (s.run host x time) := by
  unfold run
  dsimp only
  split
  · cases hl : Slice.toEnd? host _ with
    | none => exact h
    | some last => exact Slice.toEnd?_kept hI hl h
  · exact h

/-- What every piece keeps, the passing of time keeps. -/
theorem Scheduler.run_kept {s : Scheduler τ} (x : σ) (time : τ)
    (h : I ⟨.none, { s with pending := s.pending + time }, x⟩) : I (s.run host x time) :=
  run_kept_of_pieces hI (pieces_kept hI pieceLimit h)

/-- If time suffices for a piece, it is enough that the first piece establishes what every piece
keeps. -/
theorem Scheduler.run_kept_of_due {s : Scheduler τ} (x : σ) (time : τ)
    (hd : ({ s with pending := s.pending + time } : Scheduler τ).due = true)
    (h : I (advance host ⟨.none, { s with pending := s.pending + time }, x⟩)) :
    I (s.run host x time) := by
  obtain ⟨limit, hn⟩ := Nat.exists_eq_succ_of_ne_zero (show pieceLimit ≠ 0 by decide)
  refine run_kept_of_pieces hI ?_
  rw [hn, pieces_succ host limit hd]
  exact pieces_kept hI limit h

end Kept

/-- Time that one piece uses up passes in that piece. -/
theorem Scheduler.run_once {σ τ : Type} [Duration τ] {host : Host σ τ} {s : Scheduler τ} {x : σ}
    {time : τ} (hd : ({ s with pending := s.pending + time } : Scheduler τ).due = true)
    (hn : (({ s with pending := s.pending + time } : Scheduler τ).piece host x).scheduler.due =
      false) :
    s.run host x time = advance host ⟨.none, { s with pending := s.pending + time }, x⟩ := by
  refine run_of_toEnd? ?_
  rw [← Slice.toEnd?_advance host hd]
  exact Slice.toEnd?_of_not_due host hn

/-! ### Stretches -/

/-- What a machine goes through. -/
inductive Stretch (τ : Type)
  /-- The level that marks the end of a field changes. -/
  | field (level : Bool)
  /-- The level that marks the end of a line changes. -/
  | line (level : Bool)
  /-- Time passes. -/
  | time (time : τ)
  /-- Cycles are run while no time passes. -/
  | cycles (budget : Nat)
  /-- The cartridge port is filled or emptied. -/
  | port (cartridge : Option Cartridge)
  /-- The user touches something. -/
  | touch (f : Panel → Panel)

namespace Machine

variable {τ : Type} [Duration τ]

/-- Go through a stretch. -/
def pass (m : Machine τ) : Stretch τ → Machine τ
  | .field level => m.mapCircuit (·.driveField level)
  | .line level => m.mapCircuit (·.driveLine level)
  | .time time => (m.runSlice time).2
  | .cycles budget => (m.runCycles budget).2
  | .port cartridge => m.mapBoard fun b => { b with cartridge := cartridge }
  | .touch f => m.mapPanel f

/-- Go through stretches, one after the other. -/
def play (m : Machine τ) (stretches : List (Stretch τ)) : Machine τ := stretches.foldl pass m

theorem play_append (m : Machine τ) (first rest : List (Stretch τ)) :
    m.play (first ++ rest) = (m.play first).play rest := List.foldl_append ..

/-- The stretches of a line. -/
def lineStretches (last : Bool) : List (Stretch τ) :=
  (if last then [.field false] else []) ++ .time (Duration.line - pulse) ::
    (if last then [.field true] else []) ++ [.line false, .time pulse, .line true]

/-- The stretches of so many lines, the last of them the last one of the field. -/
def linesStretches : Nat → List (Stretch τ)
  | 0 => []
  | left + 1 => lineStretches (left = 0) ++ linesStretches left

theorem runLine_eq_play (m : Machine τ) (last : Bool) :
    (m.runLine last).2 = m.play (lineStretches last) := by
  cases last <;> rfl

theorem runLines_eq_play (count : Nat) (m : Machine τ) :
    (runLines count m).2 = m.play (linesStretches count) := by
  induction count generalizing m with
  | zero => rfl
  | succ left ih =>
    have hr : (runLines (left + 1) m).2 = (runLines left (m.runLine (left = 0)).2).2 := rfl
    rw [hr, ih, runLine_eq_play, linesStretches, play_append]

/-- A field is a list of stretches. -/
theorem circuit_runFrame (m : Machine τ) :
    m.runFrame.2.circuit = (m.play (linesStretches linesPerField)).circuit := by
  rw [← runLines_eq_play]
  unfold runFrame
  generalize linesPerField = count
  rfl

theorem scheduler_runFrame (m : Machine τ) :
    m.runFrame.2.scheduler = (m.play (linesStretches linesPerField)).scheduler := by
  rw [← runLines_eq_play]
  unfold runFrame
  generalize linesPerField = count
  rfl

end Machine

/-! ### Calls -/

/-- What is called on a machine from outside. -/
inductive Call (τ : Type)
  | slice (time : τ)
  | frame
  | cycles (budget : Nat)
  | insert (cartridge : Cartridge)
  | eject
  | touch (f : Panel → Panel)

namespace Call

variable {τ : Type} [Duration τ]

/-- The machine after a call. -/
def perform (m : Machine τ) : Call τ → Machine τ
  | slice time => (m.runSlice time).2
  | frame => m.runFrame.2
  | cycles budget => (m.runCycles budget).2
  | insert cartridge => m.insert cartridge
  | eject => m.eject
  | touch f => m.mapPanel f

/-- The stretches of a call. -/
def stretches : Call τ → List (Stretch τ)
  | slice time => [.time time]
  | frame => Machine.linesStretches Machine.linesPerField
  | cycles budget => [.cycles budget]
  | insert cartridge => [.port (some cartridge)]
  | eject => [.port none]
  | touch f => [.touch f]

/-- Every call goes through its stretches. -/
theorem circuit_perform (m : Machine τ) (call : Call τ) :
    (call.perform m).circuit = (m.play call.stretches).circuit := by
  cases call with
  | frame => rw [perform, stretches, m.circuit_runFrame]
  | slice time => rfl
  | cycles budget => rfl
  | insert cartridge => rfl
  | eject => rfl
  | touch f => rfl

theorem scheduler_perform (m : Machine τ) (call : Call τ) :
    (call.perform m).scheduler = (m.play call.stretches).scheduler := by
  cases call with
  | frame => rw [perform, stretches, m.scheduler_runFrame]
  | slice time => rfl
  | cycles budget => rfl
  | insert cartridge => rfl
  | eject => rfl
  | touch f => rfl

end Call

end ColorComputer
