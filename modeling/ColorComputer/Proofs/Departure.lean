import Mathlib.Data.List.DropRight
import ColorComputer.Output.SampleQueue

/-!
# How samples leave the queue

A sample that was pushed waits in the queue until it leaves in one of three ways: the host drains
it, a full queue drops it for a newer one, or the queue is cleared. Only the oldest samples leave,
and only by these ways. So what has left, in the order in which it left, followed by what still
waits, is what was pushed.

* `SampleQueue.drainInto_eq` — what a drain writes, counts and leaves.
* `SampleQueue.leave_append` — one call keeps the samples and their order.
* `SampleQueue.departed_append` — so does every sequence of calls.
* `SampleQueue.first_in_first_out` — what waits, what drains write and where each sample went.
-/

namespace ColorComputer.SampleQueue

/-- A call on the queue. -/
inductive Event
  | push (sample : Int16)
  | drain (buffer : List Int16)
  | clear

/-- How a sample left the queue. -/
inductive Fate
  | drained
  | dropped
  | cleared
deriving DecidableEq

namespace Event

/-- The samples that an event brings. -/
def samples : Event → List Int16
  | push sample => [sample]
  | drain _ | clear => []

/-- What becomes of the samples that leave with an event. -/
def fate : Event → Fate
  | push _ => .dropped
  | drain _ => .drained
  | clear => .cleared

end Event

/-- The samples that were pushed, the oldest first. -/
def pushed (history : List Event) : List Int16 := history.flatMap Event.samples

variable (q : SampleQueue) (event : Event) (history : List Event)

/-- The queue after an event. -/
def occur : SampleQueue :=
  match event with
  | .push sample => q.push sample
  | .drain buffer => (q.drainInto buffer).2.2
  | .clear => q.clear

/-- The queue after a history. -/
def through : SampleQueue := history.foldl occur q

/-- The samples that leave with an event: what a full queue drops for a new one, what a drain has
written into the front of the buffer, or all that waited. -/
def leave : List Int16 :=
  match event with
  | .push _ => if q.size = capacity then q.toList.take 1 else []
  | .drain buffer => (q.drainInto buffer).2.1.take (q.drainInto buffer).1
  | .clear => q.toList

/-- The samples that left in a history, each with how it did, in the order in which they left. -/
def departed (q : SampleQueue) : List Event → List (Int16 × Fate)
  | [] => []
  | event :: history =>
    (q.leave event).map (fun sample => (sample, event.fate)) ++ (q.occur event).departed history

/-- The samples that left in one way. -/
def met (fate : Fate) (left : List (Int16 × Fate)) : List Int16 :=
  (left.filter fun entry => entry.2 = fate).map Prod.fst

/-! ### One call -/

/-- A drain writes the oldest samples into the front of the buffer, as many as fit or wait, counts
them, and leaves the newer samples in the queue and the rest of the buffer as it was. -/
theorem drainInto_eq (buffer : List Int16) :
    (q.drainInto buffer).1 = min buffer.length q.size ∧
      (q.drainInto buffer).2.1 = q.toList.take (min buffer.length q.size) ++
        buffer.drop (min buffer.length q.size) ∧
      (q.drainInto buffer).2.2.toList = q.toList.drop (min buffer.length q.size) := by
  have hcount : (q.toList.take buffer.length).length = min buffer.length q.size := by
    rw [List.length_take, ← q.size_eq_length]
  have htake : q.toList.take (min buffer.length q.size) = q.toList.take buffer.length := by
    rw [q.size_eq_length, ← List.take_eq_take_min]
  have hdrop : q.toList.drop (min buffer.length q.size) = q.toList.drop buffer.length := by
    rw [q.size_eq_length, ← List.drop_eq_drop_min]
  refine ⟨hcount, ?_, ?_⟩
  · show q.toList.take buffer.length ++ buffer.drop (q.toList.take buffer.length).length = _
    rw [hcount, htake]
  · rw [hdrop]
    exact (q.take_eq buffer.length).2

theorem leave_drain (buffer : List Int16) :
    q.leave (.drain buffer) = q.toList.take (min buffer.length q.size) := by
  obtain ⟨hcount, hwritten, -⟩ := q.drainInto_eq buffer
  have hlength : (q.toList.take (min buffer.length q.size)).length = min buffer.length q.size := by
    rw [List.length_take, ← q.size_eq_length]
    omega
  show (q.drainInto buffer).2.1.take (q.drainInto buffer).1 = _
  rw [hcount, hwritten, List.take_append_of_le_length hlength.ge, List.take_of_length_le hlength.le]

/-- One call keeps the samples and their order: only the oldest leave, and new ones come last. -/
theorem leave_append :
    q.leave event ++ (q.occur event).toList = q.toList ++ event.samples := by
  cases event with
  | push sample =>
    show (if q.size = capacity then q.toList.take 1 else []) ++ (q.push sample).toList =
      q.toList ++ [sample]
    rw [toList_push, ← q.size_eq_length]
    split
    · rw [← List.drop_one, ← List.append_assoc, List.take_append_drop]
    · rfl
  | drain buffer =>
    obtain ⟨-, -, hrest⟩ := q.drainInto_eq buffer
    show q.leave (.drain buffer) ++ (q.drainInto buffer).2.2.toList = q.toList ++ []
    rw [leave_drain, hrest, List.take_append_drop, List.append_nil]
  | clear => rfl

/-- A full queue makes room before it takes a sample, so it never holds more than it can. -/
theorem size_occur_le (h : q.size ≤ capacity) : (q.occur event).size ≤ capacity := by
  cases event with
  | push sample =>
    show (q.push sample).size ≤ capacity
    unfold push
    split
    · rename_i hfull
      have hpos : 0 < capacity := by decide
      rw [size_append, size_dropOldest]
      omega
    · rename_i hroom
      rw [size_append]
      omega
  | drain buffer => exact (Nat.sub_le q.size buffer.length).trans h
  | clear => exact Nat.zero_le capacity

/-- The samples that leave with one event all leave in its way. -/
theorem met_leave (fate : Fate) :
    met fate ((q.leave event).map fun sample => (sample, event.fate)) =
      if event.fate = fate then q.leave event else [] := by
  unfold met
  rw [List.filter_map, List.map_map]
  split <;> rename_i h <;> simp [Function.comp_def, h]

/-- The queue counts what it drops. -/
theorem dropped_occur : (q.occur event).dropped =
    q.dropped + (if event.fate = .dropped then q.leave event else []).length := by
  cases event with
  | push sample =>
    show (q.push sample).dropped =
      q.dropped + (if q.size = capacity then q.toList.take 1 else []).length
    unfold push
    split
    · rename_i hfull
      have hone : (q.toList.take 1).length = 1 := by
        rw [List.length_take, ← q.size_eq_length, hfull]
        rfl
      rw [dropped_append, dropped_dropOldest, hone]
    · rfl
  | drain buffer => rfl
  | clear => rfl

/-! ### A whole history -/

theorem met_append (fate : Fate) (left more : List (Int16 × Fate)) :
    met fate (left ++ more) = met fate left ++ met fate more := by
  simp [met]

/-- Each sample that left did so in one of the three ways. -/
theorem length_met (left : List (Int16 × Fate)) :
    left.length =
      (met .drained left).length + (met .dropped left).length + (met .cleared left).length := by
  induction left with
  | nil => rfl
  | cons entry left ih =>
    obtain ⟨sample, fate⟩ := entry
    cases fate <;>
    · simp [met] at ih ⊢
      omega

/-- What left, and then what waits, is what waited at first, and then what was pushed. -/
theorem departed_append :
    (q.departed history).map Prod.fst ++ (q.through history).toList =
      q.toList ++ pushed history := by
  induction history generalizing q with
  | nil => exact (List.append_nil q.toList).symm
  | cons event history ih =>
    calc (q.departed (event :: history)).map Prod.fst ++ (q.through (event :: history)).toList
        = q.leave event ++ (((q.occur event).departed history).map Prod.fst ++
            ((q.occur event).through history).toList) := by
          simp [departed, through, Function.comp_def]
      _ = (q.leave event ++ (q.occur event).toList) ++ pushed history := by
          rw [ih, List.append_assoc]
      _ = q.toList ++ (event.samples ++ pushed history) := by
          rw [leave_append, List.append_assoc]
      _ = q.toList ++ pushed (event :: history) := rfl

theorem size_through_le (h : q.size ≤ capacity) : (q.through history).size ≤ capacity := by
  induction history generalizing q with
  | nil => exact h
  | cons event history ih => exact ih (q.occur event) (q.size_occur_le event h)

theorem dropped_through :
    (q.through history).dropped = q.dropped + (met .dropped (q.departed history)).length := by
  induction history generalizing q with
  | nil => rfl
  | cons event history ih =>
    show ((q.occur event).through history).dropped = _
    rw [ih, dropped_occur, departed, met_append, met_leave, List.length_append, Nat.add_assoc]

/-- The queue is first in, first out, and loses samples only when it is full or cleared. Through
every history of calls, it holds no more than its capacity, and what it holds are the samples that
were pushed last. A drain then writes the oldest of them into the front of its buffer, as many as
fit or wait, leaves the rest of the buffer, and tells how many it wrote. The samples that have left,
by drains, drops and clears, followed by those that wait, are the samples that were pushed: so those
that were drained came out in the order in which they were pushed, none of them twice, and every
sample was drained, counted as dropped, was cleared or still waits. -/
theorem first_in_first_out :
    let q := empty.through history
    let left := empty.departed history
    q.size ≤ capacity ∧
    q.toList = (pushed history).rtake q.size ∧
    (∀ buffer : List Int16,
      (q.drainInto buffer).1 = min buffer.length q.size ∧
      (q.drainInto buffer).2.1 = q.toList.take (min buffer.length q.size) ++
        buffer.drop (min buffer.length q.size) ∧
      (q.drainInto buffer).2.2.toList = q.toList.drop (min buffer.length q.size)) ∧
    pushed history = left.map Prod.fst ++ q.toList ∧
    (met .drained left).Sublist (pushed history) ∧
    (pushed history).length =
      (met .drained left).length + q.dropped + (met .cleared left).length + q.size := by
  intro q left
  have hall : pushed history = left.map Prod.fst ++ q.toList :=
    (empty.departed_append history).symm
  have hdropped : q.dropped = (met .dropped left).length :=
    (empty.dropped_through history).trans (Nat.zero_add _)
  have hlength : (pushed history).length = left.length + q.size := by
    rw [hall, List.length_append, List.length_map, ← q.size_eq_length]
  refine ⟨empty.size_through_le history (Nat.zero_le _), ?_, q.drainInto_eq, hall, ?_, ?_⟩
  · have hleft : (pushed history).length - q.size = (left.map Prod.fst).length := by
      rw [hlength, List.length_map, Nat.add_sub_cancel]
    rw [List.rtake, hleft, hall, List.drop_left]
  · have hsome : (met .drained left).Sublist (left.map Prod.fst) := List.filter_sublist.map _
    rw [hall]
    exact hsome.trans (List.sublist_append_left _ _)
  · rw [hlength, length_met left, hdropped]

end ColorComputer.SampleQueue
