import ColorComputer.Word

/-!
# The sample queue

Samples wait in a queue until the host takes them, the oldest first. A full queue drops its oldest
sample for each new one.

* `toList_push`: a sample goes to the end; a full queue loses its front.
* `toList_clear`: clearing leaves no sample, and counts none as dropped.
* `take_eq`: taking gives the front of the queue and leaves the rest.
-/

namespace ColorComputer

/-- A queue of samples. -/
structure SampleQueue where
  /-- The oldest samples, the oldest first. -/
  front : List Int16
  /-- The newest samples, the newest first. -/
  back : List Int16
  /-- How many samples wait. -/
  size : Nat
  /-- How many samples were dropped. -/
  dropped : Nat
  size_eq : size = front.length + back.length

namespace SampleQueue

/-- The samples in order, the oldest first. -/
def toList (q : SampleQueue) : List Int16 := q.front ++ q.back.reverse

/-- No sample waits and none was dropped. -/
def empty : SampleQueue := ⟨[], [], 0, 0, rfl⟩

instance : Inhabited SampleQueue := ⟨empty⟩

/-- How many samples the queue holds. -/
def capacity : Nat := 32768

/-- The queue without its oldest sample. -/
def dropOldest (q : SampleQueue) : SampleQueue :=
  match q with
  | ⟨_ :: front, back, size, dropped, h⟩ =>
    ⟨front, back, size - 1, dropped + 1, by simp only [List.length_cons] at h; omega⟩
  | ⟨[], back, size, dropped, h⟩ =>
    ⟨back.reverse.tail, [], size - 1, dropped + 1, by simp at h ⊢; omega⟩

/-- The queue with one more sample. -/
def append (q : SampleQueue) (sample : Int16) : SampleQueue :=
  match q with
  | ⟨front, back, size, dropped, h⟩ =>
    ⟨front, sample :: back, size + 1, dropped, by simp only [List.length_cons]; omega⟩

/-- Put a sample at the end; a full queue makes room first. -/
def push (q : SampleQueue) (sample : Int16) : SampleQueue :=
  if q.size = capacity then q.dropOldest.append sample else q.append sample

/-- Take up to so many samples, the oldest first. -/
def take (q : SampleQueue) (count : Nat) : List Int16 × SampleQueue :=
  let all := q.toList
  (all.take count,
    ⟨all.drop count, [], q.size - count, q.dropped, by
      have := q.size_eq
      simp [all, toList]
      omega⟩)

/-- Take samples into the front of a buffer, as many as fit or wait, and tell how many. The rest of
the buffer stays. -/
def drainInto (q : SampleQueue) (buffer : List Int16) : Nat × List Int16 × SampleQueue :=
  let (samples, rest) := q.take buffer.length
  (samples.length, samples ++ buffer.drop samples.length, rest)

/-- Forget all samples that wait. -/
def clear (q : SampleQueue) : SampleQueue := ⟨[], [], 0, q.dropped, rfl⟩

theorem size_eq_length (q : SampleQueue) : q.size = q.toList.length := by
  simp [toList, q.size_eq]

@[simp] theorem toList_append (q : SampleQueue) (sample : Int16) :
    (q.append sample).toList = q.toList ++ [sample] := by
  simp [append, toList]

@[simp] theorem toList_dropOldest (q : SampleQueue) : q.dropOldest.toList = q.toList.tail := by
  obtain ⟨front, back, size, dropped, h⟩ := q
  cases front <;> simp [dropOldest, toList]

theorem size_append (q : SampleQueue) (sample : Int16) : (q.append sample).size = q.size + 1 := rfl

theorem dropped_append (q : SampleQueue) (sample : Int16) :
    (q.append sample).dropped = q.dropped := rfl

theorem size_dropOldest (q : SampleQueue) : q.dropOldest.size = q.size - 1 := by
  obtain ⟨front, back, size, dropped, h⟩ := q
  cases front <;> rfl

theorem dropped_dropOldest (q : SampleQueue) : q.dropOldest.dropped = q.dropped + 1 := by
  obtain ⟨front, back, size, dropped, h⟩ := q
  cases front <;> rfl

/-- A sample goes to the end; a full queue loses its front. -/
theorem toList_push (q : SampleQueue) (sample : Int16) :
    (q.push sample).toList =
      (if q.toList.length = capacity then q.toList.tail else q.toList) ++ [sample] := by
  rw [← size_eq_length]
  unfold push
  split <;> simp

/-- Taking gives the front of the queue and leaves the rest. -/
theorem take_eq (q : SampleQueue) (count : Nat) :
    (q.take count).1 = q.toList.take count ∧ (q.take count).2.toList = q.toList.drop count := by
  simp [take, toList]

/-- Clearing leaves no sample, and counts none as dropped. -/
theorem toList_clear (q : SampleQueue) : q.clear.toList = [] ∧ q.clear.dropped = q.dropped :=
  ⟨rfl, rfl⟩

end SampleQueue

/-- The level of the converter, heard only while sound is enabled: six bits as the high bits of a
positive sample. -/
def converterSample (level : BitVec 6) (enabled : Bool) : Int16 :=
  if enabled then Int16.ofNat (level.toNat * 512) else 0

end ColorComputer
