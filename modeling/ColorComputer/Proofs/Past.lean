import Mathlib.Data.List.Basic
import Mathlib.Data.List.Induction

/-!
# What the past says

Two questions about a history that the registers of a chip answer. What was said last, unless a
reset made it forgotten? And did something that counts happen, with nothing since that takes it
back? Whether an event counts, and whether it takes back, may depend on what came before it.

* `getD_lastSaid_concat`, `since_concat` — one more event.
* `iff_since` — what each event sets or takes back tells what happened since it was taken back last.
-/

namespace ColorComputer

variable {ε α : Type}

/-! ### What was said last -/

/-- What was said last since the last reset, if anything was. -/
def lastSaid (resets : ε → Bool) (tells : ε → Option α) (history : List ε) : Option α :=
  (history.reverse.takeWhile fun event => !resets event).findSome? tells

theorem lastSaid_concat (resets : ε → Bool) (tells : ε → Option α) (history : List ε) (event : ε) :
    lastSaid resets tells (history ++ [event]) =
      if resets event then none else (tells event).or (lastSaid resets tells history) := by
  unfold lastSaid
  rw [List.reverse_append, List.reverse_singleton, List.singleton_append, List.takeWhile_cons]
  cases hr : resets event with
  | true => rfl
  | false =>
    rw [Bool.not_false, if_pos rfl, if_neg Bool.false_ne_true, List.findSome?_cons]
    cases tells event <;> rfl

/-- What was said last, with a value that a reset restores. -/
theorem getD_lastSaid_concat (resets : ε → Bool) (tells : ε → Option α) (history : List ε)
    (event : ε) (initial : α) : (lastSaid resets tells (history ++ [event])).getD initial =
      if resets event then initial
      else (tells event).getD ((lastSaid resets tells history).getD initial) := by
  rw [lastSaid_concat]
  split
  · rfl
  · rw [Option.getD_or]

/-! ### What happened since -/

/-- An event of the history counts, and none that came after it takes it back. -/
def Since (counts takes : List ε → ε → Prop) (history : List ε) : Prop :=
  ∃ before event after, history = before ++ event :: after ∧ counts before event ∧
    ∀ between later rest, after = between ++ later :: rest →
      ¬ takes (before ++ event :: between) later

variable {counts takes : List ε → ε → Prop} {history : List ε} {event : ε}

theorem not_since_nil : ¬ Since counts takes [] := by
  rintro ⟨before, event, after, h, -⟩
  exact List.append_ne_nil_of_right_ne_nil before (List.cons_ne_nil event after) h.symm

theorem since_of_counts (h : counts history event) : Since counts takes (history ++ [event]) := by
  refine ⟨history, event, [], rfl, h, fun between later rest hr => ?_⟩
  exact absurd hr.symm (List.append_ne_nil_of_right_ne_nil between (List.cons_ne_nil later rest))

/-- What happened since is still so after an event that does not take it back. -/
theorem Since.concat (h : Since counts takes history) (hn : ¬ takes history event) :
    Since counts takes (history ++ [event]) := by
  obtain ⟨before, counted, after, rfl, hc, ht⟩ := h
  refine ⟨before, counted, after ++ [event], by simp, hc, fun between later rest hr => ?_⟩
  -- the later event is the new one or was there before
  rcases List.eq_nil_or_concat' rest with rfl | ⟨rest, last, rfl⟩
  · obtain ⟨rfl, rfl⟩ := List.append_singleton_inj.1 hr
    exact hn
  · rw [← List.cons_append, ← List.append_assoc] at hr
    exact ht between later rest (List.append_singleton_inj.1 hr).1

/-- What happened since with an event that came last: that event counts, or what happened before it
does and that event does not take it back. -/
theorem Since.of_concat (h : Since counts takes (history ++ [event])) :
    counts history event ∨ Since counts takes history ∧ ¬ takes history event := by
  obtain ⟨before, counted, after, h, hc, ht⟩ := h
  rcases List.eq_nil_or_concat' after with rfl | ⟨after, last, rfl⟩
  · obtain ⟨rfl, rfl⟩ := List.append_singleton_inj.1 h
    exact .inl hc
  · rw [← List.cons_append, ← List.append_assoc] at h
    obtain ⟨rfl, rfl⟩ := List.append_singleton_inj.1 h
    refine .inr ⟨⟨before, counted, after, rfl, hc, fun between later rest hr => ?_⟩,
      ht after event [] rfl⟩
    exact ht between later (rest ++ [event]) (by rw [hr]; simp)

theorem since_concat : Since counts takes (history ++ [event]) ↔
    counts history event ∨ Since counts takes history ∧ ¬ takes history event :=
  ⟨Since.of_concat, fun h => h.elim since_of_counts fun h => h.1.concat h.2⟩

/-- What is not so at first and then is set by the events that count and undone by those that take
back, tells what happened since. -/
theorem iff_since {P : List ε → Prop} (nil : ¬ P [])
    (concat : ∀ history event,
      P (history ++ [event]) ↔ counts history event ∨ P history ∧ ¬ takes history event)
    (history : List ε) : P history ↔ Since counts takes history := by
  -- from the end, since both sides are told by the last event and the history before it
  induction history using List.reverseRecOn with
  | nil => exact iff_of_false nil not_since_nil
  | append_singleton history event ih => rw [concat, since_concat, ih]

end ColorComputer
