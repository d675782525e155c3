/-!
# Hexadecimal text

Numbers are shown in upper-case hexadecimal with a fixed number of digits, and read in either case
with any number of them.

* `length_digits`: showing with `w` digits gives `w` characters.
* `value?_digits`: what is shown with enough digits reads back as the same number.
-/

namespace ColorComputer.Text.Hex

/-- The upper-case digit of a number below sixteen. -/
def digit (n : Nat) : Char :=
  if n < 10 then Char.ofNat ('0'.toNat + n) else Char.ofNat ('A'.toNat + (n - 10))

/-- The last `width` hexadecimal digits of a number, leading zeros included. -/
def digits : Nat → Nat → List Char
  | 0, _ => []
  | width + 1, n => digits width (n / 16) ++ [digit (n % 16)]

/-- The text of a number with `width` digits. -/
def text (width n : Nat) : String := String.ofList (digits width n)

/-- The value of one digit, in either case. -/
def digitValue? (c : Char) : Option Nat :=
  if '0' ≤ c ∧ c ≤ '9' then some (c.toNat - '0'.toNat)
  else if 'a' ≤ c ∧ c ≤ 'f' then some (c.toNat - 'a'.toNat + 10)
  else if 'A' ≤ c ∧ c ≤ 'F' then some (c.toNat - 'A'.toNat + 10)
  else none

/-- The value of a row of digits that follows a number already read. -/
def valueFrom? (acc : Nat) : List Char → Option Nat
  | [] => some acc
  | c :: rest =>
    match digitValue? c with
    | some d => valueFrom? (acc * 16 + d) rest
    | none => none

/-- The value of a non-empty row of digits. -/
def value? : List Char → Option Nat
  | [] => none
  | cs => valueFrom? 0 cs

theorem length_digits (width n : Nat) : (digits width n).length = width := by
  induction width generalizing n with
  | zero => rfl
  | succ width ih => simp [digits, ih]

theorem digitValue?_digit {n : Nat} (h : n < 16) : digitValue? (digit n) = some n := by
  have all : ∀ n : Fin 16, digitValue? (digit n) = some n.val := by decide
  exact all ⟨n, h⟩

/-- Only digits are shown. -/
theorem not_mem_digits {c : Char} (width n : Nat) (h : digitValue? c = none) :
    c ∉ digits width n := by
  induction width generalizing n with
  | zero => simp [digits]
  | succ width ih =>
    intro hc
    rcases List.mem_append.1 hc with hc | hc
    · exact ih _ hc
    · rw [List.mem_singleton.1 hc, digitValue?_digit (Nat.mod_lt n (by decide))] at h
      cases h

theorem valueFrom?_append (acc : Nat) (xs ys : List Char) :
    valueFrom? acc (xs ++ ys) = (valueFrom? acc xs).bind (valueFrom? · ys) := by
  induction xs generalizing acc with
  | nil => rfl
  | cons c xs ih =>
    simp only [List.cons_append, valueFrom?]
    split
    · exact ih _
    · rfl

/-- How many numbers there are of so many digits. -/
def count : Nat → Nat
  | 0 => 1
  | width + 1 => count width * 16

theorem valueFrom?_digits (acc width n : Nat) (h : n < count width) :
    valueFrom? acc (digits width n) = some (acc * count width + n) := by
  induction width generalizing n with
  | zero => simp [digits, valueFrom?, count] at h ⊢; omega
  | succ width ih =>
    have hq : n / 16 < count width := by rw [count] at h; omega
    rw [digits, valueFrom?_append, ih _ hq]
    simp only [Option.bind_some, valueFrom?, digitValue?_digit (Nat.mod_lt n (by decide))]
    congr 1
    rw [count, ← Nat.mul_assoc]
    omega

/-- What is shown with enough digits reads back as the same number. -/
theorem value?_digits (width n : Nat) (h : n < count (width + 1)) :
    value? (digits (width + 1) n) = some n := by
  have hne : digits (width + 1) n ≠ [] := by
    intro e
    simpa [e] using length_digits (width + 1) n
  have hv : value? (digits (width + 1) n) = valueFrom? 0 (digits (width + 1) n) := by
    unfold value?
    split
    · rename_i e; exact absurd e hne
    · rfl
  rw [hv, valueFrom?_digits 0 (width + 1) n h]
  simp

end ColorComputer.Text.Hex
