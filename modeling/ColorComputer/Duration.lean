/-!
# Durations

Machine time is measured in nanoseconds, and cycles are owed in fractions. Both are numbers of one
type, which the machine leaves open: it runs on floating-point numbers, and it can be reasoned about
on exact ones. Every quantity below is written as the operations that compute it, in their order.
-/

namespace ColorComputer

/-- Numbers in which time is measured. -/
class Duration (τ : Type) extends Add τ, Sub τ, Mul τ, Div τ where
  /-- The number that a count stands for. -/
  ofNat : Nat → τ
  /-- The first number is at most the second. -/
  atMost : τ → τ → Bool
  /-- The smaller of two numbers. -/
  least : τ → τ → τ
  /-- The greatest whole number that is at most this one. -/
  floor : τ → τ
  /-- The whole part as a count; nothing below zero. -/
  count : τ → Nat

namespace Duration

/-- Floating-point time. The smaller of a number and no number is the number. -/
instance : Duration Float where
  ofNat := Float.ofNat
  atMost a b := a ≤ b
  least a b := if a.isNaN then b else if b.isNaN then a else if b < a then b else a
  floor := Float.floor
  count x := x.toUInt64.toNat

/-- Exact time. -/
instance : Duration Rat where
  ofNat n := n
  atMost a b := decide (a ≤ b)
  least a b := if b < a then b else a
  floor x := x.floor
  count x := x.floor.toNat

variable {τ : Type} [Duration τ]

/-- Nanoseconds in a second. -/
def second : τ := ofNat 1000000000

/-- Lines drawn in a second: sixty fields of 262 lines. -/
def linesPerSecond : τ := ofNat 60 * ofNat 262

/-- The time of one line. -/
def line : τ := second / linesPerSecond

/-- The frequency of the colour crystal. -/
def crystalHertz : τ := ofNat 3579545

/-- The frequency of the processor at the slow rate: a quarter of the crystal's, trimmed to a field
rate of 59.923 a second. -/
def processorHertz : τ := (crystalHertz / ofNat 4) * (ofNat 60 / (ofNat 59923 / ofNat 1000))

/-- Cycles of the processor in a nanosecond at the slow rate. -/
def cyclesPerNanosecond : τ := (processorHertz : τ) / second

/-- The time between events that happen so many times a second; never, at a rate of zero. -/
def periodOfRate? (rate : Nat) : Option τ :=
  if rate = 0 then none else some (second / ofNat rate)

end Duration

end ColorComputer
