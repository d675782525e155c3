/-!
# Processor variants

Two parts fit the socket. The Hitachi part adds registers and instructions, a native mode, and
traps for undefined instructions, which the Motorola part runs as if they did nothing.
-/

namespace ColorComputer

/-- The part in the socket. -/
inductive Variant
  | motorola
  | hitachi
  deriving DecidableEq

namespace Variant

instance : Inhabited Variant := ⟨motorola⟩

/-- The registers `E`, `F`, `V` and `MD` exist. -/
def extendedRegisters : Variant → Bool
  | motorola => false
  | hitachi => true

/-- An undefined instruction traps. -/
def trapsUndefined : Variant → Bool
  | motorola => false
  | hitachi => true

/-- The marking on the part. -/
def name : Variant → String
  | motorola => "MC6809"
  | hitachi => "HD6309"

end Variant

end ColorComputer
