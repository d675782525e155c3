import ColorComputer.Text.Hex
import ColorComputer.Word

/-!
# Readings

A reading is what a probe finds at a dotted path such as `cc.z` or `timer.period`. A probe only
looks: it never disturbs what it looks at.
-/

namespace ColorComputer

/-- What a probe can find. -/
inductive Reading
  | flag (on : Bool)
  | byte (value : Byte)
  | word (value : Word)
  | long (value : Long)
  | count (value : Nat)
  | label (text : String)
  deriving DecidableEq

namespace Reading

/-- Bytes, words and longs are shown with a dollar sign and all their hexadecimal digits, counts
in decimal, flags as `true` or `false`, labels as they are. -/
def render : Reading → String
  | flag on => if on then "true" else "false"
  | byte value => "$" ++ Text.Hex.text 2 value.toNat
  | word value => "$" ++ Text.Hex.text 4 value.toNat
  | long value => "$" ++ Text.Hex.text 8 value.toNat
  | count value => toString value
  | label text => text

end Reading

/-- Things whose state can be looked at by path. -/
class Probe (α : Type) where
  /-- What stands at a path, if the path names anything. -/
  probe : α → String → Option Reading
  /-- The paths worth asking for, in the order in which they are listed. -/
  paths : List String

/-- The paths of a thing with what stands at each; a thing may lack what a path names. -/
abbrev ProbeTable (α : Type) := List (String × (α → Option Reading))

namespace ProbeTable

variable {α : Type}

/-- A path at which there is always something. -/
def entry (path : String) (read : α → Reading) : String × (α → Option Reading) :=
  (path, fun a => some (read a))

/-- The probe that answers from a table. -/
@[reducible]
def toProbe (table : ProbeTable α) : Probe α where
  probe a path := (table.find? (·.1 == path)).bind fun found => found.2 a
  paths := table.map (·.1)

end ProbeTable

end ColorComputer
