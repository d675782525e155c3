import ColorComputer.Bus

/-!
# Traced buses

A traced bus passes every access on to the bus behind it and remembers it. Two runs make the same
accesses in the same order exactly when they leave the same trace.
-/

namespace ColorComputer

/-- One access, with the byte that went over the bus. -/
inductive Access
  | read (address : Word) (value : Byte)
  | write (address : Word) (value : Byte)
  deriving DecidableEq

/-- A bus together with the accesses it has seen, the latest first. -/
@[ext] structure Traced (β : Type) where
  bus : β
  latestFirst : List Access

namespace Traced

variable {β : Type}

/-- A bus that has seen no access yet. -/
def start (bus : β) : Traced β := ⟨bus, []⟩

/-- The accesses in the order in which they were made. -/
def accesses (t : Traced β) : List Access := t.latestFirst.reverse

variable [Bus β]

instance : Bus (Traced β) where
  read t address :=
    match t with
    | ⟨bus, seen⟩ =>
      let (value, bus) := Bus.read bus address
      (value, ⟨bus, .read address value :: seen⟩)
  write t address value :=
    match t with
    | ⟨bus, seen⟩ => ⟨Bus.write bus address value, .write address value :: seen⟩
  peek t address := Bus.peek t.bus address

/-- A read is remembered with the byte it returned. -/
theorem accesses_read (t : Traced β) (a : Word) :
    (Bus.read t a).2.accesses = t.accesses ++ [.read a (Bus.read t a).1] := by
  simp [accesses, Bus.read]

/-- A write is remembered with the byte it wrote. -/
theorem accesses_write (t : Traced β) (a : Word) (v : Byte) :
    (Bus.write t a v).accesses = t.accesses ++ [.write a v] := by
  simp [accesses, Bus.write]

end Traced

end ColorComputer
