import ColorComputer.Word

/-!
# Buses

A bus answers byte reads and writes at 16-bit addresses. A read may disturb what it reads from, as
a port that clears its flag does, so it returns the bus that is left. `peek` looks without
disturbing. A word is two byte accesses, the high byte first and the low byte at the next address,
which wraps at 64K.

* `peekMany_succ`: peeking at one more byte adds it at the end.
* `length_peekMany`: peeking gives as many bytes as were asked for.
-/

namespace ColorComputer

/-- Anything that answers byte accesses at 16-bit addresses. -/
class Bus (β : Type) where
  /-- The byte that a read returns, and the bus after it. -/
  read : β → Word → Byte × β
  /-- The bus after a write. -/
  write : β → Word → Byte → β
  /-- The byte at an address, without side effects. -/
  peek : β → Word → Byte

namespace Bus

variable {β : Type} [Bus β]

/-- A word read is two byte reads in address order. -/
def readWord (bus : β) (address : Word) : Word × β :=
  let (high, bus) := read bus address
  let (low, bus) := read bus (address + 1)
  (Word.ofBytes high low, bus)

/-- A word write is two byte writes in address order. -/
def writeWord (bus : β) (address value : Word) : β :=
  write (write bus address (Word.highByte value)) (address + 1) (Word.lowByte value)

/-- The bytes at an address and the ones after it, wrapping at 64K. -/
def peekMany (bus : β) (address : Word) (count : Nat) : List Byte :=
  (List.range count).map fun i => peek bus (address + BitVec.ofNat 16 i)

/-- Peeking at one more byte adds it at the end. -/
theorem peekMany_succ (bus : β) (address : Word) (count : Nat) :
    peekMany bus address (count + 1) =
      peekMany bus address count ++ [peek bus (address + BitVec.ofNat 16 count)] := by
  simp [peekMany, List.range_succ]

/-- Peeking gives as many bytes as were asked for. -/
@[simp] theorem length_peekMany (bus : β) (address : Word) (count : Nat) :
    (peekMany bus address count).length = count := by
  simp [peekMany]

end Bus

end ColorComputer
