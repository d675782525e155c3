import ColorComputer.Cartridge
import ColorComputer.Cpu.Variant
import ColorComputer.Memory.Banked

/-!
# Configurations

What a machine is built from, and the reasons why one is not built. A configuration is checked in
the order ROM present, ROM of the right size, overclock in range; the first fault is the one
reported.

* `fault?_eq_none_iff`: a configuration has no fault exactly when all three hold.
-/

namespace ColorComputer

/-- Why a configuration is refused. -/
inductive ConfigurationFault
  | unknownRamSize (kilobytes : Nat)
  | missingRom
  | wrongRomSize (size : Nat)
  | overclock (multiplier : Nat)
  deriving DecidableEq

/-- What a machine is built from. -/
structure Configuration where
  ram : RamSize
  cpu : Variant
  rom : ByteArray
  /-- Samples a second; none are taken at zero. -/
  audioRate : Nat
  /-- How many times faster than usual the processor runs. -/
  overclock : Nat

namespace Configuration

/-- The most a processor can be overclocked. -/
def maxOverclock : Nat := 100

/-- The machine as it was sold, without its ROM. -/
def standard : Configuration where
  ram := .k128
  cpu := .motorola
  rom := .empty
  audioRate := 44100
  overclock := 1

instance : Inhabited Configuration := ⟨standard⟩

/-- The fault of a configuration, if it has one. -/
def fault? (c : Configuration) : Option ConfigurationFault :=
  if c.rom.size = 0 then some .missingRom
  else if c.rom.size ≠ systemRomSize then some (.wrongRomSize c.rom.size)
  else if c.overclock < 1 ∨ maxOverclock < c.overclock then some (.overclock c.overclock)
  else none

/-- A configuration has no fault exactly when its ROM has the right size and its overclock is in
range. -/
theorem fault?_eq_none_iff (c : Configuration) :
    c.fault? = none ↔
      c.rom.size = systemRomSize ∧ 1 ≤ c.overclock ∧ c.overclock ≤ maxOverclock := by
  unfold fault?
  split
  · rename_i h
    simp [h, systemRomSize]
  · split
    · rename_i h
      simp [h]
    · split
      · simp; omega
      · simp; omega

end Configuration

/-! ### Faults of the whole machine, and their wording -/

/-- Why the console refuses. -/
inductive ConsoleFault
  | configuration (fault : ConfigurationFault)
  | cartridge (fault : CartridgeFault)
  | notReady
  deriving DecidableEq

/-- The size of so many kilobytes, or the fault of asking for it. -/
def RamSize.ofKilobytes (kilobytes : Nat) : Except ConfigurationFault RamSize :=
  match RamSize.ofKilobytes? kilobytes with
  | some size => .ok size
  | none => .error (.unknownRamSize kilobytes)

/-- The wording of a fault in a configuration. -/
def ConfigurationFault.message : ConfigurationFault → String
  | unknownRamSize kilobytes =>
    "unsupported RAM size " ++ toString kilobytes ++ "K (expected 128, 512, 2048 or 8192)"
  | missingRom => "no system ROM image supplied"
  | wrongRomSize size =>
    "system ROM is " ++ toString size ++ " bytes, expected " ++ toString systemRomSize
  | overclock multiplier =>
    "overclock multiplier " ++ toString multiplier ++ " outside 1..=" ++
      toString Configuration.maxOverclock

/-- The wording of a fault in a cartridge. -/
def CartridgeFault.message : CartridgeFault → String
  | empty => "cartridge image is empty"
  | tooLarge size =>
    "cartridge image is " ++ toString size ++ " bytes, limit is " ++ toString Cartridge.maxSize

/-- The wording of what made the console refuse. -/
def ConsoleFault.cause : ConsoleFault → String
  | configuration fault => fault.message
  | cartridge fault => fault.message
  | notReady => "emulator has not been initialised"

/-- The wording of a refusal of the console. -/
def ConsoleFault.message : ConsoleFault → String
  | configuration fault => "configuration rejected: " ++ fault.message
  | cartridge fault => "cartridge rejected: " ++ fault.message
  | notReady => notReady.cause

end ColorComputer
