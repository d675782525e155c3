import ColorComputer.Machine.Basic

/-!
# The console

What the user has on the table: a machine that is switched on, or none. While none is on, the panel
and the cartridge held lie on the bench; a machine that is switched on takes both over and gives them
back. A processor that is chosen is fitted at the next reset. The console remembers the latest fault.

* `start_fst`: switching on fails exactly when the configuration has a fault, with that fault.
* `withMachine_fst_isSome`: the machine does something exactly while one is on.
-/

namespace ColorComputer

/-- What is on the bench. -/
inductive Bench (τ : Type)
  /-- No machine: the panel, and a cartridge that is held. -/
  | bare (panel : Panel) (held : Option Cartridge)
  /-- A machine that is switched on. -/
  | machine (m : Machine τ)

/-- The console. -/
structure Console (τ : Type) where
  bench : Bench τ
  /-- The processor to fit at the next reset. -/
  cpu : Variant
  /-- Samples a second of the latest machine. -/
  audioRate : Nat
  /-- The latest fault since a machine was switched on. -/
  lastFault : Option ConsoleFault

namespace Bench

variable {τ : Type}

/-- The machine, if one is on. -/
def machine? : Bench τ → Option (Machine τ)
  | bare _ _ => none
  | machine m => some m

/-- What the user touches. -/
def panel : Bench τ → Panel
  | bare panel _ => panel
  | machine m => m.circuit.board.panel

/-- The cartridge in the port, or the one held. -/
def cartridge : Bench τ → Option Cartridge
  | bare _ held => held
  | machine m => m.cartridge

/-- Change what the user touches. -/
def mapPanel (f : Panel → Panel) : Bench τ → Bench τ
  | bare panel held => bare (f panel) held
  | machine m => machine (m.mapPanel f)

/-- Change the machine, if one is on. -/
def mapMachine (f : Machine τ → Machine τ) : Bench τ → Bench τ
  | bare panel held => bare panel held
  | machine m => machine (f m)

/-- Switch off: the machine leaves its panel and its cartridge. -/
def off (b : Bench τ) : Bench τ := bare b.panel b.cartridge

end Bench

namespace Console

variable {τ : Type} [Duration τ]

/-- A console that was never switched on. -/
def fresh : Console τ where
  bench := .bare .released none
  cpu := Configuration.standard.cpu
  audioRate := Configuration.standard.audioRate
  lastFault := none

/-- A machine is on. -/
def isReady (c : Console τ) : Bool := c.bench.machine?.isSome

/-- Change what the user touches. -/
def mapPanel (c : Console τ) (f : Panel → Panel) : Console τ :=
  match c with
  | ⟨bench, cpu, audioRate, lastFault⟩ => ⟨bench.mapPanel f, cpu, audioRate, lastFault⟩

/-- Change the machine, if one is on. -/
def mapMachine (c : Console τ) (f : Machine τ → Machine τ) : Console τ :=
  match c with
  | ⟨bench, cpu, audioRate, lastFault⟩ => ⟨bench.mapMachine f, cpu, audioRate, lastFault⟩

/-- Switch off. -/
def shutdown (c : Console τ) : Console τ := { c with bench := c.bench.off }

/-- A machine takes over a cartridge that was held, and is reset with it. -/
def takeOver (m : Machine τ) : Option Cartridge → Machine τ
  | some cartridge => (m.insert cartridge).reset
  | none => m

/-- Switch off, and on again with a configuration. A configuration with a fault leaves no machine;
the fault is the first part of the result. -/
def start (c : Console τ) (configuration : Configuration) : Option ConsoleFault × Console τ :=
  let c := c.shutdown
  match Machine.ofConfiguration configuration c.bench.panel with
  | .ok m =>
    (none,
      { bench := .machine (takeOver m c.bench.cartridge)
        cpu := configuration.cpu
        audioRate := configuration.audioRate
        lastFault := none })
  | .error fault =>
    (some (.configuration fault), { c with lastFault := some (.configuration fault) })

/-- Reset the machine with the processor that was chosen. -/
def reset (c : Console τ) : Console τ :=
  let cpu := c.cpu
  c.mapMachine fun m => (m.fit cpu).reset

/-- Choose the processor to fit at the next reset. -/
def chooseCpu (c : Console τ) (variant : Variant) : Console τ := { c with cpu := variant }

/-- Put a cartridge into the port and reset, or hold it while no machine is on. An image that is
refused changes nothing but the latest fault, which is the first part of the result. -/
def loadCartridge (c : Console τ) (name : String) (image : ByteArray) :
    Option ConsoleFault × Console τ :=
  match Cartridge.ofImage? name image with
  | .error fault => (some (.cartridge fault), { c with lastFault := some (.cartridge fault) })
  | .ok cartridge =>
    match c with
    | ⟨.bare panel _, cpu, audioRate, lastFault⟩ =>
      (none, ⟨.bare panel (some cartridge), cpu, audioRate, lastFault⟩)
    | ⟨.machine m, cpu, audioRate, lastFault⟩ =>
      (none, reset ⟨.machine (m.insert cartridge), cpu, audioRate, lastFault⟩)

/-- Take the cartridge out of the port, or put it away. -/
def ejectCartridge (c : Console τ) : Console τ :=
  match c with
  | ⟨.bare panel _, cpu, audioRate, lastFault⟩ => ⟨.bare panel none, cpu, audioRate, lastFault⟩
  | ⟨.machine m, cpu, audioRate, lastFault⟩ => ⟨.machine m.eject, cpu, audioRate, lastFault⟩

/-- The name of the cartridge in the port, or of the one held. -/
def cartridgeName? (c : Console τ) : Option String := c.bench.cartridge.map (·.name)

/-! ### Time -/

/-- Let the machine do something and tell what came of it, if one is on. -/
def withMachine {α : Type} (c : Console τ) (f : Machine τ → α × Machine τ) :
    Option α × Console τ :=
  match c with
  | ⟨.bare panel held, cpu, audioRate, lastFault⟩ =>
    (none, ⟨.bare panel held, cpu, audioRate, lastFault⟩)
  | ⟨.machine m, cpu, audioRate, lastFault⟩ =>
    let (result, m) := f m
    (some result, ⟨.machine m, cpu, audioRate, lastFault⟩)

/-- Draw a field. -/
def runFrame (c : Console τ) : Option SliceEvents × Console τ := c.withMachine (·.runFrame)

/-- Let time pass. -/
def runSlice (c : Console τ) (time : τ) : Option SliceEvents × Console τ :=
  c.withMachine (·.runSlice time)

/-- Run the processor for a budget of cycles. -/
def runCycles (c : Console τ) (budget : Nat) : Option Nat × Console τ :=
  c.withMachine (·.runCycles budget)

/-! ### The host -/

/-- Copy the frame into a buffer. Fails without a machine, or when the frame does not fit. -/
def copyFrame (c : Console τ) (buffer : List Pixel) : Bool × List Pixel :=
  match c.bench.machine? with
  | some m => m.frame.copyTo buffer
  | none => (false, buffer)

/-- Take samples into a buffer and tell how many; none without a machine. -/
def drainInto (c : Console τ) (buffer : List Int16) : Nat × List Int16 × Console τ :=
  match c with
  | ⟨.bare panel held, cpu, audioRate, lastFault⟩ =>
    (0, buffer, ⟨.bare panel held, cpu, audioRate, lastFault⟩)
  | ⟨.machine m, cpu, audioRate, lastFault⟩ =>
    let (count, buffer, m) := m.drainInto buffer
    (count, buffer, ⟨.machine m, cpu, audioRate, lastFault⟩)

/-! ### Laws -/

/-- Switching on fails exactly when the configuration has a fault, with that fault. -/
theorem start_fst (c : Console τ) (configuration : Configuration) :
    (c.start configuration).1 = configuration.fault?.map .configuration := by
  unfold start Machine.ofConfiguration
  cases h : configuration.fault? <;> rfl

omit [Duration τ] in
/-- The machine does something exactly while one is on. -/
theorem withMachine_fst_isSome {α : Type} (c : Console τ) (f : Machine τ → α × Machine τ) :
    (c.withMachine f).1.isSome = c.isReady := by
  obtain ⟨bench, cpu, audioRate, lastFault⟩ := c
  cases bench <;> rfl

end Console

end ColorComputer
