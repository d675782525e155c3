import ColorComputer.Machine.Basic
import ColorComputer.Proofs.Program

/-!
# Bare boards

A program that uses the first adapter only, and writes where nothing is, leaves every other chip as
after reset. All that can change on such a board is that adapter, and all that reaches the processor
are its interrupts.

* `romOf` — a system ROM from a table of its bytes.
* `Board.bare` — the board, given the memory and the first adapter.
* `driveLine_bare`, `driveField_bare` — levels that change.
* `circuit_reset_bare` — a machine that is reset starts the program.
-/

namespace ColorComputer

/-! ### ROMs -/

/-- The system ROM with these bytes. -/
def romOf (code : Nat → UInt8) : ByteArray := ⟨Array.ofFn (n := systemRomSize) fun i => code i.val⟩

theorem size_romOf (code : Nat → UInt8) : (romOf code).size = systemRomSize := by
  simp [romOf, ByteArray.size]

theorem get_ofFn {n : Nat} (f : Fin n → UInt8) {i : Nat} (hi : i < n)
    (h : i < (ByteArray.mk (Array.ofFn f)).size) :
    (ByteArray.mk (Array.ofFn f)).get i h = f ⟨i, hi⟩ :=
  Array.getElem_ofFn h

theorem Memory.romByte_of {m : Memory} {code : Nat → UInt8} (hm : m.rom = romOf code) {i : Nat}
    (hi : i < systemRomSize) : m.romByte i = (code i).toBitVec := by
  unfold Memory.romByte
  rw [hm, dif_pos (by rwa [size_romOf])]
  exact congrArg UInt8.toBitVec (get_ofFn (fun i => code i.val) hi _)

/-! ### Ports -/

namespace Port

/-- A port of which nothing but the control register was written. -/
def bare (control : BitVec 6) (flag level : Bool) : Port := ⟨0, 0, control, flag, false, level, rfl⟩

/-- A port that was not programmed yet shows its flag. -/
theorem controlByte_zero (flag level : Bool) :
    (bare 0 flag level).controlByte = if flag then 0x80 else 0x00 := by
  cases flag <;> cases level <;> decide

theorem pinsSelected_enabled (flag level : Bool) : (bare 0x3F flag level).pinsSelected = true := by
  decide +revert

/-- A port that is enabled shows its pins, which takes the flag. -/
theorem readData_enabled (outside : Byte) (flag level : Bool) :
    (bare 0x3F flag level).peekData outside = outside ∧
      (bare 0x3F flag level).afterReadData = bare 0x3F false level := by
  constructor
  · rw [Port.peekData, if_pos (pinsSelected_enabled flag level)]
    show (0 &&& 0 ||| outside &&& ~~~0) = outside
    decide +revert
  · rw [Port.afterReadData, if_pos (pinsSelected_enabled flag level)]
    rfl

/-- A port whose output register is clear stays as it is where high pins are complemented into
it. -/
theorem writeData_enabled (flag level : Bool) :
    (bare 0x3F flag level).writeData (~~~0xFF) = bare 0x3F flag level := by
  rw [Port.writeData, if_pos (pinsSelected_enabled flag level)]
  rfl

theorem driven_zero (control : BitVec 6) (flag level : Bool) :
    (bare control flag level).driven = 0xFF := by
  show (0 &&& 0 ||| 0xFF &&& ~~~0 : Byte) = 0xFF
  decide

end Port

/-! ### Boards -/

namespace Board

/-- A board on which nothing but the first adapter was used since reset. -/
def bare (memory : Memory) (pia0 : Pia) : Board where
  memory := memory
  gime := .reset
  pia0 := pia0
  pia1 := .reset
  cartridge := none
  panel := .released
  selector := 0

variable {memory : Memory} {code : Nat → UInt8} {pia0 : Pia}

theorem bare_shows_code (hm : memory.rom = romOf code) {a : Word} {i : Nat}
    (hd : isDevice a = false) (ht : memory.translate a = .rom i) (hi : i < systemRomSize) :
    Bus.Shows (bare memory pia0) a (code i).toBitVec := by
  rw [← Memory.romByte_of hm hi]
  exact shows_rom hd ht

theorem bare_shows_vector (hm : memory.rom = romOf code) {a : Word} (ha : 0xFFF0 ≤ a) :
    Bus.Shows (bare memory pia0) a (code (systemRomSize - 16 + a.toNat % 16)).toBitVec := by
  have hi : systemRomSize - 16 + a.toNat % 16 < systemRomSize := by
    unfold systemRomSize
    omega
  rw [← Memory.romByte_of hm hi]
  exact shows_vector ha

/-- A frame on addresses that nothing stores is swallowed. -/
theorem swallows_below {b : Board} {top : Word} {n : Nat}
    (h : (top.below n).all (fun a => 0xFFE0 ≤ a) = true) (a : Word) (ha : a ∈ top.below n)
    (v : Byte) : Bus.write b a v = b :=
  swallows (of_decide_eq_true (List.all_eq_true.1 h a ha)) v

/-- The processor has the slow clock. -/
theorem multiplier_bare (memory : Memory) (pia0 : Pia) : (bare memory pia0).multiplier = 1 := by
  show (if (0 : BitVec 16).getLsbD 12 then 2 else 1) = 1
  decide

end Board

/-! ### Circuits -/

theorem Gime.raise_reset (source : Byte) : reset.raise source = (⟨false, false⟩, reset) := rfl

namespace Circuit

variable {memory : Memory} (cpu : Cpu) (pia0 : Pia) (samples : SampleQueue)

/-- No source of the GIME is enabled. -/
theorem raise_bare (source : Byte) :
    raise ⟨cpu, .bare memory pia0, samples⟩ source = ⟨cpu, .bare memory pia0, samples⟩ := by
  have hg : (Board.bare memory pia0).gime = .reset := rfl
  unfold raise
  dsimp only
  rw [hg, Gime.raise_reset]
  rfl

theorem assertAdapters_bare : assertAdapters ⟨cpu, .bare memory pia0, samples⟩ =
    ⟨if pia0.interrupt then cpu.assert .irq else cpu, .bare memory pia0, samples⟩ := rfl

theorem driveLine_bare (level : Bool) : driveLine ⟨cpu, .bare memory pia0, samples⟩ level =
    ⟨if !level && (pia0.setCA1 level).interrupt then cpu.assert .irq else cpu,
      .bare memory (pia0.setCA1 level), samples⟩ := by
  cases level with
  | true => rfl
  | false =>
    show assertAdapters (raise ⟨cpu, .bare memory (pia0.setCA1 false), samples⟩ Gime.sourceLine) = _
    rw [raise_bare, assertAdapters_bare]
    rfl

theorem driveField_bare (level : Bool) : driveField ⟨cpu, .bare memory pia0, samples⟩ level =
    ⟨if !level && (pia0.setCB1 level).interrupt then cpu.assert .irq else cpu,
      .bare memory (pia0.setCB1 level), samples⟩ := by
  cases level with
  | true => rfl
  | false =>
    show assertAdapters
      (raise ⟨cpu, .bare memory (pia0.setCB1 false), samples⟩ Gime.sourceField) = _
    rw [raise_bare, assertAdapters_bare]
    rfl

/-- A run of the processor, and then its lines are set. -/
theorem runCycles_of_run {c : Circuit} {budget used : Nat} {cpu : Cpu} {board : Board}
    (h : c.cpu.run c.board budget = ⟨cpu, board, used⟩) :
    c.runCycles budget = (used, syncLines ⟨cpu, board, c.samples⟩) := by
  obtain ⟨first, bus, samples⟩ := c
  dsimp only at h
  unfold runCycles
  dsimp only
  rw [h]

theorem syncLines_bare : syncLines ⟨cpu, .bare memory pia0, samples⟩ =
    ⟨(cpu.setLevel .irq pia0.interrupt).setLevel .firq false, .bare memory pia0, samples⟩ := by
  have hi : (Board.bare memory pia0).irqLevel = pia0.interrupt := Bool.or_false _
  unfold syncLines
  dsimp only
  rw [hi]
  rfl

end Circuit

/-! ### Machines -/

/-- A configuration without a fault makes a machine. -/
theorem Machine.ofConfiguration_of_fault?_eq_none {τ : Type} [Duration τ] {c : Configuration}
    (h : c.fault? = none) (panel : Panel) :
    Machine.ofConfiguration c panel = .ok (Machine.build c panel : Machine τ) := by
  unfold Machine.ofConfiguration
  rw [h]

/-- A machine that is reset starts its program, if nothing was ever put into its cartridge port and
nothing is touched. -/
theorem Machine.circuit_reset_bare {τ : Type} [Duration τ] {m : Machine τ} {code : Nat → UInt8}
    {memory : Memory} (hm : m.circuit.board.memory.reset = memory) (hr : memory.rom = romOf code)
    (hc : m.circuit.board.cartridge = none) (hp : m.circuit.board.panel = .released) :
    m.reset.circuit =
      ⟨{ regs :=
          { Registers.zeros with
            pc := Word.ofBytes (code 0x7FFE).toBitVec (code 0x7FFF).toBitVec
            cc := { ConditionCodes.clear with firqMask := true, irqMask := true } }
         variant := m.circuit.cpu.variant
         lines := .idle
         nmiArmed := false
         wait := .running
         totalCycles := m.circuit.cpu.totalCycles },
        .bare memory .reset, m.circuit.samples.clear⟩ := by
  have hb : m.circuit.board.reset = .bare memory .reset := by
    unfold Board.reset
    rw [hm, hc, hp]
    rfl
  have h0 : Bus.Shows (Board.bare memory .reset) Cpu.resetVector (code 0x7FFE).toBitVec :=
    Board.bare_shows_vector hr (by decide)
  have h1 : Bus.Shows (Board.bare memory .reset) (Cpu.resetVector + 1) (code 0x7FFF).toBitVec :=
    Board.bare_shows_vector hr (by decide)
  have hv : Bus.readWord (Board.bare memory .reset) Cpu.resetVector =
      (Word.ofBytes (code 0x7FFE).toBitVec (code 0x7FFF).toBitVec, .bare memory .reset) := by
    unfold Bus.readWord
    rw [h0]
    dsimp only
    rw [h1]
  show m.circuit.reset = _
  unfold Circuit.reset Cpu.reset
  rw [hb, hv]

end ColorComputer
