import ColorComputer.Proofs.Reset

/-!
# The page of devices

The page from $FF00 on belongs to the devices. What is done to them may map memory anew in any way,
but it changes no byte of it, and the vectors at the end of the page are those of the ROM however
memory is mapped.

* `contents_serve` — accesses on the page change no byte of the memory fitted.
* `read_vector`, `pc_reset` — the vectors are the end of the ROM, and a reset goes on there.
* `Machine.device_page` — both, with where the processor goes on after a reset.
-/

namespace ColorComputer

/-! ### Accesses -/

namespace Transaction

/-- All that is accessed is on the page of devices; the word at its last address is not. -/
def OnDevices : Transaction → Prop
  | read address | write address _ => 0xFF00 ≤ address
  | readWord address | writeWord address _ => 0xFF00 ≤ address ∧ address ≤ 0xFFFE

instance : DecidablePred OnDevices
  | read address | write address _ => inferInstanceAs (Decidable (0xFF00 ≤ address))
  | readWord address | writeWord address _ =>
    inferInstanceAs (Decidable (0xFF00 ≤ address ∧ address ≤ 0xFFFE))

end Transaction

/-- The board after one access after the other. -/
def Board.serve (b : Board) (ts : List Transaction) : Board := ts.foldl Transaction.serve b

/-! ### Memory stays -/

/-- The bytes of the memory fitted. -/
def Memory.contents (m : Memory) : ByteArray := m.ram.bytes

theorem Memory.romByte_of_rom {m : Memory} {rom : ByteArray} (hr : m.rom = rom) {o : Nat}
    (ho : o < rom.size) : m.romByte o = (rom.get o ho).toBitVec := by
  subst hr
  exact dif_pos ho

namespace Board

/-- What is written to a device changes no byte of memory. -/
theorem contents_write (b : Board) {a : Word} (ha : 0xFF00 ≤ a) (v : Byte) :
    (Bus.write b a v).memory.contents = b.memory.contents := by
  refine b.write_cases a v ?memory ?_ ?_ ?_ ?_ ?_ ?_ ?_
  case memory => exact fun hd => absurd (isDevice_iff.2 ha) (Bool.eq_false_iff.1 hd)
  all_goals intros; rfl

theorem contents_read (b : Board) (a : Word) :
    (Bus.read b a).2.memory.contents = b.memory.contents :=
  congrArg Memory.contents (b.memory_read a)

/-- The address behind one that begins a word on the page is on the page. -/
theorem le_next {a : Word} (h : 0xFF00 ≤ a) (he : a ≤ 0xFFFE) : (0xFF00 : Word) ≤ a + 1 := by
  bv_omega

/-- One access on the page of devices changes no byte of memory. -/
theorem contents_transaction (b : Board) {t : Transaction} (ht : t.OnDevices) :
    (t.serve b).memory.contents = b.memory.contents := by
  cases t with
  | read a => exact b.contents_read a
  | write a v => exact b.contents_write ht v
  | readWord a => exact (contents_read _ _).trans (b.contents_read a)
  | writeWord a v => exact (contents_write _ (le_next ht.1 ht.2) _).trans (b.contents_write ht.1 _)

/-- Accesses on the page of devices change no byte of memory, whatever they do to the map. -/
theorem contents_serve (b : Board) {ts : List Transaction} (h : ∀ t ∈ ts, t.OnDevices) :
    (b.serve ts).memory.contents = b.memory.contents := by
  induction ts generalizing b with
  | nil => rfl
  | cons t rest ih =>
    have ht := b.contents_transaction (h t List.mem_cons_self)
    exact (ih (t.serve b) fun u hu => h u (List.mem_cons_of_mem _ hu)).trans ht

/-! ### Vectors -/

/-- The last sixteen addresses read the last sixteen bytes of the ROM, and reading disturbs
nothing. -/
theorem read_vector (b : Board) {a : Word} (ha : 0xFFF0 ≤ a) :
    Bus.read b a = (b.memory.romByte (a.toNat - 0x8000), b) := by
  have hd : isDevice a = true := isDevice_iff.2 (BitVec.le_trans (by decide) ha)
  have ho : systemRomSize - 16 + a.toNat % 16 = a.toNat - 0x8000 := by
    unfold systemRomSize
    bv_omega
  rw [read_eq, peek, if_pos hd, if_pos hd, peekDevice, afterReadDevice, ofAddress_of_le ha]
  show (b.memory.romByte (systemRomSize - 16 + a.toNat % 16), b) = _
  rw [ho]

/-- A reset goes on at the address at the end of the ROM. -/
theorem pc_reset (b : Board) (cpu : Cpu) : (cpu.reset b).1.regs.pc =
    Word.ofBytes (b.memory.romByte 0x7FFE) (b.memory.romByte 0x7FFF) := by
  show (Bus.readWord b 0xFFFE).1 = _
  have hh : (0xFFFE : Word).toNat - 0x8000 = 0x7FFE := by decide
  have hl : (0xFFFE + 1 : Word).toNat - 0x8000 = 0x7FFF := by decide
  have h1 := b.read_vector (a := 0xFFFE) (by decide)
  have h2 := b.read_vector (a := 0xFFFE + 1) (by decide)
  rw [hh] at h1
  rw [hl] at h2
  show Word.ofBytes (Bus.read b 0xFFFE).1 (Bus.read (Bus.read b 0xFFFE).2 (0xFFFE + 1)).1 = _
  rw [h1, h2]

end Board

/-! ### Machines -/

namespace Machine

variable {τ : Type} [Duration τ]

/-- A machine that could be built is one of its configuration, and its ROM has the right size. -/
theorem of_ofConfiguration {c : Configuration} {panel : Panel} {m : Machine τ}
    (hm : ofConfiguration c panel = .ok m) : m.Of c ∧ c.rom.size = systemRomSize := by
  unfold ofConfiguration at hm
  split at hm
  · cases hm
  · rename_i hf
    rw [← Except.ok.inj hm]
    exact ⟨Of.build c panel, ((Configuration.fault?_eq_none_iff c).1 hf).1⟩

/-- The bytes of the ROM of a machine are those of its configuration. -/
theorem Of.romByte {c : Configuration} {m : Machine τ} (h : m.Of c) {o : Nat}
    (ho : o < c.rom.size) : m.circuit.board.memory.romByte o = (c.rom.get o ho).toBitVec := by
  have hr : m.circuit.board.memory.rom = c.rom := congrArg Memory.rom h.memory
  exact Memory.romByte_of_rom hr ho

/-- A reset of the machine resets its processor on the board as it was, but for the devices. -/
theorem pc_reset (m : Machine τ) : m.reset.circuit.cpu.regs.pc =
    (m.circuit.cpu.reset m.circuit.board).1.regs.pc := by
  rw [Board.pc_reset]
  exact Board.pc_reset m.circuit.board.reset m.circuit.cpu

/-- Accesses on the page of devices change no byte of memory, whatever they do to the map. And
whatever was done to a machine, the last sixteen addresses read the last sixteen bytes of its ROM,
so that a reset of the processor, alone or with the machine, goes on at the address at its end. -/
theorem device_page :
    (∀ (b : Board) (ts : List Transaction), (∀ t ∈ ts, t.OnDevices) →
      (b.serve ts).memory.contents = b.memory.contents) ∧
    ∀ (c : Configuration) (panel : Panel) (m : Machine τ), ofConfiguration c panel = .ok m →
      ∀ history : List (Operation τ),
        (∀ i, i < 16 → ∃ h : c.rom.size - 16 + i < c.rom.size,
          (Bus.read (m.after history).circuit.board (0xFFF0 + BitVec.ofNat 16 i)).1 =
            (c.rom.get (c.rom.size - 16 + i) h).toBitVec) ∧
        ∃ (hh : 0x7FFE < c.rom.size) (hl : 0x7FFF < c.rom.size),
          (∀ cpu : Cpu, (cpu.reset (m.after history).circuit.board).1.regs.pc =
            Word.ofBytes (c.rom.get 0x7FFE hh).toBitVec (c.rom.get 0x7FFF hl).toBitVec) ∧
          (m.after history).reset.circuit.cpu.regs.pc =
            Word.ofBytes (c.rom.get 0x7FFE hh).toBitVec (c.rom.get 0x7FFF hl).toBitVec := by
  refine ⟨fun b ts => b.contents_serve, fun c panel m hm history => ?_⟩
  obtain ⟨hb, hs⟩ := of_ofConfiguration hm
  have ho : (m.after history).Of c := hb.after history
  unfold systemRomSize at hs
  refine ⟨fun i hi => ⟨by omega, ?_⟩, by omega, by omega, fun cpu => ?_, ?_⟩
  · have ha : (0xFFF0 : Word) ≤ 0xFFF0 + BitVec.ofNat 16 i := by bv_omega
    have hn : (0xFFF0 + BitVec.ofNat 16 i : Word).toNat - 0x8000 = c.rom.size - 16 + i := by
      bv_omega
    rw [Board.read_vector _ ha, hn]
    exact ho.romByte _
  · rw [Board.pc_reset, ho.romByte, ho.romByte]
  · rw [pc_reset, Board.pc_reset, ho.romByte, ho.romByte]

end Machine

/-- Mapping is switched on, two slots get other blocks, and the window is switched off. -/
def Transaction.remapping : List Transaction :=
  [.write 0xFF90 0x4C, .writeWord 0xFFA0 0x0001, .write 0xFFDF 0, .readWord 0xFFFE]

/-- A machine with a past; its board, whose map is then changed; and a reset in the end. -/
theorem device_page_plugged :
    let m : Machine Float := .build Plugged.configuration .released
    let b := (m.after Plugged.history).circuit.board
    (∀ t ∈ Transaction.remapping, t.OnDevices) ∧
    (b.serve Transaction.remapping).memory.contents = b.memory.contents ∧
    (∀ i, i < 16 → ∃ h : Plugged.configuration.rom.size - 16 + i < Plugged.configuration.rom.size,
      (Bus.read b (0xFFF0 + BitVec.ofNat 16 i)).1 =
        (Plugged.configuration.rom.get (Plugged.configuration.rom.size - 16 + i) h).toBitVec) := by
  have hm := Machine.ofConfiguration_of_fault?_eq_none (τ := Float) Plugged.fault?_configuration
    .released
  have h := Machine.device_page (τ := Float)
  exact ⟨by decide, h.1 _ Transaction.remapping (by decide), (h.2 _ _ _ hm Plugged.history).1⟩

end ColorComputer
