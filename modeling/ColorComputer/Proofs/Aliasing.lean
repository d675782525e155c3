import ColorComputer.Machine.Board

/-!
# Aliases in memory

Many addresses can lead to one byte: a block may stand in several slots, the smallest memory decodes
four bits of a block number only, and a page may be pinned over whatever its slot shows. Which
addresses are the same byte is said by `translate` alone.

* `Mmu.translate_within` — an address leads into the window or into the memory fitted, not past it.
* `Memory.read_write` — a write shows at the aliases of its address and nowhere else.
* `Board.aliasing` — what a write over the bus changes, and who sees it.
-/

namespace ColorComputer

/-! ### Where addresses lead -/

/-- The place exists: an offset of the window of 32K, or of the memory fitted. -/
def Place.Within (size : RamSize) : Place → Prop
  | .ram offset => offset < size.bytes
  | .rom offset => offset < systemRomSize
  | .cartridge offset => offset < systemRomSize

namespace Mmu

theorem windowPlace_within (m : Mmu) (size : RamSize) {offset : Nat} (h : offset < systemRomSize) :
    (m.windowPlace offset).Within size := by
  unfold windowPlace
  cases m.romMap with
  | internal | external => exact h
  | split =>
    dsimp only
    split
    · exact h
    · exact Nat.lt_of_le_of_lt (Nat.sub_le _ _) h

/-- The block that is left of a block number and its extension is one of those fitted. -/
theorem block_lt (size : RamSize) (extension : Byte) (number : BitVec 6) :
    (extension &&& size.extensionMask).toNat * 64 + (number &&& size.blockMask).toNat <
      size.kilobytes / 8 := by
  have he : (extension &&& size.extensionMask).toNat ≤ size.extensionMask.toNat := by
    rw [BitVec.toNat_and]
    exact Nat.and_le_right
  have hn : (number &&& size.blockMask).toNat ≤ size.blockMask.toNat := by
    rw [BitVec.toNat_and]
    exact Nat.and_le_right
  have hm : size.extensionMask.toNat * 64 + size.blockMask.toNat < size.kilobytes / 8 := by
    cases size <;> decide
  omega

/-- An address leads into the window or into the memory fitted. -/
theorem translate_within (m : Mmu) (size : RamSize) (a : Word) :
    (m.translate size a).Within size := by
  have ho : (offset a).toNat < 0x2000 := (offset a).isLt
  unfold translate
  dsimp only
  split
  · apply windowPlace_within
    have hn : (m.block size a).number.toNat < 64 := (m.block size a).number.isLt
    unfold systemRomSize
    omega
  · have hb := block_lt size m.extension (m.blockNumber a)
    have hk : size.bytes = size.kilobytes / 8 * 0x2000 := by
      unfold RamSize.bytes
      cases size <;> rfl
    show ((m.extension &&& size.extensionMask).toNat * 64 +
      (m.blockNumber a &&& size.blockMask).toNat) * 0x2000 + (offset a).toNat < size.bytes
    omega

end Mmu

/-! ### Memory -/

namespace Memory

variable (m : Memory) {a : Word} {o : Nat}

/-- What an address leads to in the memory fitted is there. -/
theorem lt_of_translate (h : m.translate a = .ram o) : o < m.size.bytes := by
  have hw : (m.translate a).Within m.size := m.mmu.translate_within m.size a
  rwa [h] at hw

/-- The window swallows what is written to it. -/
theorem write_of_window (h : ∀ o, m.translate a ≠ .ram o) (v : Byte) : m.write a v = m := by
  unfold write writePlace
  split
  · rename_i o ho
    exact absurd ho (h o)
  · rfl

/-- A write keeps one byte. -/
theorem write_of_ram (h : m.translate a = .ram o) (v : Byte) :
    m.write a v = ⟨m.size, m.ram.write o v, m.rom, m.mmu⟩ := by
  unfold write
  rw [h]
  rfl

/-- A write to the memory fitted shows at the aliases of its address and nowhere else. -/
theorem read_write (h : m.translate a = .ram o) (v : Byte) (cartridge : Option Cartridge)
    (c : Word) : (m.write a v).read cartridge c =
      if m.translate c = m.translate a then v else m.read cartridge c := by
  rw [h, m.write_of_ram h]
  show readPlace ⟨m.size, m.ram.write o v, m.rom, m.mmu⟩ cartridge (m.translate c) =
    if m.translate c = .ram o then v else m.readPlace cartridge (m.translate c)
  cases m.translate c with
  | ram i =>
    show ((m.ram.write o v).read i).getD openBus = if Place.ram i = .ram o then v else _
    rw [ByteStore.read_write]
    by_cases hi : o = i
    · rw [if_pos ⟨hi, m.lt_of_translate h⟩, if_pos (by rw [hi])]
      rfl
    · rw [if_neg fun hc => hi hc.1, if_neg fun hc => hi (Place.ram.inj hc).symm]
      rfl
  | rom i | cartridge i =>
    rw [if_neg nofun]
    rfl

end Memory

/-! ### The board -/

/-- The second board is the first but for one byte of the memory fitted, which is this there. -/
structure Board.DiffersIn (offset : Nat) (v : Byte) (b b' : Board) : Prop where
  byte : b'.memory.ram.read offset = some v
  others : ∀ i, i ≠ offset → b'.memory.ram.read i = b.memory.ram.read i
  size : b'.memory.size = b.memory.size
  rom : b'.memory.rom = b.memory.rom
  mmu : b'.memory.mmu = b.memory.mmu
  gime : b'.gime = b.gime
  pia0 : b'.pia0 = b.pia0
  pia1 : b'.pia1 = b.pia1
  cartridge : b'.cartridge = b.cartridge
  panel : b'.panel = b.panel
  selector : b'.selector = b.selector

namespace Board

variable (b : Board) {a : Word}

theorem isDevice_of_lt (ha : a < 0xFF00) : isDevice a = false := by
  unfold isDevice
  exact decide_eq_false (BitVec.not_le.2 ha)

theorem write_of_lt (ha : a < 0xFF00) (v : Byte) : Bus.write b a v = b.writeMemory a v := by
  show (if isDevice a then b.writeDevice a v else b.writeMemory a v) = _
  rw [isDevice_of_lt ha]
  rfl

theorem read_of_lt (ha : a < 0xFF00) :
    Bus.read b a = (b.memory.read b.cartridge a, b) := by
  rw [read_eq, peek, isDevice_of_lt ha]
  rfl

/-- A write to an address that leads into the memory fitted changes the byte that it leads to. -/
theorem differsIn_write {o : Nat} (ha : a < 0xFF00) (h : b.memory.translate a = .ram o) (v : Byte) :
    b.DiffersIn o v (Bus.write b a v) := by
  have hw : Bus.write b a v = { b with
      memory := ⟨b.memory.size, b.memory.ram.write o v, b.memory.rom, b.memory.mmu⟩ } := by
    rw [write_of_lt b ha, ← b.memory.write_of_ram h]
    rfl
  rw [hw]
  refine ⟨?_, fun i hi => ?_, rfl, rfl, rfl, rfl, rfl, rfl, rfl, rfl, rfl⟩
  · show (b.memory.ram.write o v).read o = some v
    rw [ByteStore.read_write, if_pos ⟨rfl, b.memory.lt_of_translate h⟩]
  · show (b.memory.ram.write o v).read i = b.memory.ram.read i
    rw [ByteStore.read_write, if_neg fun hc => hi hc.1.symm]

/-- Below the page of devices an address leads to a byte of the memory fitted, which is there, or to
an offset of the window. A write to the window changes nothing. A write to a byte changes that byte
and nothing else, so that from then on exactly the addresses that lead there read what was
written. -/
theorem aliasing (ha : a < 0xFF00) (v : Byte) :
    (b.memory.translate a).Within b.memory.size ∧
    ((∀ o, b.memory.translate a ≠ .ram o) → Bus.write b a v = b) ∧
    ∀ o, b.memory.translate a = .ram o →
      b.memory.ram.read o = some (Bus.read b a).1 ∧
      b.DiffersIn o v (Bus.write b a v) ∧
      ∀ c : Word, c < 0xFF00 → (Bus.read (Bus.write b a v) c).1 =
        if b.memory.translate c = b.memory.translate a then v else (Bus.read b c).1 := by
  refine ⟨b.memory.mmu.translate_within b.memory.size a, fun hr => ?_, fun o h => ?_⟩
  · rw [write_of_lt b ha]
    exact congrArg (fun memory => { b with memory := memory }) (b.memory.write_of_window hr v)
  · have hs : b.memory.ram.read o = some (Bus.read b a).1 := by
      rw [read_of_lt b ha]
      show _ = some (b.memory.readPlace b.cartridge (b.memory.translate a))
      rw [h]
      show _ = some ((b.memory.ram.read o).getD openBus)
      rw [ByteStore.read_eq_get _ (b.memory.lt_of_translate h)]
      rfl
    refine ⟨hs, b.differsIn_write ha h v, fun c hc => ?_⟩
    rw [read_of_lt _ hc, read_of_lt b hc, write_of_lt b ha]
    exact b.memory.read_write h v b.cartridge c

/-- A board whose first two slots show the same block. -/
def doubled : Board :=
  .fresh ((Memory.fresh .k128 ⟨Array.replicate systemRomSize 0⟩).mapMmu fun m =>
    ((m.writeInit0 0x40).setRegister 0 5).setRegister 1 5) .released

/-- What is written to the first slot is read from the second. -/
theorem aliasing_doubled :
    (0x0123 : Word) < 0xFF00 ∧ doubled.memory.translate 0x0123 = .ram 0xA123 ∧
      (Bus.read (Bus.write doubled 0x0123 0x55) 0x2123).1 = 0x55 := by
  have ht : doubled.memory.translate 0x0123 = .ram 0xA123 := by decide +kernel
  have hc : doubled.memory.translate 0x2123 = doubled.memory.translate 0x0123 := by decide +kernel
  have h := doubled.aliasing (a := 0x0123) (by decide) 0x55
  refine ⟨by decide, ht, ?_⟩
  rw [(h.2.2 _ ht).2.2 0x2123 (by decide), if_pos hc]

end Board

end ColorComputer
