import ColorComputer.Proofs.Aliasing
import ColorComputer.Proofs.Mapping

/-!
# Every byte has an address

The block number, the bits that extend it and the offset make up an address of the memory fitted, and
each of them is something that software can choose. So every byte that is fitted can be brought into
every slot. Two addresses meet in one byte only where their blocks do: no bit of the number is lost
but those that the smallest memory does not decode.

* `RamSize.block_and` — the decoded bits of a block that is fitted are all of its bits.
* `Mmu.translate_show` — how a slot is made to show a block.
* `Mmu.translate_eq_iff` — when two addresses lead to one byte.
* `Board.coverage` — what writes over the bus can bring into a slot, and which addresses meet.
-/

namespace ColorComputer

/-! ### Blocks -/

namespace RamSize

theorem bytes_eq (size : RamSize) : size.bytes = size.kilobytes / 8 * 0x2000 := by
  unfold bytes
  cases size <;> rfl

/-- The number of a block that is fitted is made of bits that are decoded. -/
theorem block_and (size : RamSize) {block : Nat} (h : block < size.kilobytes / 8) :
    (BitVec.ofNat 8 (block / 64) &&& size.extensionMask).toNat * 64 +
      ((BitVec.ofNat 8 (block % 64)).setWidth 6 &&& size.blockMask).toNat = block := by
  have hall : ∀ block < size.kilobytes / 8,
      (BitVec.ofNat 8 (block / 64) &&& size.extensionMask).toNat * 64 +
        ((BitVec.ofNat 8 (block % 64)).setWidth 6 &&& size.blockMask).toNat = block := by
    cases size <;> decide +kernel
  exact hall block h

/-- What is decoded of two block numbers is the same. -/
theorem and_blockMask_eq_iff (size : RamSize) (m n : BitVec 6) :
    m &&& size.blockMask = n &&& size.blockMask ↔
      if size = .k128 then m.toNat % 16 = n.toNat % 16 else m = n := by
  have hlow : ∀ m : BitVec 6, (m &&& 0x0F).toNat = m.toNat % 16 := by decide
  have hall : ∀ m : BitVec 6, m &&& 0x3F = m := by decide
  cases size with
  | k128 =>
    show m &&& 0x0F = n &&& 0x0F ↔ _
    rw [if_pos rfl, ← BitVec.toNat_inj, hlow, hlow]
  | k512 | m2 | m8 =>
    show m &&& 0x3F = n &&& 0x3F ↔ _
    rw [if_neg (by decide), hall, hall]

end RamSize

/-! ### Addresses -/

namespace Mmu

/-- An address by its slot and its offset. -/
def address (slot : BitVec 3) (offset : BitVec 13) : Word := slot ++ offset

@[simp] theorem slot_address (s : BitVec 3) (o : BitVec 13) : slot (address s o) = s :=
  BitVec.extractLsb'_append_eq_left

@[simp] theorem offset_address (s : BitVec 3) (o : BitVec 13) : offset (address s o) = o :=
  BitVec.setWidth_append_eq_right

/-- The page of devices is in the top slot. -/
theorem slot_of_isDevice {a : Word} (h : Board.isDevice a = true) : slot a = 7 := by
  have hlow : 0xFF00 ≤ a.toNat := BitVec.le_def.1 (of_decide_eq_true h)
  have hhigh := a.isLt
  have htop : (7 : BitVec 3).toNat = 7 := rfl
  apply BitVec.eq_of_toNat_eq
  simp only [slot, BitVec.extractLsb'_toNat, Nat.shiftRight_eq_div_pow, htop]
  omega

/-- The task register that says what an address shows. -/
def active (m : Mmu) (a : Word) : BitVec 6 := m.register (m.task ++ slot a)

/-- The block of an address shows ROM or the cartridge: it is one of the four of the window, none of
the bits that extend it is set, and the window is not switched off. -/
def ShowsRom (m : Mmu) (size : RamSize) (a : Word) : Prop :=
  m.extension &&& size.extensionMask = 0 ∧ 0x3C ≤ m.active a ∧ m.allRam = false

instance (m : Mmu) (size : RamSize) (a : Word) : Decidable (m.ShowsRom size a) :=
  inferInstanceAs (Decidable (_ ∧ _ ∧ _))

theorem register_setRegister (m : Mmu) (i : BitVec 4) (v : BitVec 6) :
    (m.setRegister i v).register i = v :=
  Vector.getElem_set_self _

variable {m : Mmu} {size : RamSize} {a c : Word}

theorem windowPlace_ne_ram (m : Mmu) (offset o : Nat) : m.windowPlace offset ≠ .ram o := by
  unfold windowPlace
  split
  · nofun
  · nofun
  · split <;> nofun

theorem not_showsRom_of_allRam (h : m.allRam = true) : ¬ m.ShowsRom size a := by
  rintro ⟨-, -, hf⟩
  rw [h] at hf
  exact Bool.noConfusion hf

theorem pinned_of_free (h : m.constantPage = false) : m.pinned a = false := by
  rw [pinned, h, Bool.false_and]

section Enabled

variable (he : m.enabled = true) (hc : m.constantPage = false)
include he hc

theorem blockNumber_of_enabled : m.blockNumber a = m.active a := by
  rw [blockNumber, pinned_of_free hc, if_neg Bool.false_ne_true, if_pos he]
  rfl

theorem inWindow_iff : m.inWindow size a = true ↔ m.ShowsRom size a := by
  unfold inWindow block ShowsRom
  rw [blockNumber_of_enabled he hc, pinned_of_free hc]
  simp [and_assoc]

theorem translate_of_not_showsRom (h : ¬ m.ShowsRom size a) : m.translate size a =
    .ram (((m.extension &&& size.extensionMask).toNat * 64 +
      (m.active a &&& size.blockMask).toNat) * 0x2000 + (offset a).toNat) := by
  unfold translate
  rw [if_neg (by rw [inWindow_iff he hc]; exact h)]
  unfold block
  rw [blockNumber_of_enabled he hc]

theorem translate_ne_ram (h : m.ShowsRom size a) (o : Nat) : m.translate size a ≠ .ram o := by
  unfold translate
  rw [if_pos ((inWindow_iff he hc).2 h)]
  exact m.windowPlace_ne_ram _ o

theorem showsRom_iff : m.ShowsRom size a ↔ ∀ o, m.translate size a ≠ .ram o := by
  constructor
  · exact translate_ne_ram he hc
  · intro h
    by_cases hs : m.ShowsRom size a
    · exact hs
    · exact absurd (translate_of_not_showsRom he hc hs) (h _)

/-- Two addresses lead to one byte exactly if they have one offset in blocks that are not told
apart, and neither of the blocks shows ROM. -/
theorem translate_eq_iff :
    (∃ o, m.translate size a = .ram o ∧ m.translate size c = .ram o) ↔
      ¬ m.ShowsRom size a ∧ ¬ m.ShowsRom size c ∧ offset a = offset c ∧
        if size = .k128 then (m.active a).toNat % 16 = (m.active c).toNat % 16
        else m.active a = m.active c := by
  rw [← size.and_blockMask_eq_iff, ← BitVec.toNat_inj (x := offset a),
    ← BitVec.toNat_inj (x := m.active a &&& _)]
  have hoa : (offset a).toNat < 0x2000 := (offset a).isLt
  have hoc : (offset c).toNat < 0x2000 := (offset c).isLt
  constructor
  · rintro ⟨o, hta, htc⟩
    have hna : ¬ m.ShowsRom size a := fun h => translate_ne_ram he hc h o hta
    have hnc : ¬ m.ShowsRom size c := fun h => translate_ne_ram he hc h o htc
    rw [translate_of_not_showsRom he hc hna] at hta
    rw [translate_of_not_showsRom he hc hnc] at htc
    have hsame := Place.ram.inj (hta.trans htc.symm)
    refine ⟨hna, hnc, ?_, ?_⟩ <;> omega
  · rintro ⟨hna, hnc, hoffset, hblock⟩
    refine ⟨_, translate_of_not_showsRom he hc hna, ?_⟩
    rw [translate_of_not_showsRom he hc hnc, hoffset, hblock]

end Enabled

/-- The map that shows a block in a slot of a task. -/
def showing (m : Mmu) (task : BitVec 1) (slot : BitVec 3) (block : Nat) : Mmu :=
  let m := { m.writeInit0 0x40 with task := task, extension := BitVec.ofNat 8 (block / 64) }
  { m.setRegister (task ++ slot) ((BitVec.ofNat 8 (block % 64)).setWidth 6) with allRam := true }

theorem translate_showing (m : Mmu) (size : RamSize) (task : BitVec 1) (slot : BitVec 3) {o : Nat}
    (h : o < size.bytes) : (m.showing task slot (o / 0x2000)).translate size
      (address slot (BitVec.ofNat 13 (o % 0x2000))) = .ram o := by
  have hblock : o / 0x2000 < size.kilobytes / 8 := by
    rw [size.bytes_eq] at h
    omega
  have hactive : (m.showing task slot (o / 0x2000)).active
      (address slot (BitVec.ofNat 13 (o % 0x2000))) =
        (BitVec.ofNat 8 (o / 0x2000 % 64)).setWidth 6 := by
    unfold active
    rw [slot_address]
    exact register_setRegister _ _ _
  rw [translate_of_not_showsRom rfl rfl (not_showsRom_of_allRam rfl), hactive, offset_address]
  show Place.ram (((BitVec.ofNat 8 (o / 0x2000 / 64) &&& size.extensionMask).toNat * 64 + _) * 0x2000
    + _) = _
  rw [size.block_and hblock, BitVec.toNat_ofNat]
  congr 1
  omega

end Mmu

/-! ### Writes over the bus -/

namespace Board

/-- The board after bytes were written, one after the other. -/
def writeAll (b : Board) (writes : List (Word × Byte)) : Board :=
  writes.foldl (fun b w => Bus.write b w.1 w.2) b

/-- Where the register of a slot is written. -/
def taskRegister (task : BitVec 1) (slot : BitVec 3) : Word :=
  0xFFA0 + (task ++ slot).setWidth 16

/-- What is written to show a block in a slot of a task. -/
def writesShowing (task : BitVec 1) (slot : BitVec 3) (block : Nat) : List (Word × Byte) :=
  [(0xFF90, 0x40), (0xFF91, task.setWidth 8), (0xFF9B, BitVec.ofNat 8 (block / 64)),
    (taskRegister task slot, BitVec.ofNat 8 (block % 64)), (0xFFDF, 0x00)]

variable (b : Board) (v : Byte)

theorem memory_write_init0 :
    (Bus.write b 0xFF90 v).memory = b.memory.mapMmu (·.writeInit0 v) := rfl

theorem memory_write_init1 : (Bus.write b 0xFF91 v).memory =
    b.memory.mapMmu fun m => { m with task := v.setWidth 1 } := rfl

theorem memory_write_extension : (Bus.write b 0xFF9B v).memory =
    b.memory.mapMmu fun m => { m with extension := v } := rfl

theorem memory_write_taskRegister (task : BitVec 1) (slot : BitVec 3) :
    (Bus.write b (taskRegister task slot) v).memory =
      b.memory.mapMmu (·.setRegister (task ++ slot) (v.setWidth 6)) := by
  have hall : ∀ i : BitVec 4, isDevice (0xFFA0 + i.setWidth 16) = true ∧
      Device.ofAddress (0xFFA0 + i.setWidth 16) = .task ∧
      (0xFFA0 + i.setWidth 16 : Word).setWidth 4 = i := by decide
  obtain ⟨hd, ho, hi⟩ := hall (task ++ slot)
  show (if isDevice _ then b.writeDevice _ v else b.writeMemory _ v).memory = _
  unfold taskRegister
  rw [if_pos hd, writeDevice, ho]
  show b.memory.mapMmu (·.setRegister ((0xFFA0 + (task ++ slot).setWidth 16 : Word).setWidth 4)
    (v.setWidth 6)) = _
  rw [hi]

theorem memory_write_allRam : (Bus.write b 0xFFDF v).memory =
    b.memory.mapMmu fun m => { m with allRam := true } := by
  have hs : (b.writeSelector 0xFFDF).selector.getLsbD 15 = true :=
    b.getLsbD_writeSelector (by decide) (by decide)
  have hw : (Bus.write b 0xFFDF v).memory = b.memory.mapMmu fun m =>
    { m with allRam := (b.writeSelector 0xFFDF).selector.getLsbD 15 } := rfl
  rw [hw, hs]

theorem memory_writeAll_showing (task : BitVec 1) (slot : BitVec 3) (block : Nat) :
    (b.writeAll (writesShowing task slot block)).memory =
      b.memory.mapMmu (·.showing task slot block) := by
  have htask : (task.setWidth 8).setWidth 1 = task := by decide +revert
  show (Bus.write (Bus.write (Bus.write (Bus.write (Bus.write b _ _) _ _) _ _) _ _) _ _).memory = _
  rw [memory_write_allRam, memory_write_taskRegister, memory_write_extension, memory_write_init1,
    memory_write_init0, htask]
  rfl

/-- The addresses of the bus that say what a slot of a task shows. -/
def mapAddresses (task : BitVec 1) (slot : BitVec 3) : List Word :=
  [0xFF90, 0xFF91, 0xFF9B, taskRegister task slot, 0xFFDE, 0xFFDF]

/-- **The map covers the memory fitted, and doubles it only where it should.** Whatever byte is fitted
and whatever slot of whichever task is asked for, some writes to the registers of the map leave the
memory as it is, but for the map, and let an address of that slot lead to that byte; outside the top
slot it is no address of a device. While mapping is enabled and no page is pinned, two addresses lead
to one byte exactly if neither of them shows ROM or the cartridge, their offsets are the same, and so
are the two task registers, of which the smallest memory decodes four bits only. -/
theorem coverage (b : Board) :
    (∀ (task : BitVec 1) (slot : BitVec 3) (o : Nat), o < b.memory.size.bytes →
      ∃ writes : List (Word × Byte), (∀ w ∈ writes, w.1 ∈ mapAddresses task slot) ∧
        (∃ m : Mmu, (b.writeAll writes).memory = b.memory.mapMmu (fun _ => m) ∧
          m.enabled = true ∧ m.task = task) ∧
        ∃ a : Word, Mmu.slot a = slot ∧ (slot ≠ 7 → isDevice a = false) ∧
          (b.writeAll writes).memory.translate a = .ram o) ∧
    (b.memory.mmu.enabled = true → b.memory.mmu.constantPage = false → ∀ a c : Word,
      (b.memory.mmu.ShowsRom b.memory.size a ↔ ∀ o, b.memory.translate a ≠ .ram o) ∧
      ((∃ o, b.memory.translate a = .ram o ∧ b.memory.translate c = .ram o) ↔
        ¬ b.memory.mmu.ShowsRom b.memory.size a ∧ ¬ b.memory.mmu.ShowsRom b.memory.size c ∧
        Mmu.offset a = Mmu.offset c ∧
        if b.memory.size = .k128
        then (b.memory.mmu.active a).toNat % 16 = (b.memory.mmu.active c).toNat % 16
        else b.memory.mmu.active a = b.memory.mmu.active c)) := by
  refine ⟨fun task slot o h => ?_,
    fun he hc a c => ⟨Mmu.showsRom_iff he hc, Mmu.translate_eq_iff he hc⟩⟩
  have hm := b.memory_writeAll_showing task slot (o / 0x2000)
  refine ⟨writesShowing task slot (o / 0x2000), fun w hw => ?_, ⟨_, hm, rfl, rfl⟩,
    Mmu.address slot (BitVec.ofNat 13 (o % 0x2000)), Mmu.slot_address _ _, fun hs => ?_, ?_⟩
  · simp only [writesShowing, List.mem_cons, List.not_mem_nil, or_false] at hw
    rcases hw with rfl | rfl | rfl | rfl | rfl <;> simp [mapAddresses]
  · rw [Bool.eq_false_iff]
    intro hd
    exact hs ((Mmu.slot_address _ _).symm.trans (Mmu.slot_of_isDevice hd))
  · rw [hm]
    exact b.memory.mmu.translate_showing b.memory.size task slot h

/-- The last byte of the smallest memory comes into a slot, and a block that stands in two slots
already is one block. -/
theorem coverage_doubled :
    (∃ writes : List (Word × Byte), (∀ w ∈ writes, w.1 ∈ mapAddresses 1 2) ∧
      ∃ a : Word, Mmu.slot a = 2 ∧
        (doubled.writeAll writes).memory.translate a = .ram 0x1FFFF) ∧
    ∃ o, doubled.memory.translate 0x0123 = .ram o ∧ doubled.memory.translate 0x2123 = .ram o := by
  have hlast : 0x1FFFF < doubled.memory.size.bytes := by
    rw [RamSize.bytes_eq]
    decide +kernel
  obtain ⟨writes, hw, -, a, ha, -, ht⟩ := (coverage doubled).1 1 2 0x1FFFF hlast
  have h := ((coverage doubled).2 (by decide +kernel) (by decide +kernel) 0x0123 0x2123).2
  exact ⟨⟨writes, hw, a, ha, ht⟩, h.2 (by decide +kernel)⟩

end Board

end ColorComputer
