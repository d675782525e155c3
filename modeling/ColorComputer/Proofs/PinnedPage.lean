import ColorComputer.Proofs.Aliasing

/-!
# The pinned page

While it is pinned, the page from $FE00 to $FEFF shows the end of a block whose number no register
changes. Neither the task registers nor mapping itself nor the window reach it. The bits that extend
block numbers do: with a memory that decodes some of them, the page is another one in each bank of
512K, and stays the same only as long as the bank does.

* `Mmu.translate_pinned` — where the page is.
* `Mmu.pinned_page` — a page of the memory fitted, and when two maps agree on it.
* `Mmu.not_pinned_page` — two maps that do not.
-/

namespace ColorComputer

namespace Mmu

/-- The bank of 512K from which blocks are shown: what is decoded of the bits that extend their
numbers. -/
def bank (m : Mmu) (size : RamSize) : Byte := m.extension &&& size.extensionMask

/-- The offset in memory of an address of the page while it is pinned. -/
def pinnedOffset (m : Mmu) (size : RamSize) (a : Word) : Nat :=
  ((m.bank size).toNat * 64 + (0x3F &&& size.blockMask).toNat) * 0x2000 + (offset a).toNat

variable {m m' : Mmu} {size : RamSize} {a : Word}

theorem highByte_of_page (ha : 0xFE00 ≤ a ∧ a ≤ 0xFEFF) : Word.highByte a = 0xFE := by
  have hlow : 0xFE00 ≤ a.toNat := BitVec.le_def.1 ha.1
  have hhigh : a.toNat ≤ 0xFEFF := BitVec.le_def.1 ha.2
  apply BitVec.eq_of_toNat_eq
  rw [Word.toNat_highByte]
  show a.toNat / 256 = 0xFE
  omega

theorem pinned_of_page (h : m.constantPage = true) (ha : 0xFE00 ≤ a ∧ a ≤ 0xFEFF) :
    m.pinned a = true := by
  rw [pinned, h, highByte_of_page ha]
  rfl

/-- The page escapes the task registers and the window. -/
theorem translate_pinned (h : m.pinned a = true) :
    m.translate size a = .ram (m.pinnedOffset size a) := by
  have hblock : m.block size a = ⟨m.bank size, 0x3F⟩ := by
    rw [block, blockNumber, if_pos h]
    rfl
  have hwindow : m.inWindow size a = false := by
    unfold inWindow
    rw [h, Bool.not_true, Bool.and_false]
  unfold translate
  rw [hwindow, if_neg Bool.false_ne_true, hblock]
  rfl

theorem pinnedOffset_mod (m : Mmu) (size : RamSize) (a : Word) :
    m.pinnedOffset size a % 0x2000 = a.toNat % 0x2000 := by
  have ho : (offset a).toNat = a.toNat % 0x2000 := BitVec.toNat_setWidth ..
  unfold pinnedOffset
  omega

theorem pinnedOffset_eq_iff :
    m.pinnedOffset size a = m'.pinnedOffset size a ↔ m.bank size = m'.bank size := by
  rw [← BitVec.toNat_inj]
  unfold pinnedOffset
  omega

theorem pinnedOffset_lt (m : Mmu) (h : m.pinned a = true) : m.pinnedOffset size a < size.bytes := by
  have hw : (m.translate size a).Within size := m.translate_within size a
  rwa [translate_pinned h] at hw

/-- **The pinned page.** Whatever else the registers of two maps hold, if both pin the page, each
leads an address of it into the memory fitted, never to the window, and to an offset whose low 13
bits are those of the address. It is the same offset in both exactly if both show the same bank, as
they always do where the memory has only one. -/
theorem pinned_page (size : RamSize) (h : m.constantPage = true) (h' : m'.constantPage = true)
    (ha : 0xFE00 ≤ a ∧ a ≤ 0xFEFF) :
    ∃ o o', m.translate size a = .ram o ∧ m'.translate size a = .ram o' ∧
      (o < size.bytes ∧ o % 0x2000 = a.toNat % 0x2000) ∧
      (o' < size.bytes ∧ o' % 0x2000 = a.toNat % 0x2000) ∧
      (o = o' ↔ m.bank size = m'.bank size) ∧
      (size = .k128 ∨ size = .k512 → o = o') := by
  have hp : m.pinned a = true := pinned_of_page h ha
  have hp' : m'.pinned a = true := pinned_of_page h' ha
  refine ⟨m.pinnedOffset size a, m'.pinnedOffset size a, translate_pinned hp, translate_pinned hp',
    ⟨m.pinnedOffset_lt hp, m.pinnedOffset_mod size a⟩,
    ⟨m'.pinnedOffset_lt hp', m'.pinnedOffset_mod size a⟩, pinnedOffset_eq_iff, fun hs => ?_⟩
  have hbank : ∀ m : Mmu, m.bank size = 0 := by
    intro m
    rcases hs with rfl | rfl <;> exact BitVec.and_zero
  rw [pinnedOffset_eq_iff, hbank, hbank]

/-- The map after reset, with the page pinned. -/
def tidy : Mmu := { reset with constantPage := true }

/-- A map whose every register is another one. -/
def untidy : Mmu where
  enabled := true
  constantPage := true
  romMap := .external
  allRam := true
  task := 1
  registers := .replicate 16 0
  extension := 0xFC

/-- Bits that a memory of 2M does not decode do not move the page. -/
theorem pinned_page_untidy :
    (tidy.constantPage = true ∧ untidy.constantPage = true ∧
      (0xFE00 ≤ (0xFE10 : Word) ∧ (0xFE10 : Word) ≤ 0xFEFF)) ∧
    ∃ o, tidy.translate .m2 0xFE10 = .ram o ∧ untidy.translate .m2 0xFE10 = .ram o ∧
      o % 0x2000 = 0x1E10 := by
  have ht : tidy.constantPage = true := rfl
  have hu : untidy.constantPage = true := rfl
  have ha : 0xFE00 ≤ (0xFE10 : Word) ∧ (0xFE10 : Word) ≤ 0xFEFF := by decide
  refine ⟨⟨ht, hu, ha⟩, ?_⟩
  obtain ⟨o, o', hto, huo, ⟨-, hmod⟩, -, heq, -⟩ := pinned_page .m2 ht hu ha
  have hsame : o = o' := heq.2 (by decide)
  exact ⟨o, hto, hsame ▸ huo, hmod⟩

/-- A bit that it does decode moves the page. -/
theorem not_pinned_page :
    ¬ ∀ (size : RamSize) (m m' : Mmu), m.constantPage = true → m'.constantPage = true →
      ∀ a : Word, 0xFE00 ≤ a ∧ a ≤ 0xFEFF → m.translate size a = m'.translate size a := by
  intro h
  have hsame := h .m2 tidy { tidy with extension := 1 } rfl rfl 0xFE10 (by decide)
  exact absurd hsame (by decide +kernel)

end Mmu

end ColorComputer
