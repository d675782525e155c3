import ColorComputer.Proofs.Looking

/-!
# The copies of the mapping state

The bits that map memory are stored twice. Software writes them to the GIME and to the selector, and
the map keeps what it needs of them for itself. A write reaches both or neither, so that the two
never part.

* `Mmu.Obeys` — the map is the one that the control bits ask for.
* `Board.lasting_agrees` — every happening keeps it so.
* `Board.records_through` — the control bits are what was written last, at their own addresses.
* `Board.copies_agree` — the map of a board with any past is the one that its control bits ask for.
-/

namespace ColorComputer

/-! ### What the control bits ask for -/

/-- The control bits that map memory. -/
structure Controls where
  init0 : Byte
  init1 : Byte
  /-- The video register at $FF9B. -/
  extension : Byte
  selector : BitVec 16

/-- The control bits as the chips hold them. -/
def Board.controls (b : Board) : Controls :=
  ⟨b.gime.init0, b.gime.init1, b.gime.videoRegister 3, b.selector⟩

/-- The map is the one that the control bits ask for. -/
structure Mmu.Obeys (m : Mmu) (c : Controls) : Prop where
  enabled : m.enabled = c.init0.getLsbD 6
  constantPage : m.constantPage = c.init0.getLsbD 3
  romMap : m.romMap =
    if c.init0.extractLsb' 0 2 = 2 then .internal
    else if c.init0.extractLsb' 0 2 = 3 then .external else .split
  task : m.task = BitVec.ofBool (c.init1.getLsbD 0)
  extension : m.extension = c.extension
  allRam : m.allRam = c.selector.getLsbD 15

theorem RomMap.ofInit0_eq (value : Byte) : RomMap.ofInit0 value =
    if value.extractLsb' 0 2 = 2 then .internal
    else if value.extractLsb' 0 2 = 3 then .external else .split := by
  decide +revert

theorem setWidth_one (value : Byte) : value.setWidth 1 = BitVec.ofBool (value.getLsbD 0) := by
  decide +revert

namespace Mmu.Obeys

theorem reset : Mmu.reset.Obeys ⟨0, 0, 0, 0⟩ := by
  constructor <;> decide

variable {m : Mmu} {c : Controls} (h : m.Obeys c)
include h

theorem writeInit0 (value : Byte) : (m.writeInit0 value).Obeys { c with init0 := value } where
  enabled := rfl
  constantPage := rfl
  romMap := RomMap.ofInit0_eq value
  task := h.task
  extension := h.extension
  allRam := h.allRam

theorem setTask (value : Byte) :
    { m with task := value.setWidth 1 }.Obeys { c with init1 := value } :=
  { h with task := setWidth_one value }

theorem setExtension (value : Byte) :
    { m with extension := value }.Obeys { c with extension := value } :=
  { h with extension := rfl }

theorem setAllRam (selector : BitVec 16) :
    { m with allRam := selector.getLsbD 15 }.Obeys { c with selector := selector } :=
  { h with allRam := rfl }

/-- The task registers are no copies of anything. -/
theorem setRegister (index : BitVec 4) (value : BitVec 6) : (m.setRegister index value).Obeys c :=
  { h with }

end Mmu.Obeys

/-! ### What a write reaches -/

theorem Memory.mmu_write (m : Memory) (a : Word) (v : Byte) : (m.write a v).mmu = m.mmu := by
  unfold write writePlace
  split <;> rfl

namespace Gime

variable (g : Gime) (a : Word) (v : Byte)

theorem init0_write : (g.write a v).init0 = if a = 0xFF90 then v else g.init0 := by
  unfold write
  split
  · rfl
  · repeat' split
    all_goals rfl

theorem init1_write : (g.write a v).init1 = if a = 0xFF91 then v else g.init1 := by
  by_cases h : a = 0xFF91
  · simp [write, writeInit1, h]
  · unfold write
    rw [if_neg h]
    repeat' split
    all_goals rfl

theorem videoRegister_write {a : Word} (h : 0xFF98 ≤ a ∧ a ≤ 0xFF9F) (i : BitVec 3) :
    (g.write a v).videoRegister i = if a.setWidth 3 = i then v else g.videoRegister i := by
  have hw : g.write a v =
      { g with video := g.video.set (a.setWidth 3).toNat v (a.setWidth 3).isLt } := by
    unfold write
    iterate 6 rw [if_neg (by bv_omega)]
    rw [if_pos h]
  have hi : (a.setWidth 3).toNat = i.toNat ↔ a.setWidth 3 = i := BitVec.toNat_inj
  have hlt : i.toNat < 8 := i.isLt
  rw [hw]
  show (g.video.set (a.setWidth 3).toNat v (a.setWidth 3).isLt)[i.toNat] = _
  rw [Vector.getElem_set]
  simp only [hi]
  rfl

/-- Of the video registers the one at $FF9B is copied. -/
theorem extension_write : (g.write a v).videoRegister 3 =
    if a = 0xFF9B then v else g.videoRegister 3 := by
  by_cases h : 0xFF98 ≤ a ∧ a ≤ 0xFF9F
  · have ha : a.setWidth 3 = 3 ↔ a = 0xFF9B := by bv_omega
    rw [g.videoRegister_write v h]
    simp only [ha]
  · have ha : a ≠ 0xFF9B := by
      rintro rfl
      exact h (by decide)
    rw [if_neg ha]
    unfold write
    repeat' split
    all_goals rfl

end Gime

namespace Board

variable {b : Board} (a : Word) (v : Byte)

theorem controls_writeGime : ({ b with gime := b.gime.write a v }.shareGimeWrite a v).controls =
    ⟨if a = 0xFF90 then v else b.gime.init0, if a = 0xFF91 then v else b.gime.init1,
      if a = 0xFF9B then v else b.gime.videoRegister 3, b.selector⟩ := by
  rw [← b.gime.init0_write, ← b.gime.init1_write, ← b.gime.extension_write]
  unfold shareGimeWrite
  repeat' split
  all_goals rfl

/-! ### The copies -/

/-- The map of the board is the one that its control bits ask for. -/
def Agrees (b : Board) : Prop := b.memory.mmu.Obeys b.controls

/-- The GIME and the map take a write together. -/
theorem Agrees.writeGime (h : b.Agrees) :
    ({ b with gime := b.gime.write a v }.shareGimeWrite a v).Agrees := by
  unfold Agrees
  rw [controls_writeGime]
  -- three registers have copies; of what is written elsewhere the map takes nothing
  by_cases h90 : a = 0xFF90
  · subst h90
    exact h.writeInit0 v
  by_cases h91 : a = 0xFF91
  · subst h91
    exact h.setTask v
  by_cases h9B : a = 0xFF9B
  · subst h9B
    exact h.setExtension v
  · unfold shareGimeWrite
    rw [if_neg h90, if_neg h91, if_neg h9B, if_neg h90, if_neg h91, if_neg h9B]
    exact h

theorem Agrees.write (h : b.Agrees) : (Bus.write b a v).Agrees := by
  show (if isDevice a then b.writeDevice a v else b.writeMemory a v).Agrees
  split
  · unfold writeDevice
    cases Device.ofAddress a with
    | gime => exact h.writeGime a v
    | task => exact h.setRegister _ _
    | selector => exact h.setAllRam _
    | _ => exact h
  · unfold Agrees writeMemory
    rw [Memory.mmu_write]
    exact h

theorem lasting_agrees : Lasting Agrees where
  read {b} h a := by
    rw [read_eq_without]
    exact h
  write h a v := h.write a v
  raise h _ := h
  drive h side _ := by cases side <;> exact h
  timer h := h
  port h _ := h
  panel h _ := h
  reset _ := .reset

theorem agrees_fresh (memory : Memory) (panel : Panel) (h : memory.mmu = .reset) :
    (fresh memory panel).Agrees := by
  unfold Agrees fresh
  rw [h]
  exact .reset

end Board

/-! ### What was written -/

/-- The bytes that an access writes, the latest first. -/
def Transaction.writes : Transaction → List (Word × Byte)
  | read _ | readWord _ => []
  | write a v => [(a, v)]
  | writeWord a v => [(a + 1, Word.lowByte v), (a, Word.highByte v)]

/-- The bytes written up to and with a happening, the latest first. A reset undoes them all. -/
def Happening.record (older : List (Word × Byte)) : Happening → List (Word × Byte)
  | access t => t.writes ++ older
  | reset => []
  | raise _ | drive _ _ | timer | port _ | touch _ => older

/-- The bytes written since the last reset, the latest first. -/
def written (history : List Happening) : List (Word × Byte) := history.foldl Happening.record []

/-- The value of a bit of the selector that was chosen last. Each has an address that clears it and
behind that one that sets it, whatever is written there. -/
def lastSelected (bit : Nat) (writes : List (Word × Byte)) : Bool :=
  (writes.findSome? fun w =>
    if w.1.toNat = 0xFFC0 + 2 * bit then some false
    else if w.1.toNat = 0xFFC1 + 2 * bit then some true else none).getD false

theorem lookup_cons_getD (writes : List (Word × Byte)) (a k : Word) (v : Byte) :
    (((a, v) :: writes).lookup k).getD 0 = if a = k then v else (writes.lookup k).getD 0 := by
  rw [List.lookup_cons]
  by_cases h : a = k
  · simp [h]
  · have hk : (k == a) = false := beq_eq_false_iff_ne.2 (Ne.symm h)
    simp [h, hk]

theorem lastSelected_cons (bit : Nat) (writes : List (Word × Byte)) (a : Word) (v : Byte) :
    lastSelected bit ((a, v) :: writes) =
      if a.toNat = 0xFFC0 + 2 * bit then false
      else if a.toNat = 0xFFC1 + 2 * bit then true else lastSelected bit writes := by
  unfold lastSelected
  rw [List.findSome?_cons]
  by_cases h0 : a.toNat = 0xFFC0 + 2 * bit
  · simp [h0]
  · by_cases h1 : a.toNat = 0xFFC1 + 2 * bit
    · simp [h1]
    · simp [h0, h1]

/-- The control bits are what was written last. -/
structure Controls.Records (c : Controls) (writes : List (Word × Byte)) : Prop where
  init0 : c.init0 = (writes.lookup 0xFF90).getD 0
  init1 : c.init1 = (writes.lookup 0xFF91).getD 0
  extension : c.extension = (writes.lookup 0xFF9B).getD 0
  selector : ∀ bit < 16, c.selector.getLsbD bit = lastSelected bit writes

namespace Board

variable (b : Board) (a : Word) (v : Byte)

theorem ofAddress_eq_selector_iff :
    Device.ofAddress a = .selector ↔ 0xFFC0 ≤ a ∧ a ≤ 0xFFDF := by
  unfold Device.ofAddress
  repeat' split
  all_goals simp; bv_omega

/-- An address of the selector concerns the bit that half its offset names, and an odd one sets
it. -/
theorem getLsbD_writeSelector {a : Word} (ha : 0xFFC0 ≤ a ∧ a ≤ 0xFFDF) {bit : Nat}
    (hb : bit < 16) : (b.writeSelector a).selector.getLsbD bit =
      if a.toNat = 0xFFC0 + 2 * bit then false
      else if a.toNat = 0xFFC1 + 2 * bit then true else b.selector.getLsbD bit := by
  have hlow : 0xFFC0 ≤ a.toNat := BitVec.le_def.1 ha.1
  have hhigh : a.toNat ≤ 0xFFDF := BitVec.le_def.1 ha.2
  have hodd : a.getLsbD 0 = decide (a.toNat % 2 = 1) := by
    simp [BitVec.getLsbD, Nat.testBit_zero]
  have hindex : (a.extractLsb' 1 4).toNat = a.toNat / 2 % 16 := by
    simp [BitVec.extractLsb'_toNat, Nat.shiftRight_eq_div_pow]
  have hmask : (1 <<< (a.extractLsb' 1 4).toNat : BitVec 16).getLsbD bit =
      decide (a.toNat / 2 % 16 = bit) := by
    show (BitVec.twoPow 16 _).getLsbD bit = _
    rw [BitVec.getLsbD_twoPow, hindex, decide_eq_true (by omega), Bool.true_and]
  show (if a.getLsbD 0 then b.selector ||| _ else b.selector &&& ~~~_).getLsbD bit = _
  rw [hodd]
  -- the two addresses of this bit, and then those of the others, whose mask leaves it alone
  by_cases h0 : a.toNat = 0xFFC0 + 2 * bit
  · rw [if_neg (by simp; omega), if_pos h0, BitVec.getLsbD_and, BitVec.getLsbD_not, hmask]
    simp
    omega
  rw [if_neg h0]
  by_cases h1 : a.toNat = 0xFFC1 + 2 * bit
  · rw [if_pos (by simp; omega), if_pos h1, BitVec.getLsbD_or, hmask]
    simp
    omega
  rw [if_neg h1]
  have hne : decide (a.toNat / 2 % 16 = bit) = false := decide_eq_false (by omega)
  split
  · rw [BitVec.getLsbD_or, hmask, hne, Bool.or_false]
  · rw [BitVec.getLsbD_and, BitVec.getLsbD_not, hmask, hne]
    simp [hb]

/-- A write is recorded by the control bits at its address, and by no others. -/
theorem controls_write : (Bus.write b a v).controls =
    ⟨if a = 0xFF90 then v else b.gime.init0, if a = 0xFF91 then v else b.gime.init1,
      if a = 0xFF9B then v else b.gime.videoRegister 3,
      if 0xFFC0 ≤ a ∧ a ≤ 0xFFDF then (b.writeSelector a).selector else b.selector⟩ := by
  have no_gime : (isDevice a = true → Device.ofAddress a ≠ .gime) →
      a ≠ 0xFF90 ∧ a ≠ 0xFF91 ∧ a ≠ 0xFF9B := by
    intro h
    refine ⟨?_, ?_, ?_⟩ <;> rintro rfl <;> exact h (by decide) (by decide)
  have no_selector : Device.ofAddress a ≠ .selector → ¬(0xFFC0 ≤ a ∧ a ≤ 0xFFDF) :=
    fun h hs => h ((ofAddress_eq_selector_iff a).2 hs)
  show (if isDevice a then b.writeDevice a v else b.writeMemory a v).controls = _
  cases hd : isDevice a with
  | false =>
    obtain ⟨h90, h91, h9B⟩ := no_gime (by simp [hd])
    have hs : ¬(0xFFC0 ≤ a ∧ a ≤ 0xFFDF) := fun hs =>
      Bool.eq_false_iff.1 hd (isDevice_iff.2 (BitVec.le_trans (by decide) hs.1))
    rw [if_neg h90, if_neg h91, if_neg h9B, if_neg hs]
    rfl
  | true =>
    rw [if_pos rfl]
    unfold writeDevice
    cases ho : Device.ofAddress a with
    | gime =>
      rw [if_neg (no_selector (by simp [ho]))]
      exact controls_writeGime a v
    | selector =>
      obtain ⟨h90, h91, h9B⟩ := no_gime (by simp [ho])
      rw [if_neg h90, if_neg h91, if_neg h9B, if_pos ((ofAddress_eq_selector_iff a).1 ho)]
      rfl
    | _ =>
      obtain ⟨h90, h91, h9B⟩ := no_gime (by simp [ho])
      rw [if_neg h90, if_neg h91, if_neg h9B, if_neg (no_selector (by simp [ho]))]
      rfl

variable {b} {writes : List (Word × Byte)}

theorem records_write (h : b.controls.Records writes) :
    (Bus.write b a v).controls.Records ((a, v) :: writes) := by
  rw [controls_write]
  constructor
  case init0 => rw [lookup_cons_getD, ← h.init0]; rfl
  case init1 => rw [lookup_cons_getD, ← h.init1]; rfl
  case extension => rw [lookup_cons_getD, ← h.extension]; rfl
  case selector =>
    intro bit hb
    rw [lastSelected_cons, ← h.selector bit hb]
    dsimp only
    split
    case isTrue ha => exact b.getLsbD_writeSelector ha hb
    case isFalse ha =>
      have hr : ¬(0xFFC0 ≤ a.toNat ∧ a.toNat ≤ 0xFFDF) := fun hn =>
        ha ⟨BitVec.le_def.2 hn.1, BitVec.le_def.2 hn.2⟩
      rw [if_neg (by omega), if_neg (by omega)]
      rfl

theorem records_read (h : b.controls.Records writes) :
    (Bus.read b a).2.controls.Records writes := by
  rw [read_eq_without]
  exact h

theorem records_serve (h : b.controls.Records writes) (t : Transaction) :
    (t.serve b).controls.Records (t.writes ++ writes) := by
  cases t with
  | read a => exact records_read a h
  | write a v => exact records_write a v h
  | readWord a => exact records_read _ (records_read a h)
  | writeWord a v => exact records_write _ _ (records_write a _ h)

theorem records_nothing : Controls.Records ⟨0, 0, 0, 0⟩ [] := by
  constructor <;> simp [lastSelected]

theorem records_occur (h : b.controls.Records writes) (happening : Happening) :
    (b.occur happening).controls.Records (happening.record writes) := by
  cases happening with
  | access t => exact records_serve h t
  | drive side level => cases side <;> exact h
  | reset => exact records_nothing
  | raise _ | timer | port _ | touch _ => exact h

/-- The control bits are what was written last since the last reset, at their own addresses. -/
theorem records_through (history : List Happening) (h : b.controls.Records writes) :
    (b.through history).controls.Records (history.foldl Happening.record writes) := by
  induction history generalizing b writes with
  | nil => exact h
  | cons happening rest ih => exact ih (records_occur h happening)

/-! ### Every board with a past -/

/-- The task registers are read as they are. -/
theorem peek_task (b : Board) (i : BitVec 4) :
    Bus.peek b (0xFFA0 + i.setWidth 16) = (b.memory.mmu.register i).setWidth 8 := by
  have ho : Device.ofAddress (0xFFA0 + i.setWidth 16) = .task := by
    decide +revert
  have hi : (0xFFA0 + i.setWidth 16).setWidth 4 = i := by
    bv_omega
  have hd : isDevice (0xFFA0 + i.setWidth 16) = true := by
    decide +revert
  rw [peek_eq_peekDevice hd, peekDevice, ho, hi]

/-- Whatever happened to a board since power came on, its map is the one that the control bits ask
for, and these are what was written last since the last reset. The speed is the one that the
selector asks for, the task is one of two, and what a task register shows is one of 64 blocks. -/
theorem copies_agree (size : RamSize) (rom : ByteArray) (panel : Panel)
    (history : List Happening) :
    let b := (fresh (.fresh size rom) panel).through history
    b.memory.mmu.Obeys b.controls ∧
      b.controls.Records (written history) ∧
      (b.multiplier = 2 ↔ b.selector.getLsbD 12 = true) ∧
      b.memory.mmu.task.toNat < 2 ∧
      ∀ i : BitVec 4, Bus.peek b (0xFFA0 + i.setWidth 16) = (b.memory.mmu.register i).setWidth 8 ∧
        Bus.peek b (0xFFA0 + i.setWidth 16) ≤ 0x3F := by
  intro b
  refine ⟨?_, ?_, ?_, b.memory.mmu.task.isLt, fun i => ⟨b.peek_task i, ?_⟩⟩
  · exact lasting_agrees.through (agrees_fresh _ panel rfl) history
  · exact records_through history records_nothing
  · unfold multiplier
    split <;> simp_all
  · rw [peek_task]
    have hlt := (b.memory.mmu.register i).isLt
    bv_omega

end Board

end ColorComputer
