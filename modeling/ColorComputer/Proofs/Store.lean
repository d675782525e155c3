import ColorComputer.Proofs.Codes

/-!
# Stores

An index register may move while the address of an operand is found. A load or a comparison reads
its register after that, and so does the store of `Q`. The other stores take their register before,
so that what reaches memory is what the register held when the instruction began, even if the
register itself or the one that it is a part of has moved by then.

* `regs_indexedAddress` — to find an indexed address moves at most its index register.
* `bytes_eq_move_iff` — when it makes no difference whether a register is taken before or after.
* `step_store` — what a store stores, and when that is what its register holds then.
* `not_stores_moved` — a store of `X` by way of `X`.
-/

namespace ColorComputer

/-! ### Index registers that move -/

namespace IndexForm

/-- The register that a form moves, and by how much. -/
def movesBy? : IndexForm → Option (WordRegister × Word)
  | increment base amount => some (base, amount)
  | decrement base amount => some (base, -amount)
  | _ => none

/-- The registers once a form moved its register. -/
def move (form : IndexForm) (r : Registers) : Registers :=
  match form.movesBy? with
  | some (base, delta) => r.setWord base (r.word base + delta)
  | none => r

theorem moved?_eq (form : IndexForm) : form.moved? = form.movesBy?.map Prod.fst := by
  cases form <;> rfl

theorem move_of_movesBy? {form : IndexForm} {base : WordRegister} {delta : Word}
    (h : form.movesBy? = some (base, delta)) (r : Registers) :
    form.move r = r.setWord base (r.word base + delta) := by
  unfold move
  rw [h]

theorem move_of_still {form : IndexForm} (h : form.movesBy? = none) (r : Registers) :
    form.move r = r := by
  unfold move
  rw [h]

/-- A form that does not move the program counter does not look at it to move. -/
theorem move_pc {form : IndexForm} (h : form.moved? ≠ some .pc) (r : Registers) (pc : Word) :
    form.move { r with pc := pc } = { form.move r with pc := pc } := by
  rw [moved?_eq] at h
  cases hm : form.movesBy? with
  | none => rw [move_of_still hm, move_of_still hm]
  | some change =>
    obtain ⟨base, delta⟩ := change
    rw [move_of_movesBy? hm, move_of_movesBy? hm]
    rw [hm] at h
    cases base with
    | pc => exact absurd rfl h
    | _ => rfl

theorem cc_move (form : IndexForm) (r : Registers) : (form.move r).cc = r.cc := by
  unfold move
  split
  · exact r.cc_setWord _ _
  · rfl

end IndexForm

/-- The index registers move by one or by two, `W` only by two. -/
theorem Postbyte.movesBy?_decode (variant : Variant) (post : Byte) {base : WordRegister}
    {delta : Word} (h : (decode variant post).form.movesBy? = some (base, delta)) :
    base ∈ [WordRegister.x, .y, .u, .s] ∧ delta ≠ 0 ∨ base = .w ∧ delta ∈ [2, -2] := by
  have hall : ∀ post : Byte, ((decode variant post).form.movesBy?.all fun m =>
      decide (m.1 ∈ [WordRegister.x, .y, .u, .s] ∧ m.2 ≠ 0 ∨ m.1 = .w ∧ m.2 ∈ [2, -2])) = true := by
    cases variant <;> decide +kernel
  have hp := hall post
  rw [h] at hp
  exact of_decide_eq_true hp

namespace Exec

variable {β : Type} [Bus β]

theorem regs_indexFormAddress (form : IndexForm) (c : Core β) :
    (indexFormAddress form c).2.cpu.regs = { form.move c.cpu.regs with
      pc := (indexFormAddress form c).2.cpu.regs.pc } := by
  cases form with
  | decrement base amount =>
    let moved := c.cpu.regs.setWord base (c.cpu.regs.word base - amount)
    show moved = { c.cpu.regs.setWord base (c.cpu.regs.word base + -amount) with pc := moved.pc }
    rw [← BitVec.sub_eq_add_neg]
  | _ => rfl

/-- To find an indexed address moves the register that the form says, and the program counter. -/
theorem regs_indexedAddress (c : Core β) :
    (indexedAddress c).2.cpu.regs =
      { (Postbyte.decode c.cpu.variant c.nextByte).form.move c.cpu.regs with
        pc := (indexedAddress c).2.cpu.regs.pc } := by
  have hx : indexedAddress c =
      resolve (Postbyte.decode c.cpu.variant c.nextByte) (fetch c).2 := rfl
  have hp := Fetched.moved_ne_pc c.cpu.variant c.nextByte
  rw [hx]
  generalize Postbyte.decode c.cpu.variant c.nextByte = meaning at hp
  obtain ⟨form, indirect⟩ := meaning
  let d : Core β := (fetch c).2.charge (form.cost (fetch c).2.cpu.native)
  have hd : d.cpu.regs = { c.cpu.regs with pc := c.cpu.regs.pc + 1 } := rfl
  have hr := regs_indexFormAddress form d
  rw [hd, IndexForm.move_pc hp] at hr
  cases indirect with
  | true => exact hr
  | false => exact hr

end Exec

/-! ### What is stored -/

/-- What a store stores. -/
inductive Stored
  | byte (name : ByteRegister)
  | word (name : WordRegister)
  | long
  deriving DecidableEq

namespace Stored

/-- The instruction that stores it. -/
def instruction (mode : MemoryMode) : Stored → Instruction
  | byte name => .storeByte name mode
  | word name => .storeWord name mode
  | long => .storeQ mode

/-- The bytes as they stand in memory. -/
def bytes (r : Registers) : Stored → List Byte
  | byte name => [r.byte name]
  | word name => [Word.highByte (r.word name), Word.lowByte (r.word name)]
  | long => [Word.highByte r.d, Word.lowByte r.d, Word.highByte r.w, Word.lowByte r.w]

/-- The condition codes that tell of it. -/
def codes (cc : ConditionCodes) (r : Registers) : Stored → ConditionCodes
  | byte name => cc.ofData (r.byte name)
  | word name => cc.ofData (r.word name)
  | long => cc.ofData r.q

/-- It is an index register, or a part of one, or has one for a part. -/
def Within (base : WordRegister) : Stored → Prop
  | byte name => base = .w ∧ (name = .e ∨ name = .f)
  | word name => name = base
  | long => base = .w

variable {stored : Stored}

theorem bytes_pc (h : stored ≠ .word .pc) (r : Registers) (pc : Word) :
    stored.bytes { r with pc := pc } = stored.bytes r := by
  cases stored with
  | byte name => cases name <;> rfl
  | word name =>
    cases name with
    | pc => exact absurd rfl h
    | _ => rfl
  | long => rfl

theorem codes_pc (h : stored ≠ .word .pc) (cc : ConditionCodes) (r : Registers) (pc : Word) :
    stored.codes cc { r with pc := pc } = stored.codes cc r := by
  cases stored with
  | byte name => cases name <;> rfl
  | word name =>
    cases name with
    | pc => exact absurd rfl h
    | _ => rfl
  | long => rfl

theorem bytes_word_eq_iff (name : WordRegister) (r r' : Registers) :
    (word name).bytes r = (word name).bytes r' ↔ r.word name = r'.word name := by
  constructor
  · intro h
    obtain ⟨hh, hl⟩ := List.cons.inj h
    have hl' := (List.cons.inj hl).1
    rw [← Word.ofBytes_highByte_lowByte (r.word name),
      ← Word.ofBytes_highByte_lowByte (r'.word name), hh, hl']
  · exact congrArg fun value => [Word.highByte value, Word.lowByte value]

/-- A word register is the same before and after exactly if it is not the one that moves. -/
theorem bytes_word_move (name : WordRegister) {form : IndexForm} {base : WordRegister} {delta : Word}
    (h : form.movesBy? = some (base, delta)) (hd : delta ≠ 0) (r : Registers) :
    (word name).bytes r = (word name).bytes (form.move r) ↔ name ≠ base := by
  rw [bytes_word_eq_iff, IndexForm.move_of_movesBy? h]
  by_cases hn : name = base
  · subst hn
    rw [Registers.word_setWord_self]
    refine iff_of_false (fun he => hd ?_) fun hne => hne rfl
    generalize r.word name = value at he
    bv_omega
  · rw [Registers.word_setWord_of_ne _ _ hn]
    exact iff_of_true rfl hn

/-- No byte register is a part of one of the other index registers. -/
theorem bytes_byte_setWord {base : WordRegister} (hb : base ∈ [WordRegister.x, .y, .u, .s])
    (name : ByteRegister) (r : Registers) (value : Word) :
    (byte name).bytes (r.setWord base value) = (byte name).bytes r := by
  cases base with
  | x | y | u | s => cases name <;> rfl
  | d | pc | w | v => simp at hb

theorem bytes_e (r : Registers) : (byte .e).bytes r = [Word.highByte r.w] :=
  congrArg (fun v => [v]) (Word.highByte_ofBytes r.e r.f).symm

theorem bytes_f (r : Registers) : (byte .f).bytes r = [Word.lowByte r.w] :=
  congrArg (fun v => [v]) (Word.lowByte_ofBytes r.e r.f).symm

/-- When `W` moves by two, its low byte changes. -/
theorem lowByte_add_ne (value : Word) {delta : Word} (h : delta ∈ [(2 : Word), -2]) :
    Word.lowByte (value + delta) ≠ Word.lowByte value := by
  intro he
  have hn := congrArg BitVec.toNat he
  rw [Word.toNat_lowByte, Word.toNat_lowByte, BitVec.toNat_add] at hn
  have hd : delta.toNat = 2 ∨ delta.toNat = 65534 := by
    simp only [List.mem_cons, List.not_mem_nil, or_false] at h
    rcases h with rfl | rfl
    · exact .inl rfl
    · exact .inr rfl
  omega

/-- When `W` moves, its low byte is not the same before and after, and its high byte is if it comes
out so. -/
theorem bytes_byte_setW {delta : Word} (hd : delta ∈ [(2 : Word), -2]) (name : ByteRegister)
    (r : Registers) : (byte name).bytes r = (byte name).bytes (r.setW (r.w + delta)) ↔
      ((byte name).Within .w → byte name = .byte .e ∧
        Word.highByte (r.setW (r.w + delta)).w = Word.highByte r.w) := by
  cases name with
  | e =>
    rw [bytes_e, bytes_e, List.cons.injEq, eq_comm]
    simp [Within]
  | f =>
    rw [bytes_f, bytes_f, Registers.w_setW]
    refine iff_of_false (fun h => ?_) fun h => nomatch (h ⟨rfl, .inr rfl⟩).1
    exact lowByte_add_ne r.w hd (List.cons.inj h).1.symm
  | a | b | cc | dp => exact iff_of_true rfl fun h => by simp [Within] at h

/-- It makes no difference whether a register is taken before the move or after, unless it is the one
that moves or a part of it; and then it makes one, except that the high byte of `W` may come out as
it was. -/
theorem bytes_eq_move_iff {stored : Stored} (hl : stored ≠ .long) (variant : Variant) (post : Byte)
    (r : Registers) :
    let form := (Postbyte.decode variant post).form
    stored.bytes r = stored.bytes (form.move r) ↔
      ∀ base, form.moved? = some base → stored.Within base →
        stored = .byte .e ∧ Word.highByte (form.move r).w = Word.highByte r.w := by
  intro form
  rw [IndexForm.moved?_eq]
  cases hm : form.movesBy? with
  | none => exact iff_of_true (by rw [IndexForm.move_of_still hm]) nofun
  | some change =>
    obtain ⟨base, delta⟩ := change
    have hd := Postbyte.movesBy?_decode variant post hm
    have hmove := IndexForm.move_of_movesBy? hm r
    have hone : ∀ {p : WordRegister → Prop},
        (∀ other, (some (base, delta)).map Prod.fst = some other → p other) ↔ p base :=
      ⟨fun h => h base rfl, fun h other ho => Option.some.inj ho ▸ h⟩
    rw [hone]
    cases stored with
    | long => exact absurd rfl hl
    | word name =>
      have h0 : delta ≠ 0 := by
        rcases hd with ⟨-, h0⟩ | ⟨-, h2⟩
        · exact h0
        · rintro rfl
          simp at h2
      rw [bytes_word_move name hm h0]
      exact ⟨fun hne he => absurd he hne, fun h he => nomatch (h he).1⟩
    | byte name =>
      rcases hd with ⟨hb, -⟩ | ⟨rfl, h2⟩
      · have hw : ¬ (byte name).Within base := by
          rintro ⟨rfl, -⟩
          simp at hb
        refine iff_of_true ?_ fun h => absurd h hw
        rw [hmove, bytes_byte_setWord hb]
      · rw [hmove]
        exact bytes_byte_setW h2 name r

end Stored

/-! ### Steps that store -/

/-- No opcode stores the program counter. -/
theorem Opcode.decode?_ne_storePc (page : Page) (opcode : Byte) (mode : MemoryMode) :
    decode? page opcode ≠ some (.storeWord .pc mode) := by
  revert opcode
  cases page <;> cases mode <;> decide +kernel

/-- The bus after bytes were written from an address on. -/
def Bus.writeMany {β : Type} [Bus β] (bus : β) (address : Word) : List Byte → β
  | [] => bus
  | value :: rest => writeMany (write bus address value) (address + 1) rest

namespace Exec

variable {β : Type} [Bus β]

/-- The store of `Q` takes its register when the address is found, any other one before. -/
theorem perform_store (stored : Stored) (c : Core β) :
    let found := indexedAddress c
    let taken := if stored = .long then found.2.cpu.regs else c.cpu.regs
    (perform (stored.instruction .indexed) c).2 =
      ⟨found.2.cpu.mapRegs fun r => { r with cc := stored.codes r.cc taken },
        Bus.writeMany found.2.bus found.1 (stored.bytes taken), found.2.cycles⟩ := by
  cases stored with
  | byte name => rfl
  | word name => rfl
  | long =>
    let found := indexedAddress c
    have h2 : found.1 + 1 + 1 = found.1 + 2 := BitVec.add_assoc _ _ _
    have hb : Bus.writeMany found.2.bus found.1 (Stored.bytes found.2.cpu.regs .long) =
        Bus.writeWord (Bus.writeWord found.2.bus found.1 found.2.cpu.regs.d) (found.1 + 2)
          found.2.cpu.regs.w := by
      simp only [Stored.bytes, Bus.writeMany, Bus.writeWord, h2]
    intro found taken
    exact congrArg (fun bus => (⟨_, bus, _⟩ : Core β)) hb.symm

/-- The registers that an instruction finds: the program counter has moved behind the opcode. -/
theorem regs_begun (c : Core β) (i : Instruction) :
    (c.begun i).cpu.regs = { c.cpu.regs with pc := (c.begun i).cpu.regs.pc } := by
  show (fetchOpcode c).2.cpu.regs = { c.cpu.regs with pc := (fetchOpcode c).2.cpu.regs.pc }
  rw [regs_fetchOpcode]

end Exec

namespace Stored

variable {β : Type} [Bus β] {stored : Stored} {c : Core β}

theorem ne_pc_of_next {mode : MemoryMode}
    (h : c.nextInstruction? = some (stored.instruction mode)) : stored ≠ .word .pc := by
  rintro rfl
  exact Opcode.decode?_ne_storePc _ _ _ h

end Stored

namespace Cpu

variable {β : Type} [Bus β] {cpu : Cpu} {bus : β}

/-- What an instruction finds behind its opcode. -/
theorem begun_of_executes {i : Instruction} {post : Byte} (h : cpu.Executes bus i post) :
    let d : Core β := (⟨cpu.awake, bus, 0⟩ : Core β).begun i
    d.cpu.regs = { cpu.regs with pc := d.cpu.regs.pc } ∧ d.cpu.variant = cpu.variant ∧
      d.nextByte = post := by
  refine ⟨?_, ?_, h.post⟩
  · rw [← cpu.regs_awake]
    exact Exec.regs_begun _ _
  · exact (Exec.fetchOpcode_frame (⟨cpu.awake, bus, 0⟩ : Core β)).1.trans cpu.variant_awake

section Executes

variable {stored : Stored} {post : Byte} (h : cpu.Executes bus (stored.instruction .indexed) post)
include h

/-- The processor when a store has found its address: the index register has moved. -/
theorem regs_found :
    let found := Exec.indexedAddress
      ((⟨cpu.awake, bus, 0⟩ : Core β).begun (stored.instruction .indexed))
    found.2.cpu.regs = { (Postbyte.decode cpu.variant post).form.move cpu.regs with
      pc := found.2.cpu.regs.pc } := by
  obtain ⟨hd, hv, hp⟩ := begun_of_executes h
  have hr := Exec.regs_indexedAddress
    ((⟨cpu.awake, bus, 0⟩ : Core β).begun (stored.instruction .indexed))
  rwa [hv, hp, hd, IndexForm.move_pc (Fetched.moved_ne_pc _ _)] at hr

/-- What a store does once it has found its address. -/
theorem step_of_stores :
    let found := Exec.indexedAddress
      ((⟨cpu.awake, bus, 0⟩ : Core β).begun (stored.instruction .indexed))
    let taken := if stored = .long then (Postbyte.decode cpu.variant post).form.move cpu.regs
      else cpu.regs
    cpu.step bus = Core.settled
      ⟨found.2.cpu.mapRegs fun r => { r with cc := stored.codes cpu.regs.cc taken },
        Bus.writeMany found.2.bus found.1 (stored.bytes taken), found.2.cycles⟩ := by
  intro found taken
  let d : Core β := (⟨cpu.awake, bus, 0⟩ : Core β).begun (stored.instruction .indexed)
  have hpc : stored ≠ .word .pc := Stored.ne_pc_of_next h.next
  have hf := regs_found h
  have hcc : found.2.cpu.regs.cc = cpu.regs.cc := by
    rw [hf]
    exact IndexForm.cc_move _ cpu.regs
  -- the program counter is never stored, so it does not matter how far it has come
  have ht : ∃ pc, (if stored = .long then found.2.cpu.regs else d.cpu.regs) =
      { taken with pc := pc } := by
    by_cases hl : stored = .long
    · exact ⟨_, by rw [if_pos hl, show taken = _ from if_pos hl]; exact hf⟩
    · refine ⟨d.cpu.regs.pc, ?_⟩
      rw [if_neg hl, show taken = cpu.regs from if_neg hl]
      exact (begun_of_executes h).1
  obtain ⟨pc, ht⟩ := ht
  have hs := Exec.perform_store stored d
  dsimp only at hs
  rw [ht, Stored.bytes_pc hpc] at hs
  simp only [Stored.codes_pc hpc] at hs
  have hx : cpu.step bus = Core.settled ⟨found.2.cpu.mapRegs fun r =>
      { r with cc := stored.codes r.cc taken },
      Bus.writeMany found.2.bus found.1 (stored.bytes taken), found.2.cycles⟩ := by
    rw [step_of_executes h]
    exact congrArg Core.settled hs
  rw [hx, ← hcc]
  rfl

/-- What a store leaves in memory. -/
theorem bus_step_of_stores :
    let found := Exec.indexedAddress
      ((⟨cpu.awake, bus, 0⟩ : Core β).begun (stored.instruction .indexed))
    let taken := if stored = .long then (Postbyte.decode cpu.variant post).form.move cpu.regs
      else cpu.regs
    (cpu.step bus).bus = Bus.writeMany found.2.bus found.1 (stored.bytes taken) :=
  congrArg Core.bus (step_of_stores h)

end Executes

/-- An instruction that stores finds its address, which may move an index register. Then the store of
`Q` takes its register as it is now, and every other store as it was when the step began; that is
written to the address and told by the codes. So a store stores what its register holds once the
address is found exactly if it is the store of `Q`, or if neither its register nor the one that it is
a part of has moved; except that it is `E` that is stored, and `W` has moved without a change to its
high byte. -/
theorem step_store {stored : Stored} {post : Byte}
    (h : cpu.Executes bus (stored.instruction .indexed) post) :
    let form := (Postbyte.decode cpu.variant post).form
    let moved := form.move cpu.regs
    let taken := if stored = .long then moved else cpu.regs
    let found := Exec.indexedAddress
      ((⟨cpu.awake, bus, 0⟩ : Core β).begun (stored.instruction .indexed))
    found.2.cpu.regs = { moved with pc := found.2.cpu.regs.pc } ∧
    cpu.step bus = Core.settled
      ⟨found.2.cpu.mapRegs fun r => { r with cc := stored.codes cpu.regs.cc taken },
        Bus.writeMany found.2.bus found.1 (stored.bytes taken), found.2.cycles⟩ ∧
    (stored.bytes taken = stored.bytes moved ↔ stored = .long ∨
      ∀ base, form.moved? = some base → stored.Within base →
        stored = .byte .e ∧ Word.highByte moved.w = Word.highByte cpu.regs.w) := by
  intro form moved taken found
  refine ⟨regs_found h, step_of_stores h, ?_⟩
  by_cases hl : stored = .long
  · exact iff_of_true (by rw [show taken = moved from if_pos hl]) (.inl hl)
  · rw [show taken = cpu.regs from if_neg hl, or_iff_right hl]
    exact Stored.bytes_eq_move_iff hl cpu.variant post cpu.regs

end Cpu

/-! ### A store of `X` by way of `X` -/

namespace FlatMemory

/-- Memory that begins with a store of `X` where `X` points to, after which `X` moves up by two. -/
def storeX : FlatMemory := (zeros.write 1 0x81).write 0 0xAF

theorem peek_storeX_zero : storeX.peek 0 = 0xAF := by
  rw [storeX, peek_write, if_pos rfl]

theorem peek_storeX_one : storeX.peek 1 = 0x81 := by
  rw [storeX, peek_write, if_neg (by decide), peek_write, if_pos rfl]

/-- Two words that are written to one place and leave the same memory have the same low byte. -/
theorem writeMany_pair_inj {m : FlatMemory} {a : Word} {high low high' low' : Byte}
    (h : Bus.writeMany m a [high, low] = Bus.writeMany m a [high', low']) : low = low' := by
  have hlow : ∀ high low : Byte, (Bus.writeMany m a [high, low]).peek (a + 1) = low := by
    intro high low
    show ((m.write a high).write (a + 1) low).peek (a + 1) = low
    rw [peek_write, if_pos rfl]
  rw [← hlow high low, h, hlow]

end FlatMemory

namespace Cpu

/-- A processor that is about to run it. -/
def storing : Cpu := { fresh .motorola with regs := { Registers.zeros with x := 16 } }

theorem executes_of_peek {m : FlatMemory} (h0 : m.peek 0 = 0xAF) (h1 : m.peek 1 = 0x81) :
    storing.Executes m ((Stored.word .x).instruction .indexed) 0x81 := by
  let c : Core FlatMemory := ⟨storing.awake, m, 0⟩
  have hb : (Exec.fetch c).1 = 0xAF := h0
  have hf : Exec.fetchOpcode c = ((.base, 0xAF), (Exec.fetch c).2) := by
    rw [Exec.fetchOpcode_of_base (by rw [hb]; decide) (by rw [hb]; decide), hb]
  refine ⟨by decide, ?_, rfl, ?_⟩
  · have hd : Opcode.decode? .base 0xAF = some (.storeWord .x .indexed) := by decide
    rw [Core.nextInstruction?, hf]
    exact hd
  · rw [Core.nextPostbyte, hf]
    exact h1

theorem executes_storing :
    storing.Executes FlatMemory.storeX ((Stored.word .x).instruction .indexed) 0x81 :=
  executes_of_peek FlatMemory.peek_storeX_zero FlatMemory.peek_storeX_one

/-- What `X` held is stored, and not what it holds then. -/
theorem step_store_storing :
    let found := Exec.indexedAddress ((⟨storing.awake, FlatMemory.storeX, 0⟩ :
      Core FlatMemory).begun ((Stored.word .x).instruction .indexed))
    found.2.cpu.regs.x = 0x0012 ∧
    (storing.step FlatMemory.storeX).bus = Bus.writeMany found.2.bus found.1 [0x00, 0x10] := by
  have h := step_store executes_storing
  generalize FlatMemory.storeX = m at h
  exact ⟨congrArg Registers.x h.1, congrArg Core.bus h.2.1⟩

/-- Not every store stores what its register holds once the address is found. -/
theorem not_stores_moved :
    ¬ ∀ (cpu : Cpu) (bus : FlatMemory) (stored : Stored) (post : Byte),
      cpu.Executes bus (stored.instruction .indexed) post →
      let moved := (Postbyte.decode cpu.variant post).form.move cpu.regs
      let found := Exec.indexedAddress
        ((⟨cpu.awake, bus, 0⟩ : Core FlatMemory).begun (stored.instruction .indexed))
      (cpu.step bus).bus = Bus.writeMany found.2.bus found.1 (stored.bytes moved) := by
  intro h
  have hc := h storing FlatMemory.storeX (.word .x) 0x81 executes_storing
  have hs := bus_step_of_stores executes_storing
  have hm : (Stored.word .x).bytes ((Postbyte.decode storing.variant 0x81).form.move storing.regs) =
      [0x00, 0x12] := by decide
  have ht : (Stored.word .x).bytes storing.regs = [0x00, 0x10] := by decide
  dsimp only at hc hs
  rw [hm] at hc
  rw [if_neg (by decide), ht, hc] at hs
  exact absurd (FlatMemory.writeMany_pair_inj hs) (by decide)

end Cpu

end ColorComputer
