import ColorComputer.Proofs.Executing
import ColorComputer.Proofs.Spending
import ColorComputer.Proofs.Trap

/-!
# Block transfers

A block transfer copies byte by byte while both addresses move, so where it reads what it wrote
before, it copies the copy. This module says what it leaves in flat memory, in the registers and in
the count, and that it is a plain copy where it does not meet its own traces.

* `FlatMemory.peek_copied_of_ne`, `FlatMemory.peek_copied` — what is copied, and what is untouched.
* `Exec.copyByte_eq` — one byte.
* `Exec.copyBytes_eq` — a number of bytes.
* `Cpu.transferForms`, `Cpu.transferPointers` — the forms, and the registers they may name.
* `Cpu.step_transfer` — the step that runs a block transfer.
-/

namespace ColorComputer

/-! ### Addresses that move -/

namespace Word

/-- An address that moved so many times. -/
def moved (a delta : Word) (n : Nat) : Word := a + BitVec.ofNat 16 n * delta

theorem moved_zero (a delta : Word) : a.moved delta 0 = a := by
  rw [moved, BitVec.zero_mul, BitVec.add_zero]

theorem moved_one (a delta : Word) : a.moved delta 1 = a + delta := by
  rw [moved, BitVec.one_mul]

theorem moved_moved (a delta : Word) (n : Nat) :
    (a.moved delta 1).moved delta n = a.moved delta (n + 1) := by
  rw [moved, moved, moved, BitVec.ofNat_add, BitVec.add_assoc, ← BitVec.add_mul,
    BitVec.add_comm (BitVec.ofNat 16 n)]

end Word

/-! ### Copies in memory -/

namespace FlatMemory

/-- Memory after so many bytes were copied, one after the other. -/
def copied (m : FlatMemory) (source target : Nat → Word) : Nat → FlatMemory
  | 0 => m
  | n + 1 => (copied m source target n).write (target n) ((copied m source target n).peek (source n))

variable {m : FlatMemory} {source target : Nat → Word} {n : Nat}

/-- The first byte may be taken apart instead of the last one. -/
theorem copied_succ_first :
    m.copied source target (n + 1) =
      (m.write (target 0) (m.peek (source 0))).copied (fun k => source (k + 1))
        (fun k => target (k + 1)) n := by
  induction n with
  | zero => rfl
  | succ n ih => rw [copied, ih, copied]

theorem peek_copied_of_ne {a : Word} (h : ∀ k < n, target k ≠ a) :
    (m.copied source target n).peek a = m.peek a := by
  induction n with
  | zero => rfl
  | succ n ih =>
    rw [copied, peek_write, if_neg (h n (Nat.lt_succ_self n))]
    exact ih fun k hk => h k (Nat.lt_succ_of_lt hk)

/-- Where no byte is written twice, nor after it was written read, each is copied. -/
theorem peek_copied (hinj : ∀ j < n, ∀ k < n, target j = target k → j = k)
    (hdisjoint : ∀ j < n, ∀ k < n, target j ≠ source k) {k : Nat} (hk : k < n) :
    (m.copied source target n).peek (target k) = m.peek (source k) := by
  induction n with
  | zero => exact absurd hk (Nat.not_lt_zero k)
  | succ n ih =>
    have hn := Nat.lt_succ_self n
    have hlt : ∀ {j}, j < n → j < n + 1 := Nat.lt_succ_of_lt
    rw [copied, peek_write]
    by_cases hlast : k = n
    · rw [if_pos (by rw [hlast]), hlast]
      exact peek_copied_of_ne fun j hj => hdisjoint j (hlt hj) n hn
    · rw [if_neg fun he => hlast (hinj n hn k hk he).symm]
      exact ih (fun i hi j hj => hinj i (hlt hi) j (hlt hj))
        (fun i hi j hj => hdisjoint i (hlt hi) j (hlt hj)) (by omega)

end FlatMemory

/-! ### Registers -/

namespace Registers

theorem setWord_comm (r : Registers) {m n : WordRegister} (h : m ≠ n) (u v : Word) :
    (r.setWord m u).setWord n v = (r.setWord n v).setWord m u := by
  cases m <;> cases n <;> first | rfl | exact absurd rfl h

/-- The registers after so many bytes were copied. -/
def advanced (r : Registers) (source target : WordRegister) (step : BlockStep) (n : Nat) :
    Registers :=
  ((r.setWord source ((r.word source).moved step.deltas.1 n)).setWord target
    ((r.word target).moved step.deltas.2 n)).setWord .w (r.w - BitVec.ofNat 16 n)

section

variable {source target : WordRegister} (step : BlockStep) (r : Registers) (n : Nat)

theorem word_source_advanced (hst : source ≠ target) (hs : source ≠ .w) :
    (r.advanced source target step n).word source =
      (r.word source).moved step.deltas.1 n := by
  rw [advanced, word_setWord_of_ne _ _ hs, word_setWord_of_ne _ _ hst, word_setWord_self]

theorem word_target_advanced (ht : target ≠ .w) :
    (r.advanced source target step n).word target =
      (r.word target).moved step.deltas.2 n := by
  rw [advanced, word_setWord_of_ne _ _ ht, word_setWord_self]

theorem w_advanced : (r.advanced source target step n).w = r.w - BitVec.ofNat 16 n :=
  w_setW _ _

theorem advanced_zero : r.advanced source target step 0 = r := by
  have hw : r.w - BitVec.ofNat 16 0 = r.word .w := BitVec.sub_zero _
  rw [advanced, Word.moved_zero, Word.moved_zero, hw, setWord_word, setWord_word, setWord_word]

/-- One byte and then the others. -/
theorem advanced_advanced (hst : source ≠ target) (hs : source ≠ .w) (ht : target ≠ .w) :
    (r.advanced source target step 1).advanced source target step n =
      r.advanced source target step (n + 1) := by
  have hless : r.w - BitVec.ofNat 16 1 - BitVec.ofNat 16 n = r.w - BitVec.ofNat 16 (n + 1) := by
    rw [BitVec.ofNat_add, BitVec.sub_sub, BitVec.add_comm]
  rw [advanced, word_source_advanced step r 1 hst hs, word_target_advanced step r 1 ht, w_advanced,
    Word.moved_moved, Word.moved_moved, hless, advanced, advanced]
  -- the later value of each register is the one that counts
  rw [setWord_comm _ hs.symm, setWord_comm _ hst.symm, setWord_setWord, setWord_comm _ ht.symm,
    setWord_setWord, setWord_setWord]

/-- The program counter does not matter, nor does it move. -/
theorem advanced_setPc (hs : source ≠ .pc) (ht : target ≠ .pc) (pc : Word) :
    (r.setWord .pc pc).advanced source target step n =
      (r.advanced source target step n).setWord .pc pc := by
  have hw : (r.setWord .pc pc).w = r.w := rfl
  rw [advanced, advanced, word_setWord_of_ne _ _ hs, word_setWord_of_ne _ _ ht, hw,
    setWord_comm _ hs.symm, setWord_comm _ ht.symm, setWord_comm _ (by decide : WordRegister.pc ≠ .w)]

end

end Registers

/-! ### Copies -/

/-- The core after so many bytes were copied. -/
def Core.transferred (c : Core FlatMemory) (source target : WordRegister) (step : BlockStep)
    (n : Nat) : Core FlatMemory :=
  ⟨c.cpu.mapRegs fun r => r.advanced source target step n,
    c.bus.copied ((c.cpu.regs.word source).moved step.deltas.1)
      ((c.cpu.regs.word target).moved step.deltas.2) n, c.cycles + 3 * n⟩

namespace Exec

variable {source target : WordRegister} (step : BlockStep)

theorem transferred_zero (c : Core FlatMemory) : c.transferred source target step 0 = c := by
  obtain ⟨cpu, bus, cycles⟩ := c
  simp only [Core.transferred, Cpu.mapRegs, Registers.advanced_zero, FlatMemory.copied, Nat.mul_zero,
    Nat.add_zero]

section

variable (hst : source ≠ target) (hs : source ≠ .w) (ht : target ≠ .w)
include hs ht

theorem copyByte_eq (c : Core FlatMemory) :
    copyByte source target step c = ((), c.transferred source target step 1) := by
  let moved := (c.cpu.regs.setWord source (c.cpu.regs.word source + step.deltas.1)).setWord target
    (c.cpu.regs.word target + step.deltas.2)
  have hw : moved.w = c.cpu.regs.w :=
    (Registers.word_setWord_of_ne _ _ ht.symm).trans (Registers.word_setWord_of_ne _ _ hs.symm)
  have hx : copyByte source target step c = ((), ⟨c.cpu.mapRegs fun _ => moved.setW (moved.w - 1),
    c.bus.write (c.cpu.regs.word target) (c.bus.peek (c.cpu.regs.word source)),
    c.cycles + 3⟩) := rfl
  rw [hx, hw]
  simp only [Core.transferred, FlatMemory.copied, Registers.advanced, Word.moved_zero, Word.moved_one]
  rfl

include hst

theorem transferred_transferred (n : Nat) (c : Core FlatMemory) :
    (c.transferred source target step 1).transferred source target step n =
      c.transferred source target step (n + 1) := by
  obtain ⟨cpu, bus, cycles⟩ := c
  have hsource : ((cpu.regs.word source).moved step.deltas.1 1).moved step.deltas.1 =
      fun k => (cpu.regs.word source).moved step.deltas.1 (k + 1) :=
    funext fun k => Word.moved_moved _ _ k
  have htarget : ((cpu.regs.word target).moved step.deltas.2 1).moved step.deltas.2 =
      fun k => (cpu.regs.word target).moved step.deltas.2 (k + 1) :=
    funext fun k => Word.moved_moved _ _ k
  have hcycles : cycles + 3 * 1 + 3 * n = cycles + 3 * (n + 1) := by omega
  simp only [Core.transferred, Cpu.mapRegs, Registers.advanced_advanced step cpu.regs n hst hs ht,
    Registers.word_source_advanced step cpu.regs 1 hst hs,
    Registers.word_target_advanced step cpu.regs 1 ht, hsource, htarget, hcycles,
    FlatMemory.copied_succ_first]
  rfl

/-- A number of bytes. -/
theorem copyBytes_eq (n : Nat) (c : Core FlatMemory) :
    copyBytes source target step n c = ((), c.transferred source target step n) := by
  induction n generalizing c with
  | zero =>
    rw [transferred_zero]
    rfl
  | succ n ih =>
    have hx : copyBytes source target step (n + 1) c =
      copyBytes source target step n (copyByte source target step c).2 := rfl
    rw [hx, copyByte_eq step hs ht, ih, transferred_transferred step hst hs ht]

end

/-- When a block transfer has its postbyte, three bytes were fetched. -/
theorem fetch_begun_blockTransfer {c : Core FlatMemory}
    (h : c.nextInstruction? = some (.blockTransfer step)) :
    (fetch (c.begun (.blockTransfer step))).2 =
      ⟨c.cpu.mapRegs fun r => { r with pc := r.pc + 3 }, c.bus, c.cycles + 6⟩ := by
  have hpage : (fetchOpcode c).1.1 = .page11 := Opcode.page_of_decode h rfl
  have hfetch : (fetchOpcode c).2 = (fetch (fetch c).2).2 := by
    rw [fetchOpcode_eq] at hpage ⊢
    by_cases h10 : (fetch c).1 = 0x10
    · rw [if_pos h10] at hpage
      cases hpage
    · rw [if_neg h10] at hpage ⊢
      by_cases h11 : (fetch c).1 = 0x11
      · rw [if_pos h11]
        rfl
      · rw [if_neg h11] at hpage
        cases hpage
  have hpc : c.cpu.regs.pc + 1 + 1 + 1 = c.cpu.regs.pc + 3 := by
    rw [BitVec.add_assoc, BitVec.add_assoc]
    rfl
  have hcost : (Instruction.blockTransfer step).cost (fetchOpcode c).2.cpu.native = 6 := by
    cases (fetchOpcode c).2.cpu.native <;> rfl
  rw [Core.begun, hcost, hfetch]
  exact congrArg (fun pc => (⟨c.cpu.mapRegs fun r => { r with pc := pc }, c.bus, c.cycles + 6⟩ :
    Core FlatMemory)) hpc

end Exec

/-! ### Steps -/

theorem Exec.ne_pc_of_blockRegister? {code : Nat} {name : WordRegister}
    (h : blockRegister? code = some name) : name ≠ .pc := by
  rintro rfl
  unfold blockRegister? at h
  split at h <;> cases h

theorem Exec.blockRegister?_inj {j k : Nat} {name : WordRegister}
    (hj : blockRegister? j = some name) (hk : blockRegister? k = some name) : j = k := by
  unfold blockRegister? at hj hk
  split at hj <;> cases hj <;> split at hk <;> first | rfl | cases hk

namespace Cpu

variable {cpu : Cpu} {mem : FlatMemory} {step : BlockStep} {post : Byte}

/-- The core when a block transfer has its postbyte. -/
def fetchedTransfer (cpu : Cpu) (mem : FlatMemory) : Core FlatMemory :=
  ⟨cpu.awake.mapRegs fun r => { r with pc := r.pc + 3 }, mem, 6⟩

theorem regs_fetchedTransfer :
    (cpu.fetchedTransfer mem).cpu.regs = cpu.regs.setWord .pc (cpu.regs.pc + 3) := by
  rw [← regs_awake cpu]
  rfl

theorem transferred_fetchedTransfer {source target : WordRegister} (hs : source ≠ .pc)
    (ht : target ≠ .pc) (n : Nat) :
    (cpu.fetchedTransfer mem).transferred source target step n =
      ⟨cpu.awake.mapRegs fun _ =>
          (cpu.regs.advanced source target step n).setWord .pc (cpu.regs.pc + 3),
        mem.copied ((cpu.regs.word source).moved step.deltas.1)
          ((cpu.regs.word target).moved step.deltas.2) n, 6 + 3 * n⟩ := by
  have hadvanced := Registers.advanced_setPc step cpu.regs n hs ht (cpu.regs.pc + 3)
  rw [Core.transferred, regs_fetchedTransfer, Registers.word_setWord_of_ne _ _ hs,
    Registers.word_setWord_of_ne _ _ ht, ← hadvanced, ← @regs_fetchedTransfer cpu mem]
  rfl

section

variable (h : cpu.Executes mem (.blockTransfer step) post)
include h

theorem step_of_executes_transfer :
    let d : Core FlatMemory := (⟨cpu.awake, mem, 0⟩ : Core FlatMemory).begun (.blockTransfer step)
    cpu.step mem = (Exec.blockTransfer step d).2.settled ∧ d.nextByte = post ∧
      (Exec.fetch d).2 = cpu.fetchedTransfer mem :=
  ⟨step_of_executes h, h.post, Exec.fetch_begun_blockTransfer step h.next⟩

/-- A transfer between two registers makes as many copies as `W` says. -/
theorem step_of_legal {source target : WordRegister}
    (hs : Exec.blockRegister? (post.toNat / 16) = some source)
    (ht : Exec.blockRegister? (post.toNat % 16) = some target) :
    cpu.step mem = (Exec.copyBytes source target step cpu.regs.w.toNat
      (cpu.fetchedTransfer mem)).2.settled := by
  obtain ⟨hrun, hp, hf⟩ := step_of_executes_transfer h
  have hw : (cpu.fetchedTransfer mem).cpu.regs.w = cpu.regs.w := by
    rw [regs_fetchedTransfer]
    rfl
  rw [hrun, Exec.blockTransfer_eq, hp, hs, ht, hf, ← hw]
  rfl

/-- A transfer that names another register traps. -/
theorem step_of_illegal (hillegal : Exec.blockRegister? (post.toNat / 16) = none ∨
      Exec.blockRegister? (post.toNat % 16) = none) :
    cpu.step mem = ((cpu.fetchedTransfer mem).trapped .undefinedInstruction).settled := by
  obtain ⟨hrun, hp, hf⟩ := step_of_executes_transfer h
  rw [← hp] at hillegal
  rw [hrun, Exec.blockTransfer_of_none hillegal, hf, Exec.trap_eq_trapped]

end

/-- The block transfers: the byte behind `$11`, and what is added to the source address and to the
target address after each byte. -/
def transferForms : List (Byte × Word × Word) :=
  [(0x38, 1, 1), (0x39, -1, -1), (0x3A, 1, 0), (0x3B, 0, 1)]

/-- The registers that may hold the addresses, each with its code. -/
def transferPointers : List (Nat × WordRegister) := [(0, .d), (1, .x), (2, .y), (3, .u), (4, .s)]

theorem step_of_form {opcode : Byte} {deltas : Word × Word}
    (h : (opcode, deltas) ∈ transferForms) : ∃ step : BlockStep,
      Opcode.decode? .page11 opcode = some (.blockTransfer step) ∧ step.deltas = deltas := by
  simp only [transferForms, List.mem_cons, List.not_mem_nil, or_false, Prod.mk.injEq] at h
  rcases h with ⟨rfl, rfl⟩ | ⟨rfl, rfl⟩ | ⟨rfl, rfl⟩ | ⟨rfl, rfl⟩
  · exact ⟨.up, by decide, rfl⟩
  · exact ⟨.down, by decide, rfl⟩
  · exact ⟨.sourceOnly, by decide, rfl⟩
  · exact ⟨.targetOnly, by decide, rfl⟩

theorem blockRegister?_of_mem {code : Nat} {name : WordRegister}
    (h : (code, name) ∈ transferPointers) : Exec.blockRegister? code = some name := by
  simp only [transferPointers, List.mem_cons, List.not_mem_nil, or_false, Prod.mk.injEq] at h
  rcases h with ⟨rfl, rfl⟩ | ⟨rfl, rfl⟩ | ⟨rfl, rfl⟩ | ⟨rfl, rfl⟩ | ⟨rfl, rfl⟩ <;> rfl

theorem blockRegister?_of_lt {code : Nat} (h : 4 < code) : Exec.blockRegister? code = none := by
  unfold Exec.blockRegister?
  split <;> first | rfl | omega

/-- The processor finds a block transfer where its bytes are. -/
theorem executes_transfer (hm : cpu.move = .execute) (hv : cpu.variant = .hitachi)
    (hb : mem.peek cpu.regs.pc = 0x11) {opcode : Byte}
    (ho : mem.peek (cpu.regs.pc + 1) = opcode) (hp : mem.peek (cpu.regs.pc + 2) = post)
    (hd : Opcode.decode? .page11 opcode = some (.blockTransfer step)) :
    cpu.Executes mem (.blockTransfer step) post := by
  let c : Core FlatMemory := ⟨cpu.awake, mem, 0⟩
  have hpc : c.cpu.regs.pc = cpu.regs.pc := congrArg Registers.pc (regs_awake cpu)
  have hfirst : (Exec.fetch c).1 = 0x11 := by
    show mem.peek c.cpu.regs.pc = 0x11
    rw [hpc, hb]
  have hfetch : (Exec.fetchOpcode c).1 = (.page11, opcode) ∧
      (Exec.fetchOpcode c).2.nextByte = post := by
    rw [Exec.fetchOpcode_eq, if_neg (by rw [hfirst]; decide), if_pos hfirst]
    constructor
    · show (Page.page11, mem.peek (c.cpu.regs.pc + 1)) = _
      rw [hpc, ho]
    · show mem.peek (c.cpu.regs.pc + 1 + 1) = post
      rw [hpc, Word.add_one_add_one, hp]
  refine ⟨hm, ?_, by rw [hv]; rfl, hfetch.2⟩
  show Opcode.decode? (Exec.fetchOpcode c).1.1 (Exec.fetchOpcode c).1.2 = _
  rw [hfetch.1]
  exact hd

/-- **A block transfer copies the block.** Its forms differ in how the addresses move, and any of the
five registers may hold an address. Between two different registers a transfer makes as many copies
as `W` says, one after the other: `W` comes to zero, both addresses have moved, the program counter
stands behind the instruction, no other register has changed, and each byte costs three cycles. No
other byte of memory changes; and if no byte is written twice or written where another one is read,
each arrives as it was. With a code that names no such register nothing is copied: the instruction
traps, and what changes in memory is the frame of the trap. -/
theorem step_transfer (hm : cpu.move = .execute) (hv : cpu.variant = .hitachi)
    (hb : mem.peek cpu.regs.pc = 0x11) {opcode : Byte} {sourceDelta targetDelta : Word}
    (ho : mem.peek (cpu.regs.pc + 1) = opcode) (hp : mem.peek (cpu.regs.pc + 2) = post)
    (hf : (opcode, sourceDelta, targetDelta) ∈ transferForms) :
    (∀ source target, (post.toNat / 16, source) ∈ transferPointers →
      (post.toNat % 16, target) ∈ transferPointers → post.toNat / 16 ≠ post.toNat % 16 →
      let n := cpu.regs.w.toNat
      let read (k : Nat) : Word := cpu.regs.word source + BitVec.ofNat 16 k * sourceDelta
      let written (k : Nat) : Word := cpu.regs.word target + BitVec.ofNat 16 k * targetDelta
      (∃ step : BlockStep, cpu.step mem =
        (Exec.copyBytes source target step n (cpu.fetchedTransfer mem)).2.settled) ∧
      cpu.step mem = Core.settled ⟨cpu.awake.mapRegs fun _ =>
          { ((cpu.regs.setWord source (read n)).setWord target (written n)).setW 0 with
            pc := cpu.regs.pc + 3 },
          mem.copied read written n, 6 + 3 * n⟩ ∧
      (∀ a, (∀ k < n, written k ≠ a) → (cpu.step mem).bus.peek a = mem.peek a) ∧
      ((∀ j < n, ∀ k < n, written j = written k → j = k) →
        (∀ j < n, ∀ k < n, written j ≠ read k) →
        ∀ k < n, (cpu.step mem).bus.peek (written k) = mem.peek (read k))) ∧
    (4 < post.toNat / 16 ∨ 4 < post.toNat % 16 →
      cpu.step mem = ((cpu.fetchedTransfer mem).trapped .undefinedInstruction).settled ∧
      (cpu.step mem).bus = Bus.pushBytes mem cpu.regs.s
        ((cpu.fetchedTransfer mem).trapFrame .undefinedInstruction)) := by
  obtain ⟨step, hd, hdeltas⟩ := step_of_form hf
  obtain ⟨rfl, rfl⟩ : step.deltas.1 = sourceDelta ∧ step.deltas.2 = targetDelta := by
    rw [hdeltas]
    exact ⟨rfl, rfl⟩
  have h := executes_transfer hm hv hb ho hp hd
  refine ⟨fun source target hs ht hne => ?_, fun hillegal => ?_⟩
  · intro n read written
    have hs := blockRegister?_of_mem hs
    have ht := blockRegister?_of_mem ht
    have hst : source ≠ target := fun he => hne (Exec.blockRegister?_inj hs (he ▸ ht))
    have hcopies := step_of_legal h hs ht
    have hzero : cpu.regs.w - BitVec.ofNat 16 n = 0 := by
      rw [BitVec.ofNat_toNat, BitVec.setWidth_eq]
      exact BitVec.sub_self _
    have hstep : cpu.step mem = Core.settled ⟨cpu.awake.mapRegs fun _ =>
          { ((cpu.regs.setWord source (read n)).setWord target (written n)).setW 0 with
            pc := cpu.regs.pc + 3 },
          mem.copied read written n, 6 + 3 * n⟩ := by
      rw [hcopies, Exec.copyBytes_eq step hst (Exec.ne_w_of_blockRegister? hs)
        (Exec.ne_w_of_blockRegister? ht), transferred_fetchedTransfer
        (Exec.ne_pc_of_blockRegister? hs) (Exec.ne_pc_of_blockRegister? ht), Registers.advanced,
        hzero]
      rfl
    have hbus : (cpu.step mem).bus = mem.copied read written n := congrArg Core.bus hstep
    refine ⟨⟨step, hcopies⟩, hstep, fun a ha => ?_, fun hinj hdisjoint k hk => ?_⟩
    · rw [hbus]
      exact FlatMemory.peek_copied_of_ne ha
    · rw [hbus]
      exact FlatMemory.peek_copied hinj hdisjoint hk
  · have hstep := step_of_illegal h (hillegal.imp blockRegister?_of_lt blockRegister?_of_lt)
    refine ⟨hstep, (congrArg Core.bus hstep).trans ?_⟩
    rw [Core.bus_settled, Core.bus_trapped, regs_fetchedTransfer]
    rfl

/-- A processor that is about to copy two bytes, with these addresses in `X` and `Y`. -/
def copying (x y : Word) : Cpu :=
  { fresh .hitachi with regs := { Registers.zeros with x := x, y := y, f := 2 } }

/-- A block transfer, and two bytes behind it. -/
def transferBytes (opcode post : UInt8) : FlatMemory :=
  .beginning [0x11, opcode, post, 0xAA, 0xBB] (by simp)

/-- Two bytes from `X` to `Y`, upwards and downwards, then both to one place, and one to both places;
and none where the program counter should take them. -/
theorem step_transfer_copying :
    (((copying 3 0x20).step (transferBytes 0x38 0x12)).bus.peek 0x20 = 0xAA ∧
      ((copying 3 0x20).step (transferBytes 0x38 0x12)).bus.peek 0x21 = 0xBB) ∧
    ((copying 4 0x21).step (transferBytes 0x39 0x12)).cpu.regs =
      { Registers.zeros with x := 2, y := 0x1F, pc := 3 } ∧
    ((copying 3 0x20).step (transferBytes 0x3A 0x12)).cpu.regs =
      { Registers.zeros with x := 5, y := 0x20, pc := 3 } ∧
    ((copying 3 0x20).step (transferBytes 0x3B 0x12)).bus.peek 0x21 = 0xAA ∧
    ((copying 3 0x20).step (transferBytes 0x38 0x15)).cpu.regs.w = 2 := by
  have run (x y : Word) (opcode post : UInt8) (sourceDelta targetDelta : Word)
      (hf : (opcode.toBitVec, sourceDelta, targetDelta) ∈ transferForms) :=
    @step_transfer (copying x y) (transferBytes opcode post) post.toBitVec rfl rfl rfl opcode.toBitVec
      sourceDelta targetDelta rfl rfl hf
  have hx : ((0x12 : UInt8).toBitVec.toNat / 16, WordRegister.x) ∈ transferPointers := by decide
  have hy : ((0x12 : UInt8).toBitVec.toNat % 16, WordRegister.y) ∈ transferPointers := by decide
  have copies (x y : Word) (opcode : UInt8) (sourceDelta targetDelta : Word)
      (hf : (opcode.toBitVec, sourceDelta, targetDelta) ∈ transferForms) :=
    (run x y opcode 0x12 sourceDelta targetDelta hf).1 .x .y hx hy (by decide)
  have hup := (copies 3 0x20 0x38 1 1 (by decide)).2.2.2 (by decide) (by decide)
  have hdown := (copies 4 0x21 0x39 (-1) (-1) (by decide)).2.1
  have hsource := (copies 3 0x20 0x3A 1 0 (by decide)).2.1
  have htarget := (copies 3 0x20 0x3B 0 1 (by decide)).2.2.2 (by decide) (by decide)
  have htrap := ((run 3 0x20 0x38 0x15 1 1 (by decide)).2 (.inr (by decide))).1
  refine ⟨?_, ?_, ?_, ?_, ?_⟩
  · generalize ((copying 3 0x20).step (transferBytes 0x38 0x12)).bus = later at hup ⊢
    exact ⟨(hup 0 (by decide)).trans (by decide +kernel),
      (hup 1 (by decide)).trans (by decide +kernel)⟩
  · rw [hdown]
    decide
  · rw [hsource]
    decide
  · generalize ((copying 3 0x20).step (transferBytes 0x3B 0x12)).bus = later at htarget ⊢
    exact (htarget 1 (by decide)).trans (by decide +kernel)
  · rw [htrap]
    decide

end Cpu

end ColorComputer
