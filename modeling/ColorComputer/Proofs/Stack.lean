import ColorComputer.Bus.FlatMemory
import ColorComputer.Cpu.Stacking
import ColorComputer.Proofs.Likeness.Basic

/-!
# Stacks in flat memory

What a list of registers leaves in memory when it is pushed, and that pulling the list in the
opposite order brings the registers back. A stack may wrap at the end of memory; nothing here
depends on where it stands.

* `peekMany_pushBytes` — the bytes pushed stand below the old top, the latest first.
* `peek_pushBytes` — every other byte is untouched.
* `pushAll_eq` — pushing registers pushes their bytes.
* `regs_pullAll` — pulling a list of registers copies them from where their bytes came from.
-/

namespace ColorComputer

/-! ### Bytes below a top -/

/-- The addresses of the bytes below a top, the nearest first. -/
def Word.below (top : Word) (n : Nat) : List Word :=
  (List.range n).map fun k => top - 1 - BitVec.ofNat 16 k

theorem Word.mem_below_iff (top a : Word) (n : Nat) :
    a ∈ top.below n ↔ ∃ k < n, a = top - 1 - BitVec.ofNat 16 k := by
  simp only [Word.below, List.mem_map, List.mem_range]
  constructor
  · rintro ⟨k, hk, he⟩
    exact ⟨k, hk, he.symm⟩
  · rintro ⟨k, hk, he⟩
    exact ⟨k, hk, he.symm⟩

theorem Word.below_succ (top : Word) (n : Nat) :
    top.below (n + 1) = (top - 1) :: (top - 1).below n := by
  rw [below, List.range_succ_eq_map, List.map_cons, List.map_map]
  refine congr (congrArg _ (BitVec.sub_zero _)) (List.map_congr_left fun k _ => ?_)
  show top - 1 - BitVec.ofNat 16 (k + 1) = top - 1 - 1 - BitVec.ofNat 16 k
  rw [BitVec.ofNat_add]
  bv_omega

theorem Bus.peekMany_add {β : Type} [Bus β] (bus : β) (a : Word) (m n : Nat) :
    peekMany bus a (m + n) = peekMany bus a m ++ peekMany bus (a + BitVec.ofNat 16 m) n := by
  induction n with
  | zero => simp [peekMany]
  | succ n ih =>
    rw [← Nat.add_assoc, peekMany_succ, peekMany_succ, ih, List.append_assoc, BitVec.add_assoc,
      BitVec.ofNat_add]

theorem RegisterName.totalSize_append (first rest : List RegisterName) :
    totalSize (first ++ rest) = totalSize first + totalSize rest := by
  induction first with
  | nil => exact (Nat.zero_add _).symm
  | cons name first ih =>
    show name.size + totalSize (first ++ rest) = name.size + totalSize first + totalSize rest
    rw [ih, Nat.add_assoc]

theorem RegisterName.totalSize_reverse (names : List RegisterName) :
    totalSize names.reverse = totalSize names := by
  induction names with
  | nil => rfl
  | cons name rest ih =>
    rw [List.reverse_cons, totalSize_append, ih]
    show totalSize rest + (name.size + 0) = name.size + totalSize rest
    omega

/-! ### Pushing bytes -/

namespace Bus

variable {β : Type} [Bus β]

/-- The bus after bytes were pushed below a top, the first of the list first. -/
def pushBytes (bus : β) (top : Word) : List Byte → β
  | [] => bus
  | b :: rest => pushBytes (write bus (top - 1) b) (top - 1) rest

theorem pushBytes_append (bus : β) (top : Word) (first rest : List Byte) :
    pushBytes bus top (first ++ rest) =
      pushBytes (pushBytes bus top first) (top - BitVec.ofNat 16 first.length) rest := by
  induction first generalizing bus top with
  | nil => simp [pushBytes]
  | cons b first ih =>
    have ha : top - 1 - BitVec.ofNat 16 first.length =
        top - BitVec.ofNat 16 (first.length + 1) := by
      rw [BitVec.ofNat_add]
      bv_omega
    rw [List.cons_append, pushBytes, ih, ha]
    rfl

/-- A bus that swallows what is written below a top is as it was. -/
theorem pushBytes_of_swallows {bus : β} {top : Word} {bytes : List Byte}
    (h : ∀ a ∈ top.below bytes.length, ∀ v, write bus a v = bus) :
    pushBytes bus top bytes = bus := by
  induction bytes generalizing top with
  | nil => rfl
  | cons b rest ih =>
    rw [List.length_cons, Word.below_succ, List.forall_mem_cons] at h
    rw [pushBytes, h.1]
    exact ih h.2

end Bus

namespace FlatMemory

theorem peek_zeros (a : Word) : zeros.peek a = 0 := by
  exact ByteStore.get_zeros _

/-- Every byte outside the part of the stack that was pushed is untouched. -/
theorem peek_pushBytes {m : FlatMemory} {top a : Word} {bytes : List Byte}
    (h : a ∉ top.below bytes.length) : (Bus.pushBytes m top bytes).peek a = m.peek a := by
  induction bytes generalizing m top with
  | nil => rfl
  | cons b rest ih =>
    rw [List.length_cons, Word.below_succ, List.mem_cons, not_or] at h
    rw [Bus.pushBytes, ih h.2]
    show (m.write (top - 1) b).peek a = _
    rw [peek_write, if_neg (Ne.symm h.1)]

/-- The bytes pushed stand below the old top, the latest first. -/
theorem peekMany_pushBytes (m : FlatMemory) (top : Word) (bytes : List Byte)
    (h : bytes.length ≤ 65536) :
    Bus.peekMany (Bus.pushBytes m top bytes) (top - BitVec.ofNat 16 bytes.length) bytes.length =
      bytes.reverse := by
  induction bytes generalizing m top with
  | nil => rfl
  | cons b rest ih =>
    rw [List.length_cons] at h
    have ha : top - BitVec.ofNat 16 (rest.length + 1) = top - 1 - BitVec.ofNat 16 rest.length := by
      rw [BitVec.ofNat_add]
      bv_omega
    have hb : top - 1 ∉ (top - 1).below rest.length := by
      rw [Word.mem_below_iff]
      rintro ⟨k, hk, he⟩
      have hk' : (BitVec.ofNat 16 k).toNat = k := by
        rw [BitVec.toNat_ofNat, Nat.mod_eq_of_lt (by omega)]
      bv_omega
    have hlast : (Bus.pushBytes (m.write (top - 1) b) (top - 1) rest).peek
        (top - 1 - BitVec.ofNat 16 rest.length + BitVec.ofNat 16 rest.length) = b := by
      rw [BitVec.sub_add_cancel, peek_pushBytes hb, peek_write, if_pos rfl]
    rw [List.length_cons, ha, Bus.pushBytes, Bus.peekMany_succ]
    show Bus.peekMany (Bus.pushBytes (m.write (top - 1) b) (top - 1) rest) _ _ ++ _ = _
    rw [ih _ _ (by omega), List.reverse_cons]
    exact congrArg (fun x => rest.reverse ++ [x]) hlast

end FlatMemory

/-! ### Registers as bytes -/

namespace Registers

/-- The bytes of a register in the order of pushing. -/
def stackBytes (r : Registers) : RegisterName → List Byte
  | .byte n => [r.byte n]
  | .word n => [Word.lowByte (r.word n), Word.highByte (r.word n)]

/-- The bytes of a list of registers in the order of pushing. -/
def frameBytes (r : Registers) (names : List RegisterName) : List Byte :=
  names.flatMap r.stackBytes

/-- The register file with one register taken from another file. -/
def copy (source r : Registers) : RegisterName → Registers
  | .byte n => r.setByte n (source.byte n)
  | .word n => r.setWord n (source.word n)

@[simp] theorem length_stackBytes (r : Registers) (name : RegisterName) :
    (r.stackBytes name).length = name.size := by
  cases name <;> rfl

@[simp] theorem length_frameBytes (r : Registers) (names : List RegisterName) :
    (r.frameBytes names).length = RegisterName.totalSize names := by
  induction names with
  | nil => rfl
  | cons name rest ih =>
    rw [frameBytes, List.flatMap_cons, List.length_append, length_stackBytes]
    exact congrArg (name.size + ·) ih

/-! ### Moving a stack pointer -/

theorem setWord_word (r : Registers) (name : WordRegister) : r.setWord name (r.word name) = r := by
  cases name <;> simp [setWord, word, setD, setW, d, w]

theorem setWord_setWord (r : Registers) (name : WordRegister) (v w : Word) :
    (r.setWord name v).setWord name w = r.setWord name w := by
  cases name <;> rfl

theorem stackBytes_setPointer (r : Registers) {stack : Stack} {name : RegisterName}
    (h : name ≠ .word stack.pointer) (v : Word) :
    (r.setWord stack.pointer v).stackBytes name = r.stackBytes name := by
  cases name with
  | byte n => cases stack <;> cases n <;> rfl
  | word n =>
    have hn : n ≠ stack.pointer := fun he => h (congrArg RegisterName.word he)
    simp only [stackBytes, word_setWord_of_ne _ _ hn]

theorem frameBytes_setPointer (r : Registers) {stack : Stack} {names : List RegisterName}
    (h : .word stack.pointer ∉ names) (v : Word) :
    (r.setWord stack.pointer v).frameBytes names = r.frameBytes names := by
  induction names with
  | nil => rfl
  | cons name rest ih =>
    rw [List.mem_cons, not_or] at h
    rw [frameBytes, frameBytes, List.flatMap_cons, List.flatMap_cons,
      stackBytes_setPointer r (Ne.symm h.1)]
    exact congrArg (r.stackBytes name ++ ·) (ih h.2)

theorem copy_setPointer (source r : Registers) {stack : Stack} {name : RegisterName}
    (h : name ≠ .word stack.pointer) (v : Word) :
    source.copy (r.setWord stack.pointer v) name =
      (source.copy r name).setWord stack.pointer v := by
  cases name with
  | byte n => cases stack <;> cases n <;> rfl
  | word n =>
    cases stack <;> cases n <;> first | rfl | exact absurd rfl h

theorem foldl_copy_setPointer (source r : Registers) {stack : Stack} {names : List RegisterName}
    (h : .word stack.pointer ∉ names) (v : Word) :
    names.foldl source.copy (r.setWord stack.pointer v) =
      (names.foldl source.copy r).setWord stack.pointer v := by
  induction names generalizing r with
  | nil => rfl
  | cons name rest ih =>
    rw [List.mem_cons, not_or] at h
    rw [List.foldl_cons, List.foldl_cons, copy_setPointer source r (Ne.symm h.1), ih _ h.2]

end Registers

/-! ### Pushing -/

section Pushed

variable {β : Type} [Bus β]

/-- The registers with E set or cleared. -/
def Registers.marked (r : Registers) (entire : Bool) : Registers :=
  { r with cc := { r.cc with entire := entire } }

/-- The core with E set or cleared. -/
def Core.marked (c : Core β) (entire : Bool) : Core β :=
  c.mapCpu (·.mapRegs fun r => r.marked entire)

/-- The core after bytes were pushed. -/
def Core.pushed (c : Core β) (stack : Stack) (bytes : List Byte) : Core β where
  cpu := c.cpu.mapRegs fun r =>
    r.setWord stack.pointer (r.word stack.pointer - BitVec.ofNat 16 bytes.length)
  bus := Bus.pushBytes c.bus (c.cpu.regs.word stack.pointer) bytes
  cycles := c.cycles

theorem Core.pushed_nil (c : Core β) (stack : Stack) : c.pushed stack [] = c := by
  obtain ⟨cpu, bus, cycles⟩ := c
  simp only [pushed, Cpu.mapRegs, Bus.pushBytes, List.length_nil, BitVec.sub_zero,
    Registers.setWord_word]

theorem Core.pushed_append (c : Core β) (stack : Stack) (first rest : List Byte) :
    (c.pushed stack first).pushed stack rest = c.pushed stack (first ++ rest) := by
  obtain ⟨cpu, bus, cycles⟩ := c
  simp only [pushed, Cpu.mapRegs, Registers.word_setWord_self, Registers.setWord_setWord,
    Bus.pushBytes_append, List.length_append, BitVec.ofNat_add, BitVec.sub_sub]

namespace Exec

theorem pushByte_eq (stack : Stack) (v : Byte) (c : Core β) :
    pushByte stack v c = ((), c.pushed stack [v]) := rfl

theorem pushWord_eq (stack : Stack) (v : Word) (c : Core β) :
    pushWord stack v c = ((), c.pushed stack [Word.lowByte v, Word.highByte v]) := by
  have h : pushWord stack v c =
      pushByte stack (Word.highByte v) (pushByte stack (Word.lowByte v) c).2 := rfl
  rw [h, pushByte_eq, pushByte_eq, Core.pushed_append]
  rfl

theorem pushRegister_eq (stack : Stack) (name : RegisterName) (c : Core β) :
    pushRegister stack name c = ((), c.pushed stack (c.cpu.regs.stackBytes name)) := by
  cases name with
  | byte n => rfl
  | word n => exact pushWord_eq stack _ c

/-- Pushing registers pushes their bytes. -/
theorem pushAll_eq {stack : Stack} {names : List RegisterName}
    (h : .word stack.pointer ∉ names) (c : Core β) :
    pushAll stack names c = ((), c.pushed stack (c.cpu.regs.frameBytes names)) := by
  induction names generalizing c with
  | nil =>
    show ((), c) = ((), c.pushed stack [])
    rw [Core.pushed_nil]
  | cons name rest ih =>
    rw [List.mem_cons, not_or] at h
    have hp : pushAll stack (name :: rest) c =
        pushAll stack rest (pushRegister stack name c).2 := rfl
    have hb : (c.pushed stack (c.cpu.regs.stackBytes name)).cpu.regs.frameBytes rest =
        c.cpu.regs.frameBytes rest := Registers.frameBytes_setPointer _ h.2 _
    rw [hp, pushRegister_eq, ih h.2, hb, Core.pushed_append]
    rfl

theorem pushEntire_eq (c : Core β) :
    pushEntire c = pushAll .system (Frame.entire c.cpu.native) (c.marked true) := by
  have hx : ∀ f : Bool → Exec β Unit, (do
      modifyRegs fun r => { r with cc := { r.cc with entire := true } }
      f (← isNative) : Exec β Unit) c = f c.cpu.native (c.marked true) := fun f => rfl
  exact hx fun native => pushAll .system (Frame.entire native)

theorem pushShort_eq (c : Core β) :
    pushShort c = pushAll .system Frame.short (c.marked false) := by
  have hx : ∀ x : Exec β Unit, (do
      modifyRegs fun r => { r with cc := { r.cc with entire := false } }
      x : Exec β Unit) c = x (c.marked false) := fun x => rfl
  exact hx (pushAll .system Frame.short)

end Exec

end Pushed

/-! ### Pulling -/

namespace Exec

theorem regs_pullRegister {stack : Stack} {source : Registers} {name : RegisterName}
    (hn : name ≠ .word stack.pointer) (c : Core FlatMemory)
    (h : Bus.peekMany c.bus (c.cpu.regs.word stack.pointer) name.size =
      (source.stackBytes name).reverse) :
    (pullRegister stack name c).2.bus = c.bus ∧
      (pullRegister stack name c).2.cpu.regs =
        (source.copy c.cpu.regs name).setWord stack.pointer
          (c.cpu.regs.word stack.pointer + BitVec.ofNat 16 name.size) := by
  refine ⟨by cases name <;> rfl, ?_⟩
  rw [← Registers.copy_setPointer source _ hn]
  cases name with
  | byte n =>
    have hv : [c.bus.peek (c.cpu.regs.word stack.pointer + 0#16)] = [source.byte n] := h
    rw [List.cons.injEq, BitVec.add_zero] at hv
    show (c.cpu.regs.setWord stack.pointer _).setByte n (c.bus.peek _) = _
    rw [hv.1]
    rfl
  | word n =>
    have hv : [c.bus.peek (c.cpu.regs.word stack.pointer + 0#16),
        c.bus.peek (c.cpu.regs.word stack.pointer + 1)] =
        [Word.highByte (source.word n), Word.lowByte (source.word n)] := h
    rw [List.cons.injEq, List.cons.injEq, BitVec.add_zero] at hv
    have hr : (pullRegister stack (.word n) c).2.cpu.regs =
        ((c.cpu.regs.setWord stack.pointer (c.cpu.regs.word stack.pointer + 1)).setWord
          stack.pointer ((c.cpu.regs.setWord stack.pointer
            (c.cpu.regs.word stack.pointer + 1)).word stack.pointer + 1)).setWord n
          (Word.ofBytes (c.bus.peek (c.cpu.regs.word stack.pointer))
            (c.bus.peek ((c.cpu.regs.setWord stack.pointer
              (c.cpu.regs.word stack.pointer + 1)).word stack.pointer))) := rfl
    rw [hr, Registers.word_setWord_self, Registers.setWord_setWord, hv.1, hv.2.1,
      Word.ofBytes_highByte_lowByte, BitVec.add_assoc]
    rfl

/-- The bytes of these registers stand at the top of a stack, ready to be pulled in order. -/
def Holds (c : Core FlatMemory) (stack : Stack) (source : Registers)
    (names : List RegisterName) : Prop :=
  Bus.peekMany c.bus (c.cpu.regs.word stack.pointer) (RegisterName.totalSize names) =
    names.flatMap fun name => (source.stackBytes name).reverse

/-- Pulling the first register leaves the others ready. -/
theorem Holds.pull {stack : Stack} {source : Registers} {name : RegisterName}
    {rest : List RegisterName} (hn : name ≠ .word stack.pointer) {c : Core FlatMemory}
    (h : Holds c stack source (name :: rest)) :
    Holds (pullRegister stack name c).2 stack source rest ∧
      (pullRegister stack name c).2.bus = c.bus ∧
      (pullRegister stack name c).2.cpu.regs =
        (source.copy c.cpu.regs name).setWord stack.pointer
          (c.cpu.regs.word stack.pointer + BitVec.ofNat 16 name.size) := by
  have hs : RegisterName.totalSize (name :: rest) = name.size + RegisterName.totalSize rest := rfl
  have hlen : (Bus.peekMany c.bus (c.cpu.regs.word stack.pointer) name.size).length =
      (source.stackBytes name).reverse.length := by simp
  unfold Holds at h
  rw [hs, Bus.peekMany_add, List.flatMap_cons] at h
  obtain ⟨hfirst, hrest⟩ := List.append_inj h hlen
  obtain ⟨hb, hr⟩ := regs_pullRegister hn c hfirst
  refine ⟨?_, hb, hr⟩
  rwa [Holds, hb, hr, Registers.word_setWord_self]

/-- Pulling registers copies them from where their bytes came from. -/
theorem regs_pullAll {stack : Stack} {source : Registers} {names : List RegisterName}
    (hn : .word stack.pointer ∉ names) (c : Core FlatMemory) (h : Holds c stack source names) :
    (pullAll stack names c).2.cpu.regs =
      (names.foldl source.copy c.cpu.regs).setWord stack.pointer
        (c.cpu.regs.word stack.pointer + BitVec.ofNat 16 (RegisterName.totalSize names)) := by
  induction names generalizing c with
  | nil =>
    show c.cpu.regs = c.cpu.regs.setWord stack.pointer (c.cpu.regs.word stack.pointer + 0#16)
    rw [BitVec.add_zero, Registers.setWord_word]
  | cons name rest ih =>
    rw [List.mem_cons, not_or] at hn
    obtain ⟨hrest, hb, hr⟩ := h.pull (Ne.symm hn.1)
    have hp : pullAll stack (name :: rest) c =
        pullAll stack rest (pullRegister stack name c).2 := rfl
    have hs : RegisterName.totalSize (name :: rest) =
        name.size + RegisterName.totalSize rest := rfl
    rw [hp, ih hn.2 _ hrest, hr, Registers.foldl_copy_setPointer _ _ hn.2,
      Registers.setWord_setWord, Registers.word_setWord_self, List.foldl_cons, hs,
      BitVec.ofNat_add, BitVec.add_assoc]

/-- What was pushed stands ready to be pulled in the opposite order. -/
theorem holds_pushed (c : Core FlatMemory) (stack : Stack) {names : List RegisterName}
    (h : RegisterName.totalSize names ≤ 65536) :
    Holds (c.pushed stack (c.cpu.regs.frameBytes names)) stack c.cpu.regs names.reverse := by
  have hl : (c.cpu.regs.frameBytes names).length = RegisterName.totalSize names :=
    c.cpu.regs.length_frameBytes names
  have hp := FlatMemory.peekMany_pushBytes c.bus (c.cpu.regs.word stack.pointer)
    (c.cpu.regs.frameBytes names) (by omega)
  have hw : (c.pushed stack (c.cpu.regs.frameBytes names)).cpu.regs.word stack.pointer =
      c.cpu.regs.word stack.pointer - BitVec.ofNat 16 (c.cpu.regs.frameBytes names).length :=
    Registers.word_setWord_self _ _ _
  unfold Holds
  rw [hw, RegisterName.totalSize_reverse, ← hl]
  refine hp.trans ?_
  rw [Registers.frameBytes, List.reverse_flatMap]
  rfl

end Exec

end ColorComputer
