import Mathlib.Data.List.Basic
import ColorComputer.Proofs.Stack

/-!
# Pushing and pulling

A postbyte selects registers, and what one instruction pushes another pulls. Both go through the same
list, the one from its front and the other from its end, so that every register comes back from where
it went, whatever became of it in between.

* `reverse_frameBytes_selected` — how the selected registers stand in memory.
* `pushSelected_eq` — to push them changes the stack and its pointer.
* `pullSelected_eq` — to pull them copies them from where their bytes came from.
* `foldl_copy_undone` — registers that are copied back in the opposite order are as they were.
* `pull_push` — so a pull undoes a push.
-/

namespace ColorComputer

/-- A word as it stands in memory. -/
def Word.bigEndian (w : Word) : List Byte := [highByte w, lowByte w]

/-- The register is not a pair of others. -/
def RegisterName.isSimple : RegisterName → Bool
  | .word .d => false
  | .word .w => false
  | _ => true

/-! ### What is selected -/

namespace Stack

theorem selected_eq (stack : Stack) (mask : Byte) : stack.selected mask =
    (stack.candidates.zip [7, 6, 5, 4, 3, 2, 1, 0]).flatMap fun p =>
      if mask.getLsbD p.2 then [p.1] else [] := by
  rw [selected, List.filterMap_eq_flatMap_toList]
  refine congrArg (List.flatMap · _) (funext fun p => ?_)
  obtain ⟨name, bit⟩ := p
  dsimp only
  split <;> rfl

/-- A postbyte selects some of the candidates, in their order. -/
theorem selected_sublist (stack : Stack) (mask : Byte) :
    (stack.selected mask).Sublist stack.candidates := by
  have hz : ∀ l : List (RegisterName × Nat),
      (l.flatMap fun p => if mask.getLsbD p.2 then [p.1] else []).Sublist
        (l.flatMap fun p => [p.1]) := by
    intro l
    induction l with
    | nil => exact List.Sublist.refl _
    | cons p rest ih =>
      rw [List.flatMap_cons, List.flatMap_cons]
      refine List.Sublist.append ?_ ih
      split
      · exact List.Sublist.refl _
      · exact List.nil_sublist _
  rw [selected_eq]
  exact hz (stack.candidates.zip [7, 6, 5, 4, 3, 2, 1, 0])

theorem nodup_selected (stack : Stack) (mask : Byte) : (stack.selected mask).Nodup :=
  (stack.selected_sublist mask).nodup (by cases stack <;> decide)

theorem pointer_not_mem_selected (stack : Stack) (mask : Byte) :
    .word stack.pointer ∉ stack.selected mask := fun h =>
  absurd ((stack.selected_sublist mask).subset h) (by cases stack <;> decide)

theorem isSimple_of_mem_selected {stack : Stack} {mask : Byte} {name : RegisterName}
    (h : name ∈ stack.selected mask) : name.isSimple = true := by
  have hall : ∀ name ∈ stack.candidates, name.isSimple = true := by cases stack <;> decide
  exact hall name ((stack.selected_sublist mask).subset h)

theorem totalSize_selected_le (stack : Stack) (mask : Byte) :
    RegisterName.totalSize (stack.selected mask) ≤ 65536 := by
  have hs : ∀ {first rest : List RegisterName}, first.Sublist rest →
      RegisterName.totalSize first ≤ RegisterName.totalSize rest := by
    intro first rest h
    induction h with
    | slnil => exact Nat.le_refl _
    | cons name _ ih => exact Nat.le_trans ih (Nat.le_add_left _ _)
    | cons_cons name _ ih => exact Nat.add_le_add_left ih _
  exact Nat.le_trans (hs (stack.selected_sublist mask)) (by cases stack <;> decide)

/-- A pull loads `S` exactly if its postbyte selects it. -/
theorem s_mem_selected_iff (stack : Stack) (mask : Byte) :
    .word .s ∈ stack.selected mask ↔ (Instruction.pull stack).loadsS mask = true := by
  rw [selected_eq]
  cases stack <;> simp [candidates, otherPointer, Instruction.loadsS]

end Stack

/-! ### Registers in memory -/

namespace Registers

/-- The registers that a postbyte selects, as they stand in memory from low addresses to high. The
stack pointer among them is that of the other stack. -/
def image (r : Registers) (stack : Stack) (mask : Byte) : List Byte :=
  let selected (bit : Nat) (bytes : List Byte) : List Byte :=
    if mask.getLsbD bit then bytes else []
  let other := match stack with
    | .system => r.u
    | .user => r.s
  selected 0 [r.cc.toByte] ++ selected 1 [r.a] ++ selected 2 [r.b] ++ selected 3 [r.dp] ++
    selected 4 r.x.bigEndian ++ selected 5 r.y.bigEndian ++ selected 6 other.bigEndian ++
    selected 7 r.pc.bigEndian

theorem reverse_frameBytes_selected (r : Registers) (stack : Stack) (mask : Byte) :
    (r.frameBytes (stack.selected mask)).reverse = r.image stack mask := by
  have hs : ∀ (bit : Nat) (name : RegisterName),
      ((if mask.getLsbD bit then [name] else []).flatMap r.stackBytes).reverse =
        if mask.getLsbD bit then (r.stackBytes name).reverse else [] := by
    intro bit name
    cases mask.getLsbD bit with
    | true => exact congrArg List.reverse (List.append_nil _)
    | false => rfl
  rw [Stack.selected_eq, frameBytes, List.flatMap_assoc]
  cases stack <;>
    simp only [Stack.candidates, List.zip_cons_cons, List.flatMap_cons, List.reverse_append, hs] <;>
    simp [image, Word.bigEndian, stackBytes, byte, word, Stack.otherPointer]

theorem length_image (r : Registers) (stack : Stack) (mask : Byte) :
    (r.image stack mask).length = RegisterName.totalSize (stack.selected mask) := by
  rw [← reverse_frameBytes_selected, List.length_reverse, length_frameBytes]

/-! ### Copies that undo each other -/

variable (source junk r : Registers)

theorem copy_self (name : RegisterName) : r.copy r name = r := by
  cases name with
  | byte n => cases n <;> simp [copy, setByte, byte]
  | word n => cases n <;> simp [copy, setWord, word, setD, setW, d, w]

theorem copy_copy (name : RegisterName) :
    source.copy (junk.copy r name) name = source.copy r name := by
  cases name with
  | byte n => cases n <;> rfl
  | word n => cases n <;> rfl

/-- Registers that are no pairs are copied independently of each other. -/
theorem copy_comm {m n : RegisterName} (hm : m.isSimple = true) (hn : n.isSimple = true)
    (h : m ≠ n) : source.copy (junk.copy r m) n = junk.copy (source.copy r n) m := by
  cases m with
  | byte m =>
    cases n with
    | byte n => cases m <;> cases n <;> first | rfl | exact absurd rfl h
    | word n => cases m <;> cases n <;> first | rfl | exact nomatch hn
  | word m =>
    cases n with
    | byte n => cases m <;> cases n <;> first | rfl | exact nomatch hm
    | word n => cases m <;> cases n <;> first | rfl | exact absurd rfl h

theorem foldl_copy_self (names : List RegisterName) : names.foldl r.copy r = r := by
  induction names with
  | nil => rfl
  | cons name rest ih => rw [List.foldl_cons, copy_self, ih]

variable {source junk r}

/-- Registers that were like those of a source, and that are copied back from it in the opposite
order, are as they were before anything else was copied into them. -/
theorem foldl_copy_undone {names : List RegisterName} (hd : names.Nodup)
    (hs : ∀ name ∈ names, name.isSimple = true) (ha : ∀ name ∈ names, source.copy r name = r) :
    names.reverse.foldl source.copy (names.foldl junk.copy r) = r := by
  induction names generalizing r with
  | nil => rfl
  | cons name rest ih =>
    rw [List.nodup_cons] at hd
    rw [List.forall_mem_cons] at hs ha
    -- what is copied over the first register leaves the others like the source
    have hrest : ∀ other ∈ rest, source.copy (junk.copy r name) other = junk.copy r name := by
      intro other ho
      have hne : name ≠ other := fun he => hd.1 (he ▸ ho)
      rw [copy_comm source junk r hs.1 (hs.2 other ho) hne, ha.2 other ho]
    rw [List.reverse_cons, List.foldl_append, List.foldl_cons, List.foldl_nil, List.foldl_cons,
      ih hd.2 hs.2 hrest, copy_copy, ha.1]

/-- Copies leave the pointer of the stack alone that they came from. -/
theorem word_pointer_foldl_copy {stack : Stack} {names : List RegisterName}
    (h : .word stack.pointer ∉ names) :
    (names.foldl junk.copy r).word stack.pointer = r.word stack.pointer := by
  have hp := foldl_copy_setPointer junk r h (r.word stack.pointer)
  rw [setWord_word] at hp
  rw [hp, word_setWord_self]

end Registers

/-! ### Pushing and pulling -/

/-- The processor with other registers, and with NMI armed if `S` was loaded with them. -/
def Cpu.loaded (cpu : Cpu) (r : Registers) (loadsS : Bool) : Cpu :=
  { cpu with regs := r, nmiArmed := cpu.nmiArmed || loadsS }

theorem Cpu.loaded_loaded (cpu : Cpu) (r r' : Registers) (first second : Bool) :
    (cpu.loaded r first).loaded r' second = cpu.loaded r' (first || second) :=
  congrArg (fun armed => { cpu with regs := r', nmiArmed := armed }) (Bool.or_assoc ..)

namespace Exec

/-- To push the selected registers pushes their bytes, at a cycle each. -/
theorem pushSelected_eq {β : Type} [Bus β] (stack : Stack) (mask : Byte) (c : Core β) :
    pushSelected stack mask c =
      ((), (c.pushed stack (c.cpu.regs.frameBytes (stack.selected mask))).charge
        (RegisterName.totalSize (stack.selected mask))) := by
  have hx : pushSelected stack mask c = ((), (pushAll stack (stack.selected mask) c).2.charge
      (RegisterName.totalSize (stack.selected mask))) := rfl
  rw [hx, pushAll_eq (stack.pointer_not_mem_selected mask)]

/-- To pull a register reads memory and changes nothing else, except that a load of `S` arms NMI. -/
theorem frame_pullRegister (stack : Stack) (name : RegisterName) (c : Core FlatMemory) :
    let pulled := (pullRegister stack name c).2
    pulled.bus = c.bus ∧ pulled.cycles = c.cycles ∧
      pulled.cpu = c.cpu.loaded pulled.cpu.regs (name = .word .s) := by
  refine ⟨by cases name <;> rfl, by cases name <;> rfl, ?_⟩
  cases name with
  | byte n =>
    exact congrArg (fun armed => { (pullRegister stack (.byte n) c).2.cpu with nmiArmed := armed })
      (Bool.or_false c.cpu.nmiArmed).symm
  | word n => cases n <;> rfl

/-- To pull registers reads memory and changes nothing else, except that a load of `S` arms NMI. -/
theorem frame_pullAll (stack : Stack) (names : List RegisterName) (c : Core FlatMemory) :
    let pulled := (pullAll stack names c).2
    pulled.bus = c.bus ∧ pulled.cycles = c.cycles ∧
      pulled.cpu = c.cpu.loaded pulled.cpu.regs (names.any (· = .word .s)) := by
  induction names generalizing c with
  | nil =>
    exact ⟨rfl, rfl, congrArg (fun armed => { c.cpu with nmiArmed := armed })
      (Bool.or_false c.cpu.nmiArmed).symm⟩
  | cons name rest ih =>
    obtain ⟨hb, hc, hcpu⟩ := frame_pullRegister stack name c
    obtain ⟨ib, ic, icpu⟩ := ih (pullRegister stack name c).2
    refine ⟨ib.trans hb, ic.trans hc, icpu.trans ?_⟩
    rw [hcpu, Cpu.loaded_loaded]
    rfl

/-- To pull the selected registers copies them from where their bytes came from, at a cycle each. -/
theorem pullSelected_eq {stack : Stack} {mask : Byte} {source : Registers} {c : Core FlatMemory}
    (h : Holds c stack source (stack.selected mask).reverse) :
    (pullSelected stack mask c).2 =
      ⟨c.cpu.loaded (((stack.selected mask).reverse.foldl source.copy c.cpu.regs).setWord
          stack.pointer (c.cpu.regs.word stack.pointer +
            BitVec.ofNat 16 (RegisterName.totalSize (stack.selected mask))))
          ((Instruction.pull stack).loadsS mask),
        c.bus, c.cycles + RegisterName.totalSize (stack.selected mask)⟩ := by
  have hx : (pullSelected stack mask c).2 = (pullAll stack (stack.selected mask).reverse c).2.charge
      (RegisterName.totalSize (stack.selected mask)) := rfl
  have hn : .word stack.pointer ∉ (stack.selected mask).reverse := fun hm =>
    stack.pointer_not_mem_selected mask (List.mem_reverse.1 hm)
  have hs : ((stack.selected mask).reverse.any fun name => decide (name = .word .s)) =
      (Instruction.pull stack).loadsS mask := by
    rw [List.any_reverse, Bool.eq_iff_iff, ← Stack.s_mem_selected_iff, List.any_eq_true]
    simp
  obtain ⟨hb, hc, hcpu⟩ := frame_pullAll stack (stack.selected mask).reverse c
  rw [regs_pullAll hn c h, RegisterName.totalSize_reverse, hs] at hcpu
  rw [hx, Core.charge, hcpu, hb, hc]

/-- A pull brings the selected registers back from where they were pushed to, whatever was put into
them meanwhile. -/
theorem pullSelected_pushed (c : Core FlatMemory) (stack : Stack) (mask : Byte) (junk : Registers) :
    let pushed := (pushSelected stack mask c).2
    (pullSelected stack mask
        (pushed.mapCpu (·.mapRegs ((stack.selected mask).foldl junk.copy)))).2 =
      ⟨c.cpu.loaded c.cpu.regs ((Instruction.pull stack).loadsS mask), pushed.bus,
        pushed.cycles + RegisterName.totalSize (stack.selected mask)⟩ := by
  intro pushed
  let names := stack.selected mask
  let lowered := c.cpu.regs.setWord stack.pointer
    (c.cpu.regs.word stack.pointer - BitVec.ofNat 16 (c.cpu.regs.frameBytes names).length)
  let lost : Core FlatMemory := ⟨c.cpu.mapRegs fun _ => names.foldl junk.copy lowered, pushed.bus,
    pushed.cycles⟩
  have hn := stack.pointer_not_mem_selected mask
  have hpush : pushed = (c.pushed stack (c.cpu.regs.frameBytes names)).charge
      (RegisterName.totalSize names) := congrArg Prod.snd (pushSelected_eq stack mask c)
  have hlost : pushed.mapCpu (·.mapRegs (names.foldl junk.copy)) = lost := by
    rw [show lost = ⟨c.cpu.mapRegs fun _ => names.foldl junk.copy lowered, pushed.bus,
      pushed.cycles⟩ from rfl, hpush]
    rfl
  have hword : lost.cpu.regs.word stack.pointer = lowered.word stack.pointer :=
    Registers.word_pointer_foldl_copy hn
  have hholds : Holds lost stack c.cpu.regs names.reverse := by
    have hp := holds_pushed c stack (stack.totalSize_selected_le mask)
    unfold Holds at hp ⊢
    rw [hword, show lost.bus = pushed.bus from rfl, hpush]
    exact hp
  -- the registers that were not selected have kept what the others get back
  have hundone : names.reverse.foldl c.cpu.regs.copy (names.foldl junk.copy lowered) = lowered := by
    refine Registers.foldl_copy_undone (stack.nodup_selected mask)
      (fun _ => Stack.isSimple_of_mem_selected) fun name hm => ?_
    have hne : name ≠ .word stack.pointer := fun he => hn (he ▸ hm)
    rw [Registers.copy_setPointer _ _ hne, Registers.copy_self]
  have hregs : (names.reverse.foldl c.cpu.regs.copy lost.cpu.regs).setWord stack.pointer
      (lost.cpu.regs.word stack.pointer + BitVec.ofNat 16 (RegisterName.totalSize names)) =
      c.cpu.regs := by
    rw [hword, show lost.cpu.regs = names.foldl junk.copy lowered from rfl, hundone,
      Registers.word_setWord_self, Registers.setWord_setWord, Registers.length_frameBytes,
      BitVec.sub_add_cancel, Registers.setWord_word]
  rw [hlost, pullSelected_eq hholds, hregs]
  rfl

end Exec

/-- A push lays the selected registers down below the stack pointer and nothing else, lowers the
pointer by their size and charges a cycle for each byte. The pull with the same postbyte gives every
register back, both stack pointers and the program counter included, writes nothing and charges the
same; and it does so even where other contents were put into all the selected registers meanwhile.
The only trace is that NMI is armed if `S` was pulled. -/
theorem pull_push (c : Core FlatMemory) (stack : Stack) (mask : Byte) :
    let saved := c.cpu.regs
    let top := saved.word stack.pointer
    let image := saved.image stack mask
    let size := image.length
    let pushed := (Exec.pushSelected stack mask c).2
    let restored : Core FlatMemory :=
      ⟨c.cpu.loaded saved ((Instruction.pull stack).loadsS mask), pushed.bus, pushed.cycles + size⟩
    (Bus.peekMany pushed.bus (top - BitVec.ofNat 16 size) size = image ∧
      (∀ a, a ∉ top.below size → pushed.bus.peek a = c.bus.peek a) ∧
      pushed.cpu =
        { c.cpu with regs := saved.setWord stack.pointer (top - BitVec.ofNat 16 size) } ∧
      pushed.cycles = c.cycles + size) ∧
    (Exec.pullSelected stack mask pushed).2 = restored ∧
    ∀ junk : Registers,
      let lost := pushed.mapCpu (·.mapRegs ((stack.selected mask).foldl junk.copy))
      (Exec.pullSelected stack mask lost).2 = restored := by
  intro saved top image size pushed restored
  have hsize : RegisterName.totalSize (stack.selected mask) = size :=
    (saved.length_image stack mask).symm
  have hbytes : (saved.frameBytes (stack.selected mask)).length = size :=
    (saved.length_frameBytes _).trans hsize
  have hpush : pushed = (c.pushed stack (saved.frameBytes (stack.selected mask))).charge size := by
    rw [← hsize]
    exact congrArg Prod.snd (Exec.pushSelected_eq stack mask c)
  have hlost : ∀ junk : Registers, (Exec.pullSelected stack mask
      (pushed.mapCpu (·.mapRegs ((stack.selected mask).foldl junk.copy)))).2 = restored := by
    intro junk
    have hp := Exec.pullSelected_pushed c stack mask junk
    rw [hsize] at hp
    exact hp
  refine ⟨⟨?image, ?frame, ?cpu, congrArg Core.cycles hpush⟩, ?pull, hlost⟩
  case image =>
    have hp := FlatMemory.peekMany_pushBytes c.bus top (saved.frameBytes (stack.selected mask))
      (by rw [saved.length_frameBytes]; exact stack.totalSize_selected_le mask)
    rw [saved.reverse_frameBytes_selected, hbytes] at hp
    rw [hpush]
    exact hp
  case frame =>
    intro a ha
    rw [← hbytes] at ha
    rw [hpush]
    exact FlatMemory.peek_pushBytes ha
  case cpu =>
    rw [hpush, ← hbytes]
    rfl
  case pull =>
    have hp := hlost pushed.cpu.regs
    rwa [show pushed.mapCpu (·.mapRegs ((stack.selected mask).foldl pushed.cpu.regs.copy)) = pushed
      from congrArg (fun r => (⟨{ pushed.cpu with regs := r }, pushed.bus, pushed.cycles⟩ :
        Core FlatMemory)) (pushed.cpu.regs.foldl_copy_self _)] at hp

end ColorComputer
