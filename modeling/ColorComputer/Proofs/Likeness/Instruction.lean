import ColorComputer.Proofs.Likeness.Operand

/-!
# Instructions under a likeness

Every instruction respects a likeness, as far as the likeness goes. A likeness that two parts can
share covers the instructions of the lesser part (`Permits`); a whole one covers the others too.
Like cores must agree on what a frame of the entire state holds (`Framed`) only where such a frame
is moved (`Core.MovesFrame`), and the mode register may change (`Moded`) only where an instruction
writes to it (`Core.Remodes`).

* `meets_perform` — one instruction, given what the likeness asks of the byte behind the opcode.
* `respects_softwareInterrupt`, `respects_trap`, `meets_returnFromInterrupt` — the ways into a
  handler and back.
* `respects_perform` — every instruction, for a likeness that asks nothing.
-/

namespace ColorComputer

namespace Instruction

/-- The byte behind the opcode is an indexed postbyte. -/
def indexed : Instruction → Bool
  | jmp mode | jsr mode | unaryMemory _ mode | storeByte _ mode | storeWord _ mode
  | storeQ mode => mode = .indexed
  | binaryByte _ _ operand | binaryWord _ _ operand | loadQ operand | divideD operand
  | divideQ operand | multiplyD operand => operand = .memory .indexed
  | lea _ => true
  | _ => false

/-- The byte behind the opcode names two registers to copy or to swap. -/
def coded : Instruction → Bool
  | tfr => true
  | exg => true
  | _ => false

/-- The register that an operation with one register works on. -/
def register? : Instruction → Option RegisterName
  | unaryByte _ n | binaryByte _ n _ | storeByte n _ => some (.byte n)
  | unaryWord _ n | binaryWord _ n _ | storeWord n _ => some (.word n)
  | _ => none

end Instruction

/-- An instruction stacks or unstacks the entire state when it is performed here: it asks for a
handler, it traps, or it returns to where everything was stacked. -/
def Core.MovesFrame {β : Type} [Bus β] (c : Core β) : Instruction → Prop
  | .swi _ => True
  | .cwai => True
  | .rti => (Exec.pullRegister .system (.byte .cc) c).2.cpu.regs.cc.entire = true
  | .bit _ => Exec.bitRegister? c.nextByte = none
  | .storeBit => Exec.bitRegister? c.nextByte = none
  | .blockTransfer _ => Exec.blockRegister? (c.nextByte.toNat / 16) = none ∨
      Exec.blockRegister? (c.nextByte.toNat % 16) = none
  | .divideD operand => (Exec.operandByte operand c).1 = 0
  | .divideQ operand => (Exec.operandWord operand c).1 = 0
  | _ => False

/-- An instruction writes to the mode register when it is performed here: it tests it or loads it,
or it traps, which is why an instruction of the greater part stacks the entire state. -/
def Core.Remodes {β : Type} [Bus β] (c : Core β) (i : Instruction) : Prop :=
  i = .testMode ∨ i = .loadMode ∨ i.extended = true ∧ c.MovesFrame i

theorem Core.extended_of_remodes {β : Type} [Bus β] {c : Core β} {i : Instruction}
    (h : c.Remodes i) : i.extended = true := by
  rcases h with rfl | rfl | ⟨he, -⟩
  · rfl
  · rfl
  · exact he

namespace Likeness

variable {β : Type} [Bus β] {M : Likeness β} {α γ : Type}

/-! ### What a likeness covers -/

/-- Like cores stack the same frames. -/
structure Framed (M : Likeness β) : Prop where
  native : ∀ {c d}, M.rel c d → c.cpu.native = d.cpu.native
  sees : ∀ {c d}, M.rel c d → c.cpu.native = true → M.sees (.word .w) = true

/-- The likeness shares every register that a program can name, whatever the part. -/
structure Full (M : Likeness β) : Prop where
  sees : ∀ n, M.sees n = true
  index : ∀ p, M.indexOk p
  codes : ∀ p, M.codesOk p
  combine : ∀ {c d}, M.rel c d → ∀ {operation p},
    ((Instruction.registers operation).loadsS p = true → M.arms) →
    M.rel (c.mapCpu (·.combine operation (p.toNat / 16) (p.toNat % 16)))
      (d.mapCpu (·.combine operation (p.toNat / 16) (p.toNat % 16)))

/-- The mode register of like cores may change, and they remember the same traps. -/
structure Moded (M : Likeness β) : Prop where
  trapFlags : ∀ {r r'}, M.alike r r' → r.md &&& Exec.trapFlags = r'.md &&& Exec.trapFlags
  mode : ∀ {r r'}, M.alike r r' → ∀ keep put : Byte,
    M.alike { r with md := r.md &&& keep ||| put } { r' with md := r'.md &&& keep ||| put }

/-- The likeness covers what the extended instructions do. -/
structure Whole (M : Likeness β) : Prop extends Full M, Moded M

/-- What a likeness asks of an instruction and of the byte behind its opcode. -/
structure Permits (M : Likeness β) (i : Instruction) (p : Byte) : Prop where
  index : i.indexed = true → M.indexOk p
  codes : i.coded = true → M.codesOk p
  sees : ∀ n, i.register? = some n → M.sees n = true
  full : i.extended = true → M.Full
  loads : i.loadsS p = true → M.arms

/-! ### Operations on registers and memory -/

/-- A change of the registers that depends on shared contents only. -/
theorem respects_compute (look : Registers → γ) (f : γ → Registers → Registers)
    (hl : ∀ r r', M.alike r r' → look r = look r')
    (hf : ∀ a r r', M.alike r r' → M.alike (f a r) (f a r')) :
    M.Respects (Exec.modifyRegs fun r => f (look r) r : Exec β Unit) := by
  apply respects_modifyRegs
  intro r r' h
  rw [hl r r' h]
  exact hf _ r r' h

theorem respects_unaryByte {operation : Unary} {n : ByteRegister} (hn : M.sees (.byte n) = true) :
    M.Respects (Exec.unaryByte operation n : Exec β Unit) := by
  apply Respects.look
  intro r r' h
  refine ⟨by rw [M.cc_eq h, M.byte_eq h hn], ?_⟩
  obtain ⟨result, cc⟩ := operation.apply r.cc (r.byte n)
  refine (respects_setCodes cc).bind fun _ => ?_
  cases result with
  | none => exact respects_pure ()
  | some value => exact respects_setByte hn value

theorem respects_unaryWord {operation : Unary} {n : WordRegister} (hn : M.sees (.word n) = true) :
    M.Respects (Exec.unaryWord operation n : Exec β Unit) := by
  apply Respects.look
  intro r r' h
  refine ⟨by rw [M.cc_eq h, M.word_eq h hn], ?_⟩
  obtain ⟨result, cc⟩ := operation.apply r.cc (r.word n)
  refine (respects_setCodes cc).bind fun _ => ?_
  cases result with
  | none => exact respects_pure ()
  | some value => exact respects_setWord hn value

theorem meets_unaryMemory {operation : Unary} {mode : MemoryMode} {c d : Core β} (h : M.rel c d)
    (hp : mode = .indexed → M.indexOk c.nextByte) :
    M.Meets (Exec.unaryMemory operation mode) c d := by
  refine (meets_effectiveAddress h hp).bind fun address => ?_
  refine (respects_readByte address).bind fun value => Respects.look fun r r' h => ?_
  refine ⟨by rw [M.cc_eq h], ?_⟩
  obtain ⟨result, cc⟩ := operation.apply r.cc value
  refine (respects_setCodes cc).bind fun _ => ?_
  cases result with
  | none => exact respects_pure ()
  | some value => exact respects_writeByte address value

theorem meets_binaryByte {operation : Binary} {n : ByteRegister} {operand : Operand}
    {c d : Core β} (h : M.rel c d) (hn : M.sees (.byte n) = true)
    (hp : operand = .memory .indexed → M.indexOk c.nextByte) :
    M.Meets (Exec.binaryByte operation n operand) c d := by
  refine (meets_operandByte h hp).bind fun value => Respects.look fun r r' h => ?_
  refine ⟨by rw [M.cc_eq h, M.byte_eq h hn], ?_⟩
  obtain ⟨result, cc⟩ := operation.apply r.cc (r.byte n) value
  refine (respects_setCodes cc).bind fun _ => ?_
  cases result with
  | none => exact respects_pure ()
  | some value => exact respects_setByte hn value

theorem meets_binaryWord {operation : Binary} {n : WordRegister} {operand : Operand}
    {c d : Core β} (h : M.rel c d) (hn : M.sees (.word n) = true)
    (hp : operand = .memory .indexed → M.indexOk c.nextByte)
    (ha : n = .s → operation.writes = true → M.arms) :
    M.Meets (Exec.binaryWord operation n operand) c d := by
  refine (meets_operandWord h hp).bind fun value => Respects.look fun r r' h => ?_
  refine ⟨by rw [M.cc_eq h, M.word_eq h hn], ?_⟩
  cases hr : operation.apply r.cc (r.word n) value with
  | mk result cc =>
    refine (respects_setCodes cc).bind fun _ => ?_
    cases result with
    | none => exact respects_pure ()
    | some value =>
      have hw := Binary.writes_of_apply (congrArg Prod.fst hr)
      exact respects_loadWord hn (fun hs => ha hs hw) value

theorem meets_storeByte {n : ByteRegister} {mode : MemoryMode} {c d : Core β} (h : M.rel c d)
    (hn : M.sees (.byte n) = true) (hp : mode = .indexed → M.indexOk c.nextByte) :
    M.Meets (Exec.storeByte n mode) c d := by
  refine Meets.look h (fun r r' h => by rw [M.byte_eq h hn]) ?_
  refine (meets_effectiveAddress h hp).bind fun address => Respects.look fun r r' h => ?_
  refine ⟨by rw [M.cc_eq h], ?_⟩
  exact (respects_setCodes _).bind fun _ => respects_writeByte address _

theorem meets_storeWord {n : WordRegister} {mode : MemoryMode} {c d : Core β} (h : M.rel c d)
    (hn : M.sees (.word n) = true) (hp : mode = .indexed → M.indexOk c.nextByte) :
    M.Meets (Exec.storeWord n mode) c d := by
  refine Meets.look h (fun r r' h => by rw [M.word_eq h hn]) ?_
  refine (meets_effectiveAddress h hp).bind fun address => Respects.look fun r r' h => ?_
  refine ⟨by rw [M.cc_eq h], ?_⟩
  exact (respects_setCodes _).bind fun _ => respects_writeWord address _

/-! ### Jumps -/

theorem respects_branch (condition : Condition) :
    M.Respects (Exec.branch condition : Exec β Unit) := by
  refine respects_fetch.bind fun offset => Respects.look fun r r' h => ?_
  exact ⟨by rw [M.cc_eq h], Respects.ite (respects_jumpBy _) (respects_pure ())⟩

theorem respects_longBranch (condition : Condition) :
    M.Respects (Exec.longBranch condition : Exec β Unit) := by
  refine respects_fetchWord.bind fun offset => Respects.look fun r r' h => ?_
  refine ⟨by rw [M.cc_eq h], Respects.ite ?_ (respects_pure ())⟩
  exact (respects_jumpBy offset).bind fun _ => respects_chargeByMode fun native =>
    if native then 0 else 1

theorem respects_pushReturn : M.Respects (Exec.pushReturn : Exec β Unit) := by
  apply Respects.look
  intro r r' h
  exact ⟨by rw [pc_eq h], respects_pushWord .system _⟩

theorem meets_loadAddress {target : AddressTarget} {c d : Core β} (h : M.rel c d)
    (hp : M.indexOk c.nextByte) (ha : target = .s → M.arms) :
    M.Meets (Exec.loadAddress target) c d := by
  refine (meets_effectiveAddress h fun _ => hp).bind fun address => ?_
  cases target with
  | x =>
    refine respects_compute Registers.cc
      (fun cc r => { r.setWord .x address with cc := { cc with zero := address == 0 } })
      (fun r r' h => M.cc_eq h) fun cc r r' h => ?_
    exact M.setCc (M.setWord h (n := .x) (M.sees_base rfl) address) _
  | y =>
    refine respects_compute Registers.cc
      (fun cc r => { r.setWord .y address with cc := { cc with zero := address == 0 } })
      (fun r r' h => M.cc_eq h) fun cc r r' h => ?_
    exact M.setCc (M.setWord h (n := .y) (M.sees_base rfl) address) _
  | s => exact respects_loadWord (n := .s) (M.sees_base rfl) (fun _ => ha rfl) address
  | u => exact respects_loadWord (n := .u) (M.sees_base rfl) (fun hs => nomatch hs) address

/-! ### Ways into a handler and back -/

theorem respects_jumpThrough (vector : Word) :
    M.Respects (Exec.jumpThrough vector : Exec β Unit) :=
  (respects_readWord vector).bind fun a => respects_jump a

theorem respects_maskBoth : M.Respects (Exec.maskBoth : Exec β Unit) :=
  respects_mapCodes fun cc => { cc with firqMask := true, irqMask := true }

theorem respects_maskIrq : M.Respects (Exec.maskIrq : Exec β Unit) :=
  respects_mapCodes fun cc => { cc with irqMask := true }

/-- Looking at the mode is harmless where like cores run in the same mode. -/
theorem Framed.look (hf : M.Framed) {k : Bool → Exec β α}
    (hk : ∀ native, (native = true → M.sees (.word .w) = true) → M.Respects (k native)) :
    M.Respects (Exec.isNative >>= k) := by
  intro c d h
  show (k c.cpu.native c).1 = (k d.cpu.native d).1 ∧
    M.rel (k c.cpu.native c).2 (k d.cpu.native d).2
  rw [← hf.native h]
  exact hk _ (hf.sees h) c d h

theorem sees_entire {native : Bool} (hw : native = true → M.sees (.word .w) = true) :
    ∀ n ∈ Frame.entire native, M.sees n = true := by
  intro n hn
  cases native with
  | false =>
    apply M.sees_base
    revert n
    decide
  | true =>
    by_cases he : n = .word .w
    · rw [he]
      exact hw rfl
    · apply M.sees_base
      revert n
      decide

theorem sees_short : ∀ n ∈ Frame.short, M.sees n = true := by
  intro n hn
  apply M.sees_base
  revert n
  decide

theorem respects_pushEntire (hf : M.Framed) : M.Respects (Exec.pushEntire : Exec β Unit) := by
  refine (respects_mapCodes fun cc => { cc with entire := true }).bind fun _ => ?_
  exact hf.look fun native hw => respects_pushAll .system (sees_entire hw)

theorem respects_pushShort : M.Respects (Exec.pushShort : Exec β Unit) := by
  refine (respects_mapCodes fun cc => { cc with entire := false }).bind fun _ => ?_
  exact respects_pushAll .system sees_short

/-- No frame holds the pointer of the stack that it stands on. -/
theorem s_not_mem_entire (native : Bool) : .word .s ∉ (Frame.entire native).reverse.tail := by
  cases native <;> decide

theorem s_not_mem_short : .word .s ∉ Frame.short.reverse.tail := by decide

/-- A return needs to know what a frame of the entire state holds only if E says there is one. -/
theorem meets_returnFromInterrupt {c d : Core β} (h : M.rel c d)
    (hf : c.MovesFrame .rti → M.Framed) : M.Meets (Exec.returnFromInterrupt : Exec β Unit) c d := by
  have hp : M.Meets (Exec.pullRegister .system (.byte .cc)) c d :=
    respects_pullRegister .system (M.sees_base rfl) (fun hs => RegisterName.noConfusion hs) c d h
  refine hp.next (Meets.look hp.2 (fun r r' h => by rw [M.cc_eq h]) ?_)
  split
  · rename_i he
    refine (hf he).look (fun native hw => ?_) _ _ hp.2
    refine (respects_charge _).bind fun _ => respects_pullAll .system (fun n hn => ?_) fun hs => ?_
    · exact sees_entire hw n (List.mem_reverse.1 (List.mem_of_mem_tail hn))
    · exact absurd hs (s_not_mem_entire native)
  · refine respects_pullAll .system (fun n hn => ?_) (fun hs => ?_) _ _ hp.2
    · exact sees_short n (List.mem_reverse.1 (List.mem_of_mem_tail hn))
    · exact absurd hs s_not_mem_short

theorem respects_softwareInterrupt (hf : M.Framed) (which : SoftwareInterrupt) :
    M.Respects (Exec.softwareInterrupt which : Exec β Unit) := by
  refine (respects_pushEntire hf).bind fun _ => ?_
  cases which with
  | swi => exact respects_maskBoth.bind fun _ => respects_jumpThrough _
  | swi2 | swi3 => exact (respects_pure ()).bind fun _ => respects_jumpThrough _

theorem respects_trap (hf : M.Framed) (hm : M.Moded) (reason : Trap) :
    M.Respects (Exec.trap reason : Exec β Unit) := by
  refine Respects.bind (respects_modifyRegs fun r r' h => ?_) fun _ => ?_
  · have ha := hm.mode h 0xFF reason.flag
    rwa [show (0xFF : Byte) = BitVec.allOnes 8 from rfl, BitVec.and_allOnes,
      BitVec.and_allOnes] at ha
  · refine (respects_pushEntire hf).bind fun _ => respects_maskBoth.bind fun _ => ?_
    refine (respects_jumpThrough _).bind fun _ => ?_
    exact respects_chargeByMode fun native => if native then 22 else 20

/-! ### Instructions of the greater part -/

theorem Full.seesByte (hw : M.Full) (n : ByteRegister) : M.sees (.byte n) = true := hw.sees _

theorem Full.seesWord (hw : M.Full) (n : WordRegister) : M.sees (.word n) = true := hw.sees _

theorem Full.setQ (hw : M.Full) {r r' : Registers} (h : M.alike r r') (v : Long) :
    M.alike (r.setQ v) (r'.setQ v) :=
  M.setWord (M.setWord h (hw.seesWord .d) (Long.highWord v)) (hw.seesWord .w) (Long.lowWord v)

theorem meets_loadQ (hw : M.Full) {operand : Operand} {c d : Core β} (h : M.rel c d) :
    M.Meets (Exec.loadQ operand) c d := by
  refine (meets_operandLong h fun _ => hw.index _).bind fun value => ?_
  refine respects_compute Registers.cc
    (fun cc r => { r.setQ value with cc := cc.ofData value }) (fun r r' h => M.cc_eq h) ?_
  intro cc r r' h
  exact M.setCc (hw.setQ h value) _

theorem meets_storeQ (hw : M.Full) {mode : MemoryMode} {c d : Core β} (h : M.rel c d) :
    M.Meets (Exec.storeQ mode) c d := by
  refine (meets_effectiveAddress h fun _ => hw.index _).bind fun address => ?_
  apply Respects.look
  intro r r' h
  have hd : r.d = r'.d := M.word_eq h (hw.seesWord .d)
  have he : r.w = r'.w := M.word_eq h (hw.seesWord .w)
  refine ⟨by rw [Registers.q, Registers.q, M.cc_eq h, hd, he], ?_⟩
  exact (respects_setCodes _).bind fun _ => (respects_writeWord address _).bind fun _ =>
    respects_writeWord _ _

theorem respects_memoryLogic (hw : M.Full) {operation : MemoryLogic} {mode : MemoryMode} :
    M.Respects (Exec.memoryLogic operation mode : Exec β Unit) := by
  refine respects_fetch.bind fun immediate => Respects.bind ?_ fun address => ?_
  · intro c d h
    exact meets_effectiveAddress h fun _ => hw.index _
  · refine (respects_readByte address).bind fun value => Respects.look fun r r' h => ?_
    refine ⟨by rw [M.cc_eq h], (respects_setCodes _).bind fun _ => ?_⟩
    exact Respects.ite (respects_writeByte address _) (respects_pure ())

theorem meets_withBitOperands
    {action : ByteRegister → Word → Nat → Nat → Exec β Unit}
    (ha : ∀ n address source target, M.Respects (action n address source target)) {c d : Core β}
    (h : M.rel c d) (ht : Exec.bitRegister? c.nextByte = none → M.Framed ∧ M.Moded) :
    M.Meets (Exec.withBitOperands action) c d := by
  have hp : M.Meets Exec.fetch c d := respects_fetch c d h
  refine hp.next (Meets.bind ?_ fun address => ?_)
  · exact meets_effectiveAddress hp.2 fun hm => MemoryMode.noConfusion hm
  · split
    case h_1 n hb => exact ha n address _ _
    case h_2 hb => exact respects_trap (ht hb).1 (ht hb).2 _

theorem meets_bitOperation (hw : M.Full) (operation : BitOperation) {c d : Core β}
    (h : M.rel c d) (ht : c.MovesFrame (.bit operation) → M.Framed ∧ M.Moded) :
    M.Meets (Exec.bitOperation operation : Exec β Unit) c d := by
  refine meets_withBitOperands (fun n address source target => ?_) h ht
  refine (respects_readByte address).bind fun memory => Respects.look fun r r' h => ?_
  exact ⟨by rw [M.byte_eq h (hw.seesByte n)], respects_setByte (hw.seesByte n) _⟩

theorem meets_storeBit (hw : M.Full) {c d : Core β} (h : M.rel c d)
    (ht : c.MovesFrame .storeBit → M.Framed ∧ M.Moded) :
    M.Meets (Exec.storeBit : Exec β Unit) c d := by
  refine meets_withBitOperands (fun n address source target => ?_) h ht
  refine (respects_readByte address).bind fun memory => Respects.look fun r r' h => ?_
  exact ⟨by rw [M.byte_eq h (hw.seesByte n)], respects_writeByte address _⟩

theorem respects_copyByte (hw : M.Full) (source target : WordRegister) (step : BlockStep) :
    M.Respects (Exec.copyByte source target step : Exec β Unit) := by
  apply Respects.look
  intro r r' h
  refine ⟨by rw [M.word_eq h (hw.seesWord source)], Respects.look fun r r' h => ?_⟩
  refine ⟨by rw [M.word_eq h (hw.seesWord target)], ?_⟩
  refine (respects_readByte _).bind fun value => (respects_writeByte _ value).bind fun _ => ?_
  refine (respects_setWord (hw.seesWord source) _).bind fun _ => ?_
  refine (respects_setWord (hw.seesWord target) _).bind fun _ => ?_
  refine Respects.bind ?_ fun _ => respects_charge 3
  exact respects_compute Registers.w (fun w r => r.setW (w - 1))
    (fun r r' h => M.word_eq h (hw.seesWord .w)) fun w r r' h =>
      M.setWord h (hw.seesWord .w) (w - 1)

theorem respects_copyBytes (hw : M.Full) (source target : WordRegister) (step : BlockStep)
    (n : Nat) : M.Respects (Exec.copyBytes source target step n : Exec β Unit) := by
  induction n with
  | zero => exact respects_pure ()
  | succ n ih => exact (respects_copyByte hw source target step).bind fun _ => ih

theorem meets_blockTransfer (hw : M.Full) (step : BlockStep) {c d : Core β} (h : M.rel c d)
    (ht : c.MovesFrame (.blockTransfer step) → M.Framed ∧ M.Moded) :
    M.Meets (Exec.blockTransfer step : Exec β Unit) c d := by
  have hp : M.Meets Exec.fetch c d := respects_fetch c d h
  have hn : (Exec.fetch c).1 = c.nextByte := rfl
  refine hp.next ?_
  rw [hn]
  cases hs : Exec.blockRegister? (c.nextByte.toNat / 16) with
  | none => exact respects_trap (ht (Or.inl hs)).1 (ht (Or.inl hs)).2 _ _ _ hp.2
  | some source =>
    cases hr : Exec.blockRegister? (c.nextByte.toNat % 16) with
    | none => exact respects_trap (ht (Or.inr hr)).1 (ht (Or.inr hr)).2 _ _ _ hp.2
    | some target =>
      refine Respects.look (fun r r' h => ?_) _ _ hp.2
      have hl : r.w = r'.w := M.word_eq h (hw.seesWord .w)
      exact ⟨by rw [hl], respects_copyBytes hw source target step _⟩

theorem respects_testMode (ht : M.Moded) : M.Respects (Exec.testMode : Exec β Unit) := by
  refine respects_fetch.bind fun mask => ?_
  have hl : ∀ r r', M.alike r r' →
      (r.md &&& mask &&& Exec.trapFlags, r.cc) = (r'.md &&& mask &&& Exec.trapFlags, r'.cc) := by
    intro r r' h
    have hm : ∀ md : Byte, md &&& mask &&& Exec.trapFlags = md &&& Exec.trapFlags &&& mask := by
      intro md
      rw [BitVec.and_assoc, BitVec.and_comm mask, BitVec.and_assoc]
    rw [hm, hm, ht.trapFlags h, M.cc_eq h]
  refine respects_compute (fun r => (r.md &&& mask &&& Exec.trapFlags, r.cc))
    (fun t r => { r with md := r.md &&& ~~~t.1, cc := { t.2 with zero := t.1 == 0 } })
    hl fun t r r' h => ?_
  have hm := ht.mode h (~~~t.1) 0#8
  rw [BitVec.or_zero, BitVec.or_zero] at hm
  exact M.setCc hm { t.2 with zero := t.1 == 0 }

theorem respects_loadMode (hm : M.Moded) : M.Respects (Exec.loadMode : Exec β Unit) := by
  refine respects_fetch.bind fun value => respects_modifyRegs fun r r' h => ?_
  exact hm.mode h (~~~0x03) (value &&& 0x03)

theorem meets_divideD (hw : M.Full) {operand : Operand} {c d : Core β} (h : M.rel c d)
    (ht : c.MovesFrame (.divideD operand) → M.Framed ∧ M.Moded) :
    M.Meets (Exec.divideD operand) c d := by
  have hp : M.Meets (Exec.operandByte operand) c d := meets_operandByte h fun _ => hw.index _
  refine hp.next ?_
  split
  · rename_i hz
    exact respects_trap (ht hz).1 (ht hz).2 _ _ _ hp.2
  · refine Respects.look (fun r r' h => ?_) _ _ hp.2
    have hd : r.d = r'.d := M.word_eq h (hw.seesWord .d)
    refine ⟨by rw [M.cc_eq h, hd], ?_⟩
    obtain ⟨result, cc⟩ := Arithmetic.divide r.cc r.d (Exec.operandByte operand c).1
    refine (respects_setCodes cc).bind fun _ => ?_
    cases result with
    | none => exact respects_pure ()
    | some pair =>
      refine respects_modifyRegs fun r r' h => ?_
      exact M.setByte (M.setByte h (hw.seesByte .a) pair.2) (hw.seesByte .b) pair.1

theorem meets_divideQ (hw : M.Full) {operand : Operand} {c d : Core β} (h : M.rel c d)
    (ht : c.MovesFrame (.divideQ operand) → M.Framed ∧ M.Moded) :
    M.Meets (Exec.divideQ operand) c d := by
  have hp : M.Meets (Exec.operandWord operand) c d := meets_operandWord h fun _ => hw.index _
  refine hp.next ?_
  split
  · rename_i hz
    exact respects_trap (ht hz).1 (ht hz).2 _ _ _ hp.2
  · refine Respects.look (fun r r' h => ?_) _ _ hp.2
    have hd : r.d = r'.d := M.word_eq h (hw.seesWord .d)
    have he : r.w = r'.w := M.word_eq h (hw.seesWord .w)
    refine ⟨by rw [Registers.q, Registers.q, M.cc_eq h, hd, he], ?_⟩
    obtain ⟨result, cc⟩ := Arithmetic.divide r.cc r.q (Exec.operandWord operand c).1
    refine (respects_setCodes cc).bind fun _ => ?_
    cases result with
    | none => exact respects_pure ()
    | some pair =>
      refine respects_modifyRegs fun r r' h => ?_
      exact M.setWord (M.setWord h (hw.seesWord .d) pair.2) (hw.seesWord .w) pair.1

theorem meets_multiplyD (hw : M.Full) {operand : Operand} {c d : Core β} (h : M.rel c d) :
    M.Meets (Exec.multiplyD operand) c d := by
  refine (meets_operandWord h fun _ => hw.index _).bind fun value => ?_
  refine respects_compute (fun r => Arithmetic.multiply r.cc r.d value)
    (fun t r => { r.setQ t.1 with cc := t.2 }) (fun r r' h => ?_) fun t r r' h => ?_
  · rw [M.cc_eq h, show r.d = r'.d from M.word_eq h (hw.seesWord .d)]
  · exact M.setCc (hw.setQ h t.1) t.2

/-! ### All instructions -/

/-- Instructions that name registers by a postbyte and change the processor by it. -/
theorem meets_coded {f : Byte → Cpu → Cpu} {c d : Core β} (h : M.rel c d)
    (hf : M.rel ((Exec.fetch c).2.mapCpu (f c.nextByte)) ((Exec.fetch d).2.mapCpu (f c.nextByte))) :
    M.Meets (do let post ← Exec.fetch; Exec.modifyCpu (f post)) c d :=
  Meets.next (respects_fetch c d h) ⟨rfl, hf⟩

theorem meets_registers (hw : M.Full) {operation : Binary} {c d : Core β} (h : M.rel c d)
    (ha : (Instruction.registers operation).loadsS c.nextByte = true → M.arms) :
    M.Meets (Exec.perform (.registers operation)) c d :=
  meets_coded h (hw.combine (respects_fetch c d h).2 ha)

theorem meets_transfer {c d : Core β} (h : M.rel c d) (hp : M.codesOk c.nextByte)
    (ha : Instruction.tfr.loadsS c.nextByte = true → M.arms) : M.Meets (Exec.perform .tfr) c d :=
  meets_coded h (M.transfer (respects_fetch c d h).2 hp ha)

theorem meets_exchange {c d : Core β} (h : M.rel c d) (hp : M.codesOk c.nextByte)
    (ha : Instruction.exg.loadsS c.nextByte = true → M.arms) : M.Meets (Exec.perform .exg) c d :=
  meets_coded h (M.exchange (respects_fetch c d h).2 hp ha)

/-- A pull loads `S` as its postbyte says. -/
theorem meets_pull (stack : Stack) {c d : Core β} (h : M.rel c d)
    (ha : (Instruction.pull stack).loadsS c.nextByte = true → M.arms) :
    M.Meets (Exec.perform (.pull stack)) c d :=
  Meets.next (respects_fetch c d h)
    (respects_pullSelected stack c.nextByte ha _ _ (respects_fetch c d h).2)

/-- Inherent instructions compute on registers that both parts have. -/
theorem respects_inherent {i : Instruction} (hi : i ∈ [.daa, .sex, .mul, .abx]) :
    M.Respects (Exec.perform i : Exec β Unit) := by
  simp only [List.mem_cons, List.not_mem_nil, or_false] at hi
  have ha : ∀ r r', M.alike r r' → r.a = r'.a := fun r r' h =>
    M.byte_eq h (n := .a) (M.sees_base rfl)
  have hb : ∀ r r', M.alike r r' → r.b = r'.b := fun r r' h =>
    M.byte_eq h (n := .b) (M.sees_base rfl)
  rcases hi with rfl | rfl | rfl | rfl
  · refine respects_compute (fun r => Arithmetic.daa r.cc r.a)
      (fun t r => { r.setByte .a t.1 with cc := t.2 }) (fun r r' h => ?_) fun t r r' h => ?_
    · rw [M.cc_eq h, ha r r' h]
    · exact M.setCc (M.setByte h (n := .a) (M.sees_base rfl) t.1) t.2
  · refine respects_compute (fun r => (Word.ofSigned r.b, r.cc))
      (fun t r => { r.setWord .d t.1 with cc := t.2.ofResult t.1 }) (fun r r' h => ?_)
      fun t r r' h => ?_
    · rw [M.cc_eq h, hb r r' h]
    · exact M.setCc (M.setWord h (n := .d) (M.sees_base rfl) t.1) _
  · refine respects_compute (fun r => Arithmetic.mul r.cc r.a r.b)
      (fun t r => { r.setWord .d t.1 with cc := t.2 }) (fun r r' h => ?_) fun t r r' h => ?_
    · rw [M.cc_eq h, ha r r' h, hb r r' h]
    · exact M.setCc (M.setWord h (n := .d) (M.sees_base rfl) t.1) t.2
  · refine respects_compute (fun r => r.x + Word.ofUnsigned r.b)
      (fun t r => r.setWord .x t) (fun r r' h => ?_) fun t r r' h => ?_
    · rw [hb r r' h, show r.x = r'.x from M.word_eq h (n := .x) (M.sees_base rfl)]
    · exact M.setWord h (n := .x) (M.sees_base rfl) t

theorem respects_sexw (hw : M.Full) : M.Respects (Exec.perform .sexw : Exec β Unit) := by
  refine respects_compute (fun r => (r.w.signExtend 32, r.cc))
    (fun t r => { r.setQ t.1 with cc := t.2.ofResult t.1 }) (fun r r' h => ?_)
    fun t r r' h => ?_
  · rw [M.cc_eq h, show r.w = r'.w from M.word_eq h (hw.seesWord .w)]
  · exact M.setCc (hw.setQ h t.1) _

theorem respects_wait (hf : M.Framed) : M.Respects (Exec.perform .cwai : Exec β Unit) := by
  refine respects_fetch.bind fun mask => ?_
  refine (respects_mapCodes fun cc => cc.keep mask).bind fun _ => ?_
  exact (respects_pushEntire hf).bind fun _ => respects_stop .cwai

/-- One instruction, where the likeness permits it. -/
theorem meets_perform {i : Instruction} {c d : Core β} (h : M.rel c d)
    (hp : M.Permits i c.nextByte) (hf : c.MovesFrame i → M.Framed)
    (hm : c.Remodes i → M.Moded) : M.Meets (Exec.perform i) c d := by
  have ht : i.extended = true → c.MovesFrame i → M.Framed ∧ M.Moded := fun he h =>
    ⟨hf h, hm (.inr (.inr ⟨he, h⟩))⟩
  cases i with
  | nop => exact respects_pure () c d h
  | sync => exact respects_stop .sync c d h
  | daa | sex | mul | abx => exact respects_inherent (by simp) c d h
  | sexw => exact respects_sexw (hp.full rfl) c d h
  | orcc => exact (respects_fetch.bind fun mask => respects_mapCodes fun cc => cc.raise mask) c d h
  | andcc => exact (respects_fetch.bind fun mask => respects_mapCodes fun cc => cc.keep mask) c d h
  | cwai => exact respects_wait (hf trivial) c d h
  | rts => exact ((respects_pullWord .system).bind fun a => respects_jump a) c d h
  | rti => exact meets_returnFromInterrupt h hf
  | tfr => exact meets_transfer h (hp.codes rfl) hp.loads
  | exg => exact meets_exchange h (hp.codes rfl) hp.loads
  | swi which => exact respects_softwareInterrupt (hf trivial) which c d h
  | branch condition => exact respects_branch condition c d h
  | longBranch condition => exact respects_longBranch condition c d h
  | lbra => exact (respects_fetchWord.bind fun offset => respects_jumpBy offset) c d h
  | bsr =>
    exact (respects_fetch.bind fun offset => respects_pushReturn.bind fun _ =>
      respects_jumpBy _) c d h
  | lbsr =>
    exact (respects_fetchWord.bind fun offset => respects_pushReturn.bind fun _ =>
      respects_jumpBy _) c d h
  | jmp mode =>
    exact (meets_effectiveAddress h fun hx => hp.index (decide_eq_true hx)).bind
      fun a => respects_jump a
  | jsr mode =>
    exact (meets_effectiveAddress h fun hx => hp.index (decide_eq_true hx)).bind
      fun a => respects_pushReturn.bind fun _ => respects_jump a
  | lea target =>
    refine meets_loadAddress h (hp.index rfl) fun ht => hp.loads ?_
    rw [ht]
    rfl
  | push stack => exact (respects_fetch.bind fun mask => respects_pushSelected stack mask) c d h
  | pull stack => exact meets_pull stack h hp.loads
  | pushW stack => exact respects_pushRegister stack ((hp.full rfl).sees _) c d h
  | pullW stack =>
    have hs : RegisterName.word .w ≠ .word .s := by decide
    exact respects_pullRegister stack ((hp.full rfl).sees _) (fun h => absurd h hs) c d h
  | unaryMemory operation mode =>
    exact meets_unaryMemory h fun hx => hp.index (decide_eq_true hx)
  | unaryByte operation n => exact respects_unaryByte (hp.sees _ rfl) c d h
  | unaryWord operation n => exact respects_unaryWord (hp.sees _ rfl) c d h
  | binaryByte operation n operand =>
    exact meets_binaryByte h (hp.sees _ rfl) fun hx => hp.index (decide_eq_true hx)
  | binaryWord operation n operand =>
    refine meets_binaryWord h (hp.sees _ rfl) (fun hx => hp.index (decide_eq_true hx)) ?_
    rintro rfl hw
    exact hp.loads hw
  | storeByte n mode =>
    exact meets_storeByte h (hp.sees _ rfl) fun hx => hp.index (decide_eq_true hx)
  | storeWord n mode =>
    exact meets_storeWord h (hp.sees _ rfl) fun hx => hp.index (decide_eq_true hx)
  | loadQ operand => exact meets_loadQ (hp.full rfl) h
  | storeQ mode => exact meets_storeQ (hp.full rfl) h
  | memoryLogic operation mode => exact respects_memoryLogic (hp.full rfl) c d h
  | registers operation => exact meets_registers (hp.full rfl) h hp.loads
  | bit operation => exact meets_bitOperation (hp.full rfl) operation h (ht rfl)
  | storeBit => exact meets_storeBit (hp.full rfl) h (ht rfl)
  | blockTransfer step => exact meets_blockTransfer (hp.full rfl) step h (ht rfl)
  | testMode => exact respects_testMode (hm (.inl rfl)) c d h
  | loadMode => exact respects_loadMode (hm (.inr (.inl rfl))) c d h
  | divideD operand => exact meets_divideD (hp.full rfl) h (ht rfl)
  | divideQ operand => exact meets_divideQ (hp.full rfl) h (ht rfl)
  | multiplyD operand => exact meets_multiplyD (hp.full rfl) h

theorem Full.permits (hw : M.Full) {i : Instruction} {p : Byte}
    (ha : i.loadsS p = true → M.arms) : M.Permits i p :=
  ⟨fun _ => hw.index p, fun _ => hw.codes p, fun n _ => hw.sees n, fun _ => hw, ha⟩

/-- A whole likeness under which `S` may be loaded asks nothing of an instruction. -/
theorem respects_perform (hf : M.Framed) (hw : M.Whole) (ha : M.arms) (i : Instruction) :
    M.Respects (Exec.perform i : Exec β Unit) := by
  intro c d h
  exact meets_perform h (hw.permits fun _ => ha) (fun _ => hf) fun _ => hw.toModed

end Likeness

end ColorComputer
