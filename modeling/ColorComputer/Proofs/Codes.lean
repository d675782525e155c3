import ColorComputer.Bus.FlatMemory
import ColorComputer.Proofs.Exception

/-!
# What changes the masks

E, F and I say how the processor treats interrupts, and H is left for the decimal adjustment that
follows an addition. Results are told in the other flags. So an instruction that does not name the
condition codes leaves E, F, I and H alone, but that an addition of bytes records its half carry.

* `flag_unary`, `flag_binary` — the operations leave the flag alone.
* `kept_effectiveAddress`, `kept_pullAll` — so do addresses and stacks.
* `coded_perform` — so does an instruction that neither writes the codes nor raises an exception.
* `Cpu.step_flag` — what a step was that changed one of the flags.
-/

namespace ColorComputer

/-! ### Flags -/

/-- The flags that no result is told in. -/
inductive Flag
  | entire | firqMask | irqMask | halfCarry
  deriving DecidableEq

/-- A flag by its name. -/
def ConditionCodes.flag (cc : ConditionCodes) : Flag → Bool
  | .entire => cc.entire
  | .firqMask => cc.firqMask
  | .irqMask => cc.irqMask
  | .halfCarry => cc.halfCarry

/-- The operation is an addition. -/
def Binary.adds : Binary → Bool
  | add | adc => true
  | _ => false

/-- The code names a register of a byte. -/
def namesByte (code : Nat) : Bool :=
  match CodedRegister.decode .hitachi code with
  | .named (.byte _) => true
  | _ => false

namespace Instruction

/-- The instruction writes the condition codes as a byte; the byte behind the opcode is given. -/
def writesCodes (post : Byte) : Instruction → Bool
  | orcc | andcc | cwai | rti => true
  | pull _ => post.getLsbD 0
  | tfr | registers _ => post.toNat % 16 = 0xA
  | exg => post.toNat / 16 = 0xA || post.toNat % 16 = 0xA
  | bit _ => Exec.bitRegister? post = some .cc
  | _ => false

/-- The instruction adds bytes into a register; the byte behind the opcode is given. -/
def addsBytes (post : Byte) : Instruction → Bool
  | binaryByte operation _ _ => operation.adds
  | registers operation => operation.adds && namesByte (post.toNat % 16)
  | _ => false

/-- The instruction may change the flag; the byte behind the opcode is given. -/
def touches (flag : Flag) (post : Byte) (i : Instruction) : Bool :=
  i.writesCodes post || flag = .halfCarry && i.addsBytes post

end Instruction

/-! ### Operations -/

section Operations

variable {w : Nat} {f : Flag}

theorem flag_ofData (cc : ConditionCodes) (data : BitVec w) :
    (cc.ofData data).flag f = cc.flag f := by
  cases f <;> rfl

theorem flag_unary (operation : Unary) (cc : ConditionCodes) (a : BitVec w) :
    (operation.apply cc a).2.flag f = cc.flag f := by
  cases operation <;> cases f <;> rfl

/-- Only an addition of bytes tells anything in H. -/
theorem flag_binary {operation : Binary} (h : f = .halfCarry → operation.adds = true → w ≠ 8)
    (cc : ConditionCodes) (a b : BitVec w) : (operation.apply cc a b).2.flag f = cc.flag f := by
  have ha : ∀ carry, (f = .halfCarry → w ≠ 8) →
      (Arithmetic.add cc a b carry).2.flag f = cc.flag f := by
    intro carry hw
    cases f with
    | halfCarry => exact if_neg (hw rfl)
    | entire | firqMask | irqMask => rfl
  cases operation with
  | add => exact ha false fun hf => h hf rfl
  | adc => exact ha cc.carry fun hf => h hf rfl
  | sub | cmp | sbc | and | bit | load | eor | or => cases f <;> rfl

theorem flag_divide {v : Nat} (cc : ConditionCodes) (dividend : BitVec v) (divisor : BitVec w) :
    (Arithmetic.divide cc dividend divisor).2.flag f = cc.flag f := by
  unfold Arithmetic.divide
  dsimp only
  split <;> cases f <;> rfl

end Operations

/-! ### Registers -/

namespace Registers

theorem cc_setWord (r : Registers) (n : WordRegister) (v : Word) : (r.setWord n v).cc = r.cc := by
  cases n <;> rfl

theorem cc_setByte (r : Registers) {n : ByteRegister} (hn : n ≠ .cc) (v : Byte) :
    (r.setByte n v).cc = r.cc := by
  cases n with
  | cc => exact absurd rfl hn
  | a | b | dp | e | f => rfl

end Registers

namespace Cpu

theorem cc_loadWord (cpu : Cpu) (n : WordRegister) (v : Word) :
    (cpu.loadWord n v).regs.cc = cpu.regs.cc := cpu.regs.cc_setWord n v

/-- Only one code names the condition codes. -/
theorem eq_of_decode_cc {variant : Variant} {code : Nat}
    (h : CodedRegister.decode variant code = .named (.byte .cc)) : code = 0xA := by
  unfold CodedRegister.decode CodedRegister.hitachiOnly at h
  split at h <;> first | rfl | cases h | (split at h <;> cases h)

theorem cc_writeCoded (cpu : Cpu) {code : Nat} (hc : code ≠ 0xA) (value : Datum) :
    (cpu.writeCoded code value).regs.cc = cpu.regs.cc := by
  unfold writeCoded
  split
  · rename_i n hn
    refine cpu.regs.cc_setByte (fun h => hc ?_) _
    rw [h] at hn
    exact eq_of_decode_cc hn
  · exact cpu.cc_loadWord _ _
  · rfl

/-- A code that names no register of a byte reads as a word. -/
theorem readCoded_of_wide (cpu : Cpu) {code : Nat} (h : namesByte code = false) :
    ∃ v, cpu.readCoded code = .word v := by
  have hd : (∃ n, CodedRegister.decode cpu.variant code = .named (.word n)) ∨
      ∃ v, CodedRegister.decode cpu.variant code = .absent (.word v) := by
    unfold CodedRegister.decode CodedRegister.hitachiOnly
    cases cpu.variant <;> split <;>
      first | exact Or.inl ⟨_, rfl⟩ | exact Or.inr ⟨_, rfl⟩ | exact absurd h (by decide)
  unfold readCoded
  rcases hd with ⟨n, hn⟩ | ⟨v, hv⟩
  · rw [hn]
    exact ⟨_, rfl⟩
  · rw [hv]
    exact ⟨v, rfl⟩

/-- An operation between registers tells of its result, and writes its target. -/
theorem flag_combine {f : Flag} (cpu : Cpu) {operation : Binary} {source target : Nat}
    (ht : target ≠ 0xA) (h : f = .halfCarry → operation.adds = true → namesByte target = false) :
    (cpu.combine operation source target).regs.cc.flag f = cpu.regs.cc.flag f := by
  have hw : ∀ (cc : ConditionCodes) (value : Datum), cc.flag f = cpu.regs.cc.flag f →
      (writeCoded { cpu with regs := { cpu.regs with cc := cc } } target value).regs.cc.flag f =
        cpu.regs.cc.flag f := by
    intro cc value hf
    rw [cc_writeCoded _ ht]
    exact hf
  unfold combine
  dsimp only
  cases hr : cpu.readCoded target with
  | byte value =>
    have hn : f = .halfCarry → operation.adds = true → (8 : Nat) ≠ 8 := by
      intro hf ha
      obtain ⟨v, hv⟩ := cpu.readCoded_of_wide (h hf ha)
      rw [hr] at hv
      exact Datum.noConfusion hv
    have hf := flag_binary hn cpu.regs.cc value (cpu.readCoded source).lowByte
    dsimp only
    generalize operation.apply cpu.regs.cc value (cpu.readCoded source).lowByte = out at hf ⊢
    obtain ⟨_ | v, cc⟩ := out
    · exact hf
    · exact hw cc _ hf
  | word value =>
    have hf : (operation.apply cpu.regs.cc value (cpu.readCoded source).zeroExtended).2.flag f =
        cpu.regs.cc.flag f := flag_binary (fun _ _ => by decide) _ _ _
    dsimp only
    generalize operation.apply cpu.regs.cc value (cpu.readCoded source).zeroExtended = out at hf ⊢
    obtain ⟨_ | v, cc⟩ := out
    · exact hf
    · exact hw cc _ hf

end Cpu

/-! ### Actions -/

/-- What is said of the condition codes holds of those of the core. -/
def Core.Coded {β : Type} (p : ConditionCodes → Prop) (c : Core β) : Prop := p c.cpu.regs.cc

namespace Exec

section Actions

variable {β α : Type} {p : ConditionCodes → Prop}

theorem kept_modifyCpu {g : Cpu → Cpu} (hg : ∀ cpu, p cpu.regs.cc → p (g cpu).regs.cc) :
    Kept (Core.Coded p) (modifyCpu g : Exec β Unit) := fun c h => hg c.cpu h

theorem kept_modifyRegs {g : Registers → Registers} (hg : ∀ r, p r.cc → p (g r).cc) :
    Kept (Core.Coded p) (modifyRegs g : Exec β Unit) := kept_modifyCpu fun cpu => hg cpu.regs

theorem kept_setCodes {cc : ConditionCodes} (h : p cc) :
    Kept (Core.Coded p) (setCodes cc : Exec β Unit) := kept_modifyRegs fun _ _ => h

theorem kept_loadWord (n : WordRegister) (v : Word) :
    Kept (Core.Coded p) (loadWord n v : Exec β Unit) :=
  kept_modifyCpu fun cpu h => by rwa [Cpu.cc_loadWord]

theorem kept_setWord (n : WordRegister) (v : Word) :
    Kept (Core.Coded p) (modifyRegs (·.setWord n v) : Exec β Unit) :=
  kept_modifyRegs fun r h => by rwa [Registers.cc_setWord]

theorem kept_setByte {n : ByteRegister} (hn : n ≠ .cc) (v : Byte) :
    Kept (Core.Coded p) (modifyRegs (·.setByte n v) : Exec β Unit) :=
  kept_modifyRegs fun r h => by rwa [r.cc_setByte hn]

theorem kept_jump (a : Word) : Kept (Core.Coded p) (jump a : Exec β Unit) := fun _ h => h

theorem kept_jumpBy (a : Word) : Kept (Core.Coded p) (jumpBy a : Exec β Unit) := fun _ h => h

theorem kept_charge (n : Nat) : Kept (Core.Coded p) (charge n : Exec β Unit) := fun _ h => h

theorem kept_chargeByMode (cost : Bool → Nat) :
    Kept (Core.Coded p) (do charge (cost (← isNative)) : Exec β Unit) := fun _ h => h

/-- What is computed from the registers may rely on what is kept. -/
theorem kept_look {k : Registers → Exec β α} (hk : ∀ r, p r.cc → Kept (Core.Coded p) (k r)) :
    Kept (Core.Coded p) (registers >>= k) := fun c h => hk c.cpu.regs h c h

variable [Bus β]

theorem kept_readByte (a : Word) : Kept (Core.Coded p) (readByte a : Exec β Byte) := fun _ h => h

theorem kept_writeByte (a : Word) (v : Byte) :
    Kept (Core.Coded p) (writeByte a v : Exec β Unit) := fun _ h => h

theorem kept_readWord (a : Word) : Kept (Core.Coded p) (readWord a : Exec β Word) := fun _ h => h

theorem kept_writeWord (a v : Word) :
    Kept (Core.Coded p) (writeWord a v : Exec β Unit) := fun _ h => h

theorem kept_fetch : Kept (Core.Coded p) (fetch : Exec β Byte) := fun _ h => h

theorem kept_fetchWord : Kept (Core.Coded p) (fetchWord : Exec β Word) := fun _ h => h

/-! ### Addresses and operands -/

theorem kept_indexFormAddress (form : IndexForm) :
    Kept (Core.Coded p) (indexFormAddress form : Exec β Word) := by
  cases form with
  | near | plain | byteRegister | wordRegister => exact fun _ h => h
  | increment base amount | decrement base amount =>
    exact kept_look fun _ _ => (kept_setWord base _).bind fun _ => kept_pure _
  | byteOffset | wordOffset | absolute => exact fun _ h => h

theorem kept_resolve (meaning : Postbyte) :
    Kept (Core.Coded p) (resolve meaning : Exec β Word) := by
  refine Kept.bind (fun _ h => h) fun native => (kept_charge _).bind fun _ => ?_
  refine (kept_indexFormAddress meaning.form).bind fun address => ?_
  split
  · exact (kept_charge 3).bind fun _ => kept_readWord address
  · exact kept_pure address

theorem kept_effectiveAddress (mode : MemoryMode) :
    Kept (Core.Coded p) (effectiveAddress mode : Exec β Word) := by
  cases mode with
  | direct | extended => exact fun _ h => h
  | indexed =>
    intro c h
    exact kept_resolve (Postbyte.decode c.cpu.variant c.nextByte) _ (kept_fetch c h)

theorem kept_operandByte (operand : Operand) :
    Kept (Core.Coded p) (operandByte operand : Exec β Byte) := by
  cases operand with
  | immediate => exact kept_fetch
  | memory mode => exact (kept_effectiveAddress mode).bind fun a => kept_readByte a

theorem kept_operandWord (operand : Operand) :
    Kept (Core.Coded p) (operandWord operand : Exec β Word) := by
  cases operand with
  | immediate => exact kept_fetchWord
  | memory mode => exact (kept_effectiveAddress mode).bind fun a => kept_readWord a

theorem kept_operandLong (operand : Operand) :
    Kept (Core.Coded p) (operandLong operand : Exec β Long) := by
  cases operand with
  | immediate => exact fun _ h => h
  | memory mode => exact (kept_effectiveAddress mode).bind fun a => fun _ h => h

/-! ### Stacks -/

theorem kept_pushByte (stack : Stack) (v : Byte) :
    Kept (Core.Coded p) (pushByte stack v : Exec β Unit) :=
  kept_look fun _ _ => (kept_setWord stack.pointer _).bind fun _ => kept_writeByte _ v

theorem kept_pushWord (stack : Stack) (v : Word) :
    Kept (Core.Coded p) (pushWord stack v : Exec β Unit) :=
  (kept_pushByte stack _).bind fun _ => kept_pushByte stack _

theorem kept_pullByte (stack : Stack) : Kept (Core.Coded p) (pullByte stack : Exec β Byte) :=
  kept_look fun _ _ => (kept_readByte _).bind fun _ =>
    (kept_setWord stack.pointer _).bind fun _ => kept_pure _

theorem kept_pullWord (stack : Stack) : Kept (Core.Coded p) (pullWord stack : Exec β Word) :=
  (kept_pullByte stack).bind fun _ => (kept_pullByte stack).bind fun _ => kept_pure _

theorem kept_pushRegister (stack : Stack) (name : RegisterName) :
    Kept (Core.Coded p) (pushRegister stack name : Exec β Unit) := by
  cases name with
  | byte n => exact kept_look fun r _ => kept_pushByte stack (r.byte n)
  | word n => exact kept_look fun r _ => kept_pushWord stack (r.word n)

theorem kept_pullRegister (stack : Stack) {name : RegisterName} (hn : name ≠ .byte .cc) :
    Kept (Core.Coded p) (pullRegister stack name : Exec β Unit) := by
  cases name with
  | byte n =>
    exact (kept_pullByte stack).bind fun v => kept_setByte (fun h => hn (congrArg _ h)) v
  | word n => exact (kept_pullWord stack).bind fun v => kept_loadWord n v

theorem kept_pushAll (stack : Stack) (names : List RegisterName) :
    Kept (Core.Coded p) (pushAll stack names : Exec β Unit) := by
  induction names with
  | nil => exact kept_pure ()
  | cons name rest ih => exact (kept_pushRegister stack name).bind fun _ => ih

theorem kept_pullAll (stack : Stack) {names : List RegisterName} (hn : .byte .cc ∉ names) :
    Kept (Core.Coded p) (pullAll stack names : Exec β Unit) := by
  induction names with
  | nil => exact kept_pure ()
  | cons name rest ih =>
    refine (kept_pullRegister stack fun h => hn ?_).bind fun _ => ih fun h => hn ?_
    · rw [h]
      exact List.mem_cons_self
    · exact List.mem_cons_of_mem _ h

/-- A pull takes the condition codes only if bit 0 of its postbyte says so. -/
theorem cc_not_mem_selected (stack : Stack) {mask : Byte} (h : mask.getLsbD 0 = false) :
    .byte .cc ∉ stack.selected mask := by
  intro hm
  simp only [Stack.selected, List.mem_filterMap] at hm
  obtain ⟨⟨name, bit⟩, hz, hs⟩ := hm
  have hn : name = .byte .cc := by
    split at hs <;> simp_all
  have hb : bit = 0 := by
    subst hn
    cases stack <;> simpa [Stack.candidates, Stack.otherPointer] using hz
  subst hb
  rw [h] at hs
  simp at hs

theorem kept_pullSelected (stack : Stack) {mask : Byte} (h : mask.getLsbD 0 = false) :
    Kept (Core.Coded p) (pullSelected stack mask : Exec β Unit) := by
  refine (kept_pullAll stack fun hm => ?_).bind fun _ => kept_charge _
  exact cc_not_mem_selected stack h (List.mem_reverse.1 hm)

/-! ### Instructions -/

/-- What follows a fetch may depend on the byte that is fetched. -/
theorem coded_fetch {k : Byte → Exec β α} {c : Core β} (hk : Kept (Core.Coded p) (k c.nextByte))
    (h : c.Coded p) : ((fetch >>= k) c).2.Coded p := hk _ (kept_fetch c h)

end Actions

section Instructions

variable {β : Type} {f : Flag} {v : Bool}

/-- An action that leaves a flag as it is. -/
abbrev Spares {α : Type} (f : Flag) (v : Bool) (x : Exec β α) : Prop :=
  Kept (Core.Coded fun cc => cc.flag f = v) x

theorem spares_modifyRegs {g : Registers → Registers}
    (hg : ∀ r, (g r).cc.flag f = r.cc.flag f) : Spares f v (modifyRegs g : Exec β Unit) :=
  kept_modifyRegs fun r hr => (hg r).trans hr

theorem spares_unaryByte (operation : Unary) {n : ByteRegister} (hn : n ≠ .cc) :
    Spares f v (unaryByte operation n : Exec β Unit) := by
  refine kept_look fun r hr => ?_
  have hf := (flag_unary operation r.cc (r.byte n)).trans hr
  generalize operation.apply r.cc (r.byte n) = out at hf ⊢
  obtain ⟨_ | value, cc⟩ := out
  · exact (kept_setCodes hf).bind fun _ => kept_pure ()
  · exact (kept_setCodes hf).bind fun _ => kept_setByte hn value

theorem spares_unaryWord (operation : Unary) (n : WordRegister) :
    Spares f v (unaryWord operation n : Exec β Unit) := by
  refine kept_look fun r hr => ?_
  have hf := (flag_unary operation r.cc (r.word n)).trans hr
  generalize operation.apply r.cc (r.word n) = out at hf ⊢
  obtain ⟨_ | value, cc⟩ := out
  · exact (kept_setCodes hf).bind fun _ => kept_pure ()
  · exact (kept_setCodes hf).bind fun _ => kept_setWord n value

variable [Bus β]

theorem spares_unaryMemory (operation : Unary) (mode : MemoryMode) :
    Spares f v (unaryMemory operation mode : Exec β Unit) := by
  refine (kept_effectiveAddress mode).bind fun address => (kept_readByte address).bind fun a => ?_
  refine kept_look fun r hr => ?_
  have hf := (flag_unary operation r.cc a).trans hr
  generalize operation.apply r.cc a = out at hf ⊢
  obtain ⟨_ | value, cc⟩ := out
  · exact (kept_setCodes hf).bind fun _ => kept_pure ()
  · exact (kept_setCodes hf).bind fun _ => kept_writeByte address value

theorem spares_binaryByte {operation : Binary} {n : ByteRegister} (operand : Operand)
    (hn : n ≠ .cc) (h : f = .halfCarry → operation.adds = false) :
    Spares f v (binaryByte operation n operand : Exec β Unit) := by
  refine (kept_operandByte operand).bind fun b => kept_look fun r hr => ?_
  have hf := flag_binary (fun hf ha => absurd ((h hf).symm.trans ha) Bool.false_ne_true) r.cc
    (r.byte n) b
  rw [hr] at hf
  generalize operation.apply r.cc (r.byte n) b = out at hf ⊢
  obtain ⟨_ | value, cc⟩ := out
  · exact (kept_setCodes hf).bind fun _ => kept_pure ()
  · exact (kept_setCodes hf).bind fun _ => kept_setByte hn value

theorem spares_binaryWord (operation : Binary) (n : WordRegister) (operand : Operand) :
    Spares f v (binaryWord operation n operand : Exec β Unit) := by
  refine (kept_operandWord operand).bind fun b => kept_look fun r hr => ?_
  have hf : (operation.apply r.cc (r.word n) b).2.flag f = r.cc.flag f :=
    flag_binary (fun _ _ => by decide) _ _ _
  rw [hr] at hf
  generalize operation.apply r.cc (r.word n) b = out at hf ⊢
  obtain ⟨_ | value, cc⟩ := out
  · exact (kept_setCodes hf).bind fun _ => kept_pure ()
  · exact (kept_setCodes hf).bind fun _ => kept_loadWord n value

theorem spares_storeByte (n : ByteRegister) (mode : MemoryMode) :
    Spares f v (storeByte n mode : Exec β Unit) := by
  refine kept_look fun _ _ => (kept_effectiveAddress mode).bind fun address => ?_
  exact kept_look fun r hr => (kept_setCodes ((flag_ofData r.cc _).trans hr)).bind fun _ =>
    kept_writeByte address _

theorem spares_storeWord (n : WordRegister) (mode : MemoryMode) :
    Spares f v (storeWord n mode : Exec β Unit) := by
  refine kept_look fun _ _ => (kept_effectiveAddress mode).bind fun address => ?_
  exact kept_look fun r hr => (kept_setCodes ((flag_ofData r.cc _).trans hr)).bind fun _ =>
    kept_writeWord address _

theorem spares_loadQ (operand : Operand) : Spares f v (loadQ operand : Exec β Unit) :=
  (kept_operandLong operand).bind fun value => spares_modifyRegs fun r => flag_ofData r.cc value

theorem spares_storeQ (mode : MemoryMode) : Spares f v (storeQ mode : Exec β Unit) := by
  refine (kept_effectiveAddress mode).bind fun address => kept_look fun r hr => ?_
  refine (kept_setCodes ((flag_ofData r.cc r.q).trans hr)).bind fun _ => ?_
  exact (kept_writeWord address _).bind fun _ => kept_writeWord _ _

theorem spares_memoryLogic (operation : MemoryLogic) (mode : MemoryMode) :
    Spares f v (memoryLogic operation mode : Exec β Unit) := by
  refine kept_fetch.bind fun _ => (kept_effectiveAddress mode).bind fun address => ?_
  refine (kept_readByte address).bind fun _ => kept_look fun r hr => ?_
  refine (kept_setCodes ((flag_ofData r.cc _).trans hr)).bind fun _ => ?_
  split
  · exact kept_writeByte address _
  · exact kept_pure ()

theorem spares_branch (condition : Condition) : Spares f v (branch condition : Exec β Unit) := by
  refine kept_fetch.bind fun offset => kept_look fun r _ => ?_
  split
  · exact kept_jumpBy _
  · exact kept_pure ()

theorem spares_longBranch (condition : Condition) :
    Spares f v (longBranch condition : Exec β Unit) := by
  refine kept_fetchWord.bind fun offset => kept_look fun r _ => ?_
  split
  · exact (kept_jumpBy offset).bind fun _ => kept_chargeByMode fun native => if native then 0 else 1
  · exact kept_pure ()

theorem spares_pushReturn : Spares f v (pushReturn : Exec β Unit) :=
  kept_look fun _ _ => kept_pushWord .system _

theorem spares_loadAddress (target : AddressTarget) :
    Spares f v (loadAddress target : Exec β Unit) := by
  refine (kept_effectiveAddress .indexed).bind fun address => ?_
  cases target with
  | x | y => exact spares_modifyRegs fun r => by cases f <;> rfl
  | s => exact kept_loadWord .s address
  | u => exact kept_loadWord .u address

theorem spares_copyBytes (source target : WordRegister) (step : BlockStep) (n : Nat) :
    Spares f v (copyBytes source target step n : Exec β Unit) := by
  induction n with
  | zero => exact kept_pure ()
  | succ n ih =>
    refine Kept.bind (kept_look fun _ _ => kept_look fun _ _ => ?_) fun _ => ih
    refine (kept_readByte _).bind fun _ => (kept_writeByte _ _).bind fun _ => ?_
    refine (kept_setWord source _).bind fun _ => (kept_setWord target _).bind fun _ => ?_
    exact (kept_modifyRegs fun r hr => hr).bind fun _ => kept_charge 3

/-- A bit operation that names a register changes that register, or memory. -/
theorem coded_withBitOperands {p : ConditionCodes → Prop} {c : Core β}
    {action : ByteRegister → Word → Nat → Nat → Exec β Unit}
    (ha : ∀ n address source target, bitRegister? c.nextByte = some n →
      Kept (Core.Coded p) (action n address source target))
    (hm : bitRegister? c.nextByte ≠ none) (h : c.Coded p) :
    (withBitOperands action c).2.Coded p := by
  have hd := kept_effectiveAddress (p := p) .direct _ (kept_fetch c h)
  rw [withBitOperands_eq]
  cases hb : bitRegister? c.nextByte with
  | none => exact absurd hb hm
  | some n => exact ha n _ _ _ hb _ hd

theorem coded_bitOperation {p : ConditionCodes → Prop} {c : Core β} (operation : BitOperation)
    (hm : bitRegister? c.nextByte ≠ none) (hc : bitRegister? c.nextByte ≠ some .cc)
    (h : c.Coded p) : (bitOperation operation c).2.Coded p := by
  refine coded_withBitOperands (fun n address source target hn => ?_) hm h
  refine (kept_readByte address).bind fun memory => kept_look fun r _ => kept_setByte ?_ _
  rintro rfl
  exact hc hn

theorem coded_storeBit {p : ConditionCodes → Prop} {c : Core β}
    (hm : bitRegister? c.nextByte ≠ none) (h : c.Coded p) : (storeBit c).2.Coded p := by
  refine coded_withBitOperands (fun n address source target _ => ?_) hm h
  exact (kept_readByte address).bind fun memory => kept_look fun r _ => kept_writeByte address _

theorem coded_blockTransfer {c : Core β} (step : BlockStep)
    (hm : ¬ (blockRegister? (c.nextByte.toNat / 16) = none ∨
      blockRegister? (c.nextByte.toNat % 16) = none))
    (h : c.Coded fun cc => cc.flag f = v) :
    (blockTransfer step c).2.Coded fun cc => cc.flag f = v := by
  rw [blockTransfer_eq]
  cases hs : blockRegister? (c.nextByte.toNat / 16) with
  | none => exact absurd (Or.inl hs) hm
  | some source =>
    cases ht : blockRegister? (c.nextByte.toNat % 16) with
    | none => exact absurd (Or.inr ht) hm
    | some target =>
      exact kept_look (fun r _ => spares_copyBytes source target step _) _ (kept_fetch c h)

theorem coded_divideD {operand : Operand} {c : Core β} (hz : (operandByte operand c).1 ≠ 0)
    (h : c.Coded fun cc => cc.flag f = v) :
    (divideD operand c).2.Coded fun cc => cc.flag f = v := by
  unfold divideD
  rw [bind_apply, if_neg hz]
  refine kept_look (fun r hr => ?_) _ (kept_operandByte operand c h)
  have hf := (flag_divide r.cc r.d (operandByte operand c).1).trans hr
  generalize Arithmetic.divide r.cc r.d (operandByte operand c).1 = out at hf ⊢
  obtain ⟨_ | _, cc⟩ := out
  · exact (kept_setCodes hf).bind fun _ => kept_pure ()
  · exact (kept_setCodes hf).bind fun _ => kept_modifyRegs fun _ h => h

theorem coded_divideQ {operand : Operand} {c : Core β} (hz : (operandWord operand c).1 ≠ 0)
    (h : c.Coded fun cc => cc.flag f = v) :
    (divideQ operand c).2.Coded fun cc => cc.flag f = v := by
  unfold divideQ
  rw [bind_apply, if_neg hz]
  refine kept_look (fun r hr => ?_) _ (kept_operandWord operand c h)
  have hf := (flag_divide r.cc r.q (operandWord operand c).1).trans hr
  generalize Arithmetic.divide r.cc r.q (operandWord operand c).1 = out at hf ⊢
  obtain ⟨_ | _, cc⟩ := out
  · exact (kept_setCodes hf).bind fun _ => kept_pure ()
  · exact (kept_setCodes hf).bind fun _ => kept_modifyRegs fun _ h => h

theorem spares_multiplyD (operand : Operand) : Spares f v (multiplyD operand : Exec β Unit) :=
  (kept_operandWord operand).bind fun value => spares_modifyRegs fun r => by cases f <;> rfl

/-- An instruction that neither writes the codes nor adds bytes leaves the flags alone, unless it
raises an exception. -/
theorem coded_perform {c : Core β} {i : Instruction} (hr : i.register? ≠ some (.byte .cc))
    (hm : ¬ c.MovesFrame i) (ht : i.touches f c.nextByte = false)
    (h : c.Coded fun cc => cc.flag f = v) : (perform i c).2.Coded fun cc => cc.flag f = v := by
  rw [Instruction.touches, Bool.or_eq_false_iff] at ht
  obtain ⟨hw, ha⟩ := ht
  replace ha : f = .halfCarry → i.addsBytes c.nextByte = false := by
    rintro rfl
    simpa using ha
  cases i with
  | nop => exact h
  | sync => exact h
  | daa | sex | sexw | mul | abx =>
    exact spares_modifyRegs (fun r => by cases f <;> rfl) c h
  | orcc | andcc | cwai | rti => exact Bool.noConfusion hw
  | rts => exact ((kept_pullWord .system).bind fun a => kept_jump a) c h
  | tfr =>
    refine coded_fetch (kept_modifyCpu fun cpu hc => ?_) h
    rw [Cpu.transfer, Cpu.cc_writeCoded _ (of_decide_eq_false hw)]
    exact hc
  | exg =>
    refine coded_fetch (kept_modifyCpu fun cpu hc => ?_) h
    rw [Instruction.writesCodes, Bool.or_eq_false_iff] at hw
    rw [Cpu.exchange, Cpu.cc_writeCoded _ (of_decide_eq_false hw.2),
      Cpu.cc_writeCoded _ (of_decide_eq_false hw.1)]
    exact hc
  | swi which => exact absurd trivial hm
  | branch condition => exact spares_branch condition c h
  | longBranch condition => exact spares_longBranch condition c h
  | lbra => exact (kept_fetchWord.bind fun offset => kept_jumpBy offset) c h
  | bsr =>
    exact (kept_fetch.bind fun _ => spares_pushReturn.bind fun _ => kept_jumpBy _) c h
  | lbsr =>
    exact (kept_fetchWord.bind fun _ => spares_pushReturn.bind fun _ => kept_jumpBy _) c h
  | jmp mode => exact ((kept_effectiveAddress mode).bind fun a => kept_jump a) c h
  | jsr mode =>
    exact ((kept_effectiveAddress mode).bind fun a => spares_pushReturn.bind fun _ =>
      kept_jump a) c h
  | lea target => exact spares_loadAddress target c h
  | push stack =>
    exact (kept_fetch.bind fun mask => (kept_pushAll stack _).bind fun _ => kept_charge _) c h
  | pull stack => exact coded_fetch (kept_pullSelected stack hw) h
  | pushW stack => exact kept_pushRegister stack _ c h
  | pullW stack => exact kept_pullRegister stack (by decide) c h
  | unaryMemory operation mode => exact spares_unaryMemory operation mode c h
  | unaryByte operation n => exact spares_unaryByte operation (fun hn => hr (by rw [hn]; rfl)) c h
  | unaryWord operation n => exact spares_unaryWord operation n c h
  | binaryByte operation n operand =>
    exact spares_binaryByte operand (fun hn => hr (by rw [hn]; rfl)) ha c h
  | binaryWord operation n operand => exact spares_binaryWord operation n operand c h
  | storeByte n mode => exact spares_storeByte n mode c h
  | storeWord n mode => exact spares_storeWord n mode c h
  | loadQ operand => exact spares_loadQ operand c h
  | storeQ mode => exact spares_storeQ mode c h
  | memoryLogic operation mode => exact spares_memoryLogic operation mode c h
  | registers operation =>
    refine coded_fetch (kept_modifyCpu fun cpu hc => Eq.trans ?_ hc) h
    refine cpu.flag_combine (of_decide_eq_false hw) fun hf ho => ?_
    have hb := ha hf
    rwa [Instruction.addsBytes, ho, Bool.true_and] at hb
  | bit operation => exact coded_bitOperation operation hm (of_decide_eq_false hw) h
  | storeBit => exact coded_storeBit hm h
  | blockTransfer step => exact coded_blockTransfer step hm h
  | testMode =>
    exact (kept_fetch.bind fun mask => spares_modifyRegs fun r => by cases f <;> rfl) c h
  | loadMode => exact (kept_fetch.bind fun value => spares_modifyRegs fun r => rfl) c h
  | divideD operand => exact coded_divideD hm h
  | divideQ operand => exact coded_divideQ hm h
  | multiplyD operand => exact spares_multiplyD operand c h

end Instructions

end Exec

/-! ### Steps -/

/-- No opcode works on the condition codes as it works on an accumulator. -/
theorem register?_of_decode {page : Page} {opcode : Byte} {i : Instruction}
    (hd : Opcode.decode? page opcode = some i) : i.register? ≠ some (.byte .cc) := by
  have hall : ∀ opcode : Byte, ((Opcode.decode? page opcode).all fun i =>
      i.register? ≠ some (.byte .cc)) = true := by
    cases page <;> decide +kernel
  have h := hall opcode
  rw [hd] at h
  exact of_decide_eq_true h

section Steps

variable {β : Type} [Bus β]

/-- An extended instruction moves a frame only to trap. -/
theorem Core.traps_of_movesFrame {c : Core β} {i : Instruction}
    (hn : c.nextInstruction? = some i) (he : c.cpu.variant.executes i = true)
    (hx : i.extended = true) (hm : (c.begun i).MovesFrame i) :
    ∃ reason n d, c.Raises (.trap reason) n d := by
  have hv : c.cpu.variant = .hitachi := Exec.hitachi_of_extended he hx
  cases i with
  | swi which => exact Bool.noConfusion hx
  | cwai | rti => exact Bool.noConfusion hx
  | bit operation => exact ⟨_, _, _, .bit _ hn (Or.inr ⟨operation, rfl⟩) hv hm⟩
  | storeBit => exact ⟨_, _, _, .bit _ hn (Or.inl rfl) hv hm⟩
  | blockTransfer step => exact ⟨_, _, _, .block step hn hv hm⟩
  | divideD operand => exact ⟨_, _, _, .divideD operand hn hv hm⟩
  | divideQ operand => exact ⟨_, _, _, .divideQ operand hn hv hm⟩
  | _ => exact hm.elim

/-- An instruction that moves a frame and does not write the codes raises an exception. -/
theorem Core.raises_of_movesFrame {c : Core β} {i : Instruction}
    (hn : c.nextInstruction? = some i) (he : c.cpu.variant.executes i = true)
    (hw : i.writesCodes c.nextPostbyte = false) (hm : (c.begun i).MovesFrame i) :
    ∃ cause n d, c.Raises cause n d := by
  cases i with
  | swi which => exact ⟨_, _, _, .software which hn⟩
  | cwai | rti => exact Bool.noConfusion hw
  | bit _ | storeBit | blockTransfer _ | divideD _ | divideQ _ =>
    obtain ⟨reason, n, d, hr⟩ := traps_of_movesFrame hn he rfl hm
    exact ⟨_, n, d, hr⟩
  | _ => exact hm.elim

/-- A part that traps what it does not have has every instruction, so that it traps only opcodes
that no part has. -/
theorem Core.raises_of_unknown {c : Core β} (hv : c.cpu.variant.trapsUndefined = true)
    (h : c.UnknownNext) :
    c.Raises (.trap .undefinedInstruction) c.opcodeLength (Exec.fetchOpcode c).2 := by
  refine .undefined (Option.eq_none_iff_forall_ne_some.2 fun i hn => ?_) hv
  have he := h i hn
  cases hc : c.cpu.variant with
  | motorola =>
    rw [hc] at hv
    exact Bool.noConfusion hv
  | hitachi =>
    rw [hc] at he
    exact Bool.noConfusion he

namespace Exec

/-- An opcode that the part does not have is undefined. -/
theorem runInstruction_of_unknown {c : Core β} (h : c.UnknownNext) : runInstruction c =
      undefinedInstruction ((fetchOpcode c).1.1 != Page.base) (fetchOpcode c).2 := by
  cases hn : c.nextInstruction? with
  | none => exact runInstruction_of_none hn
  | some i =>
    have hd : Opcode.decode? (fetchOpcode c).1.1 (fetchOpcode c).1.2 = some i := hn
    rw [runInstruction_eq, runOpcode_eq, hd, (fetchOpcode_frame c).1]
    dsimp only
    rw [if_neg (by rw [h i hn]; exact Bool.false_ne_true)]

/-- An opcode that the part does not have changes no code, unless it traps. -/
theorem cc_runInstruction_of_unknown {c : Core β} (h : c.UnknownNext)
    (ht : c.cpu.variant.trapsUndefined = false) :
    (runInstruction c).2.cpu.regs.cc = c.cpu.regs.cc := by
  rw [runInstruction_of_unknown h]
  have hc : (fetchOpcode c).2.cpu.regs.cc = c.cpu.regs.cc := by rw [regs_fetchOpcode]
  have hv : (fetchOpcode c).2.cpu.variant.trapsUndefined = false := by
    rw [(fetchOpcode_frame c).1]
    exact ht
  rw [undefinedInstruction_of_untrapped hv]
  exact hc

end Exec

/-- An instruction that changes a flag is one that may, or raises an exception. -/
theorem Core.flag_runInstruction {c : Core β} {f : Flag}
    (hf : (Exec.runInstruction c).2.cpu.regs.cc.flag f ≠ c.cpu.regs.cc.flag f) :
    (∃ cause n d, c.Raises cause n d) ∨ ∃ i, c.nextInstruction? = some i ∧
      c.cpu.variant.executes i = true ∧ i.touches f c.nextPostbyte = true := by
  rcases c.known_or_unknown with ⟨i, hn, he⟩ | hu
  · cases ht : i.touches f c.nextPostbyte with
    | true => exact Or.inr ⟨i, hn, he, ht⟩
    | false =>
      refine Or.inl (Classical.byContradiction fun hx => hf ?_)
      have hm : ¬ (c.begun i).MovesFrame i := fun hm =>
        hx (raises_of_movesFrame hn he (Bool.or_eq_false_iff.1 ht).1 hm)
      have hb : (c.begun i).Coded fun cc => cc.flag f = c.cpu.regs.cc.flag f := by
        show (Exec.fetchOpcode c).2.cpu.regs.cc.flag f = _
        rw [Exec.regs_fetchOpcode]
      rw [Exec.perform_of_begun hn he]
      exact Exec.coded_perform (register?_of_decode hn) hm ht hb
  · cases hv : c.cpu.variant with
    | motorola =>
      have ht : c.cpu.variant.trapsUndefined = false := by rw [hv]; rfl
      rw [Exec.cc_runInstruction_of_unknown hu ht] at hf
      exact absurd rfl hf
    | hitachi => exact Or.inl ⟨_, _, _, raises_of_unknown (by rw [hv]; rfl) hu⟩

namespace Cpu

/-- The step runs this instruction, with this byte behind its opcode. -/
structure Executes (cpu : Cpu) (bus : β) (i : Instruction) (post : Byte) : Prop where
  move : cpu.move = .execute
  next : (⟨cpu.awake, bus, 0⟩ : Core β).nextInstruction? = some i
  executes : cpu.variant.executes i = true
  post : (⟨cpu.awake, bus, 0⟩ : Core β).nextPostbyte = post

/-- Such a step is the instruction, from behind its opcode. -/
theorem step_of_executes {cpu : Cpu} {bus : β} {i : Instruction} {post : Byte}
    (h : cpu.Executes bus i post) :
    cpu.step bus = (Exec.perform i ((⟨cpu.awake, bus, 0⟩ : Core β).begun i)).2.settled := by
  rw [step_execute h.move, Exec.perform_of_begun h.next (by rw [variant_awake]; exact h.executes)]

/-- The step is one of those that may change the masks: it enters the handler of an interrupt, it
raises an exception, or its instruction writes the condition codes. -/
inductive Recodes (cpu : Cpu) (bus : β) : Prop
  | interrupt (line : Interrupt) (hm : cpu.move = .enter line)
  | exception (cause : Cause) (n : Nat) (d : Core β) (hm : cpu.move = .execute)
    (hr : (⟨cpu.awake, bus, 0⟩ : Core β).Raises cause n d)
  | instruction (i : Instruction) (post : Byte) (hx : cpu.Executes bus i post)
    (hw : i.writesCodes post = true)

/-- A step that changes E, F or I is one of those that may; and a step that changes H is one of
those, or else it adds bytes. -/
theorem step_flag (cpu : Cpu) (bus : β) (f : Flag)
    (hf : (cpu.step bus).cpu.regs.cc.flag f ≠ cpu.regs.cc.flag f) :
    cpu.Recodes bus ∨ f = .halfCarry ∧ ∃ i post, cpu.Executes bus i post ∧
      i.addsBytes post = true := by
  cases hm : cpu.move with
  | enter line => exact Or.inl (.interrupt line hm)
  | idle =>
    rw [step_idle hm] at hf
    exact absurd rfl hf
  | execute =>
    have hc : cpu.regs.cc = cpu.awake.regs.cc := by rw [regs_awake]
    rw [step_execute hm, hc] at hf
    rcases Core.flag_runInstruction (c := ⟨cpu.awake, bus, 0⟩) hf with
      ⟨cause, n, d, hr⟩ | ⟨i, hn, he, ht⟩
    · exact Or.inl (.exception cause n d hm hr)
    · have hx : cpu.Executes bus i (⟨cpu.awake, bus, 0⟩ : Core β).nextPostbyte :=
        ⟨hm, hn, by rwa [← variant_awake cpu], rfl⟩
      rw [Instruction.touches, Bool.or_eq_true, Bool.and_eq_true] at ht
      rcases ht with hw | ⟨hh, ha⟩
      · exact Or.inl (.instruction i _ hx hw)
      · exact Or.inr ⟨of_decide_eq_true hh, i, _, hx, ha⟩

/-- A processor whose low digit is about to overflow. -/
def nearCarry : Cpu := { Cpu.fresh .motorola with regs := { Registers.zeros with a := 0x0F } }

end Cpu

/-- Memory that holds nothing but additions of the byte that follows. -/
def FlatMemory.additions : FlatMemory :=
  ⟨⟨⟨Array.replicate 65536 0x8B⟩, by simp [ByteArray.size]⟩⟩

/-- An addition that carries out of the low digit. -/
theorem Cpu.step_flag_nearCarry :
    (nearCarry.step FlatMemory.additions).cpu.regs.cc.flag .halfCarry ≠
        nearCarry.regs.cc.flag .halfCarry ∧
      (nearCarry.Recodes FlatMemory.additions ∨ Flag.halfCarry = .halfCarry ∧ ∃ i post,
        nearCarry.Executes FlatMemory.additions i post ∧ i.addsBytes post = true) :=
  ⟨by decide +kernel, step_flag nearCarry FlatMemory.additions .halfCarry (by decide +kernel)⟩

end Steps

end ColorComputer
