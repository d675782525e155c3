import ColorComputer.Proofs.Likeness.Basic

/-!
# Operands and stacks under a likeness

Finding an address, reading an operand, pushing and pulling respect every likeness that shares the
registers they use. An indexed mode looks at a postbyte first, and a likeness may allow some
postbytes only; the byte that will be fetched next is `Core.nextByte`.

* `meets_effectiveAddress`, `meets_operandByte`, `meets_operandWord` — operands, given a postbyte
  that is allowed.
* `respects_pushAll`, `respects_pullAll` — lists of registers on a stack.
-/

namespace ColorComputer

/-- The byte that the next fetch returns. -/
def Core.nextByte {β : Type} [Bus β] (c : Core β) : Byte := (Bus.read c.bus c.cpu.regs.pc).1

/-- What is done once an indexed postbyte was decoded. -/
def Exec.resolve {β : Type} [Bus β] (meaning : Postbyte) : Exec β Word := do
  charge (meaning.form.cost (← isNative))
  let address ← indexFormAddress meaning.form
  if meaning.indirect then
    charge 3
    readWord address
  else
    return address

namespace Likeness

variable {β : Type} [Bus β] {M : Likeness β} {α : Type}

/-! ### Addresses -/

theorem respects_chargeByMode_bind (cost : Bool → Nat) {k : Exec β α} (hk : M.Respects k) :
    M.Respects (do Exec.charge (cost (← Exec.isNative)); k) :=
  (respects_chargeByMode cost).bind fun _ => hk

theorem respects_indexFormAddress {form : IndexForm} (hs : ∀ n ∈ form.names, M.sees n = true) :
    M.Respects (Exec.indexFormAddress form : Exec β Word) := by
  cases form with
  | near base offset | plain base =>
    apply Respects.look
    intro r r' h
    exact ⟨by rw [M.word_eq h (hs _ List.mem_cons_self)], respects_pure _⟩
  | increment base amount | decrement base amount =>
    have hb : M.sees (.word base) = true := hs _ List.mem_cons_self
    apply Respects.look
    intro r r' h
    exact ⟨by rw [M.word_eq h hb], (respects_setWord hb _).bind fun _ => respects_pure _⟩
  | byteRegister base offset =>
    apply Respects.look
    intro r r' h
    refine ⟨?_, respects_pure _⟩
    rw [M.word_eq h (hs _ List.mem_cons_self),
      M.byte_eq h (hs _ (List.mem_cons_of_mem _ List.mem_cons_self))]
  | wordRegister base offset =>
    apply Respects.look
    intro r r' h
    refine ⟨?_, respects_pure _⟩
    rw [M.word_eq h (hs _ List.mem_cons_self),
      M.word_eq h (hs _ (List.mem_cons_of_mem _ List.mem_cons_self))]
  | byteOffset base =>
    refine respects_fetch.bind fun offset => Respects.look fun r r' h => ?_
    exact ⟨by rw [M.word_eq h (hs _ List.mem_cons_self)], respects_pure _⟩
  | wordOffset base =>
    refine respects_fetchWord.bind fun offset => Respects.look fun r r' h => ?_
    exact ⟨by rw [M.word_eq h (hs _ List.mem_cons_self)], respects_pure _⟩
  | absolute => exact respects_fetchWord

theorem respects_resolve {meaning : Postbyte} (hs : ∀ n ∈ meaning.form.names, M.sees n = true) :
    M.Respects (Exec.resolve meaning : Exec β Word) := by
  apply respects_chargeByMode_bind meaning.form.cost
  refine (respects_indexFormAddress hs).bind fun address => Respects.ite ?_ (respects_pure _)
  exact (respects_charge 3).bind fun _ => respects_readWord address

theorem meets_indexedAddress {c d : Core β} (h : M.rel c d) (hp : M.indexOk c.nextByte) :
    M.Meets Exec.indexedAddress c d := by
  obtain ⟨hv, hr⟩ := respects_fetch c d h
  obtain ⟨hd, hs⟩ := M.decode hr hp
  -- Both cores resolve the same meaning, though each decoded the postbyte for its own part.
  have hm : Postbyte.decode (Exec.fetch c).2.cpu.variant c.nextByte =
      Postbyte.decode (Exec.fetch d).2.cpu.variant d.nextByte := by
    rw [hd, show c.nextByte = d.nextByte from hv]
  have hk := respects_resolve hs _ _ hr
  have hx : Exec.indexedAddress d =
      Exec.resolve (Postbyte.decode (Exec.fetch d).2.cpu.variant d.nextByte) (Exec.fetch d).2 := rfl
  rw [← hm] at hx
  show (Exec.indexedAddress c).1 = (Exec.indexedAddress d).1 ∧
    M.rel (Exec.indexedAddress c).2 (Exec.indexedAddress d).2
  rw [hx]
  exact hk

/-- A memory mode meets two cores if the postbyte of an indexed one is allowed. -/
theorem meets_effectiveAddress {mode : MemoryMode} {c d : Core β} (h : M.rel c d)
    (hp : mode = .indexed → M.indexOk c.nextByte) : M.Meets (Exec.effectiveAddress mode) c d := by
  cases mode with
  | direct =>
    refine (respects_fetch.bind fun low => Respects.look fun r r' hr => ?_) c d h
    have hdp : r.dp = r'.dp := M.byte_eq hr (n := .dp) (M.sees_base rfl)
    exact ⟨by rw [hdp], respects_pure _⟩
  | indexed => exact meets_indexedAddress h (hp rfl)
  | extended => exact respects_fetchWord c d h

/-! ### Operands -/

theorem meets_operandByte {operand : Operand} {c d : Core β} (h : M.rel c d)
    (hp : operand = .memory .indexed → M.indexOk c.nextByte) :
    M.Meets (Exec.operandByte operand) c d := by
  cases operand with
  | immediate => exact respects_fetch c d h
  | memory mode =>
    exact (meets_effectiveAddress h fun hm => hp (by rw [hm])).bind fun a => respects_readByte a

theorem meets_operandWord {operand : Operand} {c d : Core β} (h : M.rel c d)
    (hp : operand = .memory .indexed → M.indexOk c.nextByte) :
    M.Meets (Exec.operandWord operand) c d := by
  cases operand with
  | immediate => exact respects_fetchWord c d h
  | memory mode =>
    exact (meets_effectiveAddress h fun hm => hp (by rw [hm])).bind fun a => respects_readWord a

theorem meets_operandLong {operand : Operand} {c d : Core β} (h : M.rel c d)
    (hp : operand = .memory .indexed → M.indexOk c.nextByte) :
    M.Meets (Exec.operandLong operand) c d := by
  cases operand with
  | immediate =>
    exact (respects_fetchWord.bind fun _ => respects_fetchWord.bind fun _ => respects_pure _) c d h
  | memory mode =>
    refine (meets_effectiveAddress h fun hm => hp (by rw [hm])).bind fun a => ?_
    exact (respects_readWord a).bind fun _ => (respects_readWord _).bind fun _ => respects_pure _

/-! ### Stacks -/

theorem sees_pointer (stack : Stack) : M.sees (.word stack.pointer) = true := by
  cases stack <;> exact M.sees_base rfl

theorem respects_pushByte (stack : Stack) (v : Byte) :
    M.Respects (Exec.pushByte stack v : Exec β Unit) := by
  apply Respects.look
  intro r r' h
  refine ⟨by rw [M.word_eq h (sees_pointer stack)], ?_⟩
  exact (respects_setWord (sees_pointer stack) _).bind fun _ => respects_writeByte _ v

theorem respects_pushWord (stack : Stack) (v : Word) :
    M.Respects (Exec.pushWord stack v : Exec β Unit) :=
  (respects_pushByte stack _).bind fun _ => respects_pushByte stack _

theorem respects_pullByte (stack : Stack) : M.Respects (Exec.pullByte stack : Exec β Byte) := by
  apply Respects.look
  intro r r' h
  refine ⟨by rw [M.word_eq h (sees_pointer stack)], ?_⟩
  exact (respects_readByte _).bind fun _ =>
    (respects_setWord (sees_pointer stack) _).bind fun _ => respects_pure _

theorem respects_pullWord (stack : Stack) : M.Respects (Exec.pullWord stack : Exec β Word) :=
  (respects_pullByte stack).bind fun _ => (respects_pullByte stack).bind fun _ => respects_pure _

theorem respects_pushRegister (stack : Stack) {name : RegisterName}
    (hn : M.sees name = true) : M.Respects (Exec.pushRegister stack name : Exec β Unit) := by
  cases name with
  | byte name =>
    apply Respects.look
    intro r r' h
    exact ⟨by rw [M.byte_eq h hn], respects_pushByte stack _⟩
  | word name =>
    apply Respects.look
    intro r r' h
    exact ⟨by rw [M.word_eq h hn], respects_pushWord stack _⟩

theorem respects_pullRegister (stack : Stack) {name : RegisterName}
    (hn : M.sees name = true) (ha : name = .word .s → M.arms) :
    M.Respects (Exec.pullRegister stack name : Exec β Unit) := by
  cases name with
  | byte name => exact (respects_pullByte stack).bind fun v => respects_setByte hn v
  | word name =>
    refine (respects_pullWord stack).bind fun v => respects_loadWord hn (fun hs => ha ?_) v
    rw [hs]

theorem respects_pushAll (stack : Stack) {names : List RegisterName}
    (hn : ∀ n ∈ names, M.sees n = true) : M.Respects (Exec.pushAll stack names : Exec β Unit) := by
  induction names with
  | nil => exact respects_pure ()
  | cons name rest ih =>
    refine (respects_pushRegister stack (hn name List.mem_cons_self)).bind fun _ => ?_
    exact ih fun n h => hn n (List.mem_cons_of_mem _ h)

theorem respects_pullAll (stack : Stack) {names : List RegisterName}
    (hn : ∀ n ∈ names, M.sees n = true) (ha : .word .s ∈ names → M.arms) :
    M.Respects (Exec.pullAll stack names : Exec β Unit) := by
  induction names with
  | nil => exact respects_pure ()
  | cons name rest ih =>
    refine Respects.bind (respects_pullRegister stack (hn name List.mem_cons_self) ?_) fun _ => ?_
    · rintro rfl
      exact ha List.mem_cons_self
    · exact ih (fun n h => hn n (List.mem_cons_of_mem _ h)) fun h => ha (List.mem_cons_of_mem _ h)

/-- What a postbyte selects exists on both parts. -/
theorem sees_selected (stack : Stack) (mask : Byte) :
    ∀ n ∈ stack.selected mask, M.sees n = true := by
  intro n hn
  simp only [Stack.selected, List.mem_filterMap] at hn
  obtain ⟨⟨name, bit⟩, hz, hs⟩ := hn
  have hc : name ∈ stack.candidates := List.of_mem_zip hz |>.1
  have he : n = name := by
    split at hs <;> simp_all
  subst he
  apply M.sees_base
  cases stack <;> simp [Stack.candidates, Stack.otherPointer] at hc <;>
    rcases hc with rfl | rfl | rfl | rfl | rfl | rfl | rfl | rfl <;> rfl

/-- Only a pull from the user stack may select `S`, and bit 6 of its postbyte says whether. -/
theorem s_mem_selected {stack : Stack} {mask : Byte} (h : .word .s ∈ stack.selected mask) :
    (Instruction.pull stack).loadsS mask = true := by
  simp only [Stack.selected, List.mem_filterMap] at h
  obtain ⟨⟨name, bit⟩, hz, hs⟩ := h
  cases stack <;>
    simp only [Stack.candidates, Stack.otherPointer, List.zip_cons_cons, List.zip_nil_right,
      List.mem_cons, List.not_mem_nil, or_false, Prod.mk.injEq] at hz <;>
    rcases hz with ⟨rfl, rfl⟩ | ⟨rfl, rfl⟩ | ⟨rfl, rfl⟩ | ⟨rfl, rfl⟩ | ⟨rfl, rfl⟩ | ⟨rfl, rfl⟩ |
      ⟨rfl, rfl⟩ | ⟨rfl, rfl⟩ <;>
    simp_all [Instruction.loadsS]

theorem respects_pushSelected (stack : Stack) (mask : Byte) :
    M.Respects (Exec.pushSelected stack mask : Exec β Unit) :=
  (respects_pushAll stack (sees_selected stack mask)).bind fun _ => respects_charge _

theorem respects_pullSelected (stack : Stack) (mask : Byte)
    (ha : (Instruction.pull stack).loadsS mask = true → M.arms) :
    M.Respects (Exec.pullSelected stack mask : Exec β Unit) := by
  refine Respects.bind (respects_pullAll stack ?_ ?_) fun _ => respects_charge _
  · exact fun n h => sees_selected stack mask n (List.mem_reverse.1 h)
  · exact fun h => ha (s_mem_selected (List.mem_reverse.1 h))

end Likeness

end ColorComputer
