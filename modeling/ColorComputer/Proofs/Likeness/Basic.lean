import ColorComputer.Cpu.Execute

/-!
# Likenesses of cores

Two cores can run the same program without being equal: they may differ in registers that the
program never looks at, or in the cost of what they do. A likeness says in what two cores may
differ, and lists what every primitive action must keep. An action *respects* a likeness if from
like cores it gives equal results and leaves like cores.

* `Respects.bind`, `Respects.look` — respect composes, so a whole instruction respects a likeness
  because its primitive actions do.
* `respects_fetch`, `respects_readByte`, `respects_writeByte`, `respects_charge`,
  `respects_modifyRegs`, `respects_loadWord` — the primitive actions.

An invariant of a single core is the special case of a likeness that relates a core to itself
(`Likeness.invariant`), so one walk through the instruction set serves comparisons and invariants.
-/

namespace ColorComputer

/-- The registers that both parts have. -/
def RegisterName.isBase : RegisterName → Bool
  | .byte .e => false
  | .byte .f => false
  | .word .w => false
  | .word .v => false
  | _ => true

namespace IndexForm

/-- The registers that a form reads; those that it moves are among them. -/
def names : IndexForm → List RegisterName
  | near base _ => [.word base]
  | increment base _ => [.word base]
  | decrement base _ => [.word base]
  | plain base => [.word base]
  | byteRegister base offset => [.word base, .byte offset]
  | wordRegister base offset => [.word base, .word offset]
  | byteOffset base => [.word base]
  | wordOffset base => [.word base]
  | absolute => []

end IndexForm

/-- The operation writes back. -/
def Binary.writes : Binary → Bool
  | cmp => false
  | bit => false
  | _ => true

theorem Binary.writes_of_apply {w : Nat} {operation : Binary} {cc : ConditionCodes}
    {a b v : BitVec w} (h : (operation.apply cc a b).1 = some v) : operation.writes = true := by
  cases operation <;> first | rfl | exact nomatch h

/-- The instruction, with the byte behind its opcode, loads `S`. To push, to pull or to index with
`S` moves it, which is not a load. -/
def Instruction.loadsS (post : Byte) : Instruction → Bool
  | lea .s => true
  | pull .user => post.getLsbD 6
  | binaryWord operation .s _ => operation.writes
  | registers operation => operation.writes && post.toNat % 16 = 4
  | tfr => post.toNat % 16 = 4
  | exg => post.toNat / 16 = 4 || post.toNat % 16 = 4
  | _ => false

namespace Core

variable {β : Type}

/-- The core with other registers. -/
def withRegs (c : Core β) (r : Registers) : Core β := ⟨{ c.cpu with regs := r }, c.bus, c.cycles⟩

/-- The core with another processor. -/
def mapCpu (c : Core β) (f : Cpu → Cpu) : Core β := ⟨f c.cpu, c.bus, c.cycles⟩

/-- The core with another bus. -/
def withBus (c : Core β) (bus : β) : Core β := ⟨c.cpu, bus, c.cycles⟩

/-- The core with more cycles charged. -/
def charge (c : Core β) (n : Nat) : Core β := ⟨c.cpu, c.bus, c.cycles + n⟩

end Core

/-- A way in which two cores may differ while they do the same. -/
structure Likeness (β : Type) [Bus β] where
  /-- The registers whose contents are shared. -/
  sees : RegisterName → Bool
  /-- The indexed postbytes that may be met. -/
  indexOk : Byte → Prop
  /-- The postbytes of transfers and exchanges that may be met. -/
  codesOk : Byte → Prop
  /-- `S` may be loaded. -/
  arms : Prop
  /-- Like register files. -/
  alike : Registers → Registers → Prop
  /-- Like cores. -/
  rel : Core β → Core β → Prop
  sees_base : ∀ {n}, n.isBase = true → sees n = true
  byte_eq : ∀ {r r'}, alike r r' → ∀ {n}, sees (.byte n) = true → r.byte n = r'.byte n
  word_eq : ∀ {r r'}, alike r r' → ∀ {n}, sees (.word n) = true → r.word n = r'.word n
  cc_eq : ∀ {r r'}, alike r r' → r.cc = r'.cc
  setByte : ∀ {r r'}, alike r r' → ∀ {n}, sees (.byte n) = true → ∀ v,
    alike (r.setByte n v) (r'.setByte n v)
  setWord : ∀ {r r'}, alike r r' → ∀ {n}, sees (.word n) = true → ∀ v,
    alike (r.setWord n v) (r'.setWord n v)
  setCc : ∀ {r r'}, alike r r' → ∀ cc, alike { r with cc := cc } { r' with cc := cc }
  regs : ∀ {c d}, rel c d → alike c.cpu.regs d.cpu.regs
  bus_eq : ∀ {c d}, rel c d → c.bus = d.bus
  withRegs : ∀ {c d}, rel c d → ∀ {r r'}, alike r r' → rel (c.withRegs r) (d.withRegs r')
  load : ∀ {c d}, rel c d → ∀ {n}, sees (.word n) = true → (n = .s → arms) → ∀ v,
    rel (c.mapCpu (·.loadWord n v)) (d.mapCpu (·.loadWord n v))
  stop : ∀ {c d}, rel c d → ∀ w,
    rel (c.mapCpu fun cpu => { cpu with wait := w }) (d.mapCpu fun cpu => { cpu with wait := w })
  read : ∀ {c d}, rel c d → ∀ a,
    rel (c.withBus (Bus.read c.bus a).2) (d.withBus (Bus.read d.bus a).2)
  write : ∀ {c d}, rel c d → ∀ a v,
    rel (c.withBus (Bus.write c.bus a v)) (d.withBus (Bus.write d.bus a v))
  charge : ∀ {c d}, rel c d → ∀ cost : Bool → Nat,
    rel (c.charge (cost c.cpu.native)) (d.charge (cost d.cpu.native))
  decode : ∀ {c d}, rel c d → ∀ {p}, indexOk p →
    Postbyte.decode c.cpu.variant p = Postbyte.decode d.cpu.variant p ∧
      ∀ n ∈ (Postbyte.decode c.cpu.variant p).form.names, sees n = true
  transfer : ∀ {c d}, rel c d → ∀ {p}, codesOk p → (Instruction.tfr.loadsS p = true → arms) →
    rel (c.mapCpu (·.transfer (p.toNat / 16) (p.toNat % 16)))
      (d.mapCpu (·.transfer (p.toNat / 16) (p.toNat % 16)))
  exchange : ∀ {c d}, rel c d → ∀ {p}, codesOk p → (Instruction.exg.loadsS p = true → arms) →
    rel (c.mapCpu (·.exchange (p.toNat / 16) (p.toNat % 16)))
      (d.mapCpu (·.exchange (p.toNat / 16) (p.toNat % 16)))

namespace Likeness

variable {β : Type} [Bus β] (M : Likeness β) {α γ : Type}

/-- From these two cores an action gives equal results and leaves like cores. -/
def Meets (x : Exec β α) (c d : Core β) : Prop :=
  (x c).1 = (x d).1 ∧ M.rel (x c).2 (x d).2

/-- From like cores an action gives equal results and leaves like cores. -/
def Respects (x : Exec β α) : Prop := ∀ c d, M.rel c d → M.Meets x c d

variable {M}

/-! ### Composition -/

/-- Two cores that an action meets go on from what it left in each. -/
theorem Meets.next {x : Exec β α} {f : α → Exec β γ} {c d : Core β} (hx : M.Meets x c d)
    (hf : M.Meets (f (x c).1) (x c).2 (x d).2) : M.Meets (x >>= f) c d := by
  show (f (x c).1 (x c).2).1 = (f (x d).1 (x d).2).1 ∧
    M.rel (f (x c).1 (x c).2).2 (f (x d).1 (x d).2).2
  rw [← hx.1]
  exact hf

theorem Meets.bind {x : Exec β α} {f : α → Exec β γ} {c d : Core β} (hx : M.Meets x c d)
    (hf : ∀ a, M.Respects (f a)) : M.Meets (x >>= f) c d :=
  hx.next (hf _ _ _ hx.2)

theorem Meets.look {k : Registers → Exec β α} {c d : Core β} (h : M.rel c d)
    (hk : ∀ r r', M.alike r r' → k r = k r') (hm : M.Meets (k c.cpu.regs) c d) :
    M.Meets (Exec.registers >>= k) c d := by
  show (k c.cpu.regs c).1 = (k d.cpu.regs d).1 ∧ M.rel (k c.cpu.regs c).2 (k d.cpu.regs d).2
  rw [← hk _ _ (M.regs h)]
  exact hm

theorem Respects.bind {x : Exec β α} {f : α → Exec β γ} (hx : M.Respects x)
    (hf : ∀ a, M.Respects (f a)) : M.Respects (x >>= f) := by
  intro c d h
  exact (hx c d h).bind hf

theorem respects_pure (a : α) : M.Respects (pure a : Exec β α) := by
  intro c d h
  exact ⟨rfl, h⟩

theorem Respects.ite {p : Prop} [Decidable p] {x y : Exec β α} (hx : M.Respects x)
    (hy : M.Respects y) : M.Respects (if p then x else y) := by
  split
  · exact hx
  · exact hy

/-- Looking at the registers is harmless if what is done next depends on shared contents only. -/
theorem Respects.look {k : Registers → Exec β α}
    (hk : ∀ r r', M.alike r r' → k r = k r' ∧ M.Respects (k r)) :
    M.Respects (Exec.registers >>= k) := by
  intro c d h
  obtain ⟨he, hr⟩ := hk _ _ (M.regs h)
  show (k c.cpu.regs c).1 = (k d.cpu.regs d).1 ∧ M.rel (k c.cpu.regs c).2 (k d.cpu.regs d).2
  rw [← he]
  exact hr c d h

/-! ### Primitive actions -/

theorem respects_modifyRegs {f : Registers → Registers}
    (hf : ∀ r r', M.alike r r' → M.alike (f r) (f r')) :
    M.Respects (Exec.modifyRegs f : Exec β Unit) := by
  intro c d h
  exact ⟨rfl, M.withRegs h (hf _ _ (M.regs h))⟩

theorem respects_setCodes (cc : ConditionCodes) :
    M.Respects (Exec.setCodes cc : Exec β Unit) :=
  respects_modifyRegs fun _ _ h => M.setCc h cc

theorem respects_mapCodes (f : ConditionCodes → ConditionCodes) :
    M.Respects (Exec.modifyRegs fun r => { r with cc := f r.cc } : Exec β Unit) := by
  apply respects_modifyRegs
  intro r r' h
  rw [M.cc_eq h]
  exact M.setCc h _

theorem respects_setByte {n : ByteRegister} (hn : M.sees (.byte n) = true) (v : Byte) :
    M.Respects (Exec.modifyRegs fun r => r.setByte n v : Exec β Unit) :=
  respects_modifyRegs fun _ _ h => M.setByte h hn v

theorem respects_setWord {n : WordRegister} (hn : M.sees (.word n) = true) (v : Word) :
    M.Respects (Exec.modifyRegs fun r => r.setWord n v : Exec β Unit) :=
  respects_modifyRegs fun _ _ h => M.setWord h hn v

theorem respects_loadWord {n : WordRegister} (hn : M.sees (.word n) = true)
    (ha : n = .s → M.arms) (v : Word) : M.Respects (Exec.loadWord n v : Exec β Unit) := by
  intro c d h
  exact ⟨rfl, M.load h hn ha v⟩

theorem respects_stop (w : WaitState) :
    M.Respects (Exec.modifyCpu fun cpu => { cpu with wait := w } : Exec β Unit) := by
  intro c d h
  exact ⟨rfl, M.stop h w⟩

theorem respects_readByte (a : Word) : M.Respects (Exec.readByte a : Exec β Byte) := by
  intro c d h
  refine ⟨?_, M.read h a⟩
  show (Bus.read c.bus a).1 = (Bus.read d.bus a).1
  rw [M.bus_eq h]

theorem respects_writeByte (a : Word) (v : Byte) :
    M.Respects (Exec.writeByte a v : Exec β Unit) := by
  intro c d h
  exact ⟨rfl, M.write h a v⟩

theorem respects_charge (n : Nat) : M.Respects (Exec.charge n : Exec β Unit) := by
  intro c d h
  exact ⟨rfl, M.charge h fun _ => n⟩

/-- A cost that depends on the mode is respected even where the modes differ. -/
theorem respects_chargeByMode (cost : Bool → Nat) :
    M.Respects (do Exec.charge (cost (← Exec.isNative)) : Exec β Unit) := by
  intro c d h
  exact ⟨rfl, M.charge h cost⟩

/-! ### Fetching, reading and writing -/

theorem pc_eq {r r' : Registers} (h : M.alike r r') : r.pc = r'.pc :=
  M.word_eq h (n := .pc) (M.sees_base rfl)

theorem respects_jump (a : Word) : M.Respects (Exec.jump a : Exec β Unit) :=
  respects_setWord (n := .pc) (M.sees_base rfl) a

theorem respects_jumpBy (offset : Word) : M.Respects (Exec.jumpBy offset : Exec β Unit) := by
  apply respects_modifyRegs
  intro r r' h
  rw [pc_eq h]
  exact M.setWord h (n := .pc) (M.sees_base rfl) _

theorem respects_fetch : M.Respects (Exec.fetch : Exec β Byte) := by
  apply Respects.look
  intro r r' h
  refine ⟨by rw [pc_eq h], ?_⟩
  exact (respects_readByte _).bind fun v => (respects_jumpBy 1).bind fun _ => respects_pure v

theorem respects_fetchWord : M.Respects (Exec.fetchWord : Exec β Word) :=
  respects_fetch.bind fun _ => respects_fetch.bind fun _ => respects_pure _

theorem respects_readWord (a : Word) : M.Respects (Exec.readWord a : Exec β Word) :=
  (respects_readByte _).bind fun _ => (respects_readByte _).bind fun _ => respects_pure _

theorem respects_writeWord (a v : Word) : M.Respects (Exec.writeWord a v : Exec β Unit) :=
  (respects_writeByte _ _).bind fun _ => respects_writeByte _ _

end Likeness

end ColorComputer
