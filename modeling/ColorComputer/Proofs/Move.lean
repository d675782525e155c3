import ColorComputer.Proofs.Likeness.Invariant

/-!
# What a step does

A step is one of three moves, and which one can be read off the processor before the step. Every
fact about steps is proved by these three cases and never by unfolding a step again.

* `step_enter`, `step_execute`, `step_idle` — what each move does.
* `move_eq_enter_iff`, `move_of_none` — how the choice is made.
* `cycles_step_eq_zero_iff` — a step is free exactly when it is idle.
-/

namespace ColorComputer

/-! ### The choice -/

/-- The three moves that a step can be. -/
inductive Move
  | enter (line : Interrupt)
  | execute
  | idle
  deriving DecidableEq

namespace Cpu

/-- The processor once a request ended `SYNC`. -/
def awake (cpu : Cpu) : Cpu :=
  if cpu.wait = .sync && cpu.lines.anyPending then { cpu with wait := .running } else cpu

/-- A line stacks the entire state: every line but FIRQ does, and FIRQ where MD bit 1 says so. -/
def stacksEntire (cpu : Cpu) (line : Interrupt) : Bool :=
  line != .firq || (cpu.variant.extendedRegisters && cpu.regs.firqEntire)

/-- The move that the next step makes. -/
def move (cpu : Cpu) : Move :=
  match cpu.lines.highest cpu.regs.cc cpu.nmiArmed with
  | some line => .enter line
  | none => if cpu.awake.wait = .running then .execute else .idle

theorem awake_eq_or (cpu : Cpu) : cpu.awake = cpu ∨
    cpu.wait = .sync ∧ cpu.awake = { cpu with wait := .running } := by
  unfold awake
  split
  · rename_i h
    rw [Bool.and_eq_true, decide_eq_true_eq] at h
    exact Or.inr ⟨h.1, rfl⟩
  · exact Or.inl rfl

@[simp] theorem regs_awake (cpu : Cpu) : cpu.awake.regs = cpu.regs := by
  rcases cpu.awake_eq_or with h | ⟨_, h⟩ <;> rw [h]

@[simp] theorem variant_awake (cpu : Cpu) : cpu.awake.variant = cpu.variant := by
  rcases cpu.awake_eq_or with h | ⟨_, h⟩ <;> rw [h]

@[simp] theorem lines_awake (cpu : Cpu) : cpu.awake.lines = cpu.lines := by
  rcases cpu.awake_eq_or with h | ⟨_, h⟩ <;> rw [h]

@[simp] theorem nmiArmed_awake (cpu : Cpu) : cpu.awake.nmiArmed = cpu.nmiArmed := by
  rcases cpu.awake_eq_or with h | ⟨_, h⟩ <;> rw [h]

@[simp] theorem totalCycles_awake (cpu : Cpu) : cpu.awake.totalCycles = cpu.totalCycles := by
  rcases cpu.awake_eq_or with h | ⟨_, h⟩ <;> rw [h]

theorem stacksEntire_awake (cpu : Cpu) (line : Interrupt) :
    cpu.awake.stacksEntire line = cpu.stacksEntire line := by
  rw [stacksEntire, stacksEntire, variant_awake, regs_awake]

theorem awake_of_running {cpu : Cpu} (h : cpu.wait = .running) : cpu.awake = cpu := by
  rcases cpu.awake_eq_or with he | ⟨hs, _⟩
  · exact he
  · rw [h] at hs
    exact WaitState.noConfusion hs

theorem awake_of_cwai {cpu : Cpu} (h : cpu.wait = .cwai) : cpu.awake = cpu := by
  rcases cpu.awake_eq_or with he | ⟨hs, _⟩
  · exact he
  · rw [h] at hs
    exact WaitState.noConfusion hs

theorem awake_of_idle {cpu : Cpu} (h : cpu.move = .idle) : cpu.awake = cpu := by
  rcases cpu.awake_eq_or with he | ⟨_, he⟩
  · exact he
  · exfalso
    unfold move at h
    rw [he] at h
    split at h <;> simp at h

end Cpu

/-! ### The moves -/

/-- The core with its cycles entered into the account of the processor. -/
def Core.settled {β : Type} (c : Core β) : Core β :=
  ⟨{ c.cpu with totalCycles := c.cpu.totalCycles + c.cycles }, c.bus, c.cycles⟩

namespace Exec

variable {β : Type} [Bus β]

/-- What an interrupt stacks, once it is known whether a fast one stacks the entire state. -/
def stackFrame (line : Interrupt) (wait : WaitState) (entire : Bool) :
    Exec β Unit := do
  if wait = .cwai then
    charge 7
  else if line != .firq || entire then
    pushEntire
    charge (if ← isNative then 21 else 19)
  else
    pushShort
    charge 10

/-- What is left of an entry once the request was taken. -/
def goToHandler (line : Interrupt) (wait : WaitState) : Exec β Unit := do
  stackForInterrupt line wait
  if line = .irq then maskIrq else maskBoth
  jumpThrough line.vector

theorem enterInterrupt_eq (line : Interrupt) (c : Core β) :
    enterInterrupt line c = goToHandler line c.cpu.wait
      (c.mapCpu fun cpu => { cpu with lines := c.cpu.lines.consume line, wait := .running }) := rfl

/-- Going to a handler keeps an invariant. -/
theorem kept_goToHandler {P : Core β → Prop} (hP : CoreInvariant P) (line : Interrupt)
    (wait : WaitState) : Kept P (goToHandler line wait : Exec β Unit) := by
  refine (hP.stackForInterrupt line wait).bind fun _ => ?_
  split
  · exact hP.maskIrq.bind fun _ => hP.jumpThrough _
  · exact hP.maskBoth.bind fun _ => hP.jumpThrough _

theorem stackForInterrupt_eq (line : Interrupt) (wait : WaitState) (c : Core β) :
    stackForInterrupt line wait c =
      stackFrame line wait (c.cpu.variant.extendedRegisters && c.cpu.regs.firqEntire) c := rfl

/-- Fetch an opcode with its page. -/
def fetchOpcode : Exec β (Page × Byte) := do
  let opcode ← fetch
  if opcode = 0x10 then
    return (.page10, ← fetch)
  else if opcode = 0x11 then
    return (.page11, ← fetch)
  else
    return (.base, opcode)

theorem fetchOpcode_eq (c : Core β) :
    fetchOpcode c = (if (fetch c).1 = 0x10 then
      (fetch >>= fun opcode => pure (Page.page10, opcode) : Exec β (Page × Byte))
    else if (fetch c).1 = 0x11 then fetch >>= fun opcode => pure (.page11, opcode)
    else pure (.base, (fetch c).1)) (fetch c).2 := rfl

theorem runInstruction_eq (c : Core β) :
    runInstruction c =
      runOpcode (fetchOpcode c).1.1 (fetchOpcode c).1.2 (fetchOpcode c).2 := by
  have hr : runInstruction c = (if (fetch c).1 = 0x10 then
      (fetch >>= fun opcode => runOpcode .page10 opcode : Exec β Unit)
    else if (fetch c).1 = 0x11 then fetch >>= fun opcode => runOpcode .page11 opcode
    else runOpcode .base (fetch c).1) (fetch c).2 := rfl
  rw [hr, fetchOpcode_eq]
  split
  · rfl
  · split <;> rfl

/-- An opcode that is no page byte stands on the base page. -/
theorem fetchOpcode_of_base {c : Core β} (h10 : (fetch c).1 ≠ 0x10) (h11 : (fetch c).1 ≠ 0x11) :
    fetchOpcode c = ((.base, (fetch c).1), (fetch c).2) := by
  rw [fetchOpcode_eq, if_neg h10, if_neg h11]
  rfl

/-- An instruction that is defined is charged and performed. -/
theorem runOpcode_eq (page : Page) (opcode : Byte) (c : Core β) :
    runOpcode page opcode c = (match Opcode.decode? page opcode with
      | some instruction =>
        if c.cpu.variant.executes instruction then (do
          charge (instruction.cost c.cpu.native)
          perform instruction : Exec β Unit)
        else undefinedInstruction (page != Page.base)
      | none => undefinedInstruction (page != Page.base)) c := rfl

theorem runOpcode_of_decode {page : Page} {opcode : Byte} {i : Instruction}
    (hd : Opcode.decode? page opcode = some i) {c : Core β}
    (he : c.cpu.variant.executes i = true) :
    runOpcode page opcode c = perform i (c.charge (i.cost c.cpu.native)) := by
  rw [runOpcode_eq, hd]
  dsimp only
  rw [if_pos he]
  rfl

/-- Fetching an opcode changes neither the part nor the lines. -/
theorem fetchOpcode_frame (c : Core β) :
    (fetchOpcode c).2.cpu.variant = c.cpu.variant ∧ (fetchOpcode c).2.cpu.lines = c.cpu.lines := by
  have hP : CoreInvariant fun d : Core β => d.cpu.variant = c.cpu.variant ∧
      d.cpu.lines = c.cpu.lines ∧ d.cpu.totalCycles = c.cpu.totalCycles := frame_eq _ _ _
  have hk : Kept (fun d : Core β => d.cpu.variant = c.cpu.variant ∧
      d.cpu.lines = c.cpu.lines ∧ d.cpu.totalCycles = c.cpu.totalCycles) fetchOpcode := by
    refine hP.fetch.bind fun opcode => ?_
    split
    · exact hP.fetch.bind fun _ => kept_pure _
    · split
      · exact hP.fetch.bind fun _ => kept_pure _
      · exact kept_pure _
  obtain ⟨hv, hl, _⟩ := hk c ⟨rfl, rfl, rfl⟩
  exact ⟨hv, hl⟩

/-- What is done in a move. -/
def ofMove : Move → Exec β Unit
  | .enter line => enterInterrupt line
  | .execute => runInstruction
  | .idle => pure ()

/-- A move keeps an invariant that does not depend on the lines. -/
theorem kept_ofMove {P : Core β → Prop} (hP : CoreInvariant P)
    (hl : ∀ {c}, P c → ∀ lines, P (c.mapCpu fun cpu => { cpu with lines := lines }))
    (move : Move) : Kept P (ofMove move : Exec β Unit) := by
  cases move with
  | enter line =>
    intro c h
    show P (enterInterrupt line c).2
    rw [enterInterrupt_eq]
    exact kept_goToHandler hP line _ _ (hP.cpu (hl h (c.cpu.lines.consume line)) _ rfl rfl rfl)
  | execute => exact hP.runInstruction
  | idle => exact kept_pure ()

theorem act_eq (c : Core β) : act c = ofMove c.cpu.move (c.mapCpu Cpu.awake) := by
  have h : act c = (match c.cpu.awake.lines.highest c.cpu.awake.regs.cc c.cpu.awake.nmiArmed with
      | some line => (enterInterrupt line : Exec β Unit)
      | none => if c.cpu.awake.wait = WaitState.running then runInstruction else pure ())
      (c.mapCpu Cpu.awake) := rfl
  rw [h, Cpu.lines_awake, Cpu.regs_awake, Cpu.nmiArmed_awake]
  unfold Cpu.move
  cases c.cpu.lines.highest c.cpu.regs.cc c.cpu.nmiArmed with
  | some line => rfl
  | none =>
    show (if c.cpu.awake.wait = WaitState.running then (runInstruction : Exec β Unit) else pure ())
      (c.mapCpu Cpu.awake) = _
    dsimp only
    split <;> rfl

end Exec

namespace Cpu

variable {β : Type} [Bus β]

theorem step_eq (cpu : Cpu) (bus : β) :
    cpu.step bus = (Exec.ofMove cpu.move ⟨cpu.awake, bus, 0⟩).2.settled := by
  have h : cpu.step bus = (Exec.act ⟨cpu, bus, 0⟩).2.settled := rfl
  rw [h, Exec.act_eq]
  rfl

theorem step_enter {cpu : Cpu} {line : Interrupt} (h : cpu.move = .enter line) (bus : β) :
    cpu.step bus = (Exec.enterInterrupt line ⟨cpu.awake, bus, 0⟩).2.settled := by
  rw [step_eq, h]
  rfl

theorem step_execute {cpu : Cpu} (h : cpu.move = .execute) (bus : β) :
    cpu.step bus = (Exec.runInstruction ⟨cpu.awake, bus, 0⟩).2.settled := by
  rw [step_eq, h]
  rfl

/-- An idle step changes nothing and costs nothing. -/
theorem step_idle {cpu : Cpu} (h : cpu.move = .idle) (bus : β) : cpu.step bus = ⟨cpu, bus, 0⟩ := by
  rw [step_eq, h, awake_of_idle h]
  rfl

theorem move_eq_enter_iff (cpu : Cpu) (line : Interrupt) :
    cpu.move = .enter line ↔ cpu.lines.highest cpu.regs.cc cpu.nmiArmed = some line := by
  unfold move
  split
  · rename_i l hl
    rw [hl, Move.enter.injEq, Option.some.injEq]
  · rename_i hn
    rw [hn]
    split <;> simp

theorem move_of_none {cpu : Cpu} (h : cpu.lines.highest cpu.regs.cc cpu.nmiArmed = none) :
    cpu.move = if cpu.awake.wait = .running then .execute else .idle := by
  unfold move
  rw [h]

/-- A processor without requests that does not wait runs an instruction. -/
theorem move_of_quiet {cpu : Cpu} (hp : cpu.lines.anyPending = false) (hw : cpu.wait = .running) :
    cpu.move = .execute := by
  have hn : cpu.lines.highest cpu.regs.cc cpu.nmiArmed = none := by
    simp only [InterruptLines.anyPending, Bool.or_eq_false_iff] at hp
    obtain ⟨⟨h1, h2⟩, h3⟩ := hp
    simp [InterruptLines.highest, InterruptLines.ready, InterruptLines.get, h1, h2, h3]
  rw [move_of_none hn, awake_of_running hw]
  exact if_pos hw

end Cpu

/-! ### Lines -/

namespace Cpu

variable {β : Type} [Bus β]

/-- An entry takes its own request off and touches no other line. -/
theorem lines_step_enter {cpu : Cpu} {line : Interrupt} (h : cpu.move = .enter line) (bus : β) :
    (cpu.step bus).cpu.lines = cpu.lines.consume line := by
  have hP : CoreInvariant fun c : Core β => c.cpu.variant = cpu.variant ∧
      c.cpu.lines = cpu.lines.consume line ∧ c.cpu.totalCycles = cpu.totalCycles := frame_eq _ _ _
  rw [step_enter h, Exec.enterInterrupt_eq]
  refine (Exec.kept_goToHandler hP line _ _
    ⟨variant_awake cpu, ?_, totalCycles_awake cpu⟩).2.1
  exact congrArg (·.consume line) (lines_awake cpu)

/-- An instruction touches no line. -/
theorem lines_step_execute {cpu : Cpu} (h : cpu.move = .execute) (bus : β) :
    (cpu.step bus).cpu.lines = cpu.lines := by
  have hP : CoreInvariant fun c : Core β => c.cpu.variant = cpu.variant ∧
      c.cpu.lines = cpu.lines ∧ c.cpu.totalCycles = cpu.totalCycles := frame_eq _ _ _
  rw [step_execute h]
  exact (hP.runInstruction ⟨cpu.awake, bus, 0⟩
    ⟨variant_awake cpu, lines_awake cpu, totalCycles_awake cpu⟩).2.1

end Cpu

/-! ### Costs -/

section Spends

variable {β α γ : Type}

/-- An action that charges at least so many cycles. -/
def Spends (n : Nat) (x : Exec β α) : Prop := ∀ c, c.cycles + n ≤ (x c).2.cycles

/-- What comes after a charge gives nothing back. -/
theorem Spends.first {n : Nat} {x : Exec β α} {f : α → Exec β γ} (hx : Spends n x)
    (hf : ∀ a, Spends 0 (f a)) : Spends n (x >>= f) := by
  intro c
  have h1 := hx c
  have h2 := hf (x c).1 (x c).2
  show c.cycles + n ≤ (f (x c).1 (x c).2).2.cycles
  omega

/-- What comes before a charge gives nothing back. -/
theorem Spends.last {n : Nat} {x : Exec β α} {f : α → Exec β γ} (hx : Spends 0 x)
    (hf : ∀ a, Spends n (f a)) : Spends n (x >>= f) := by
  intro c
  have h1 := hx c
  have h2 := hf (x c).1 (x c).2
  show c.cycles + n ≤ (f (x c).1 (x c).2).2.cycles
  omega

theorem Spends.mono {m n : Nat} {x : Exec β α} (hx : Spends n x) (h : m ≤ n) : Spends m x := by
  intro c
  have h1 := hx c
  omega

theorem spends_of_kept {x : Exec β α} (hx : ∀ n, Kept (fun c => n ≤ c.cycles) x) : Spends 0 x :=
  fun c => hx c.cycles c (Nat.le_refl _)

theorem spends_charge (n : Nat) : Spends n (Exec.charge n : Exec β Unit) :=
  fun c => Nat.le_refl (c.cycles + n)

theorem spends_chargeByMode {n : Nat} (cost : Bool → Nat) (h : ∀ native, n ≤ cost native) :
    Spends n (do Exec.charge (cost (← Exec.isNative)) : Exec β Unit) := by
  intro c
  have h1 := h c.cpu.native
  show c.cycles + n ≤ c.cycles + cost c.cpu.native
  omega

theorem spends_modifyCpu (f : Cpu → Cpu) : Spends 0 (Exec.modifyCpu f : Exec β Unit) :=
  fun c => Nat.le_refl c.cycles

theorem spends_processor : Spends 0 (Exec.processor : Exec β Cpu) := fun c => Nat.le_refl c.cycles

end Spends

namespace Exec

variable {β : Type} [Bus β]

theorem spends_perform (i : Instruction) : Spends 0 (perform i : Exec β Unit) :=
  spends_of_kept fun n => (le_cycles n).perform i

theorem spends_fetch : Spends 0 (fetch : Exec β Byte) :=
  spends_of_kept fun n => (le_cycles n).fetch

theorem spends_pushEntire : Spends 0 (pushEntire : Exec β Unit) :=
  spends_of_kept fun n => (le_cycles n).pushEntire

theorem spends_maskBoth : Spends 0 (maskBoth : Exec β Unit) :=
  spends_of_kept fun n => (le_cycles n).maskBoth

theorem spends_jumpThrough (vector : Word) : Spends 0 (jumpThrough vector : Exec β Unit) :=
  spends_of_kept fun n => (le_cycles n).jumpThrough vector

theorem spends_trap (reason : Trap) : Spends 20 (trap reason : Exec β Unit) := by
  refine (spends_modifyCpu _).last fun _ => spends_pushEntire.last fun _ => ?_
  refine spends_maskBoth.last fun _ => (spends_jumpThrough _).last fun _ => ?_
  exact spends_chargeByMode (fun native => if native then 22 else 20) (by decide)

theorem spends_undefinedInstruction (behind : Bool) :
    Spends 1 (undefinedInstruction behind : Exec β Unit) := by
  refine spends_processor.last fun cpu => ?_
  split
  · exact (spends_trap _).mono (by omega)
  · exact (spends_charge _).mono (by cases behind <;> decide)

theorem spends_runOpcode (page : Page) (opcode : Byte) :
    Spends 1 (runOpcode page opcode : Exec β Unit) := by
  refine spends_processor.last fun cpu => ?_
  split
  · rename_i i _
    split
    · refine ((spends_charge _).mono ?_).first fun _ => spends_perform i
      exact Instruction.cost_pos cpu.native i
    · exact spends_undefinedInstruction _
  · exact spends_undefinedInstruction _

/-- No instruction is free. -/
theorem spends_runInstruction : Spends 1 (runInstruction : Exec β Unit) := by
  refine spends_fetch.last fun opcode => ?_
  split
  · exact spends_fetch.last fun opcode => spends_runOpcode _ opcode
  · split
    · exact spends_fetch.last fun opcode => spends_runOpcode _ opcode
    · exact spends_runOpcode _ opcode

theorem spends_stackForInterrupt (line : Interrupt) (wait : WaitState) :
    Spends 7 (stackForInterrupt line wait : Exec β Unit) := by
  refine spends_processor.last fun cpu => ?_
  split
  · exact spends_charge 7
  · split
    · refine spends_pushEntire.last fun _ => ?_
      exact spends_chargeByMode (fun native => if native then 21 else 19) (by decide)
    · refine Spends.last (spends_of_kept fun n => (le_cycles n).pushShort) fun _ => ?_
      exact (spends_charge 10).mono (by omega)

/-- Entering a handler is not free. -/
theorem spends_enterInterrupt (line : Interrupt) :
    Spends 7 (enterInterrupt line : Exec β Unit) := by
  refine spends_processor.last fun cpu => (spends_modifyCpu _).last fun _ => ?_
  refine (spends_stackForInterrupt line cpu.wait).first fun _ => ?_
  split
  · exact Spends.last (spends_of_kept fun n => (le_cycles n).maskIrq) fun _ => spends_jumpThrough _
  · exact spends_maskBoth.last fun _ => spends_jumpThrough _

end Exec

namespace Cpu

variable {β : Type} [Bus β]

/-- Only an idle step is free. -/
theorem cycles_step_eq_zero_iff (cpu : Cpu) (bus : β) :
    (cpu.step bus).cycles = 0 ↔ cpu.move = .idle := by
  constructor
  · intro h
    cases hm : cpu.move with
    | idle => rfl
    | enter line =>
      rw [step_enter hm] at h
      have hs : 0 + 7 ≤ _ := Exec.spends_enterInterrupt line ⟨cpu.awake, bus, 0⟩
      have hz : (Exec.enterInterrupt line ⟨cpu.awake, bus, 0⟩).2.cycles = 0 := h
      omega
    | execute =>
      rw [step_execute hm] at h
      have hs : 0 + 1 ≤ _ := Exec.spends_runInstruction ⟨cpu.awake, bus, 0⟩
      have hz : (Exec.runInstruction ⟨cpu.awake, bus, 0⟩).2.cycles = 0 := h
      omega
  · intro h
    rw [step_idle h]

end Cpu

end ColorComputer
