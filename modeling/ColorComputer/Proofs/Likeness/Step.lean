import ColorComputer.Proofs.Move

/-!
# Steps under a likeness

Like cores whose interrupt inputs agree choose the same move, so a step keeps them alike wherever
the instruction it runs does.

* `Attentive.move_eq` — like cores make the same move.
* `meets_enterInterrupt` — they enter a handler in the same way.
* `meets_runInstruction` — they run an instruction alike if the likeness permits it.
* `meets_anyInstruction` — they run any instruction alike, defined or not, if the likeness is full.
* `Attentive.step` — hence a step keeps them alike.
-/

namespace ColorComputer

namespace Core

variable {β : Type} [Bus β]

/-- The instruction at the program counter, if the opcode is defined on some part. -/
def nextInstruction? (c : Core β) : Option Instruction :=
  Opcode.decode? (Exec.fetchOpcode c).1.1 (Exec.fetchOpcode c).1.2

/-- The byte behind the opcode at the program counter. -/
def nextPostbyte (c : Core β) : Byte := (Exec.fetchOpcode c).2.nextByte

/-- The core once the opcode of an instruction was fetched and charged. -/
def begun (c : Core β) (i : Instruction) : Core β :=
  (Exec.fetchOpcode c).2.charge (i.cost (Exec.fetchOpcode c).2.cpu.native)

/-- The instruction at the program counter loads `S`. -/
def LoadsS (c : Core β) : Prop :=
  ∃ i, c.nextInstruction? = some i ∧ c.cpu.variant.executes i = true ∧
    i.loadsS c.nextPostbyte = true

/-- The instruction at the program counter stacks or unstacks the entire state, if only because it
is not defined and the part traps then. -/
def FramesNext (c : Core β) : Prop :=
  match c.nextInstruction? with
  | some i =>
    if c.cpu.variant.executes i then (c.begun i).MovesFrame i
    else c.cpu.variant.trapsUndefined = true
  | none => c.cpu.variant.trapsUndefined = true

/-- The part does not have an instruction that stands at the program counter. -/
def UnknownNext (c : Core β) : Prop :=
  ∀ i, c.nextInstruction? = some i → c.cpu.variant.executes i = false

theorem known_or_unknown (c : Core β) :
    (∃ i, c.nextInstruction? = some i ∧ c.cpu.variant.executes i = true) ∨ c.UnknownNext := by
  by_cases hk : ∃ i, c.nextInstruction? = some i ∧ c.cpu.variant.executes i = true
  · exact Or.inl hk
  · exact Or.inr fun i hn => Bool.eq_false_iff.2 fun he => hk ⟨i, hn, he⟩

/-- The instruction at the program counter writes to the mode register, if only because it is not
defined and the part traps then. -/
def RemodesNext (c : Core β) : Prop :=
  (∃ i, c.nextInstruction? = some i ∧ c.cpu.variant.executes i = true ∧ (c.begun i).Remodes i) ∨
    c.cpu.variant.trapsUndefined = true ∧ c.UnknownNext

end Core

namespace Likeness

variable {β : Type} [Bus β] {M : Likeness β}

/-- Like cores agree on everything that decides about an interrupt. -/
structure Attentive (M : Likeness β) : Prop where
  wait : ∀ {c d}, M.rel c d → c.cpu.wait = d.cpu.wait
  lines : ∀ {c d}, M.rel c d → c.cpu.lines = d.cpu.lines
  armed : ∀ {c d}, M.rel c d → c.cpu.nmiArmed = d.cpu.nmiArmed
  firqEntire : ∀ {c d}, M.rel c d →
    (c.cpu.variant.extendedRegisters && c.cpu.regs.firqEntire) =
      (d.cpu.variant.extendedRegisters && d.cpu.regs.firqEntire)
  react : ∀ {c d}, M.rel c d → ∀ lines,
    M.rel (c.mapCpu fun cpu => { cpu with lines := lines })
      (d.mapCpu fun cpu => { cpu with lines := lines })
  settle : ∀ {c d}, M.rel c d → M.rel c.settled d.settled

/-! ### Interrupts -/

/-- What an interrupt stacks. Like cores need to agree on frames of the entire state only if it
stacks one. -/
theorem respects_stackFrame (line : Interrupt) (wait : WaitState) (entire : Bool)
    (hf : wait ≠ .cwai → (line != .firq || entire) = true → M.Framed) :
    M.Respects (Exec.stackFrame line wait entire : Exec β Unit) := by
  unfold Exec.stackFrame
  split
  · exact respects_charge 7
  · rename_i hw
    split
    · rename_i he
      refine (respects_pushEntire (hf hw he)).bind fun _ => ?_
      exact respects_chargeByMode fun native => if native then 21 else 19
    · exact respects_pushShort.bind fun _ => respects_charge 10

theorem meets_stackForInterrupt (ha : M.Attentive) (line : Interrupt) (wait : WaitState)
    {c d : Core β} (h : M.rel c d)
    (hf : wait ≠ .cwai → c.cpu.stacksEntire line = true → M.Framed) :
    M.Meets (Exec.stackForInterrupt line wait : Exec β Unit) c d := by
  unfold Meets
  rw [Exec.stackForInterrupt_eq, Exec.stackForInterrupt_eq, ← ha.firqEntire h]
  exact respects_stackFrame line wait _ hf c d h

theorem meets_goToHandler (ha : M.Attentive) (line : Interrupt) (wait : WaitState)
    {c d : Core β} (h : M.rel c d)
    (hf : wait ≠ .cwai → c.cpu.stacksEntire line = true → M.Framed) :
    M.Meets (Exec.goToHandler line wait : Exec β Unit) c d := by
  refine (meets_stackForInterrupt ha line wait h hf).bind fun _ => Respects.ite ?_ ?_
  · exact respects_maskIrq.bind fun _ => respects_jumpThrough _
  · exact respects_maskBoth.bind fun _ => respects_jumpThrough _

/-- Like cores enter a handler in the same way. -/
theorem meets_enterInterrupt (ha : M.Attentive) (line : Interrupt) {c d : Core β} (h : M.rel c d)
    (hf : c.cpu.wait ≠ .cwai → c.cpu.stacksEntire line = true → M.Framed) :
    M.Meets (Exec.enterInterrupt line : Exec β Unit) c d := by
  have hr := M.stop (ha.react h (c.cpu.lines.consume line)) .running
  unfold Meets
  rw [Exec.enterInterrupt_eq, Exec.enterInterrupt_eq, ← ha.wait h, ← ha.lines h]
  exact meets_goToHandler ha line _ hr hf

/-! ### Instructions -/

theorem respects_fetchOpcode : M.Respects (Exec.fetchOpcode : Exec β (Page × Byte)) := by
  refine respects_fetch.bind fun opcode => Respects.ite ?_ (Respects.ite ?_ (respects_pure _))
  · exact respects_fetch.bind fun opcode => respects_pure _
  · exact respects_fetch.bind fun opcode => respects_pure _

theorem runInstruction_of_next {c : Core β} {i : Instruction} (hi : c.nextInstruction? = some i)
    (he : c.cpu.variant.executes i = true) :
    Exec.runInstruction c = Exec.perform i
      ((Exec.fetchOpcode c).2.charge (i.cost (Exec.fetchOpcode c).2.cpu.native)) := by
  rw [Exec.runInstruction_eq]
  refine Exec.runOpcode_of_decode hi ?_
  rw [(Exec.fetchOpcode_frame c).1]
  exact he

/-- Like cores run an instruction alike if both parts have it and the likeness permits it. -/
theorem meets_runInstruction (hf : M.Framed) {c d : Core β} (h : M.rel c d) {i : Instruction}
    (hi : c.nextInstruction? = some i) (hp : M.Permits i c.nextPostbyte)
    (hm : (c.begun i).Remodes i → M.Moded)
    (hc : c.cpu.variant.executes i = true) (hd : d.cpu.variant.executes i = true) :
    M.Meets Exec.runInstruction c d := by
  obtain ⟨hv, hr⟩ := respects_fetchOpcode c d h
  have hj : d.nextInstruction? = some i := by
    rw [← hi, Core.nextInstruction?, Core.nextInstruction?, hv]
  unfold Meets
  rw [runInstruction_of_next hi hc, runInstruction_of_next hj hd]
  exact meets_perform (M.charge hr i.cost) hp (fun _ => hf) hm

theorem meets_undefinedInstruction (behind : Bool) {c d : Core β} (h : M.rel c d)
    (hv : c.cpu.variant = d.cpu.variant)
    (hf : c.cpu.variant.trapsUndefined = true → M.Framed)
    (hm : c.cpu.variant.trapsUndefined = true → M.Moded) :
    M.Meets (Exec.undefinedInstruction behind : Exec β Unit) c d := by
  have hu : ∀ c : Core β, Exec.undefinedInstruction behind c =
      (if c.cpu.variant.trapsUndefined then Exec.trap .undefinedInstruction
        else Exec.charge (if behind then 3 else 2) : Exec β Unit) c := fun _ => rfl
  unfold Meets
  rw [hu, hu, ← hv]
  split
  · rename_i ht
    exact respects_trap (hf ht) (hm ht) _ c d h
  · exact respects_charge _ c d h

/-- Like cores of the same part run any instruction alike, defined or not. They need to agree on
frames of the entire state only if the instruction moves one, the mode register need change only if
the instruction writes to it, and `S` need be loaded only if the instruction loads it. -/
theorem meets_anyInstruction (hw : M.Full)
    (hv : ∀ {c d}, M.rel c d → c.cpu.variant = d.cpu.variant) {c d : Core β} (h : M.rel c d)
    (hf : c.FramesNext → M.Framed) (hm : c.RemodesNext → M.Moded) (ha : c.LoadsS → M.arms) :
    M.Meets (Exec.runInstruction : Exec β Unit) c d := by
  obtain ⟨ho, hr⟩ := respects_fetchOpcode c d h
  unfold Core.FramesNext Core.nextInstruction? at hf
  have hp := (Exec.fetchOpcode_frame c).1
  rw [← hp] at hf
  unfold Meets
  rw [Exec.runInstruction_eq, Exec.runInstruction_eq, ← ho, Exec.runOpcode_eq, Exec.runOpcode_eq,
    ← hv hr]
  cases hn : Opcode.decode? (Exec.fetchOpcode c).1.1 (Exec.fetchOpcode c).1.2 with
  | none =>
    rw [hn] at hf
    have hu : c.UnknownNext := fun i hi => absurd (hn.symm.trans hi) (Option.some_ne_none i).symm
    exact meets_undefinedInstruction _ hr (hv hr) hf fun ht => hm (Or.inr ⟨hp ▸ ht, hu⟩)
  | some i =>
    rw [hn] at hf
    dsimp only at hf ⊢
    split
    · rename_i he
      rw [if_pos he] at hf
      rw [hp] at he
      exact meets_perform (M.charge hr i.cost) (hw.permits fun hl => ha ⟨i, hn, he, hl⟩) hf
        fun hr => hm (Or.inl ⟨i, hn, he, hr⟩)
    · rename_i he
      rw [if_neg he] at hf
      have hu : c.UnknownNext := by
        intro j hj
        rw [← Option.some.inj (hn.symm.trans hj), ← hp]
        exact Bool.eq_false_iff.2 he
      exact meets_undefinedInstruction _ hr (hv hr) hf fun ht => hm (Or.inr ⟨hp ▸ ht, hu⟩)

/-- Like cores of the same part that agree on frames run any instruction alike. -/
theorem respects_runInstruction (hf : M.Framed) (hw : M.Whole) (ha : M.arms)
    (hv : ∀ {c d}, M.rel c d → c.cpu.variant = d.cpu.variant) :
    M.Respects (Exec.runInstruction : Exec β Unit) :=
  fun _ _ h => meets_anyInstruction hw.toFull hv h (fun _ => hf) (fun _ => hw.toModed) fun _ => ha

/-! ### Steps -/

theorem Attentive.move_eq (ha : M.Attentive) {c d : Core β} (h : M.rel c d) :
    c.cpu.move = d.cpu.move := by
  have hw : c.cpu.awake.wait = d.cpu.awake.wait := by
    unfold Cpu.awake
    rw [ha.wait h, ha.lines h]
    split
    · rfl
    · exact ha.wait h
  unfold Cpu.move
  rw [hw, ha.lines h, ha.armed h, M.cc_eq (M.regs h)]

theorem Attentive.awake (ha : M.Attentive) {c d : Core β} (h : M.rel c d) :
    M.rel (c.mapCpu Cpu.awake) (d.mapCpu Cpu.awake) := by
  have hb : (decide (d.cpu.wait = .sync) && d.cpu.lines.anyPending) =
      (decide (c.cpu.wait = .sync) && c.cpu.lines.anyPending) := by
    rw [ha.wait h, ha.lines h]
  unfold Cpu.awake Core.mapCpu
  dsimp only
  rw [hb]
  split
  · exact M.stop h .running
  · exact h

/-- A step keeps like cores alike if the instruction it may run does, and if they agree on the frame
it may stack. -/
theorem Attentive.step (ha : M.Attentive) {c d : Core β} (h : M.rel c d) (hc : c.cycles = 0)
    (hd : d.cycles = 0)
    (hf : ∀ line, c.cpu.move = .enter line → c.cpu.wait ≠ .cwai →
      c.cpu.stacksEntire line = true → M.Framed)
    (hx : c.cpu.move = .execute →
      M.Meets Exec.runInstruction (c.mapCpu Cpu.awake) (d.mapCpu Cpu.awake)) :
    M.rel (c.cpu.step c.bus) (d.cpu.step d.bus) := by
  have hs : ∀ x : Core β, x.cycles = 0 → x.cpu.step x.bus =
      (Exec.ofMove x.cpu.move (x.mapCpu Cpu.awake)).2.settled := by
    intro x hx
    rw [Cpu.step_eq]
    show _ = (Exec.ofMove x.cpu.move ⟨x.cpu.awake, x.bus, x.cycles⟩).2.settled
    rw [hx]
  rw [hs c hc, hs d hd, ← ha.move_eq h]
  refine ha.settle ?_
  cases hm : c.cpu.move with
  | enter line =>
    refine (meets_enterInterrupt ha line (ha.awake h) fun hw he => hf line hm ?_ ?_).2
    · intro hk
      exact hw (by rw [Core.mapCpu, Cpu.awake_of_cwai hk]; exact hk)
    · rwa [← Cpu.stacksEntire_awake]
  | execute => exact (hx hm).2
  | idle => exact ha.awake h

end Likeness

end ColorComputer
