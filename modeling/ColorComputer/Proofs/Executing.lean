import ColorComputer.Proofs.Store

/-!
# Steps that run an instruction

What all instructions have in common before they do their own work: how long their opcode is, in
which state they find the processor, and what the search for an operand moves.

* `page_of_decode` — some instructions stand on one page only.
* `regs_begun_of_page` — so it is known how far the program counter is behind their opcode.
* `regs_found_operand` — to find an operand moves the program counter and at most an index register.
* `regs_step_of_executes` — a step leaves the registers that its instruction leaves.
-/

namespace ColorComputer

theorem Word.add_one_add_one (a : Word) : a + 1 + 1 = a + 2 := BitVec.add_assoc _ _ _

/-! ### Pages -/

/-- The page of an instruction that stands on one only. -/
def Instruction.page? : Instruction → Option Page
  | branch _ | tfr | exg => some .base
  | longBranch _ => some .page10
  | blockTransfer _ => some .page11
  | _ => none

theorem Opcode.page_of_decode {page page' : Page} {opcode : Byte} {i : Instruction}
    (hd : decode? page opcode = some i) (hp : i.page? = some page') : page = page' := by
  have hall : ∀ opcode : Byte, ((decode? page opcode).all fun i =>
      i.page?.all fun page' => decide (page = page')) = true := by
    cases page <;> decide +kernel
  have h := hall opcode
  rw [hd, Option.all_some, hp] at h
  exact of_decide_eq_true h

/-! ### Operands -/

namespace Operand

/-- The registers once the operand was found, the first byte that describes it given; the program
counter apart. -/
def move (variant : Variant) (post : Byte) : Operand → Registers → Registers
  | .memory .indexed, r => (Postbyte.decode variant post).form.move r
  | _, r => r

/-- The register moves while the operand is found. -/
def Moves (variant : Variant) (post : Byte) (operand : Operand) (name : WordRegister) : Prop :=
  operand = .memory .indexed ∧ (Postbyte.decode variant post).form.moved? = some name

theorem move_pc (variant : Variant) (post : Byte) (operand : Operand) (r : Registers) (pc : Word) :
    operand.move variant post { r with pc := pc } =
      { operand.move variant post r with pc := pc } := by
  cases operand with
  | immediate => rfl
  | memory mode =>
    cases mode with
    | indexed => exact IndexForm.move_pc (Fetched.moved_ne_pc variant post) r pc
    | direct | extended => rfl

theorem word_move {variant : Variant} {post : Byte} {operand : Operand} {name : WordRegister}
    (h : ¬ operand.Moves variant post name) (r : Registers) :
    (operand.move variant post r).word name = r.word name := by
  cases operand with
  | immediate => rfl
  | memory mode =>
    cases mode with
    | direct | extended => rfl
    | indexed =>
      show ((Postbyte.decode variant post).form.move r).word name = r.word name
      cases hm : (Postbyte.decode variant post).form.movesBy? with
      | none => rw [IndexForm.move_of_still hm]
      | some change =>
        have hb : name ≠ change.1 := by
          rintro rfl
          exact h ⟨rfl, by rw [IndexForm.moved?_eq, hm]; rfl⟩
        rw [IndexForm.move_of_movesBy? hm, r.word_setWord_of_ne _ hb]

end Operand

variable {β : Type} [Bus β]

namespace Exec

/-- To find the operand moves the registers that it moves, and the program counter. -/
def Finds {α : Type} (operand : Operand) (x : Exec β α) : Prop :=
  ∀ c, (x c).2.cpu.regs =
    { operand.move c.cpu.variant c.nextByte c.cpu.regs with pc := (x c).2.cpu.regs.pc }

theorem finds_operandByte (operand : Operand) :
    Finds operand (operandByte operand : Exec β Byte) := by
  intro c
  cases operand with
  | immediate => rfl
  | memory mode =>
    cases mode with
    | direct | extended => rfl
    | indexed => exact regs_indexedAddress c

theorem finds_operandWord (operand : Operand) :
    Finds operand (operandWord operand : Exec β Word) := by
  intro c
  cases operand with
  | immediate => rfl
  | memory mode =>
    cases mode with
    | direct | extended => rfl
    | indexed => exact regs_indexedAddress c

end Exec

/-! ### Steps -/

/-- To fetch an opcode changes the registers of the processor only. -/
theorem Exec.cpu_fetchOpcode (c : Core β) :
    (fetchOpcode c).2.cpu = { c.cpu with regs := (fetchOpcode c).2.cpu.regs } := by
  rw [fetchOpcode_eq]
  split
  · rfl
  · split <;> rfl

namespace Cpu

variable {cpu : Cpu} {bus : β} {i : Instruction} {post : Byte}

/-- An instruction that stands on one page only finds the program counter behind its opcode. -/
theorem regs_begun_of_page (h : cpu.Executes bus i post) {page : Page} (hp : i.page? = some page) :
    ((⟨cpu.awake, bus, 0⟩ : Core β).begun i).cpu.regs =
      { cpu.regs with pc := cpu.regs.pc + BitVec.ofNat 16 page.length } := by
  have hl : (⟨cpu.awake, bus, 0⟩ : Core β).opcodeLength = page.length :=
    congrArg Page.length (Opcode.page_of_decode h.next hp)
  show (Exec.fetchOpcode (⟨cpu.awake, bus, 0⟩ : Core β)).2.cpu.regs = _
  rw [Exec.regs_fetchOpcode, hl]
  simp only [regs_awake]

/-- What the instruction of a step makes of the registers. -/
theorem regs_step_of_executes (h : cpu.Executes bus i post) :
    (cpu.step bus).cpu.regs =
      (Exec.perform i ((⟨cpu.awake, bus, 0⟩ : Core β).begun i)).2.cpu.regs := by
  rw [step_of_executes h]
  rfl

/-- The registers when an instruction has found its operand. -/
theorem regs_found_operand (h : cpu.Executes bus i post) {α : Type} {operand : Operand}
    {x : Exec β α} (hx : Exec.Finds operand x) :
    ∃ pc, (x ((⟨cpu.awake, bus, 0⟩ : Core β).begun i)).2.cpu.regs =
      { operand.move cpu.variant post cpu.regs with pc := pc } := by
  obtain ⟨hd, hv, hp⟩ := begun_of_executes h
  have hr := hx ((⟨cpu.awake, bus, 0⟩ : Core β).begun i)
  rw [hv, hp, hd, Operand.move_pc] at hr
  exact ⟨_, hr⟩

end Cpu

end ColorComputer
