import ColorComputer.Proofs.Executing
import ColorComputer.Proofs.Limbs

/-!
# Comparisons and branches

A comparison subtracts and keeps nothing but the codes; a branch looks at nothing but the codes. The
two know nothing of each other, and together they decide how the numbers compare: equality by Z, the
order of unsigned numbers by C, and the order of signed ones by N, which is wrong exactly when the
difference does not fit, and V, which tells so.

* `Comparison.holds_condition_iff` — after a subtraction a condition says how the numbers compare.
* `Exec.regs_branch`, `Exec.regs_longBranch` — where a branch goes.
* `Cpu.compare_branch` — a step that compares, and any later step that branches on its codes.
-/

namespace ColorComputer

/-- How two numbers compare, as far as a branch may ask. -/
inductive Comparison
  | higher | lowerOrSame | higherOrSame | lower
  | greater | lessOrEqual | greaterOrEqual | less
  | notEqual | equal
  deriving DecidableEq

namespace Comparison

variable {w : Nat}

/-- The numbers compare like that, in the first row as unsigned and in the second as signed ones. -/
def Holds (c : Comparison) (r m : BitVec w) : Prop :=
  match c with
  | higher => r.toNat > m.toNat
  | lowerOrSame => r.toNat ≤ m.toNat
  | higherOrSame => r.toNat ≥ m.toNat
  | lower => r.toNat < m.toNat
  | greater => r.toInt > m.toInt
  | lessOrEqual => r.toInt ≤ m.toInt
  | greaterOrEqual => r.toInt ≥ m.toInt
  | less => r.toInt < m.toInt
  | notEqual => r ≠ m
  | equal => r = m

instance (c : Comparison) (r m : BitVec w) : Decidable (c.Holds r m) :=
  match c with
  | higher => inferInstanceAs (Decidable (r.toNat > m.toNat))
  | lowerOrSame => inferInstanceAs (Decidable (r.toNat ≤ m.toNat))
  | higherOrSame => inferInstanceAs (Decidable (r.toNat ≥ m.toNat))
  | lower => inferInstanceAs (Decidable (r.toNat < m.toNat))
  | greater => inferInstanceAs (Decidable (r.toInt > m.toInt))
  | lessOrEqual => inferInstanceAs (Decidable (r.toInt ≤ m.toInt))
  | greaterOrEqual => inferInstanceAs (Decidable (r.toInt ≥ m.toInt))
  | less => inferInstanceAs (Decidable (r.toInt < m.toInt))
  | notEqual => inferInstanceAs (Decidable (r ≠ m))
  | equal => inferInstanceAs (Decidable (r = m))

/-- The condition of the branches that ask for it. -/
def condition : Comparison → Condition
  | higher => .higher
  | lowerOrSame => .lowerOrSame
  | higherOrSame => .carryClear
  | lower => .carrySet
  | greater => .greater
  | lessOrEqual => .lessOrEqual
  | greaterOrEqual => .greaterOrEqual
  | less => .less
  | notEqual => .notEqual
  | equal => .equal

/-- The opcode of the branches that ask for it, the short one on the base page and the long one
behind $10. -/
def opcode : Comparison → Byte
  | higher => 0x22
  | lowerOrSame => 0x23
  | higherOrSame => 0x24
  | lower => 0x25
  | notEqual => 0x26
  | equal => 0x27
  | greaterOrEqual => 0x2C
  | less => 0x2D
  | greater => 0x2E
  | lessOrEqual => 0x2F

end Comparison

theorem Opcode.decode?_comparison (c : Comparison) :
    decode? .base c.opcode = some (.branch c.condition) ∧
      decode? .page10 c.opcode = some (.longBranch c.condition) := by
  cases c <;> decide

/-! ### The codes of a difference -/

namespace Arithmetic

variable {w : Nat} (cc : ConditionCodes) (r m : BitVec w)

theorem zero_sub_iff : (sub cc r m false).2.zero = true ↔ r = m := by
  have hz : (sub cc r m false).2.zero = (r - m - BitVec.ofNat w 0 == 0) := rfl
  rw [hz, beq_iff_eq, BitVec.ofNat_eq_ofNat, BitVec.sub_zero, BitVec.sub_eq_iff_eq_add,
    BitVec.zero_add]

theorem carry_sub_iff : (sub cc r m false).2.carry = true ↔ r.toNat < m.toNat := by
  rw [carry_sub, decide_eq_true_iff, Bool.toNat_false, Nat.add_zero]

/-- N is the sign of the difference unless the difference does not fit; then V is set. -/
theorem negative_sub_iff (hw : 0 < w) :
    ((sub cc r m false).2.negative != (sub cc r m false).2.overflow) = true ↔
      r.toInt < m.toInt := by
  have hn : (sub cc r m false).2.negative = (sub cc r m false).1.msb := rfl
  have hv : (sub cc r m false).2.overflow =
    (r.msb != m.msb && r.msb != (sub cc r m false).1.msb) := rfl
  have hsum := sum_sub cc r m false
  have hc := carry_sub cc r m false
  have hr := signed_cases hw r
  have hm := signed_cases hw m
  have hd := signed_cases hw (sub cc r m false).1
  rw [hn, hv]
  rw [hc, two_pow_pred hw] at hsum
  generalize (sub cc r m false).1 = d at *
  generalize 2 ^ (w - 1) = half at *
  -- the borrow settles where the difference lies, the signs where the numbers do
  by_cases hlt : r.toNat < m.toNat <;>
    simp only [Bool.toNat_false, Nat.add_zero, hlt, decide_true, decide_false, Bool.toNat_true]
      at hsum <;>
    obtain ⟨hr, hrv, _⟩ | ⟨hr, hrv, _, _⟩ := hr <;>
    obtain ⟨hm, hmv, _⟩ | ⟨hm, hmv, _, _⟩ := hm <;>
    obtain ⟨hd, _, _⟩ | ⟨hd, _, _, _⟩ := hd <;>
    simp [hr, hm, hd, hrv, hmv] <;> omega

end Arithmetic

/-- After a comparison a condition says how the numbers compare. -/
theorem Comparison.holds_condition_iff {w : Nat} (hw : 0 < w) (c : Comparison)
    (cc : ConditionCodes) (r m : BitVec w) :
    c.condition.holds (Binary.cmp.apply cc r m).2 = true ↔ c.Holds r m := by
  have hz := Arithmetic.zero_sub_iff cc r m
  have hzu := hz.trans BitVec.toNat_inj.symm
  have hzs := hz.trans BitVec.toInt_inj.symm
  have hc := Arithmetic.carry_sub_iff cc r m
  have hs := Arithmetic.negative_sub_iff cc r m hw
  show c.condition.holds (Arithmetic.sub cc r m false).2 = true ↔ _
  generalize (Arithmetic.sub cc r m false).2 = codes at *
  have hns : (codes.negative == codes.overflow) = true ↔ ¬ r.toInt < m.toInt := by
    rw [← hs, bne]
    simp
  cases c with
  | lower => exact hc
  | less => exact hs
  | equal => exact hz
  | notEqual => simp [condition, Condition.holds, Holds, ← hz]
  | higher | lowerOrSame | higherOrSame =>
    simp only [condition, Condition.holds, Holds, Bool.not_eq_true', Bool.or_eq_true,
      ← Bool.not_eq_true, hzu, hc]
    omega
  | greater | lessOrEqual | greaterOrEqual =>
    simp only [condition, Condition.holds, Holds, Bool.not_eq_true', Bool.or_eq_true,
      Bool.and_eq_true, ← Bool.not_eq_true, hzs, hs, hns]
    omega

/-! ### What is compared -/

namespace RegisterName

/-- The bits of the register. -/
def width : RegisterName → Nat
  | byte _ => 8
  | word _ => 16

/-- The content of the register. -/
def content (r : Registers) : (name : RegisterName) → BitVec name.width
  | byte name => r.byte name
  | word name => r.word name

/-- The instruction that compares the register with an operand. -/
def comparison (operand : Operand) : RegisterName → Instruction
  | byte name => .binaryByte .cmp name operand
  | word name => .binaryWord .cmp name operand

theorem width_pos (name : RegisterName) : 0 < name.width := by
  cases name with
  | byte _ => exact Nat.succ_pos 7
  | word _ => exact Nat.succ_pos 15

end RegisterName

variable {β : Type} [Bus β]

namespace Exec

/-- The operand that is compared with a register. -/
def operandFor (operand : Operand) : (name : RegisterName) → Exec β (BitVec name.width)
  | .byte _ => operandByte operand
  | .word _ => operandWord operand

theorem finds_operandFor (operand : Operand) (name : RegisterName) :
    Finds operand (operandFor operand name : Exec β (BitVec name.width)) := by
  cases name with
  | byte _ => exact finds_operandByte operand
  | word _ => exact finds_operandWord operand

/-- A comparison changes the codes only, once it found its operand. -/
theorem regs_comparison (operand : Operand) (name : RegisterName) (c : Core β) :
    let found := operandFor operand name c
    (perform (name.comparison operand) c).2.cpu.regs =
      { found.2.cpu.regs with
        cc := (Binary.cmp.apply found.2.cpu.regs.cc (name.content found.2.cpu.regs) found.1).2 } := by
  cases name <;> rfl

/-! ### Where branches go -/

theorem regs_branch (condition : Condition) (c : Core β) :
    (branch condition c).2.cpu.regs = { c.cpu.regs with
      pc := if condition.holds c.cpu.regs.cc then c.cpu.regs.pc + 1 + Word.ofSigned c.nextByte
        else c.cpu.regs.pc + 1 } := by
  have hb : branch condition c = (if condition.holds c.cpu.regs.cc then
      jumpBy (Word.ofSigned c.nextByte) else pure () : Exec β Unit) (fetch c).2 := rfl
  rw [hb]
  by_cases h : condition.holds c.cpu.regs.cc = true
  · rw [if_pos h, if_pos h]
    rfl
  · rw [if_neg h, if_neg h]
    rfl

theorem regs_longBranch (condition : Condition) (c : Core β) :
    (longBranch condition c).2.cpu.regs = { c.cpu.regs with
      pc := if condition.holds c.cpu.regs.cc then c.cpu.regs.pc + 2 + (fetchWord c).1
        else c.cpu.regs.pc + 2 } := by
  have hb : longBranch condition c = (if condition.holds c.cpu.regs.cc then
      (do jumpBy (fetchWord c).1; charge (if ← isNative then 0 else 1)) else pure () :
        Exec β Unit) (fetchWord c).2 := rfl
  rw [hb, ← Word.add_one_add_one]
  by_cases h : condition.holds c.cpu.regs.cc = true
  · rw [if_pos h, if_pos h]
    rfl
  · rw [if_neg h, if_neg h]
    rfl

end Exec

/-! ### Steps -/

namespace Cpu

variable {cpu : Cpu} {bus : β}

/-- Where a step goes that branches. -/
theorem regs_step_branch {condition : Condition} {offset : Byte}
    (h : cpu.Executes bus (.branch condition) offset) :
    (cpu.step bus).cpu.regs = { cpu.regs with
      pc := if condition.holds cpu.regs.cc then cpu.regs.pc + 2 + Word.ofSigned offset
        else cpu.regs.pc + 2 } := by
  have hpost : ((⟨cpu.awake, bus, 0⟩ : Core β).begun (.branch condition)).nextByte = offset :=
    h.post
  rw [regs_step_of_executes h]
  show (Exec.branch condition _).2.cpu.regs = _
  rw [Exec.regs_branch, regs_begun_of_page h rfl, hpost, ← Word.add_one_add_one]
  rfl

theorem regs_step_longBranch {condition : Condition} {post : Byte}
    (h : cpu.Executes bus (.longBranch condition) post) :
    let offset := (Exec.fetchWord ((⟨cpu.awake, bus, 0⟩ : Core β).begun (.longBranch condition))).1
    (cpu.step bus).cpu.regs = { cpu.regs with
      pc := if condition.holds cpu.regs.cc then cpu.regs.pc + 4 + offset
        else cpu.regs.pc + 4 } := by
  have h4 : cpu.regs.pc + 2 + 2 = cpu.regs.pc + 4 := BitVec.add_assoc _ _ _
  intro offset
  rw [regs_step_of_executes h]
  show (Exec.longBranch condition _).2.cpu.regs = _
  rw [Exec.regs_longBranch, regs_begun_of_page h rfl, ← h4]
  rfl

/-- **A comparison and a branch decide how two numbers compare.** The step that compares moves what
its operand moves, and it changes the program counter and the codes, but no other register. Any step
that branches, short or long, while those codes stand goes behind its instruction, and from there by
its offset exactly if the register, as it was once the operand was found, and the operand compare as
the branch asks. -/
theorem compare_branch (cpu : Cpu) (bus : β) :
    (∀ c : Comparison, Opcode.decode? .base c.opcode = some (.branch c.condition) ∧
      Opcode.decode? .page10 c.opcode = some (.longBranch c.condition)) ∧
    ∀ name operand post, cpu.Executes bus (name.comparison operand) post →
      let found := Exec.operandFor operand name
        ((⟨cpu.awake, bus, 0⟩ : Core β).begun (name.comparison operand))
      let compared := (cpu.step bus).cpu.regs
      found.2.cpu.regs = { operand.move cpu.variant post cpu.regs with pc := compared.pc } ∧
      compared = { found.2.cpu.regs with cc := compared.cc } ∧
      ∀ (c : Comparison) (later : Cpu) (bus' : β), later.regs.cc = compared.cc →
        (∀ offset, later.Executes bus' (.branch c.condition) offset →
          (later.step bus').cpu.regs = { later.regs with
            pc := if c.Holds (name.content found.2.cpu.regs) found.1
              then later.regs.pc + 2 + Word.ofSigned offset else later.regs.pc + 2 }) ∧
        ∀ first, later.Executes bus' (.longBranch c.condition) first →
          let offset := (Exec.fetchWord
            ((⟨later.awake, bus', 0⟩ : Core β).begun (.longBranch c.condition))).1
          (later.step bus').cpu.regs = { later.regs with
            pc := if c.Holds (name.content found.2.cpu.regs) found.1
              then later.regs.pc + 4 + offset else later.regs.pc + 4 } := by
  refine ⟨Opcode.decode?_comparison, ?_⟩
  intro name operand post h found compared
  have hr : compared = { found.2.cpu.regs with
      cc := (Binary.cmp.apply found.2.cpu.regs.cc (name.content found.2.cpu.regs) found.1).2 } :=
    (regs_step_of_executes h).trans (Exec.regs_comparison operand name _)
  obtain ⟨pc, hf⟩ := regs_found_operand h (Exec.finds_operandFor operand name)
  have hpc : compared.pc = pc := by
    rw [hr]
    exact congrArg Registers.pc hf
  refine ⟨by rw [hpc]; exact hf, by rw [hr], ?_⟩
  intro c later bus' hcc
  have hholds : c.condition.holds later.regs.cc = true ↔
      c.Holds (name.content found.2.cpu.regs) found.1 := by
    rw [hcc, hr]
    exact c.holds_condition_iff name.width_pos _ _ _
  refine ⟨fun offset hb => ?_, fun first hb => ?_⟩
  · rw [regs_step_branch hb]
    simp only [hholds]
  · rw [regs_step_longBranch hb]
    simp only [hholds]

/-- A processor that holds the highest signed number in `X`. -/
def comparing : Cpu := { fresh .motorola with regs := { Registers.zeros with x := 0x7FFF } }

/-- It is greater than the lowest one, and not higher: of two branches the first is taken. -/
theorem compare_branch_comparing :
    let bus := FlatMemory.beginning [0x8C, 0x80, 0x00, 0x2E, 0x01, 0x12, 0x10, 0x22, 0x01, 0x00]
      (by decide)
    let compared := comparing.step bus
    let branched := compared.cpu.step compared.bus
    branched.cpu.regs = { compared.cpu.regs with pc := 0x0005 + Word.ofSigned 0x01 } ∧
      (branched.cpu.step branched.bus).cpu.regs = { branched.cpu.regs with pc := 0x000A } := by
  intro bus compared branched
  have hc : comparing.Executes bus ((RegisterName.word .x).comparison .immediate) 0x80 :=
    ⟨by decide, by decide +kernel, by decide, by decide +kernel⟩
  have hshort : compared.cpu.Executes compared.bus (.branch Comparison.greater.condition) 0x01 :=
    ⟨by decide +kernel, by decide +kernel, by decide +kernel, by decide +kernel⟩
  have hlong :
      branched.cpu.Executes branched.bus (.longBranch Comparison.higher.condition) 0x01 :=
    ⟨by decide +kernel, by decide +kernel, by decide +kernel, by decide +kernel⟩
  have h := ((compare_branch comparing bus).2 _ _ _ hc).2.2
  have htaken := (h .greater compared.cpu compared.bus rfl).1 0x01 hshort
  have hpassed := (h .higher branched.cpu branched.bus (by decide +kernel)).2 0x01 hlong
  exact ⟨htaken.trans (congrArg (fun pc => { compared.cpu.regs with pc := pc }) (by decide +kernel)),
    hpassed.trans (congrArg (fun pc => { branched.cpu.regs with pc := pc }) (by decide +kernel))⟩

end Cpu

end ColorComputer
