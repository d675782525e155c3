import ColorComputer.Proofs.Executing
import ColorComputer.Proofs.Limbs
import ColorComputer.Proofs.Trap

/-!
# Division and multiplication

The two divisions round toward zero. Where the quotient is a signed number of one bit more than its
register has, the register holds its low bits and N its sign; where it is not, nothing is divided
and V says so. What divides, and where it leaves its results, is all in which they differ.

* `Divided` — what makes two numbers the quotient and the remainder.
* `Divided.tdiv_eq`, `divided_divide` — there is only one quotient, and a division finds it.
* `Divider.divides_result` — a division is exact or leaves the accumulators alone.
* `Divider.q_result_product` — a product divided by one factor is the other one.
* `division_exact` — the steps that divide, and a product that is divided again.
-/

namespace ColorComputer

namespace Arithmetic

variable {w : Nat}

/-! ### Quotients and remainders -/

/-- The number that has this sign and these low bits. -/
def extended (negative : Bool) (low : BitVec w) : Int := low.toNat - 2 ^ w * (negative.toNat : Int)

theorem fits_extended (negative : Bool) (low : BitVec w) :
    Fits (w + 1) (extended negative low) := by
  have hlow := low.isLt
  rw [fits_iff, Nat.add_sub_cancel, extended]
  have hpow : ((2 ^ w : Nat) : Int) = 2 ^ w := by push_cast; rfl
  cases negative <;> simp only [Bool.toNat_false, Bool.toNat_true] <;> omega

/-- The low bits of a number and its sign make it up again. -/
theorem extended_ofInt {x : Int} (hx : Fits (w + 1) x) :
    extended (decide (x < 0)) (BitVec.ofInt w x) = x := by
  obtain ⟨hlow, hhigh⟩ := fits_iff.1 hx
  rw [Nat.add_sub_cancel] at hlow hhigh
  have hpow : ((2 ^ w : Nat) : Int) = 2 ^ w := by push_cast; rfl
  rw [extended, BitVec.toNat_ofInt]
  by_cases hneg : x < 0
  · have hmod : x % ((2 ^ w : Nat) : Int) = x + (2 ^ w : Nat) := by
      rw [← Int.add_emod_right, Int.emod_eq_of_lt (by omega) (by omega)]
    rw [hmod, decide_eq_true hneg, Bool.toNat_true]
    omega
  · rw [Int.emod_eq_of_lt (by omega) hhigh, decide_eq_false hneg, Bool.toNat_false]
    omega

/-- These are the quotient and the remainder, and the codes tell about the quotient: N is its sign,
beyond the bits that its register holds. -/
structure Divided (dividend : Int) (divisor quotient remainder : BitVec w) (cc : ConditionCodes) :
    Prop where
  exact : dividend = extended cc.negative quotient * divisor.toInt + remainder.toInt
  small : remainder.toInt.natAbs < divisor.toInt.natAbs
  sign : remainder.toInt = 0 ∨ remainder.toInt.sign = dividend.sign
  zero : cc.zero = true ↔ extended cc.negative quotient = 0
  carry : cc.carry = true ↔ Odd (extended cc.negative quotient)
  overflow : cc.overflow = true ↔ ¬ Fits w (extended cc.negative quotient)

/-- There is only one quotient. -/
theorem Divided.tdiv_eq {dividend : Int} {divisor quotient remainder : BitVec w}
    {cc : ConditionCodes} (h : Divided dividend divisor quotient remainder cc) :
    dividend.tdiv divisor.toInt = extended cc.negative quotient := by
  have hsmall := h.small
  have hne : divisor.toInt ≠ 0 := fun h0 => by
    rw [h0] at hsmall
    exact Nat.not_lt_zero _ hsmall
  have hexact := h.exact
  rw [Int.mul_comm, Int.add_comm] at hexact
  rcases Int.le_total 0 dividend with hd | hd
  · refine ((Int.tdiv_tmod_unique hd hne).2 ⟨hexact.symm, ?_, by omega⟩).1
    rcases h.sign with h0 | hs
    · rw [h0]
    · rw [← Int.sign_nonneg_iff, hs]
      exact Int.sign_nonneg_iff.2 hd
  · refine ((Int.tdiv_tmod_unique' hd hne).2 ⟨hexact.symm, by omega, ?_⟩).1
    rcases h.sign with h0 | hs
    · rw [h0]
    · rw [← Int.sign_nonpos_iff, hs]
      exact Int.sign_nonpos_iff.2 hd

section

variable {v : Nat} (cc : ConditionCodes) (x : BitVec v) {m : BitVec w}

theorem representable_iff (q : Int) :
    (-((1 <<< w : Nat) : Int) ≤ q ∧ q < (1 <<< w : Nat)) ↔ Fits (w + 1) q := by
  rw [fits_iff, Nat.add_sub_cancel, Nat.one_shiftLeft]

theorem divide_of_not_fits (h : ¬ Fits (w + 1) (x.toInt.tdiv m.toInt)) :
    divide cc x m = (none,
      { cc with negative := false, zero := false, overflow := true, carry := false }) := by
  unfold divide
  exact if_neg fun hr => h ((representable_iff _).1 hr)

theorem divide_of_fits (h : Fits (w + 1) (x.toInt.tdiv m.toInt)) :
    (divide cc x m).1 = some (BitVec.ofInt w (x.toInt.tdiv m.toInt),
      BitVec.ofInt w (x.toInt.tmod m.toInt)) ∧
    (divide cc x m).2.negative = decide (x.toInt.tdiv m.toInt < 0) ∧
    ((divide cc x m).2.zero = true ↔ x.toInt.tdiv m.toInt = 0) ∧
    ((divide cc x m).2.carry = true ↔ Odd (x.toInt.tdiv m.toInt)) ∧
    ((divide cc x m).2.overflow = true ↔ ¬ Fits w (x.toInt.tdiv m.toInt)) := by
  unfold divide
  rw [if_pos ((representable_iff _).2 h)]
  refine ⟨rfl, rfl, decide_eq_true_iff, ?_, ?_⟩
  · rw [Int.odd_iff]
    exact decide_eq_true_iff
  · rw [fits_iff, decide_eq_true_iff, Nat.one_shiftLeft]

/-- A division leaves the flags alone that do not tell about a number. -/
theorem masks_divide : masks (divide cc x m).2 = masks cc ∧
    (divide cc x m).2.halfCarry = cc.halfCarry := by
  by_cases h : Fits (w + 1) (x.toInt.tdiv m.toInt)
  · unfold divide
    rw [if_pos ((representable_iff _).2 h)]
    exact ⟨rfl, rfl⟩
  · rw [divide_of_not_fits cc x h]
    exact ⟨rfl, rfl⟩

theorem natAbs_tmod_lt (y : Int) (hm : m ≠ 0) :
    (y.tmod m.toInt).natAbs < m.toInt.natAbs := by
  rw [Int.natAbs_tmod]
  refine Nat.mod_lt _ (Int.natAbs_pos.2 ?_)
  rwa [← BitVec.toInt_zero (w := w), BitVec.toInt_ne]

/-- A remainder is smaller than the divisor, so it fits where the divisor does. -/
theorem toInt_ofInt_tmod (hw : 0 < w) (y : Int) (hm : m ≠ 0) :
    (BitVec.ofInt w (y.tmod m.toInt)).toInt = y.tmod m.toInt := by
  have hsmall := natAbs_tmod_lt y hm
  have hlow := m.le_toInt
  have hhigh := m.toInt_lt
  rw [BitVec.toInt_ofInt]
  refine bmod_of_fits hw ⟨?_, ?_⟩ <;> omega

/-- If the quotient is in range, a division is exact. -/
theorem divided_divide (hw : 0 < w) (hm : m ≠ 0) (h : Fits (w + 1) (x.toInt.tdiv m.toInt)) :
    Divided x.toInt m (BitVec.ofInt w (x.toInt.tdiv m.toInt))
      (BitVec.ofInt w (x.toInt.tmod m.toInt)) (divide cc x m).2 := by
  obtain ⟨-, hn, hz, hc, hv⟩ := divide_of_fits cc x h
  have hq : extended (divide cc x m).2.negative (BitVec.ofInt w (x.toInt.tdiv m.toInt)) =
      x.toInt.tdiv m.toInt := by
    rw [hn, extended_ofInt h]
  have hr := toInt_ofInt_tmod hw x.toInt hm
  refine ⟨?_, ?_, ?_, by rwa [hq], by rwa [hq], by rwa [hq]⟩
  · rw [hq, hr, Int.tdiv_mul_add_tmod]
  · rw [hr]
    exact natAbs_tmod_lt _ hm
  · rw [hr, ← Int.sign_eq_zero_iff_zero, Int.sign_tmod]
    split
    · exact .inl rfl
    · exact .inr rfl

end

/-- A product of two words is a long. -/
theorem toInt_product (a b : Word) :
    (BitVec.ofInt 32 (a.toInt * b.toInt)).toInt = a.toInt * b.toInt := by
  have hbound : ∀ c : Word, c.toInt.natAbs ≤ 32768 := by
    intro c
    have hlow := c.le_toInt
    have hhigh := c.toInt_lt
    omega
  have hmul : a.toInt.natAbs * b.toInt.natAbs ≤ 32768 * 32768 :=
    Nat.mul_le_mul (hbound a) (hbound b)
  rw [← Int.natAbs_mul] at hmul
  rw [BitVec.toInt_ofInt]
  refine bmod_of_fits (by decide) (fits_iff.2 ?_)
  generalize a.toInt * b.toInt = product at hmul ⊢
  omega

end Arithmetic

open Arithmetic (Divided Fits masks)

/-! ### Divisions of registers -/

/-- A division: what it divides, and where it leaves its results. -/
structure Divider (v w : Nat) where
  dividend : Registers → BitVec v
  quotient : Registers → BitVec w
  remainder : Registers → BitVec w
  /-- The registers with a quotient, a remainder and condition codes. -/
  put : Registers → BitVec w → BitVec w → ConditionCodes → Registers
  quotient_put : ∀ r q m cc, quotient (put r q m cc) = q
  remainder_put : ∀ r q m cc, remainder (put r q m cc) = m
  cc_put : ∀ r q m cc, (put r q m cc).cc = cc

namespace Divider

/-- The division of `D`, the quotient to `B` and the remainder to `A`. -/
def d : Divider 16 8 where
  dividend := Registers.d
  quotient := Registers.b
  remainder := Registers.a
  put r q m cc := { r with a := m, b := q, cc := cc }
  quotient_put _ _ _ _ := rfl
  remainder_put _ _ _ _ := rfl
  cc_put _ _ _ _ := rfl

/-- The division of `Q`, the quotient to `W` and the remainder to `D`. -/
def q : Divider 32 16 where
  dividend := Registers.q
  quotient := Registers.w
  remainder := Registers.d
  put r q m cc := { (r.setD m).setW q with cc := cc }
  quotient_put r q m _ := Registers.w_setW (r.setD m) q
  remainder_put r _ m _ := Registers.d_setD r m
  cc_put _ _ _ _ := rfl

variable {v w : Nat} (x : Divider v w)

/-- The registers after a division by a number that is not zero. -/
def result (m : BitVec w) (r : Registers) : Registers :=
  match Arithmetic.divide r.cc (x.dividend r) m with
  | (some (quotient, remainder), cc) => x.put r quotient remainder cc
  | (none, cc) => { r with cc := cc }

/-- The quotient, rounded toward zero. -/
def rounded (m : BitVec w) (r : Registers) : Int := (x.dividend r).toInt.tdiv m.toInt

/-- What a division leaves: a quotient and a remainder exactly if the rounded quotient is a signed
number of one bit more than a register holds, and else V alone. -/
structure Divides (m : BitVec w) (r after : Registers) : Prop where
  divided : Divided (x.dividend r).toInt m (x.quotient after) (x.remainder after) after.cc ↔
    Fits (w + 1) (x.rounded m r)
  inside : Fits (w + 1) (x.rounded m r) →
    after = x.put r (x.quotient after) (x.remainder after) after.cc
  outside : ¬ Fits (w + 1) (x.rounded m r) → after =
    { r with cc := { r.cc with negative := false, zero := false, overflow := true, carry := false } }
  masks : masks after.cc = masks r.cc ∧ after.cc.halfCarry = r.cc.halfCarry

theorem result_of_fits {m : BitVec w} {r : Registers} (h : Fits (w + 1) (x.rounded m r)) :
    x.result m r = x.put r (BitVec.ofInt w (x.rounded m r))
      (BitVec.ofInt w ((x.dividend r).toInt.tmod m.toInt))
      (Arithmetic.divide r.cc (x.dividend r) m).2 := by
  have hd := (Arithmetic.divide_of_fits r.cc (x.dividend r) h).1
  unfold result
  generalize Arithmetic.divide r.cc (x.dividend r) m = out at hd ⊢
  obtain ⟨result, cc⟩ := out
  obtain rfl : result = _ := hd
  rfl

theorem result_of_not_fits {m : BitVec w} {r : Registers} (h : ¬ Fits (w + 1) (x.rounded m r)) :
    x.result m r = { r with
      cc := { r.cc with negative := false, zero := false, overflow := true, carry := false } } := by
  unfold result
  rw [Arithmetic.divide_of_not_fits r.cc (x.dividend r) h]

/-- A division is exact or leaves the accumulators alone. -/
theorem divides_result (hw : 0 < w) {m : BitVec w} (hm : m ≠ 0) (r : Registers) :
    x.Divides m r (x.result m r) := by
  by_cases h : Fits (w + 1) (x.rounded m r)
  · rw [x.result_of_fits h]
    refine ⟨iff_of_true ?_ h, fun _ => ?_, absurd h, ?_⟩
    · rw [x.quotient_put, x.remainder_put, x.cc_put]
      exact Arithmetic.divided_divide r.cc (x.dividend r) hw hm h
    · rw [x.quotient_put, x.remainder_put, x.cc_put]
    · rw [x.cc_put]
      exact Arithmetic.masks_divide r.cc (x.dividend r)
  · rw [x.result_of_not_fits h]
    refine ⟨iff_of_false (fun hd => h ?_) h, fun hf => absurd hf h, fun _ => rfl, rfl, rfl⟩
    rw [rounded, hd.tdiv_eq]
    exact Arithmetic.fits_extended _ _

/-- A product divided by one factor is the other one. -/
theorem q_result_product {m d : Word} {r : Registers} (hm : m ≠ 0)
    (hq : r.q = BitVec.ofInt 32 (d.toInt * m.toInt)) :
    (q.result m r).w = d ∧ (q.result m r).d = 0 ∧ (q.result m r).cc.overflow = false := by
  have hm0 : m.toInt ≠ 0 := by rwa [← BitVec.toInt_zero, BitVec.toInt_ne]
  have hdividend : (q.dividend r).toInt = d.toInt * m.toInt := by
    show r.q.toInt = _
    rw [hq, Arithmetic.toInt_product]
  have hround : q.rounded m r = d.toInt := by
    rw [rounded, hdividend, Int.mul_tdiv_cancel _ hm0]
  have hfits : Fits 16 d.toInt := ⟨d.le_toInt, d.toInt_lt⟩
  have hin : Fits (16 + 1) (q.rounded m r) := by
    rw [hround]
    obtain ⟨hlow, hhigh⟩ := hfits
    constructor <;> omega
  obtain ⟨-, -, -, -, hv⟩ := Arithmetic.divide_of_fits r.cc (q.dividend r) hin
  rw [q.result_of_fits hin, hround, hdividend, Int.mul_tmod_left, BitVec.ofInt_toInt]
  refine ⟨q.quotient_put _ _ _ _, (q.remainder_put _ _ _ _).trans rfl, ?_⟩
  rw [q.cc_put, ← Bool.not_eq_true, hv, not_not]
  rwa [← hround] at hfits

end Divider

/-! ### Operands -/

namespace Operand

theorem not_moves_d (variant : Variant) (post : Byte) (operand : Operand) :
    ¬ operand.Moves variant post .d := by
  rintro ⟨-, hd⟩
  rw [IndexForm.moved?_eq, Option.map_eq_some_iff] at hd
  obtain ⟨⟨base, delta⟩, hm, rfl⟩ := hd
  have hb := Postbyte.movesBy?_decode variant post hm
  simp at hb

/-- Whatever an operand moves, `D` is as it was. -/
theorem d_move (variant : Variant) (post : Byte) (operand : Operand) (r : Registers) :
    (operand.move variant post r).d = r.d :=
  word_move (not_moves_d variant post operand) r

theorem q_move {variant : Variant} {post : Byte} {operand : Operand}
    (h : ¬ operand.Moves variant post .w) (r : Registers) :
    (operand.move variant post r).q = r.q :=
  congrArg₂ Long.ofWords (d_move variant post operand r) (word_move h r)

end Operand

variable {β : Type} [Bus β]

namespace Exec

theorem regs_divideD {operand : Operand} {c : Core β} (h : (operandByte operand c).1 ≠ 0) :
    (divideD operand c).2.cpu.regs =
      Divider.d.result (operandByte operand c).1 (operandByte operand c).2.cpu.regs := by
  unfold divideD Divider.result
  rw [bind_apply, if_neg h]
  generalize (operandByte operand c).1 = m, (operandByte operand c).2 = d
  have hl : Divider.d.dividend d.cpu.regs = d.cpu.regs.d := rfl
  have hr : (registers d : Registers × Core β) = (d.cpu.regs, d) := rfl
  rw [hl, bind_apply, hr]
  generalize Arithmetic.divide d.cpu.regs.cc d.cpu.regs.d m = out
  obtain ⟨_ | ⟨quotient, remainder⟩, cc⟩ := out <;> rfl

theorem regs_divideQ {operand : Operand} {c : Core β} (h : (operandWord operand c).1 ≠ 0) :
    (divideQ operand c).2.cpu.regs =
      Divider.q.result (operandWord operand c).1 (operandWord operand c).2.cpu.regs := by
  unfold divideQ Divider.result
  rw [bind_apply, if_neg h]
  generalize (operandWord operand c).1 = m, (operandWord operand c).2 = d
  have hl : Divider.q.dividend d.cpu.regs = d.cpu.regs.q := rfl
  have hr : (registers d : Registers × Core β) = (d.cpu.regs, d) := rfl
  rw [hl, bind_apply, hr]
  generalize Arithmetic.divide d.cpu.regs.cc d.cpu.regs.q m = out
  obtain ⟨_ | ⟨quotient, remainder⟩, cc⟩ := out <;> rfl

theorem q_multiplyD (operand : Operand) (c : Core β) :
    (multiplyD operand c).2.cpu.regs.q = BitVec.ofInt 32
      ((operandWord operand c).2.cpu.regs.d.toInt * (operandWord operand c).1.toInt) :=
  Registers.q_setQ (operandWord operand c).2.cpu.regs _

end Exec

/-! ### Steps -/

namespace Cpu

variable {cpu : Cpu} {bus : β} {i : Instruction} {post : Byte}

theorem hitachi_of_executes (h : cpu.Executes bus i post) (hx : i.extended = true) :
    (⟨cpu.awake, bus, 0⟩ : Core β).cpu.variant = .hitachi :=
  (variant_awake cpu).trans (Exec.hitachi_of_extended h.executes hx)

/-- What a step does that divides, by the number and from the core that were found: the accumulators
were not touched before, but for `W` if the operand moves it; a number that is not zero divides them,
and zero traps, which stacks the registers as they are. -/
structure DividesBy {v w : Nat} (cpu : Cpu) (bus : β) (x : Divider v w) (operand : Operand)
    (post : Byte) (found : BitVec w × Core β) : Prop where
  d : found.2.cpu.regs.d = cpu.regs.d
  q : ¬ operand.Moves cpu.variant post .w → found.2.cpu.regs.q = cpu.regs.q
  divides : found.1 ≠ 0 → x.Divides found.1 found.2.cpu.regs (cpu.step bus).cpu.regs
  traps : found.1 = 0 → cpu.step bus = (found.2.trapped .divisionByZero).settled ∧
    ∃ front codes, front.length = 9 ∧ found.2.trapFrame .divisionByZero = front ++
      (if found.2.cpu.native then [found.2.cpu.regs.f, found.2.cpu.regs.e] else []) ++
      [found.2.cpu.regs.b, found.2.cpu.regs.a, codes]

/-- A step divides by what its instruction finds, if the instruction divides by it or traps. -/
theorem dividesBy_of_executes (h : cpu.Executes bus i post) {v w : Nat} {x : Divider v w}
    {operand : Operand} {find : Exec β (BitVec w)} (hw : 0 < w) (hf : Exec.Finds operand find)
    (hd : ∀ c, (find c).1 ≠ 0 →
      (Exec.perform i c).2.cpu.regs = x.result (find c).1 (find c).2.cpu.regs)
    (hz : (find ((⟨cpu.awake, bus, 0⟩ : Core β).begun i)).1 = 0 →
      ∃ n, (⟨cpu.awake, bus, 0⟩ : Core β).Raises (.trap .divisionByZero) n
        (find ((⟨cpu.awake, bus, 0⟩ : Core β).begun i)).2) :
    cpu.DividesBy bus x operand post (find ((⟨cpu.awake, bus, 0⟩ : Core β).begun i)) := by
  obtain ⟨pc, hr⟩ := regs_found_operand h hf
  refine ⟨?_, fun hm => ?_, fun h0 => ?_, fun h0 => ⟨?_, Core.trapFrame_accumulators _ _⟩⟩
  · rw [hr]
    exact Operand.d_move _ _ _ _
  · rw [hr]
    exact Operand.q_move hm _
  · rw [regs_step_of_executes h, hd _ h0]
    exact x.divides_result hw h0 _
  · obtain ⟨n, hraise⟩ := hz h0
    exact step_of_raises h.move hraise

theorem dividesBy_divideD {operand : Operand} (h : cpu.Executes bus (.divideD operand) post) :
    cpu.DividesBy bus .d operand post
      (Exec.operandByte operand ((⟨cpu.awake, bus, 0⟩ : Core β).begun (.divideD operand))) :=
  dividesBy_of_executes h (by decide) (Exec.finds_operandByte operand)
    (fun _ => Exec.regs_divideD)
    fun h0 => ⟨_, .divideD operand h.next (hitachi_of_executes h rfl) h0⟩

theorem dividesBy_divideQ {operand : Operand} (h : cpu.Executes bus (.divideQ operand) post) :
    cpu.DividesBy bus .q operand post
      (Exec.operandWord operand ((⟨cpu.awake, bus, 0⟩ : Core β).begun (.divideQ operand))) :=
  dividesBy_of_executes h (by decide) (Exec.finds_operandWord operand)
    (fun _ => Exec.regs_divideQ)
    fun h0 => ⟨_, .divideQ operand h.next (hitachi_of_executes h rfl) h0⟩

/-- A step that multiplies leaves the product of `D` in `Q`. -/
theorem q_step_multiplyD {operand : Operand} (h : cpu.Executes bus (.multiplyD operand) post) :
    (cpu.step bus).cpu.regs.q = BitVec.ofInt 32 (cpu.regs.d.toInt *
      (Exec.operandWord operand
        ((⟨cpu.awake, bus, 0⟩ : Core β).begun (.multiplyD operand))).1.toInt) := by
  obtain ⟨pc, hr⟩ := regs_found_operand h (Exec.finds_operandWord operand)
  have hd : (Exec.operandWord operand
      ((⟨cpu.awake, bus, 0⟩ : Core β).begun (.multiplyD operand))).2.cpu.regs.d = cpu.regs.d := by
    rw [hr]
    exact Operand.d_move _ _ _ _
  rw [regs_step_of_executes h, ← hd]
  exact Exec.q_multiplyD operand _

/-- **Division and multiplication are exact.** A step that divides leaves a quotient and a remainder,
or the accumulators alone if the quotient is out of range, or it traps. A step that multiplies `D` and
a step that divides what it left by the same number give `D` back, in `W` and with no remainder. What
the second one divides is what the first one left unless `W` moves while the divisor is found. -/
theorem division_exact (cpu : Cpu) (bus : β) :
    (∀ operand post, cpu.Executes bus (.divideQ operand) post → cpu.DividesBy bus .q operand post
      (Exec.operandWord operand ((⟨cpu.awake, bus, 0⟩ : Core β).begun (.divideQ operand)))) ∧
    (∀ operand post, cpu.Executes bus (.divideD operand) post → cpu.DividesBy bus .d operand post
      (Exec.operandByte operand ((⟨cpu.awake, bus, 0⟩ : Core β).begun (.divideD operand)))) ∧
    ∀ operand post divisor next, cpu.Executes bus (.multiplyD operand) post →
      let multiplied := cpu.step bus
      multiplied.cpu.Executes multiplied.bus (.divideQ divisor) next →
      ¬ divisor.Moves multiplied.cpu.variant next .w →
      let found := Exec.operandWord divisor
        ((⟨multiplied.cpu.awake, multiplied.bus, 0⟩ : Core β).begun (.divideQ divisor))
      found.1 = (Exec.operandWord operand
        ((⟨cpu.awake, bus, 0⟩ : Core β).begun (.multiplyD operand))).1 →
      found.1 ≠ 0 →
      let divided := (multiplied.cpu.step multiplied.bus).cpu.regs
      divided.w = cpu.regs.d ∧ divided.d = 0 ∧ divided.cc.overflow = false := by
  refine ⟨fun _ _ h => dividesBy_divideQ h, fun _ _ h => dividesBy_divideD h, ?_⟩
  intro operand post divisor next hmul multiplied hdiv hw found hsame hm divided
  have hproduct := q_step_multiplyD hmul
  rw [← hsame] at hproduct
  have hq : found.2.cpu.regs.q = _ := ((dividesBy_divideQ hdiv).q hw).trans hproduct
  have hdivided : divided = Divider.q.result found.1 found.2.cpu.regs :=
    (regs_step_of_executes hdiv).trans (Exec.regs_divideQ hm)
  rw [hdivided]
  exact Divider.q_result_product hm hq

/-- A processor that holds `-5` in `D`. -/
def multiplying : Cpu :=
  { fresh .hitachi with regs := { Registers.zeros with a := 0xFF, b := 0xFB } }

/-- Times seven, and by seven. -/
theorem division_exact_multiplying :
    let bus := FlatMemory.beginning [0x11, 0x8F, 0x00, 0x07, 0x11, 0x8E, 0x00, 0x07] (by decide)
    let multiplied := multiplying.step bus
    let divided := (multiplied.cpu.step multiplied.bus).cpu.regs
    multiplied.cpu.regs.q = 0xFFFFFFDD ∧
      divided.w = multiplying.regs.d ∧ divided.d = 0 ∧ divided.cc.overflow = false :=
  ⟨by decide +kernel, (division_exact multiplying _).2.2 .immediate 0x00 .immediate 0x00
    ⟨by decide, by decide +kernel, rfl, by decide +kernel⟩
    ⟨by decide +kernel, by decide +kernel, by decide +kernel, by decide +kernel⟩
    (fun hm => nomatch hm.1) (by decide +kernel) (by decide +kernel)⟩

end Cpu

end ColorComputer
