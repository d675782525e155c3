import Mathlib.Data.Nat.Digits.Defs
import Mathlib.Tactic.LinearCombination
import Mathlib.Tactic.Ring
import ColorComputer.Cpu.Arithmetic

/-!
# Numbers of many limbs

A program adds and subtracts long numbers limb by limb, from the least significant on, where each
limb takes in the carry that the one before it left. This module says that the limbs of the result
make up the exact result modulo the range, and what the codes tell at the end.

Addition and subtraction differ in a sign only, so the chain is gone through once, for any operation
that is exact on one limb.

* `not_fits_iff` — when a signed result does not fit, told from the signs.
* `linear_add`, `linear_sub` — both are exact on one limb.
* `Linear.chain_sum` — the limbs of a chain and its last carry make up the exact result.
* `Linear.chain_overflow` — the last V says whether the signed result fits.
* `chain_exact` — long addition and long subtraction.
-/

namespace ColorComputer.Arithmetic

variable {w : Nat}

/-! ### Numbers -/

/-- The number is one of those that have so many bits and a sign. -/
def Fits (bits : Nat) (x : Int) : Prop := -2 ^ (bits - 1) ≤ x ∧ x < 2 ^ (bits - 1)

/-- The number that limbs make up, the least significant first. -/
def value (limbs : List (BitVec w)) : Nat := Nat.ofDigits (2 ^ w) (limbs.map BitVec.toNat)

/-- The number that limbs make up in two's complement. -/
def signedValue (limbs : List (BitVec w)) : Int :=
  (value limbs : Int).bmod (2 ^ (w * limbs.length))

theorem value_cons (a : BitVec w) (rest : List (BitVec w)) :
    value (a :: rest) = a.toNat + 2 ^ w * value rest := Nat.ofDigits_cons

theorem value_lt (limbs : List (BitVec w)) : value limbs < 2 ^ (w * limbs.length) := by
  induction limbs with
  | nil => exact Nat.one_pos
  | cons a rest ih =>
    have ha := a.isLt
    have hm : 2 ^ w * (value rest + 1) ≤ 2 ^ w * 2 ^ (w * rest.length) := Nat.mul_le_mul_left _ ih
    rw [value_cons, List.length_cons, Nat.mul_succ, Nat.add_comm (w * _), Nat.pow_add]
    rw [Nat.mul_succ] at hm
    omega

theorem two_pow_pred {n : Nat} (hn : 0 < n) : 2 ^ n = 2 * 2 ^ (n - 1) := by
  rw [← Nat.pow_succ', Nat.succ_eq_add_one, Nat.sub_add_cancel hn]

theorem fits_iff {bits : Nat} {x : Int} :
    Fits bits x ↔ -((2 ^ (bits - 1) : Nat) : Int) ≤ x ∧ x < (2 ^ (bits - 1) : Nat) := by
  push_cast
  rfl

/-- A low limb does not matter to whether the number fits. -/
theorem fits_limb {bits low : Nat} (hb : 0 < bits) (hlow : low < 2 ^ w) (high : Int) :
    Fits (w + bits) (low + 2 ^ w * high) ↔ Fits bits high := by
  have hpow : (2 : Int) ^ (w + bits - 1) = 2 ^ w * 2 ^ (bits - 1) := by
    rw [← Int.pow_add, Nat.add_sub_assoc hb]
  have hW : (0 : Int) < 2 ^ w := Int.pow_pos (by decide)
  have hdiv : ((low : Int) + 2 ^ w * high) / 2 ^ w = high := by
    rw [Int.add_mul_ediv_left _ _ (Int.ne_of_gt hW),
      Int.ediv_eq_zero_of_lt (Int.natCast_nonneg _) (by exact_mod_cast hlow), Int.zero_add]
  unfold Fits
  rw [hpow, ← Int.mul_neg, Int.mul_comm, Int.mul_comm (2 ^ w) (2 ^ (bits - 1)),
    ← Int.le_ediv_iff_mul_le hW, ← Int.ediv_lt_iff_lt_mul hW, hdiv]

theorem fits_bmod {bits : Nat} (hb : 0 < bits) (x : Int) : Fits bits (x.bmod (2 ^ bits)) := by
  have hm : 0 < 2 ^ bits := Nat.two_pow_pos bits
  have hlow := Int.le_bmod (x := x) hm
  have hhigh := Int.bmod_lt (x := x) hm
  have hpow : ((2 ^ bits : Nat) : Int) = 2 * 2 ^ (bits - 1) := by exact_mod_cast two_pow_pred hb
  rw [hpow] at hlow hhigh
  unfold Fits
  omega

/-- Of the numbers of one residue class, one fits. -/
theorem bmod_of_fits {bits : Nat} (hb : 0 < bits) {x : Int} (hx : Fits bits x) :
    x.bmod (2 ^ bits) = x := by
  have hpow : ((2 ^ bits : Nat) : Int) = 2 * 2 ^ (bits - 1) := by exact_mod_cast two_pow_pred hb
  obtain ⟨hlow, hhigh⟩ := hx
  apply Int.bmod_eq_of_le <;> rw [hpow] <;> omega

theorem signedValue_singleton (a : BitVec w) : signedValue [a] = a.toInt := by
  rw [signedValue, BitVec.toInt_eq_toNat_bmod, value_cons]
  simp [value]

/-- The sign of a number is in its high limbs. -/
theorem signedValue_cons (a : BitVec w) {rest : List (BitVec w)} (hw : 0 < w) (hr : rest ≠ []) :
    signedValue (a :: rest) = a.toNat + 2 ^ w * signedValue rest := by
  have hn : 0 < w * rest.length := Nat.mul_pos hw (List.length_pos_iff.mpr hr)
  have hlen : w * (a :: rest).length = w + w * rest.length := by
    rw [List.length_cons, Nat.mul_succ, Nat.add_comm]
  have hfits : Fits (w + w * rest.length) (a.toNat + 2 ^ w * signedValue rest) :=
    (fits_limb hn a.isLt _).mpr (fits_bmod hn _)
  rw [← bmod_of_fits (by omega) hfits, signedValue, hlen, value_cons]
  -- the two sides differ by a multiple of the range
  have hrest : (value rest : Int) =
      signedValue rest + (2 ^ (w * rest.length) : Nat) * ((value rest : Int).bdiv
        (2 ^ (w * rest.length))) := (Int.bmod_add_bdiv _ _).symm
  have hsum : ((a.toNat + 2 ^ w * value rest : Nat) : Int) =
      a.toNat + 2 ^ w * signedValue rest +
        ((2 ^ (w + w * rest.length) : Nat) : Int) *
          (value rest : Int).bdiv (2 ^ (w * rest.length)) := by
    push_cast [pow_add]
    push_cast at hrest
    linear_combination 2 ^ w * hrest
  rw [hsum, Int.add_mul_bmod_self_left]

/-! ### One limb -/

/-- An operation on limbs adds or subtracts its second operand and the carry, as the sign says, and
its codes tell about the result. -/
structure Linear (sign : Int)
    (operation : ConditionCodes → BitVec w → BitVec w → Bool → BitVec w × ConditionCodes) :
    Prop where
  sum : ∀ cc a b carry,
    ((operation cc a b carry).1.toNat : Int) +
        sign * (2 ^ w * ((operation cc a b carry).2.carry.toNat : Int)) =
      a.toNat + sign * (b.toNat + carry.toNat)
  overflow : ∀ cc a b carry, (operation cc a b carry).2.overflow = true ↔
    ¬ Fits w (a.toInt + sign * (b.toInt + carry.toNat))
  negative : ∀ cc a b carry, (operation cc a b carry).2.negative = (operation cc a b carry).1.msb
  zero : ∀ cc a b carry, (operation cc a b carry).2.zero = ((operation cc a b carry).1 == 0)

/-- Where a limb lies when its sign is clear, and where when it is set. -/
theorem signed_cases (hw : 0 < w) (a : BitVec w) :
    a.msb = false ∧ a.toInt = a.toNat ∧ a.toNat < 2 ^ (w - 1) ∨
      a.msb = true ∧ a.toInt = a.toNat - 2 * (2 ^ (w - 1) : Nat) ∧ 2 ^ (w - 1) ≤ a.toNat ∧
        a.toNat < 2 * 2 ^ (w - 1) := by
  have ha := a.isLt
  have hpow := two_pow_pred hw
  rw [BitVec.toInt_eq_msb_cond, BitVec.msb_eq_decide]
  by_cases h : 2 ^ (w - 1) ≤ a.toNat
  · refine .inr ⟨decide_eq_true h, ?_, h, by omega⟩
    rw [decide_eq_true h, if_pos rfl, ← Nat.cast_ofNat, ← Nat.cast_pow, hpow, Nat.cast_mul]
    rfl
  · refine .inl ⟨decide_eq_false h, ?_, by omega⟩
    rw [decide_eq_false h]
    rfl

theorem sum_add (cc : ConditionCodes) (a b : BitVec w) (carry : Bool) :
    (add cc a b carry).1.toNat + 2 ^ w * (add cc a b carry).2.carry.toNat =
      a.toNat + b.toNat + carry.toNat := by
  have ha := a.isLt
  have hb := b.isLt
  have hc := carry.toNat_le
  rw [toNat_add, carry_add, Nat.one_shiftLeft]
  by_cases h : 2 ^ w ≤ a.toNat + b.toNat + carry.toNat
  · rw [Nat.mod_eq_sub_mod h, Nat.mod_eq_of_lt (by omega), decide_eq_true h, Bool.toNat_true]
    omega
  · rw [Nat.mod_eq_of_lt (by omega), decide_eq_false h, Bool.toNat_false]
    omega

/-- What was subtracted can be added back. -/
theorem add_sub (cc codes : ConditionCodes) (a b : BitVec w) (borrow : Bool) :
    (add cc (sub codes a b borrow).1 b borrow).1 = a := by
  change a - b - BitVec.ofNat w borrow.toNat + b + BitVec.ofNat w borrow.toNat = a
  rw [BitVec.add_assoc, BitVec.add_comm b, ← BitVec.add_assoc, BitVec.sub_add_cancel,
    BitVec.sub_add_cancel]

theorem sum_sub (cc : ConditionCodes) (a b : BitVec w) (borrow : Bool) :
    (sub cc a b borrow).1.toNat + b.toNat + borrow.toNat =
      a.toNat + 2 ^ w * (sub cc a b borrow).2.carry.toNat := by
  have hd := (sub cc a b borrow).1.isLt
  have hback := sum_add cc (sub cc a b borrow).1 b borrow
  rw [add_sub] at hback
  -- adding back carries exactly when the difference was negative
  have hcarry : (add cc (sub cc a b borrow).1 b borrow).2.carry =
      (sub cc a b borrow).2.carry := by
    rw [carry_sub, Bool.eq_iff_iff, decide_eq_true_iff]
    cases hc : (add cc (sub cc a b borrow).1 b borrow).2.carry <;>
      simp only [hc, Bool.toNat_true, Bool.toNat_false] at hback <;> simp <;> omega
  rw [← hcarry, hback]

/-- The signed result does not fit exactly if its sign cannot be right: a sum of two numbers of one
sign has the other, or a difference of two numbers of different signs that of the second. -/
theorem not_fits_iff (hw : 0 < w) {sign : Int} (hsign : sign = 1 ∨ sign = -1) {a b d : BitVec w}
    {carry out : Bool} (hsum : (d.toNat : Int) + sign * (2 ^ w * (out.toNat : Int)) =
      a.toNat + sign * (b.toNat + carry.toNat)) :
    ¬ Fits w (a.toInt + sign * (b.toInt + carry.toNat)) ↔
      (a.msb = b.msb ↔ sign = 1) ∧ a.msb ≠ d.msb := by
  have hpow : (2 : Int) ^ w = 2 * (2 ^ (w - 1) : Nat) := by exact_mod_cast two_pow_pred hw
  have hc := carry.toNat_le
  have ha := signed_cases hw a
  have hb := signed_cases hw b
  have hd := signed_cases hw d
  rw [hpow] at hsum
  rw [fits_iff]
  generalize 2 ^ (w - 1) = half at *
  -- the carry out settles where the result lies, the signs where the operands do
  rcases hsign with rfl | rfl <;> cases out <;>
    obtain ⟨ha, hav, _⟩ | ⟨ha, hav, _, _⟩ := ha <;>
    obtain ⟨hb, hbv, _⟩ | ⟨hb, hbv, _, _⟩ := hb <;>
    obtain ⟨hd, _, _⟩ | ⟨hd, _, _, _⟩ := hd <;>
    simp only [Bool.toNat_true, Bool.toNat_false] at hsum <;>
    simp [ha, hb, hd, hav, hbv] <;> omega

theorem linear_add (hw : 0 < w) : Linear 1 (add (w := w)) := by
  have hsum : ∀ cc (a b : BitVec w) carry, ((add cc a b carry).1.toNat : Int) +
      1 * (2 ^ w * ((add cc a b carry).2.carry.toNat : Int)) =
        a.toNat + 1 * (b.toNat + carry.toNat) := by
    intro cc a b carry
    have h : ((_ : Nat) : Int) = _ := congrArg Nat.cast (sum_add cc a b carry)
    push_cast at h
    linear_combination h
  refine ⟨hsum, fun cc a b carry => ?_, fun _ _ _ _ => rfl, fun _ _ _ _ => rfl⟩
  have hover : (add cc a b carry).2.overflow =
    (a.msb == b.msb && a.msb != (add cc a b carry).1.msb) := rfl
  rw [not_fits_iff hw (.inl rfl) (hsum cc a b carry), hover]
  simp

theorem linear_sub (hw : 0 < w) : Linear (-1) (sub (w := w)) := by
  have hsum : ∀ cc (a b : BitVec w) borrow, ((sub cc a b borrow).1.toNat : Int) +
      -1 * (2 ^ w * ((sub cc a b borrow).2.carry.toNat : Int)) =
        a.toNat + -1 * (b.toNat + borrow.toNat) := by
    intro cc a b borrow
    have h : ((_ : Nat) : Int) = _ := congrArg Nat.cast (sum_sub cc a b borrow)
    push_cast at h
    linear_combination h
  refine ⟨hsum, fun cc a b borrow => ?_, fun _ _ _ _ => rfl, fun _ _ _ _ => rfl⟩
  have hover : (sub cc a b borrow).2.overflow =
    (a.msb != b.msb && a.msb != (sub cc a b borrow).1.msb) := rfl
  rw [not_fits_iff hw (.inr rfl) (hsum cc a b borrow), hover]
  simp

/-! ### Chains -/

/-- Limb by limb, each with the carry and on the codes that the one before left. -/
def chain (operation : ConditionCodes → BitVec w → BitVec w → Bool → BitVec w × ConditionCodes)
    (cc : ConditionCodes) (carry : Bool) :
    List (BitVec w × BitVec w) → List (BitVec w × ConditionCodes)
  | [] => []
  | (a, b) :: rest =>
    let limb := operation cc a b carry
    limb :: chain operation limb.2 limb.2.carry rest

section

variable {sign : Int} {cc : ConditionCodes} {carry : Bool} {pairs : List (BitVec w × BitVec w)}
  {operation : ConditionCodes → BitVec w → BitVec w → Bool → BitVec w × ConditionCodes}

@[simp] theorem length_chain : (chain operation cc carry pairs).length = pairs.length := by
  induction pairs generalizing cc carry with
  | nil => rfl
  | cons pair rest ih => simp [chain, ih]

theorem chain_ne_nil (hp : pairs ≠ []) : chain operation cc carry pairs ≠ [] := by
  rwa [← List.length_pos_iff, length_chain, List.length_pos_iff]

/-- The last limb of a chain is the last of what is left after the first. -/
theorem getLast?_chain (pair : BitVec w × BitVec w) (hp : pairs ≠ []) :
    (chain operation cc carry (pair :: pairs)).getLast? =
      (chain operation (operation cc pair.1 pair.2 carry).2
        (operation cc pair.1 pair.2 carry).2.carry pairs).getLast? := by
  obtain ⟨limb, rest, hc⟩ := List.exists_cons_of_ne_nil (chain_ne_nil hp)
  rw [chain, hc, List.getLast?_cons_cons]

/-- What holds of every limb, whatever the codes and the carry before, holds of a chain. -/
theorem forall_mem_chain {p : BitVec w × ConditionCodes → Prop}
    (hstep : ∀ cc a b carry, p (operation cc a b carry)) :
    ∀ limb ∈ chain operation cc carry pairs, p limb := by
  induction pairs generalizing cc carry with
  | nil => simp [chain]
  | cons pair rest ih =>
    rw [chain, List.forall_mem_cons]
    exact ⟨hstep _ _ _ _, ih⟩

/-- What an operation leaves of the codes, all the limbs of a chain leave. -/
theorem chain_keeps {α : Type} {f : ConditionCodes → α}
    (hstep : ∀ cc a b carry, f (operation cc a b carry).2 = f cc) :
    ∀ limb ∈ chain operation cc carry pairs, f limb.2 = f cc := by
  induction pairs generalizing cc carry with
  | nil => simp [chain]
  | cons pair rest ih =>
    rw [chain, List.forall_mem_cons]
    exact ⟨hstep _ _ _ _, fun limb hl => (ih limb hl).trans (hstep _ _ _ _)⟩

/-- The limbs of the result and the last carry make up the exact result. -/
theorem Linear.chain_sum (h : Linear sign operation) {last : BitVec w × ConditionCodes}
    (hl : (chain operation cc carry pairs).getLast? = some last) :
    (value ((chain operation cc carry pairs).map Prod.fst) : Int) +
        sign * (2 ^ (w * pairs.length) * (last.2.carry.toNat : Int)) =
      value (pairs.map Prod.fst) + sign * (value (pairs.map Prod.snd) + carry.toNat) := by
  induction pairs generalizing cc carry with
  | nil => cases hl
  | cons pair rest ih =>
    have hsum := h.sum cc pair.1 pair.2 carry
    simp only [chain, List.map_cons, value_cons, List.length_cons, Nat.mul_succ, pow_add]
    push_cast
    by_cases hr : rest = []
    · subst hr
      obtain rfl : operation cc pair.1 pair.2 carry = last := Option.some.inj hl
      simpa [chain, value] using hsum
    · rw [getLast?_chain pair hr] at hl
      linear_combination hsum + 2 ^ w * ih hl

/-- The last V says whether the signed result fits. -/
theorem Linear.chain_overflow (hw : 0 < w) (h : Linear sign operation)
    {last : BitVec w × ConditionCodes}
    (hl : (chain operation cc carry pairs).getLast? = some last) :
    last.2.overflow = true ↔ ¬ Fits (w * pairs.length)
      (signedValue (pairs.map Prod.fst) +
        sign * (signedValue (pairs.map Prod.snd) + carry.toNat)) := by
  induction pairs generalizing cc carry with
  | nil => cases hl
  | cons pair rest ih =>
    by_cases hr : rest = []
    · subst hr
      obtain rfl : operation cc pair.1 pair.2 carry = last := Option.some.inj hl
      simpa [signedValue_singleton] using h.overflow cc pair.1 pair.2 carry
    · rw [getLast?_chain pair hr] at hl
      have hn : 0 < w * rest.length := Nat.mul_pos hw (List.length_pos_iff.mpr hr)
      have hsum := h.sum cc pair.1 pair.2 carry
      rw [ih hl, ← fits_limb hn (operation cc pair.1 pair.2 carry).1.isLt, List.map_cons,
        List.map_cons, signedValue_cons _ hw (by simpa using hr),
        signedValue_cons _ hw (by simpa using hr), List.length_cons, Nat.mul_succ,
        Nat.add_comm (w * rest.length)]
      -- what the low limb carries out, the high ones take in
      congr! 2
      linear_combination hsum

/-- The last N is the sign bit of the result. -/
theorem Linear.chain_negative (hw : 0 < w) (h : Linear sign operation)
    {last : BitVec w × ConditionCodes}
    (hl : (chain operation cc carry pairs).getLast? = some last) :
    last.2.negative = (value ((chain operation cc carry pairs).map Prod.fst)).testBit
      (w * pairs.length - 1) := by
  induction pairs generalizing cc carry with
  | nil => cases hl
  | cons pair rest ih =>
    by_cases hr : rest = []
    · subst hr
      obtain rfl : operation cc pair.1 pair.2 carry = last := Option.some.inj hl
      rw [h.negative, BitVec.msb_eq_getLsbD_last, BitVec.getLsbD]
      simp [chain, value]
    · rw [getLast?_chain pair hr] at hl
      have hn : 0 < w * rest.length := Nat.mul_pos hw (List.length_pos_iff.mpr hr)
      have hhigh : w * (pair :: rest).length - 1 = w + (w * rest.length - 1) := by
        rw [List.length_cons, Nat.mul_succ]
        omega
      rw [ih hl, chain, List.map_cons, value_cons, Nat.add_comm,
        Nat.testBit_two_pow_mul_add _ (operation cc pair.1 pair.2 carry).1.isLt, hhigh,
        if_neg (by omega), Nat.add_sub_cancel_left]

end

/-! ### Long addition and subtraction -/

/-- E and the interrupt masks, which arithmetic never touches. -/
def masks (cc : ConditionCodes) : Bool × Bool × Bool := (cc.entire, cc.firqMask, cc.irqMask)

/-- What so many limbs and the codes left with each tell about an exact result, given as it is
without and with a sign, and about whether the former is out of range. -/
structure LongResult (n : Nat) (unsigned signed : Int) (outside : Prop)
    (limbs : List (BitVec w × ConditionCodes)) : Prop where
  length : limbs.length = n
  value : (value (limbs.map Prod.fst) : Int) = unsigned % 2 ^ (w * n)
  last : ∃ last, limbs.getLast? = some last ∧ (last.2.carry = true ↔ outside) ∧
    (last.2.overflow = true ↔ ¬ Fits (w * n) signed) ∧
    last.2.negative = (Arithmetic.value (limbs.map Prod.fst)).testBit (w * n - 1)
  zero : ∀ limb ∈ limbs, limb.2.zero = (limb.1 == 0)

/-- A chain of an operation that is exact on one limb is exact. -/
theorem Linear.long_chain {sign : Int}
    {operation : ConditionCodes → BitVec w → BitVec w → Bool → BitVec w × ConditionCodes}
    (hw : 0 < w) (h : Linear sign operation) (cc : ConditionCodes) (carry : Bool)
    {as bs : List (BitVec w)} (outside : Prop) (has : as ≠ []) (hlen : as.length = bs.length)
    (hout : ∀ result : Nat, result < 2 ^ (w * as.length) → ∀ out : Bool,
      (result : Int) + sign * (2 ^ (w * as.length) * (out.toNat : Int)) =
        value as + sign * (value bs + carry.toNat) → (out = true ↔ outside)) :
    LongResult as.length (value as + sign * (value bs + carry.toNat))
      (signedValue as + sign * (signedValue bs + carry.toNat)) outside
      (chain operation cc carry (as.zip bs)) := by
  have hn : (as.zip bs).length = as.length := by simp [hlen]
  have hfst : (as.zip bs).map Prod.fst = as := List.map_fst_zip hlen.le
  have hsnd : (as.zip bs).map Prod.snd = bs := List.map_snd_zip hlen.ge
  have hne : as.zip bs ≠ [] := by
    rwa [← List.length_pos_iff, hn, List.length_pos_iff]
  have hlast : (chain operation cc carry (as.zip bs)).getLast? =
      some ((chain operation cc carry (as.zip bs)).getLast (chain_ne_nil hne)) :=
    List.getLast?_eq_some_getLast _
  have hsum := h.chain_sum hlast
  have hlt := value_lt ((chain operation cc carry (as.zip bs)).map Prod.fst)
  rw [List.length_map, length_chain, hn] at hlt
  rw [hn, hfst, hsnd] at hsum
  refine ⟨by rw [length_chain, hn], ?_, ⟨_, hlast, hout _ hlt _ hsum, ?_, ?_⟩,
    forall_mem_chain (p := fun limb => limb.2.zero = (limb.1 == 0)) h.zero⟩
  · rw [← hsum, mul_left_comm, Int.add_mul_emod_self_left, Int.emod_eq_of_lt]
    · exact Int.natCast_nonneg _
    · exact_mod_cast hlt
  · have hover := h.chain_overflow hw hlast
    rwa [hn, hfst, hsnd] at hover
  · have hneg := h.chain_negative hw hlast
    rwa [hn] at hneg

/-- **Long addition and subtraction are exact.** The limbs make up the sum or the difference modulo
the range. The last C says that the sum left the range or that the difference is negative, the last
V that the signed result does not fit, and the last N is its sign bit; each Z tells whether its limb
is zero. No other flag is touched, but for H by an addition of bytes. -/
theorem chain_exact (hw : 0 < w) (cc : ConditionCodes) (carry : Bool) {as bs : List (BitVec w)}
    (has : as ≠ []) (hlen : as.length = bs.length) :
    LongResult as.length (value as + value bs + carry.toNat)
        (signedValue as + signedValue bs + carry.toNat)
        (2 ^ (w * as.length) ≤ value as + value bs + carry.toNat)
        (chain add cc carry (as.zip bs)) ∧
      LongResult as.length (value as - value bs - carry.toNat)
        (signedValue as - signedValue bs - carry.toNat)
        ((value as : Int) - value bs - carry.toNat < 0)
        (chain sub cc carry (as.zip bs)) ∧
      (∀ limb ∈ chain add cc carry (as.zip bs),
        masks limb.2 = masks cc ∧ (w ≠ 8 → limb.2.halfCarry = cc.halfCarry)) ∧
      ∀ limb ∈ chain sub cc carry (as.zip bs),
        masks limb.2 = masks cc ∧ limb.2.halfCarry = cc.halfCarry := by
  refine ⟨?_, ?_, fun limb hl => ⟨?_, fun h8 => ?_⟩, fun limb hl => ⟨?_, ?_⟩⟩
  · have h := (linear_add hw).long_chain hw cc carry
      (2 ^ (w * as.length) ≤ value as + value bs + carry.toNat) has hlen ?_
    · simpa only [one_mul, add_assoc] using h
    · intro result hlt out hsum
      have hpow : ((2 ^ (w * as.length) : Nat) : Int) = 2 ^ (w * as.length) := by push_cast; rfl
      cases out <;> simp at hsum ⊢ <;> omega
  · have h := (linear_sub hw).long_chain hw cc carry
      ((value as : Int) - value bs - carry.toNat < 0) has hlen ?_
    · convert h using 1 <;> ring
    · intro result hlt out hsum
      have hpow : ((2 ^ (w * as.length) : Nat) : Int) = 2 ^ (w * as.length) := by push_cast; rfl
      cases out <;> simp at hsum ⊢ <;> omega
  · exact chain_keeps (f := masks) (fun _ _ _ _ => rfl) limb hl
  · exact chain_keeps (f := ConditionCodes.halfCarry) (fun _ _ _ _ => if_neg h8) limb hl
  · exact chain_keeps (f := masks) (fun _ _ _ _ => rfl) limb hl
  · exact chain_keeps (f := ConditionCodes.halfCarry) (fun _ _ _ _ => rfl) limb hl

/-- `0x7FFF + 1 + 1` leaves the positive numbers of two bytes, through a carry. -/
theorem chain_exact_bytes :
    LongResult 2 (value [0xFF#8, 0x7F#8] + value [0x01#8, 0x00#8] + true.toNat)
        (signedValue [0xFF#8, 0x7F#8] + signedValue [0x01#8, 0x00#8] + true.toNat)
        (2 ^ (8 * 2) ≤ value [0xFF#8, 0x7F#8] + value [0x01#8, 0x00#8] + true.toNat)
        (chain add .clear true [(0xFF#8, 0x01#8), (0x7F#8, 0x00#8)]) ∧
      (chain add .clear true [(0xFF#8, 0x01#8), (0x7F#8, 0x00#8)]).map Prod.fst =
        [0x01#8, 0x80#8] :=
  ⟨(@chain_exact 8 (by decide) .clear true [0xFF#8, 0x7F#8] [0x01#8, 0x00#8]
    (List.cons_ne_nil _ _) rfl).1, by decide⟩

end ColorComputer.Arithmetic
