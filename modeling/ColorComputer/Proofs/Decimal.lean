import ColorComputer.Proofs.Limbs

/-!
# Decimal addition

Two bytes of two decimal digits each are added as if they were binary, and the sum is adjusted. The
adjustment adds six to every digit that went over nine: what it is told of the low digit is the half
carry or the digit itself, and of the high digit the carry, the digit itself, or a nine that the low
digit is about to carry into.

* `decimalCorrection_add` — after an addition the correction says which digits went over.
* `decimal_addDecimal` — one byte of the result, with its carry, is exact.
* `decimal_exact` — so are as many bytes as there are, from the least significant on.
-/

namespace ColorComputer.Arithmetic

/-! ### Packed decimal numbers -/

/-- Both digits of the byte are decimal. -/
def IsDecimal (a : Byte) : Prop := a.toNat % 16 ≤ 9 ∧ a.toNat / 16 ≤ 9

instance (a : Byte) : Decidable (IsDecimal a) := inferInstanceAs (Decidable (_ ∧ _))

/-- The number that the two digits of a byte make up. -/
def decimal (a : Byte) : Nat := a.toNat % 16 + 10 * (a.toNat / 16)

/-- The number that bytes of two digits make up, the least significant first. -/
def decimalValue (bytes : List Byte) : Nat := Nat.ofDigits 100 (bytes.map decimal)

/-- The sum of two bytes of two digits: they are added, and then the sum is adjusted. -/
def addDecimal (cc : ConditionCodes) (a b : Byte) (carry : Bool) : Byte × ConditionCodes :=
  let sum := add cc a b carry
  daa sum.2 sum.1

theorem decimal_lt {a : Byte} (h : IsDecimal a) : decimal a < 100 := by
  obtain ⟨hlow, hhigh⟩ := h
  simp only [decimal]
  omega

theorem decimalValue_cons (a : Byte) (rest : List Byte) :
    decimalValue (a :: rest) = decimal a + 100 * decimalValue rest := by
  simp [decimalValue, Nat.ofDigits_cons]

theorem decimalValue_lt {bytes : List Byte} (h : ∀ a ∈ bytes, IsDecimal a) :
    decimalValue bytes < 100 ^ bytes.length := by
  have hb := Nat.ofDigits_lt_base_pow_length (b := 100) (l := bytes.map decimal) (by decide) (by
    intro digit hd
    obtain ⟨a, ha, rfl⟩ := List.mem_map.1 hd
    exact decimal_lt (h a ha))
  simpa [decimalValue] using hb

/-! ### One byte -/

/-- Two digits and a carry add up to more than nine. -/
def overNine (x y : Nat) (carry : Bool) : Bool := decide (9 < x + y + carry.toNat)

/-- What is left of the sum of two digits when ten was taken from it if it went over is a digit. -/
theorem overNine_bounds {x y : Nat} (hx : x ≤ 9) (hy : y ≤ 9) (carry : Bool) :
    10 * (overNine x y carry).toNat ≤ x + y + carry.toNat ∧
      x + y + carry.toNat ≤ 9 + 10 * (overNine x y carry).toNat := by
  have hc := carry.toNat_le
  by_cases h : 9 < x + y + carry.toNat
  · simp only [overNine, h, decide_true, Bool.toNat_true]
    omega
  · simp only [overNine, h, decide_false, Bool.toNat_false]
    omega

/-- The low digits of the sum go over nine. -/
def lowOver (a b : Byte) (carry : Bool) : Bool := overNine (a.toNat % 16) (b.toNat % 16) carry

/-- The high digits of the sum, with what the low ones carry, go over nine. -/
def highOver (a b : Byte) (carry : Bool) : Bool :=
  overNine (a.toNat / 16) (b.toNat / 16) (lowOver a b carry)

/-- Six in each digit that is to be corrected. -/
theorem toNat_correction (low high : Bool) :
    ((if low then (0x06 : Byte) else 0) ||| (if high then 0x60 else 0)).toNat =
      6 * low.toNat + 96 * high.toNat := by
  cases low <;> cases high <;> rfl

section

variable (cc : ConditionCodes) {a b : Byte} (carry : Bool) (ha : IsDecimal a) (hb : IsDecimal b)
include ha hb

/-- After an addition of decimal digits, those are corrected that went over nine. -/
theorem decimalCorrection_add :
    decimalCorrection (add cc a b carry).2 (add cc a b carry).1 =
      ((if lowOver a b carry then 0x06 else 0) ||| (if highOver a b carry then 0x60 else 0),
        highOver a b carry) := by
  obtain ⟨halow, hahigh⟩ := ha
  obtain ⟨hblow, hbhigh⟩ := hb
  have hc := carry.toNat_le
  have hsum : (add cc a b carry).1.toNat = (a.toNat + b.toNat + carry.toNat) % 256 :=
    toNat_add cc a b carry
  have hhalf : (add cc a b carry).2.halfCarry =
      decide (16 ≤ a.toNat % 16 + b.toNat % 16 + carry.toNat) := by simp [add]
  have hcarry : (add cc a b carry).2.carry = decide (256 ≤ a.toNat + b.toNat + carry.toNat) :=
    carry_add cc a b carry
  -- a low digit over nine shows as it is, or it lost sixteen and left the half carry
  have hlow : ((add cc a b carry).2.halfCarry ||
      decide (9 < (add cc a b carry).1.toNat % 16)) = lowOver a b carry := by
    rw [hhalf, hsum, lowOver, overNine, Bool.eq_iff_iff]
    simp only [Bool.or_eq_true, decide_eq_true_eq]
    omega
  -- so does a high digit, but a nine that the low digit will carry into shows as a nine
  have hhigh : ((add cc a b carry).2.carry || decide (9 < (add cc a b carry).1.toNat / 16) ||
      decide (8 < (add cc a b carry).1.toNat / 16 ∧ 9 < (add cc a b carry).1.toNat % 16)) =
      highOver a b carry := by
    rw [hcarry, hsum, highOver, lowOver, overNine, overNine, Bool.eq_iff_iff]
    by_cases hl : 9 < a.toNat % 16 + b.toNat % 16 + carry.toNat
    · simp only [Bool.or_eq_true, decide_eq_true_eq, decide_eq_true hl, Bool.toNat_true]
      omega
    · simp only [Bool.or_eq_true, decide_eq_true_eq, decide_eq_false hl, Bool.toNat_false]
      omega
  simp only [decimalCorrection, hlow, hhigh]

theorem lowOver_bounds :
    10 * (lowOver a b carry).toNat ≤ a.toNat % 16 + b.toNat % 16 + carry.toNat ∧
      a.toNat % 16 + b.toNat % 16 + carry.toNat ≤ 9 + 10 * (lowOver a b carry).toNat :=
  overNine_bounds ha.1 hb.1 carry

theorem highOver_bounds :
    10 * (highOver a b carry).toNat ≤
        a.toNat / 16 + b.toNat / 16 + (lowOver a b carry).toNat ∧
      a.toNat / 16 + b.toNat / 16 + (lowOver a b carry).toNat ≤
        9 + 10 * (highOver a b carry).toNat :=
  overNine_bounds ha.2 hb.2 (lowOver a b carry)

theorem toNat_addDecimal :
    (addDecimal cc a b carry).1.toNat =
      (a.toNat + b.toNat + carry.toNat + 6 * (lowOver a b carry).toNat +
        96 * (highOver a b carry).toNat) % 256 := by
  simp only [addDecimal, daa, decimalCorrection_add cc carry ha hb, BitVec.toNat_add, toNat_add,
    toNat_correction, Nat.one_shiftLeft, Nat.reducePow]
  omega

/-- The digits of the adjusted sum are those of the sum, with ten taken from each that went over. -/
theorem digits_addDecimal :
    (addDecimal cc a b carry).1.toNat % 16 + 10 * (lowOver a b carry).toNat =
        a.toNat % 16 + b.toNat % 16 + carry.toNat ∧
      (addDecimal cc a b carry).1.toNat / 16 + 10 * (highOver a b carry).toNat =
        a.toNat / 16 + b.toNat / 16 + (lowOver a b carry).toNat := by
  have hlow := lowOver_bounds carry ha hb
  have hhigh := highOver_bounds carry ha hb
  rw [toNat_addDecimal cc carry ha hb]
  omega

/-- The adjusted sum is decimal again. -/
theorem isDecimal_addDecimal : IsDecimal (addDecimal cc a b carry).1 := by
  have hlow := lowOver_bounds carry ha hb
  have hhigh := highOver_bounds carry ha hb
  have hdigits := digits_addDecimal cc carry ha hb
  constructor <;> omega

/-- The carry of the adjusted sum is the one out of its high digit. -/
theorem carry_addDecimal : (addDecimal cc a b carry).2.carry = highOver a b carry := by
  have hlow := lowOver_bounds carry ha hb
  have hhigh := highOver_bounds carry ha hb
  obtain ⟨halow, hahigh⟩ := ha
  obtain ⟨hblow, hbhigh⟩ := hb
  have hcodes : (addDecimal cc a b carry).2.carry =
      (decide (256 ≤ a.toNat + b.toNat + carry.toNat) || highOver a b carry) := by
    simp only [addDecimal, daa, decimalCorrection_add cc carry ⟨halow, hahigh⟩ ⟨hblow, hbhigh⟩,
      carry_add, Nat.one_shiftLeft, Nat.reducePow]
  -- a sum that left the byte went over in its high digit
  rw [hcodes]
  cases hover : highOver a b carry with
  | true => simp
  | false =>
    rw [hover, Bool.toNat_false] at hhigh
    simp only [Bool.or_false, decide_eq_false_iff_not]
    omega

/-- One byte of the result and its carry make up the sum. -/
theorem decimal_addDecimal :
    decimal (addDecimal cc a b carry).1 + 100 * (addDecimal cc a b carry).2.carry.toNat =
      decimal a + decimal b + carry.toNat := by
  obtain ⟨hlow, hhigh⟩ := digits_addDecimal cc carry ha hb
  rw [carry_addDecimal cc carry ha hb]
  simp only [decimal]
  omega

end

/-! ### Any number of bytes -/

section

variable {cc : ConditionCodes} {carry : Bool} {pairs : List (Byte × Byte)}
  (h : ∀ pair ∈ pairs, IsDecimal pair.1 ∧ IsDecimal pair.2)
include h

/-- All bytes of the result are decimal. -/
theorem isDecimal_chain : ∀ limb ∈ chain addDecimal cc carry pairs, IsDecimal limb.1 := by
  induction pairs generalizing cc carry with
  | nil => simp [chain]
  | cons pair rest ih =>
    rw [List.forall_mem_cons] at h
    rw [chain, List.forall_mem_cons]
    exact ⟨isDecimal_addDecimal cc carry h.1.1 h.1.2, ih h.2⟩

/-- The bytes of the result and the last carry make up the exact sum. -/
theorem decimalValue_chain {last : Byte × ConditionCodes}
    (hl : (chain addDecimal cc carry pairs).getLast? = some last) :
    decimalValue ((chain addDecimal cc carry pairs).map Prod.fst) +
        100 ^ pairs.length * last.2.carry.toNat =
      decimalValue (pairs.map Prod.fst) + decimalValue (pairs.map Prod.snd) + carry.toNat := by
  induction pairs generalizing cc carry with
  | nil => simp [chain] at hl
  | cons pair rest ih =>
    rw [List.forall_mem_cons] at h
    have hsum := decimal_addDecimal cc carry h.1.1 h.1.2
    simp only [chain, List.map_cons, decimalValue_cons, List.length_cons, Nat.pow_succ]
    by_cases hr : rest = []
    · subst hr
      obtain rfl : addDecimal cc pair.1 pair.2 carry = last := by simpa [chain] using hl
      simpa [chain, decimalValue] using hsum
    · rw [getLast?_chain pair hr] at hl
      -- what this byte carries out, the others take in
      linear_combination hsum + 100 * ih h.2 hl

end

/-- **Decimal addition is exact.** Numbers of any length are added byte by byte from the least
significant on, each sum of two bytes being adjusted before its carry is passed on. All bytes of the
result are decimal, they make up the sum modulo its range, and the last carry says that the sum left
the range. -/
theorem decimal_exact (cc : ConditionCodes) (carry : Bool) {as bs : List Byte} (has : as ≠ [])
    (hlen : as.length = bs.length) (ha : ∀ a ∈ as, IsDecimal a) (hb : ∀ b ∈ bs, IsDecimal b) :
    let result := chain addDecimal cc carry (as.zip bs)
    let total := decimalValue as + decimalValue bs + carry.toNat
    result.length = as.length ∧ (∀ limb ∈ result, IsDecimal limb.1) ∧
      decimalValue (result.map Prod.fst) = total % 100 ^ as.length ∧
      ∃ last, result.getLast? = some last ∧
        (last.2.carry = true ↔ 100 ^ as.length ≤ total) := by
  intro result total
  have hn : (as.zip bs).length = as.length := by simp [hlen]
  have hpairs : ∀ pair ∈ as.zip bs, IsDecimal pair.1 ∧ IsDecimal pair.2 := by
    intro pair hp
    obtain ⟨hpa, hpb⟩ := List.of_mem_zip hp
    exact ⟨ha _ hpa, hb _ hpb⟩
  have hlength : result.length = as.length := by rw [length_chain, hn]
  have hdecimal : ∀ limb ∈ result, IsDecimal limb.1 := isDecimal_chain hpairs
  have hne : result ≠ [] := by
    rwa [← List.length_pos_iff, hlength, List.length_pos_iff]
  have hlast : result.getLast? = some (result.getLast hne) := List.getLast?_eq_some_getLast hne
  have hsum : decimalValue (result.map Prod.fst) +
      100 ^ as.length * (result.getLast hne).2.carry.toNat = total := by
    have hchain := decimalValue_chain hpairs hlast
    rwa [hn, List.map_fst_zip hlen.le, List.map_snd_zip hlen.ge] at hchain
  have hlt : decimalValue (result.map Prod.fst) < 100 ^ as.length := by
    rw [← hlength, ← List.length_map Prod.fst]
    exact decimalValue_lt (by simpa using hdecimal)
  refine ⟨hlength, hdecimal, ?_, _, hlast, ?_⟩
  · rw [← hsum, Nat.add_mul_mod_self_left, Nat.mod_eq_of_lt hlt]
  · rw [← hsum]
    cases (result.getLast hne).2.carry with
    | true => simp
    | false => simpa using hlt

/-- `5899 + 4100 + 1` leaves the range of two bytes: every digit goes over nine. -/
theorem decimal_exact_turning :
    let as : List Byte := [0x99, 0x58]
    let bs : List Byte := [0x00, 0x41]
    let result := chain addDecimal .clear true (as.zip bs)
    (∀ a ∈ as, IsDecimal a) ∧ (∀ b ∈ bs, IsDecimal b) ∧
      decimalValue as + decimalValue bs + true.toNat = 10000 ∧
      decimalValue (result.map Prod.fst) = 0 ∧
      ∃ last, result.getLast? = some last ∧ last.2.carry = true := by
  intro as bs result
  have ha : ∀ a ∈ as, IsDecimal a := by decide
  have hb : ∀ b ∈ bs, IsDecimal b := by decide
  have hne : as ≠ [] := by decide
  have hlen : as.length = bs.length := by decide
  have htotal : decimalValue as + decimalValue bs + true.toNat = 10000 := by decide
  obtain ⟨-, -, hvalue, last, hlast, hcarry⟩ := decimal_exact .clear true hne hlen ha hb
  rw [htotal] at hvalue hcarry
  exact ⟨ha, hb, htotal, hvalue.trans (by decide), last, hlast, hcarry.2 (by decide)⟩

end ColorComputer.Arithmetic
