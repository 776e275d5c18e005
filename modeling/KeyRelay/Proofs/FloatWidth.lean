import KeyRelay.Decimal.Binary
import Mathlib

/-! A binary64 pattern that a narrower format holds exactly widens back to itself. A finite
value is written by its odd part and the exponent of its last bit (`finiteBits?` depends on
nothing else), so the narrow pattern reads back as the same value and binary64 writes it as
the pattern it came from; infinities and quiet NaNs whose dropped fraction bits are zero keep
their sign and payload. Main statement: `widen_narrow`.
-/

namespace KeyRelay.Binary

theorem oddPart_spec {m : Nat} (hm : m ≠ 0) :
    (oddPart m).1 % 2 = 1 ∧ (oddPart m).1 * 2 ^ (oddPart m).2 = m := by
  induction m using Nat.strong_induction_on with
  | _ m ih =>
    rw [oddPart]
    by_cases even : m % 2 = 0
    · have half : m / 2 ≠ 0 := by omega
      obtain ⟨odd, rebuilt⟩ := ih (m / 2) (by omega) half
      simp only [ne_eq, hm, not_false_eq_true, even, and_self, ↓reduceDIte]
      refine ⟨odd, ?_⟩
      rw [Nat.pow_succ, ← Nat.mul_assoc, rebuilt]
      omega
    · have odd : m % 2 = 1 := by omega
      simp [odd]

theorem oddPart_odd_mul {odd : Nat} (hodd : odd % 2 = 1) (k : Nat) :
    oddPart (odd * 2 ^ k) = (odd, k) := by
  induction k with
  | zero =>
    rw [oddPart]
    simp [hodd]
  | succ k ih =>
    have pos : odd * 2 ^ k ≠ 0 := Nat.mul_ne_zero (by omega) (by positivity)
    have twice : odd * 2 ^ (k + 1) = 2 * (odd * 2 ^ k) := by rw [Nat.pow_succ]; ring
    rw [oddPart, twice]
    have even : 2 * (odd * 2 ^ k) ≠ 0 ∧ 2 * (odd * 2 ^ k) % 2 = 0 := ⟨by omega, by omega⟩
    simp only [even, ne_eq, not_false_eq_true, and_self, ↓reduceDIte, Nat.mul_div_cancel_left _ two_pos, ih]

theorem bitLength_eq {m k : Nat} (lo : 2 ^ k ≤ m) (hi : m < 2 ^ (k + 1)) : bitLength m = k + 1 := by
  have pos : m ≠ 0 := by have := Nat.one_le_two_pow (n := k); omega
  rw [bitLength, if_neg pos, (Nat.log2_eq_iff pos).mpr ⟨lo, hi⟩]

theorem bitLength_bounds {m : Nat} (hm : m ≠ 0) :
    2 ^ (bitLength m - 1) ≤ m ∧ m < 2 ^ bitLength m := by
  rw [bitLength, if_neg hm, Nat.add_sub_cancel]
  exact ⟨Nat.log2_self_le hm, Nat.lt_log2_self⟩

theorem bitLength_le_of_lt {m k : Nat} (hm : m ≠ 0) (h : m < 2 ^ k) : bitLength m ≤ k := by
  have lo := (bitLength_bounds hm).1
  have := (Nat.pow_lt_pow_iff_right (by norm_num : 1 < 2)).mp (Nat.lt_of_le_of_lt lo h)
  have len : 1 ≤ bitLength m := by rw [bitLength, if_neg hm]; omega
  omega

theorem bitLength_mul_two_pow {o : Nat} (ho : o ≠ 0) (z : Nat) :
    bitLength (o * 2 ^ z) = bitLength o + z := by
  obtain ⟨lo, hi⟩ := bitLength_bounds ho
  have len : 1 ≤ bitLength o := by rw [bitLength, if_neg ho]; omega
  rw [show bitLength o + z = bitLength o + z - 1 + 1 by omega]
  apply bitLength_eq
  · calc 2 ^ (bitLength o + z - 1) = 2 ^ (bitLength o - 1) * 2 ^ z := by
          rw [← Nat.pow_add]; congr 1; omega
      _ ≤ o * 2 ^ z := Nat.mul_le_mul_right _ lo
  · calc o * 2 ^ z < 2 ^ bitLength o * 2 ^ z := Nat.mul_lt_mul_of_pos_right hi (by positivity)
      _ = 2 ^ (bitLength o + z - 1 + 1) := by rw [← Nat.pow_add]; congr 1; omega

namespace Format

variable (f : Format)

/-- A pattern is its sign, exponent field and fraction field put side by side. -/
theorem pattern_fields (b : Nat) :
    b = b / 2 ^ (f.exponentBits + f.fractionBits) * 2 ^ (f.exponentBits + f.fractionBits) +
      b / 2 ^ f.fractionBits % 2 ^ f.exponentBits * 2 ^ f.fractionBits + b % 2 ^ f.fractionBits := by
  have low := Nat.div_add_mod b (2 ^ f.fractionBits)
  have high := Nat.div_add_mod (b / 2 ^ f.fractionBits) (2 ^ f.exponentBits)
  have top : b / 2 ^ f.fractionBits / 2 ^ f.exponentBits = b / 2 ^ (f.exponentBits + f.fractionBits) := by
    rw [Nat.div_div_eq_div_mul, ← Nat.pow_add, Nat.add_comm]
  rw [top] at high
  calc b = 2 ^ f.fractionBits * (2 ^ f.exponentBits * (b / 2 ^ (f.exponentBits + f.fractionBits)) +
          b / 2 ^ f.fractionBits % 2 ^ f.exponentBits) + b % 2 ^ f.fractionBits := by rw [high, low]
    _ = _ := by rw [Nat.pow_add]; ring

/-- The sign bit of a pattern, in place. -/
def signBit (neg : Bool) : Nat := if neg then 2 ^ (f.exponentBits + f.fractionBits) else 0

/-- The fields of a pattern put together from a sign, an exponent field and a fraction. -/
theorem fields_of_pattern (neg : Bool) {field frac : Nat} (hfield : field < 2 ^ f.exponentBits)
    (hfrac : frac < 2 ^ f.fractionBits) :
    let b := f.signBit neg + field * 2 ^ f.fractionBits + frac
    b % 2 ^ f.fractionBits = frac ∧ b / 2 ^ f.fractionBits % 2 ^ f.exponentBits = field ∧
      b / 2 ^ (f.exponentBits + f.fractionBits) = (if neg then 1 else 0) ∧
      b < 2 ^ (1 + f.exponentBits + f.fractionBits) := by
  intro b
  have spread : b = ((if neg then 2 ^ f.exponentBits else 0) + field) * 2 ^ f.fractionBits + frac := by
    simp only [b, signBit, Nat.pow_add]
    cases neg
    · simp
    · simp only [↓reduceIte]
      ring
  have above : b / 2 ^ f.fractionBits = (if neg then 2 ^ f.exponentBits else 0) + field := by
    rw [spread, Nat.add_comm _ frac, Nat.add_mul_div_right _ _ (by positivity), Nat.div_eq_of_lt hfrac,
      Nat.zero_add]
  have sign : b / 2 ^ (f.exponentBits + f.fractionBits) = (if neg then 1 else 0) := by
    rw [Nat.add_comm f.exponentBits, Nat.pow_add, ← Nat.div_div_eq_div_mul, above]
    cases neg
    · simp [Nat.div_eq_of_lt hfield]
    · simp only [↓reduceIte]
      rw [Nat.add_comm, Nat.add_div_right _ (by positivity), Nat.div_eq_of_lt hfield]
  refine ⟨?_, ?_, sign, ?_⟩
  · rw [spread, Nat.add_comm, Nat.add_mul_mod_self_right, Nat.mod_eq_of_lt hfrac]
  · rw [above]
    cases neg
    · simp [Nat.mod_eq_of_lt hfield]
    · simp [Nat.mod_eq_of_lt hfield]
  · have whole := Nat.div_add_mod b (2 ^ (f.exponentBits + f.fractionBits))
    have rest := Nat.mod_lt b (Nat.two_pow_pos (f.exponentBits + f.fractionBits))
    rw [sign] at whole
    rw [Nat.add_assoc, Nat.pow_add 2 1, Nat.pow_one]
    cases neg <;> simp at whole <;> omega

variable {f}

section Written

variable {neg : Bool} {m : Nat} (hm : m ≠ 0) {o z : Nat} (hpair : oddPart m = (o, z)) {e : Int}
include hm hpair

theorem finiteBits?_normal (hlen : bitLength o ≤ f.precision) (hlow : f.leastExponent ≤ e + z)
    (hlead : e + z + bitLength o - 1 ≤ f.bias) (hnormal : 1 - (f.bias : Int) ≤ e + z + bitLength o - 1) :
    f.finiteBits? neg m e = some (f.signBit neg + (e + z + bitLength o - 1 + f.bias).toNat * 2 ^ f.fractionBits +
      (o * 2 ^ (f.precision - bitLength o) - 2 ^ f.fractionBits)) := by
  simp only [finiteBits?, hm, hpair, Nat.pow_eq, ↓reduceIte]
  rw [if_neg (by omega), if_pos hnormal]
  rfl

theorem finiteBits?_subnormal (hlen : bitLength o ≤ f.precision) (hlow : f.leastExponent ≤ e + z)
    (hsub : e + z + bitLength o - 1 < 1 - (f.bias : Int)) :
    f.finiteBits? neg m e = some (f.signBit neg + o * 2 ^ (e + z - f.leastExponent).toNat) := by
  simp only [finiteBits?, hm, hpair, Nat.pow_eq, ↓reduceIte]
  rw [if_neg (by omega), if_neg (by omega)]
  rfl

theorem finiteBits?_eq_none (out : f.precision < bitLength o ∨ e + z < f.leastExponent ∨
      (f.bias : Int) < e + z + bitLength o - 1) :
    f.finiteBits? neg m e = none := by
  simp only [finiteBits?, hm, hpair, Nat.pow_eq, ↓reduceIte]
  rw [if_pos (by omega)]

end Written

theorem finiteBits?_zero (neg : Bool) (e : Int) : f.finiteBits? neg 0 e = some (f.signBit neg) := by
  simp only [finiteBits?, Nat.pow_eq, ↓reduceIte]
  rfl

section Pattern

variable (neg : Bool) {field frac : Nat} (hfield : field < 2 ^ f.exponentBits)
  (hfrac : frac < 2 ^ f.fractionBits)
include hfield hfrac

theorem negative_pattern : f.negative (f.signBit neg + field * 2 ^ f.fractionBits + frac) = neg := by
  have sign := (f.fields_of_pattern neg hfield hfrac).2.2.1
  simp only [negative, Nat.pow_eq]
  rw [sign]
  cases neg <;> rfl

theorem pattern_lt : f.signBit neg + field * 2 ^ f.fractionBits + frac < 2 ^ (1 + f.exponentBits + f.fractionBits) :=
  (f.fields_of_pattern neg hfield hfrac).2.2.2

theorem magnitude_pattern :
    f.magnitude (f.signBit neg + field * 2 ^ f.fractionBits + frac) =
      if field = f.topField then (if frac = 0 then .infinite else .nan frac)
      else if field = 0 then .finite frac f.leastExponent
      else .finite (frac + 2 ^ f.fractionBits) ((field : Int) - f.bias - f.fractionBits) := by
  obtain ⟨low, high, -⟩ := f.fields_of_pattern neg hfield hfrac
  simp only [magnitude, Nat.pow_eq]
  rw [low, high]

end Pattern

theorem topField_eq (he : 1 ≤ f.exponentBits) : f.topField = 2 * f.bias + 1 := by
  have split : 2 ^ f.exponentBits = 2 * 2 ^ (f.exponentBits - 1) := by
    rw [← Nat.pow_succ']; congr 1; omega
  have pos := Nat.one_le_two_pow (n := f.exponentBits - 1)
  simp only [topField, bias, Nat.pow_eq]
  omega

/-- The sign bit of a pattern below `2 ^ (1 + exponentBits + fractionBits)` is its sign. -/
theorem sign_part {b : Nat} (hb : b < 2 ^ (1 + f.exponentBits + f.fractionBits)) :
    b / 2 ^ (f.exponentBits + f.fractionBits) * 2 ^ (f.exponentBits + f.fractionBits) =
      f.signBit (f.negative b) := by
  have double : 2 ^ (1 + f.exponentBits + f.fractionBits) = 2 * 2 ^ (f.exponentBits + f.fractionBits) := by
    rw [Nat.add_assoc, Nat.pow_add, Nat.pow_one]
  have small : b / 2 ^ (f.exponentBits + f.fractionBits) < 2 := by
    rw [Nat.div_lt_iff_lt_mul (by positivity)]
    omega
  simp only [signBit, negative, Nat.pow_eq]
  rcases Nat.le_one_iff_eq_zero_or_eq_one.mp (Nat.lt_succ_iff.mp small) with zero | one
  · simp [zero]
  · simp [one]

/-- Writing the finite value a pattern stands for gives the pattern back. -/
theorem finiteBits?_magnitude (hp : 1 ≤ f.precision) (he : 1 ≤ f.exponentBits) {b m : Nat} {e : Int}
    (hb : b < 2 ^ (1 + f.exponentBits + f.fractionBits)) (hm : f.magnitude b = .finite m e) :
    f.finiteBits? (f.negative b) m e = some b := by
  have whole := f.pattern_fields b
  rw [sign_part hb] at whole
  have fracLt : b % 2 ^ f.fractionBits < 2 ^ f.fractionBits := Nat.mod_lt _ (by positivity)
  have fieldLt : b / 2 ^ f.fractionBits % 2 ^ f.exponentBits < 2 ^ f.exponentBits :=
    Nat.mod_lt _ (by positivity)
  have top := topField_eq he
  have topPow : f.topField = 2 ^ f.exponentBits - 1 := by simp [topField]
  have fb : f.fractionBits = f.precision - 1 := rfl
  simp only [magnitude, Nat.pow_eq] at hm
  generalize b % 2 ^ f.fractionBits = frac at hm whole fracLt
  generalize b / 2 ^ f.fractionBits % 2 ^ f.exponentBits = field at hm whole fieldLt
  by_cases atTop : field = f.topField
  · rw [if_pos atTop] at hm
    split at hm <;> cases hm
  rw [if_neg atTop] at hm
  by_cases zero : field = 0
  · -- a subnormal or a zero: the fraction is the whole significand
    rw [if_pos zero, Magnitude.finite.injEq] at hm
    obtain ⟨rfl, rfl⟩ := hm
    by_cases none : frac = 0
    · rw [none, finiteBits?_zero]
      rw [zero, none] at whole
      exact congrArg some (by simpa using whole.symm)
    obtain ⟨odd, rebuilt⟩ := oddPart_spec none
    generalize pair : oddPart frac = p at odd rebuilt
    obtain ⟨o, z⟩ := p
    simp only at odd rebuilt
    have ho : o ≠ 0 := by omega
    have len := bitLength_mul_two_pow ho z
    have short := bitLength_le_of_lt none fracLt
    rw [rebuilt] at len
    have least : f.leastExponent = 1 - (f.bias : Int) - f.fractionBits := rfl
    rw [finiteBits?_subnormal none pair (by omega) (by omega) (by omega)]
    have shift : (f.leastExponent + z - f.leastExponent).toNat = z := by omega
    rw [shift, rebuilt]
    rw [zero] at whole
    exact congrArg some (by simpa using whole.symm)
  · -- a normal number: the leading one is implicit in the pattern
    rw [if_neg zero, Magnitude.finite.injEq] at hm
    obtain ⟨rfl, rfl⟩ := hm
    have whole' : frac + 2 ^ f.fractionBits ≠ 0 := by positivity
    obtain ⟨odd, rebuilt⟩ := oddPart_spec whole'
    generalize pair : oddPart (frac + 2 ^ f.fractionBits) = p at odd rebuilt
    obtain ⟨o, z⟩ := p
    simp only at odd rebuilt
    have ho : o ≠ 0 := by omega
    have len := bitLength_mul_two_pow ho z
    have exact : bitLength (frac + 2 ^ f.fractionBits) = f.fractionBits + 1 :=
      bitLength_eq (by omega) (by rw [Nat.pow_succ]; omega)
    rw [rebuilt] at len
    have least : f.leastExponent = 1 - (f.bias : Int) - f.fractionBits := rfl
    rw [finiteBits?_normal whole' pair (by omega) (by omega) (by omega) (by omega)]
    have fieldBack : ((field : Int) - f.bias - f.fractionBits + z + bitLength o - 1 + f.bias).toNat = field := by
      omega
    have fracBack : o * 2 ^ (f.precision - bitLength o) - 2 ^ f.fractionBits = frac := by
      rw [show f.precision - bitLength o = z by omega, rebuilt]
      omega
    rw [fieldBack, fracBack]
    exact congrArg some whole.symm

/-- Two finite values `m * 2 ^ e` and `m' * 2 ^ e'` that are the same number: both zero, or the
same odd part with its last bit at the same exponent. -/
def SameValue (m : Nat) (e : Int) (m' : Nat) (e' : Int) : Prop :=
  (m = 0 ∧ m' = 0) ∨
    (m ≠ 0 ∧ m' ≠ 0 ∧ (oddPart m).1 = (oddPart m').1 ∧ e + (oddPart m).2 = e' + (oddPart m').2)

/-- `finiteBits?` writes a number, not a pair: the same value gets the same pattern. -/
theorem finiteBits?_congr {neg : Bool} {m m' : Nat} {e e' : Int} (same : SameValue m e m' e') :
    f.finiteBits? neg m e = f.finiteBits? neg m' e' := by
  rcases same with ⟨rfl, rfl⟩ | ⟨hm, hm', odd, low⟩
  · rw [finiteBits?_zero, finiteBits?_zero]
  generalize hp : oddPart m = p at odd low
  generalize hp' : oddPart m' = p' at odd low
  obtain ⟨o, z⟩ := p
  obtain ⟨o', z'⟩ := p'
  simp only at odd low
  subst odd
  simp only [finiteBits?, hm, hm', hp, hp', ↓reduceIte, Nat.pow_eq, low]

/-- The pattern `finiteBits?` writes has the sign asked for and reads back as the same value. -/
theorem magnitude_finiteBits? (hp : 1 ≤ f.precision) (he : 1 ≤ f.exponentBits) {neg : Bool} {m h : Nat}
    {e : Int} (written : f.finiteBits? neg m e = some h) :
    f.negative h = neg ∧ h < 2 ^ (1 + f.exponentBits + f.fractionBits) ∧
      ∃ m' e', f.magnitude h = .finite m' e' ∧ SameValue m e m' e' := by
  have top := topField_eq he
  have topPow : f.topField = 2 ^ f.exponentBits - 1 := by simp [topField]
  have fb : f.fractionBits = f.precision - 1 := rfl
  have least : f.leastExponent = 1 - (f.bias : Int) - f.fractionBits := rfl
  have fieldTop : f.topField < 2 ^ f.exponentBits := by have := Nat.one_le_two_pow (n := f.exponentBits); omega
  by_cases hm : m = 0
  · -- zero is written as its sign alone
    rw [hm, finiteBits?_zero, Option.some.injEq] at written
    have zeroField : (0 : Nat) < 2 ^ f.exponentBits := by positivity
    have zeroFrac : (0 : Nat) < 2 ^ f.fractionBits := by positivity
    have shape : h = f.signBit neg + 0 * 2 ^ f.fractionBits + 0 := by rw [← written]; simp
    rw [shape, negative_pattern neg zeroField zeroFrac, magnitude_pattern neg zeroField zeroFrac]
    refine ⟨rfl, pattern_lt neg zeroField zeroFrac, 0, f.leastExponent, ?_, .inl ⟨hm, rfl⟩⟩
    simp [show (0 : Nat) ≠ f.topField by omega]
  obtain ⟨odd, rebuilt⟩ := oddPart_spec hm
  generalize pair : oddPart m = p at odd rebuilt
  obtain ⟨o, z⟩ := p
  simp only at odd rebuilt
  have ho : o ≠ 0 := by omega
  obtain ⟨lo, hi⟩ := bitLength_bounds ho
  have len : 1 ≤ bitLength o := by rw [bitLength, if_neg ho]; omega
  by_cases out : f.precision < bitLength o ∨ e + z < f.leastExponent ∨
      (f.bias : Int) < e + z + bitLength o - 1
  · rw [finiteBits?_eq_none hm pair out] at written
    cases written
  by_cases normal : 1 - (f.bias : Int) ≤ e + z + bitLength o - 1
  · -- a normal pattern: the significand's leading one is dropped
    rw [finiteBits?_normal hm pair (by omega) (by omega) (by omega) normal, Option.some.injEq] at written
    set k := f.precision - bitLength o with hk
    have scaled : 2 ^ f.fractionBits ≤ o * 2 ^ k ∧ o * 2 ^ k < 2 * 2 ^ f.fractionBits := by
      constructor
      · calc 2 ^ f.fractionBits = 2 ^ (bitLength o - 1) * 2 ^ k := by rw [← Nat.pow_add]; congr 1; omega
          _ ≤ o * 2 ^ k := Nat.mul_le_mul_right _ lo
      · calc o * 2 ^ k < 2 ^ bitLength o * 2 ^ k := Nat.mul_lt_mul_of_pos_right hi (by positivity)
          _ = 2 * 2 ^ f.fractionBits := by rw [← Nat.pow_add, ← Nat.pow_succ']; congr 1; omega
    have hfield : (e + z + bitLength o - 1 + f.bias).toNat < 2 ^ f.exponentBits := by omega
    have hfrac : o * 2 ^ k - 2 ^ f.fractionBits < 2 ^ f.fractionBits := by omega
    rw [← written, negative_pattern neg hfield hfrac, magnitude_pattern neg hfield hfrac,
      if_neg (by omega), if_neg (by omega)]
    refine ⟨rfl, pattern_lt neg hfield hfrac, _, _, rfl, .inr ⟨hm, by positivity, ?_⟩⟩
    rw [Nat.sub_add_cancel scaled.1, oddPart_odd_mul odd, pair]
    simp only [true_and]
    omega
  · -- a subnormal pattern: the significand sits in the fraction as it is
    rw [finiteBits?_subnormal hm pair (by omega) (by omega) (by omega), Option.some.injEq] at written
    set k := (e + z - f.leastExponent).toNat with hk
    have small : o * 2 ^ k < 2 ^ f.fractionBits :=
      calc o * 2 ^ k < 2 ^ bitLength o * 2 ^ k := Nat.mul_lt_mul_of_pos_right hi (by positivity)
        _ ≤ 2 ^ f.fractionBits := by rw [← Nat.pow_add]; exact Nat.pow_le_pow_right (by norm_num) (by omega)
    have zeroField : (0 : Nat) < 2 ^ f.exponentBits := by positivity
    have shape : h = f.signBit neg + 0 * 2 ^ f.fractionBits + o * 2 ^ k := by rw [← written]; simp
    have nonzero : o * 2 ^ k ≠ 0 := by positivity
    rw [shape, negative_pattern neg zeroField small, magnitude_pattern neg zeroField small,
      if_neg (by omega), if_pos rfl]
    refine ⟨rfl, pattern_lt neg zeroField small, _, _, rfl, .inr ⟨hm, nonzero, ?_⟩⟩
    rw [oddPart_odd_mul odd, pair]
    simp only [true_and]
    omega

theorem infinityBits_eq (neg : Bool) :
    f.infinityBits neg = f.signBit neg + f.topField * 2 ^ f.fractionBits + 0 := by
  simp [infinityBits, signBit]

/-- An infinity is its sign and the all-ones exponent field. -/
theorem eq_infinityBits {b : Nat} (hb : b < 2 ^ (1 + f.exponentBits + f.fractionBits))
    (hm : f.magnitude b = .infinite) : b = f.infinityBits (f.negative b) := by
  have whole := f.pattern_fields b
  rw [sign_part hb] at whole
  simp only [magnitude, Nat.pow_eq] at hm
  rw [infinityBits_eq]
  by_cases atTop : b / 2 ^ f.fractionBits % 2 ^ f.exponentBits = f.topField
  · rw [if_pos atTop] at hm
    by_cases zero : b % 2 ^ f.fractionBits = 0
    · rw [← atTop, ← zero]
      exact whole
    · rw [if_neg zero] at hm
      cases hm
  · rw [if_neg atTop] at hm
    split at hm <;> cases hm

/-- A NaN is the pattern of the infinity of its sign with a nonzero fraction added. -/
theorem eq_nan {b payload : Nat} (hb : b < 2 ^ (1 + f.exponentBits + f.fractionBits))
    (hm : f.magnitude b = .nan payload) :
    b = f.infinityBits (f.negative b) + payload ∧ payload < 2 ^ f.fractionBits ∧ payload ≠ 0 := by
  have whole := f.pattern_fields b
  rw [sign_part hb] at whole
  simp only [magnitude, Nat.pow_eq] at hm
  rw [infinityBits_eq, Nat.add_zero]
  by_cases atTop : b / 2 ^ f.fractionBits % 2 ^ f.exponentBits = f.topField
  · rw [if_pos atTop] at hm
    by_cases zero : b % 2 ^ f.fractionBits = 0
    · rw [if_pos zero] at hm
      cases hm
    · rw [if_neg zero, Magnitude.nan.injEq] at hm
      rw [← hm, ← atTop]
      exact ⟨whole, Nat.mod_lt _ (by positivity), zero⟩
  · rw [if_neg atTop] at hm
    split at hm <;> cases hm

end Format

private theorem testBit_of_and_ne {x i : Nat} (set : x &&& 2 ^ i ≠ 0) : x.testBit i = true := by
  by_contra clear
  apply set
  apply Nat.eq_of_testBit_eq
  intro j
  simp only [Nat.testBit_and, Nat.testBit_two_pow, Nat.zero_testBit]
  by_cases same : i = j
  · subst same
    simpa using clear
  · simp [same]

private theorem two_pow_or_of_testBit {x i : Nat} (set : x.testBit i = true) : 2 ^ i ||| x = x := by
  apply Nat.eq_of_testBit_eq
  intro j
  simp only [Nat.testBit_or, Nat.testBit_two_pow]
  by_cases same : i = j
  · subst same
    simp [set]
  · simp [same]

/-- A binary64 pattern that `f` holds exactly widens back to itself, and the narrow pattern fits
the width of `f`. -/
theorem widen_narrow {f : Format} (hp : 2 ≤ f.precision) (hpd : f.precision ≤ 53) (he : 1 ≤ f.exponentBits)
    {b h : Nat} (hb : b < 2 ^ 64) (narrowed : narrow? f b = some h) :
    widen f h = b ∧ h < 2 ^ (1 + f.exponentBits + f.fractionBits) := by
  have hb' : b < 2 ^ (1 + double.exponentBits + double.fractionBits) := hb
  have fbLe : f.fractionBits ≤ 52 := by simp only [Format.fractionBits]; omega
  have topLt : f.topField < 2 ^ f.exponentBits := by
    have := Nat.one_le_two_pow (n := f.exponentBits)
    simp only [Format.topField, Nat.pow_eq]
    omega
  simp only [narrow?] at narrowed
  generalize hmag : double.magnitude b = mag at narrowed
  cases mag with
  | finite m e =>
    -- the narrow pattern stands for the same number, which binary64 writes as `b`
    obtain ⟨sign, bound, m', e', mag', same⟩ := Format.magnitude_finiteBits? (by omega) he narrowed
    refine ⟨?_, bound⟩
    simp only [widen, mag', sign]
    rw [← Format.finiteBits?_congr same, Format.finiteBits?_magnitude (by decide) (by decide) hb' hmag]
    rfl
  | infinite =>
    rw [Option.some.injEq] at narrowed
    have zeroFrac : (0 : Nat) < 2 ^ f.fractionBits := by positivity
    rw [← narrowed, Format.infinityBits_eq]
    refine ⟨?_, Format.pattern_lt _ topLt zeroFrac⟩
    simp only [widen, Format.negative_pattern _ topLt zeroFrac, Format.magnitude_pattern _ topLt zeroFrac,
      ↓reduceIte]
    exact (Format.eq_infinityBits hb' hmag).symm
  | nan payload =>
    obtain ⟨whole, small, nonzero⟩ := Format.eq_nan hb' hmag
    simp only [Nat.pow_eq] at narrowed
    split at narrowed
    case isFalse => cases narrowed
    case isTrue quiet =>
    obtain ⟨quietSet, aligned⟩ := quiet
    rw [Option.some.injEq] at narrowed
    have fb52 : double.fractionBits = 52 := rfl
    set dropped := 52 - f.fractionBits with hdropped
    have bit : payload.testBit 51 = true := testBit_of_and_ne quietSet
    have big := Nat.ge_two_pow_of_testBit bit
    have payloadLt : payload < 2 ^ f.fractionBits * 2 ^ dropped := by
      rw [← Nat.pow_add, show f.fractionBits + dropped = 52 by omega]
      exact small
    have kept : payload / 2 ^ dropped < 2 ^ f.fractionBits := (Nat.div_lt_iff_lt_mul (by positivity)).mpr payloadLt
    have back : payload / 2 ^ dropped * 2 ^ dropped = payload := Nat.div_mul_cancel (Nat.dvd_of_mod_eq_zero aligned)
    have keptPos : payload / 2 ^ dropped ≠ 0 := by
      intro gone
      rw [gone, Nat.zero_mul] at back
      omega
    -- the infinity pattern has no fraction bits, so or-ing the payload in adds it
    have spread (g : Format) (neg : Bool) {q : Nat} (hq : q < 2 ^ g.fractionBits) :
        g.infinityBits neg ||| q = g.signBit neg + g.topField * 2 ^ g.fractionBits + q := by
      have factored : g.infinityBits neg = 2 ^ g.fractionBits * ((if neg then 2 ^ g.exponentBits else 0) + g.topField) := by
        rw [Format.infinityBits_eq]
        simp only [Format.signBit, Nat.pow_add]
        cases neg <;> simp <;> ring
      rw [factored, ← Nat.two_pow_add_eq_or_of_lt hq]
      simp only [Format.signBit, Nat.pow_add]
      cases neg <;> simp <;> ring
    rw [← narrowed, spread f _ kept]
    refine ⟨?_, Format.pattern_lt _ topLt kept⟩
    simp only [widen, Format.negative_pattern _ topLt kept, Format.magnitude_pattern _ topLt kept, ↓reduceIte,
      if_neg keptPos, Nat.pow_eq, quietBit]
    rw [← hdropped, back, Nat.or_assoc, two_pow_or_of_testBit bit, spread double _ (by rw [fb52]; exact small)]
    conv => rhs; rw [whole, Format.infinityBits_eq, Nat.add_zero]

end KeyRelay.Binary
