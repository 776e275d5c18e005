import Mathlib
import KeyRelay.Proofs.Bookkeeping

/-!
Rates read in exact rationals. Nothing rounds and nothing is NaN, so the least and greatest of
two rates are `min` and `max`, a comparison is the order of `ℚ`, and the rate a quality of
service asks for, with the overhead charged on top of it, is never negative.
-/
namespace KeyRelay

instance : RateArith ℚ where
  lt a b := decide (a < b)
  ofNat n := n
  isNaN _ := false
  toFloat q := Float.ofInt q.num / Float.ofNat q.den

namespace RateArith

@[simp] theorem lt_rat (a b : ℚ) : lt a b = decide (a < b) := rfl

@[simp] theorem ofNat_rat (n : Nat) : (ofNat n : ℚ) = n := rfl

@[simp] theorem isNaN_rat (a : ℚ) : isNaN a = false := rfl

@[simp] theorem least_rat (a b : ℚ) : least a b = min a b := by
  simp only [least, isNaN_rat, lt_rat, Bool.false_eq_true, if_false, decide_eq_true_eq, min_def]
  split_ifs with below below' <;> first | rfl | linarith

@[simp] theorem greatest_rat (a b : ℚ) : greatest a b = max a b := by
  simp only [greatest, isNaN_rat, lt_rat, Bool.false_eq_true, if_false, decide_eq_true_eq, max_def]
  split_ifs with above above' <;> first | rfl | linarith

end RateArith

theorem Qos.rate_nonneg (q : Qos) : (0 : ℚ) ≤ q.rate := by
  simp only [Qos.rate, RateArith.ofNat_rat]
  positivity

theorem OverheadPolicy.overhead_nonneg (p : OverheadPolicy) {rate : ℚ} (nonneg : 0 ≤ rate)
    (prefetch : Nat) : 0 ≤ p.overhead rate prefetch := by
  unfold OverheadPolicy.overhead
  split
  · exact le_refl 0
  · cases p <;> simp only [RateArith.ofNat_rat] <;> positivity

end KeyRelay
