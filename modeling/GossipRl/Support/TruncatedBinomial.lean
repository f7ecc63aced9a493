import GossipRl.Support.LogSpace
import Mathlib.Analysis.SpecialFunctions.Pow.Deriv
import Mathlib.MeasureTheory.Integral.IntervalIntegral.FundThmCalculus

/-!
# Binomial sums that are cut off

For a real `n` the weights `binomialWeight n q k` of `k = 0, 1, 2, …` play the part of the binomial
distribution. The first of them, up to a whole number `m` that is not above `n`, fall short of 1 by
`droppedMass n q m`, an incomplete beta integral (`cutBinomial_add_droppedMass`): the sum is 1 at
`q = 0`, and of its derivative all but one term cancels.
-/

namespace Support

variable {n q : ℝ} {k m : ℕ}

theorem gammaChoose_succ (h : (m + 1 : ℕ) ≤ n) :
    (m + 1) * gammaChoose n (m + 1) = (n - m) * gammaChoose n m := by
  push_cast at h
  have hm : (0 : ℝ) ≤ m := m.cast_nonneg
  have hfactor : Real.Gamma (m + 1 + 1) = (m + 1) * Real.Gamma (m + 1) :=
    Real.Gamma_add_one (by positivity)
  have hrest : Real.Gamma (n - m + 1) = (n - m) * Real.Gamma (n - m) :=
    Real.Gamma_add_one (by linarith)
  have hpos : Real.Gamma (m + 1) ≠ 0 := (Real.Gamma_pos_of_pos (by positivity)).ne'
  have hpos' : Real.Gamma (n - m) ≠ 0 := (Real.Gamma_pos_of_pos (by linarith)).ne'
  have hne : n - m ≠ 0 := by linarith
  have hne' : (m : ℝ) + 1 ≠ 0 := by positivity
  rw [gammaChoose, gammaChoose, Nat.cast_add, Nat.cast_one, hfactor, hrest,
    show n - (m + 1) + 1 = n - m by ring]
  field_simp

noncomputable def binomialWeight (n q : ℝ) (k : ℕ) : ℝ :=
  gammaChoose n k * q ^ k * (1 - q) ^ (n - k)

theorem binomialWeight_nonneg (hq : 0 ≤ q) (hq' : q ≤ 1) (hk : k ≤ n) : 0 ≤ binomialWeight n q k :=
  mul_nonneg (mul_nonneg (gammaChoose_pos hk).le (pow_nonneg hq k))
    (Real.rpow_nonneg (sub_nonneg.2 hq') _)

/-- The weights up to `m`. -/
noncomputable def cutBinomial (n q : ℝ) (m : ℕ) : ℝ :=
  ∑ k ∈ Finset.range (m + 1), binomialWeight n q k

theorem cutBinomial_zero_right (hn : 0 ≤ n) (m : ℕ) : cutBinomial n 0 m = 1 := by
  rw [cutBinomial, Finset.sum_eq_single_of_mem 0 (by simp)]
  · simp [binomialWeight, gammaChoose_zero hn]
  · intro k _ hk
    simp [binomialWeight, hk]

/-- The derivative of the sum, but for its sign. -/
noncomputable def cutDensity (n : ℝ) (m : ℕ) (q : ℝ) : ℝ :=
  (n - m) * gammaChoose n m * (q ^ m * (1 - q) ^ (n - m - 1))

theorem hasDerivAt_one_sub_rpow (hq : q < 1) (r : ℝ) :
    HasDerivAt (fun t => (1 - t) ^ r) (-(r * (1 - q) ^ (r - 1))) q := by
  have h := ((hasDerivAt_id q).const_sub 1).rpow_const (p := r) (.inl (sub_pos.2 hq).ne')
  refine h.congr_deriv ?_
  simp

theorem hasDerivAt_binomialWeight (hq : q < 1) (n : ℝ) (k : ℕ) :
    HasDerivAt (fun t => binomialWeight n t (k + 1))
      ((k + 1) * gammaChoose n (k + 1) * (q ^ k * (1 - q) ^ (n - k - 1)) -
        cutDensity n (k + 1) q) q := by
  have hpow := hasDerivAt_pow (k + 1) q
  have hrest := hasDerivAt_one_sub_rpow hq (n - (k + 1 : ℕ))
  refine ((hpow.mul hrest).const_mul (gammaChoose n (k + 1))).congr_deriv ?_ |>.congr_of_eventuallyEq
    (.of_forall fun t => by simp only [binomialWeight]; rw [mul_assoc]; rfl)
  rw [cutDensity, Nat.add_sub_cancel]
  push_cast
  rw [show n - k - 1 = n - (k + 1) by ring]
  ring

theorem hasDerivAt_cutBinomial (hq : q < 1) (hm : m ≤ n) :
    HasDerivAt (fun t => cutBinomial n t m) (-cutDensity n m q) q := by
  induction m with
  | zero =>
    have hn : 0 ≤ n := by simpa using hm
    have hzero : (fun t => cutBinomial n t 0) = fun t => (1 - t) ^ n := by
      funext t
      simp [cutBinomial, binomialWeight, gammaChoose_zero hn]
    rw [hzero]
    refine (hasDerivAt_one_sub_rpow hq n).congr_deriv ?_
    simp [cutDensity, gammaChoose_zero hn]
  | succ m ih =>
    have hm' : (m : ℝ) ≤ n := le_trans (by push_cast; linarith) hm
    have hsucc : (fun t => cutBinomial n t (m + 1)) =
        fun t => cutBinomial n t m + binomialWeight n t (m + 1) := by
      funext t
      rw [cutBinomial, Finset.sum_range_succ, ← cutBinomial]
    rw [hsucc]
    refine ((ih hm').add (hasDerivAt_binomialWeight hq n m)).congr_deriv ?_
    rw [gammaChoose_succ hm, cutDensity]
    ring

noncomputable def droppedMass (n q : ℝ) (m : ℕ) : ℝ :=
  (n - m) * gammaChoose n m * ∫ t in (0 : ℝ)..q, t ^ m * (1 - t) ^ (n - m - 1)

theorem droppedMass_nonneg (hq : 0 ≤ q) (hq' : q ≤ 1) (hm : m ≤ n) : 0 ≤ droppedMass n q m := by
  refine mul_nonneg (mul_nonneg (sub_nonneg.2 hm) (gammaChoose_pos hm).le) ?_
  refine intervalIntegral.integral_nonneg hq fun t ht => ?_
  exact mul_nonneg (pow_nonneg ht.1 m) (Real.rpow_nonneg (by linarith [ht.2]) _)

theorem droppedMass_self (q : ℝ) (m : ℕ) : droppedMass m q m = 0 := by
  rw [droppedMass, sub_self, zero_mul, zero_mul]

theorem cutBinomial_add_droppedMass (hq : 0 ≤ q) (hq' : q < 1) (hm : m ≤ n) :
    cutBinomial n q m + droppedMass n q m = 1 := by
  have hn : 0 ≤ n := m.cast_nonneg.trans hm
  have hlt : ∀ t ∈ Set.uIcc 0 q, t < 1 := by
    intro t ht
    rw [Set.uIcc_of_le hq] at ht
    exact ht.2.trans_lt hq'
  have hcont : ContinuousOn (fun t => -cutDensity n m t) (Set.uIcc 0 q) := by
    refine (ContinuousOn.mul continuousOn_const (ContinuousOn.mul ?_ ?_)).neg
    · exact (continuous_pow m).continuousOn
    · exact (continuousOn_const.sub continuousOn_id).rpow_const fun t ht =>
        .inl (sub_pos.2 (hlt t ht)).ne'
  have hftc := intervalIntegral.integral_eq_sub_of_hasDerivAt
    (fun t ht => hasDerivAt_cutBinomial (hlt t ht) hm) hcont.intervalIntegrable
  have hdropped : ∫ t in (0 : ℝ)..q, -cutDensity n m t = -droppedMass n q m := by
    simp only [cutDensity]
    rw [intervalIntegral.integral_neg, intervalIntegral.integral_const_mul, droppedMass]
  rw [hdropped, cutBinomial_zero_right hn] at hftc
  linarith

theorem cutBinomial_le_one (hq : 0 ≤ q) (hq' : q < 1) (hm : m ≤ n) : cutBinomial n q m ≤ 1 := by
  have := cutBinomial_add_droppedMass hq hq' hm
  have := droppedMass_nonneg hq hq'.le hm
  linarith

end Support
