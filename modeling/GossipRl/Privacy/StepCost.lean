import GossipRl.Privacy.Costs
import GossipRl.Support.TruncatedBinomial

/-!
# The cost of a step

Sampling never makes a step cost more. But the sum in `_compute_subsampled_rdp` ends at the term of
`int(alpha)`, or the 99th, and what it leaves out (`droppedMass`) may be more than what the noise adds
to the terms it takes (`excess`): then the cost is negative.
-/

namespace GossipRl
open Support

noncomputable section

/-- The last term of the sum. -/
def lastTerm (alpha : ℝ) : ℕ := min ⌊alpha⌋₊ 99

/-- By how much the terms of the sum are more than the binomial weights. -/
def excess (sigma q alpha : ℝ) : ℝ :=
  ∑ k ∈ Finset.range (lastTerm alpha + 1),
    binomialWeight alpha q k * (Real.exp (k * (k - 1) / ((2 : ℕ) * sigma ^ 2)) - 1)

section Cost
variable {sigma q alpha : ℝ} {k : ℕ}

theorem lastTerm_le (halpha : 0 ≤ alpha) : (lastTerm alpha : ℝ) ≤ alpha :=
  (Nat.le_floor_iff halpha).1 (min_le_left _ _)

theorem le_of_lt_lastTerm (halpha : 0 ≤ alpha) (hk : k < lastTerm alpha + 1) : (k : ℝ) ≤ alpha :=
  (Nat.cast_le.2 (Nat.lt_succ_iff.1 hk)).trans (lastTerm_le halpha)

theorem lastTerm_succ (alpha : ℝ) : lastTerm alpha + 1 = min (⌊alpha⌋₊ + 1) 100 := by
  unfold lastTerm
  omega

theorem truncatedSum_eq (sigma q alpha : ℝ) :
    truncatedSum sigma q alpha = cutBinomial alpha q (lastTerm alpha) + excess sigma q alpha := by
  rw [truncatedSum, ← lastTerm_succ, cutBinomial, excess, ← Finset.sum_add_distrib]
  refine Finset.sum_congr rfl fun k _ => ?_
  simp only [subsampledTerm, binomialWeight]
  ring

theorem one_le_truncatedSum_iff (hq : 0 ≤ q) (hq' : q < 1) (halpha : 0 ≤ alpha) :
    1 ≤ truncatedSum sigma q alpha ↔ droppedMass alpha q (lastTerm alpha) ≤ excess sigma q alpha := by
  have hsplit := cutBinomial_add_droppedMass hq hq' (lastTerm_le halpha)
  rw [truncatedSum_eq, ← hsplit]
  exact add_le_add_iff_left _

/-- Even the last term grows by no more than a whole step without sampling. -/
theorem exp_le_of_le (hk : k ≤ alpha) (halpha : 1 < alpha) :
    Real.exp (k * (k - 1) / ((2 : ℕ) * sigma ^ 2)) ≤
      Real.exp (alpha / ((2 : ℕ) * sigma ^ 2) * (alpha - 1)) := by
  have hmul : (k : ℝ) * (k - 1) ≤ alpha * (alpha - 1) := by
    rcases Nat.eq_zero_or_pos k with rfl | hpos
    · simp only [Nat.cast_zero, zero_mul]
      exact mul_nonneg (by linarith) (by linarith)
    · have hone : (1 : ℝ) ≤ k := by exact_mod_cast hpos
      exact mul_le_mul hk (by linarith) (by linarith) (by linarith)
  rw [div_mul_eq_mul_div]
  exact Real.exp_le_exp.2 (div_le_div_of_nonneg_right hmul (by positivity))

theorem truncatedSum_le (hq : 0 ≤ q) (hq' : q < 1) (halpha : 1 < alpha) :
    truncatedSum sigma q alpha ≤ Real.exp (alpha / ((2 : ℕ) * sigma ^ 2) * (alpha - 1)) := by
  calc truncatedSum sigma q alpha
      ≤ ∑ k ∈ Finset.range (lastTerm alpha + 1), binomialWeight alpha q k *
          Real.exp (alpha / ((2 : ℕ) * sigma ^ 2) * (alpha - 1)) := by
        rw [truncatedSum, ← lastTerm_succ]
        refine Finset.sum_le_sum fun k hk => ?_
        have hk : (k : ℝ) ≤ alpha := le_of_lt_lastTerm (by linarith) (Finset.mem_range.1 hk)
        exact mul_le_mul_of_nonneg_left (exp_le_of_le hk halpha) (binomialWeight_nonneg hq hq'.le hk)
    _ = cutBinomial alpha q (lastTerm alpha) *
          Real.exp (alpha / ((2 : ℕ) * sigma ^ 2) * (alpha - 1)) := by
        rw [cutBinomial, Finset.sum_mul]
    _ ≤ Real.exp (alpha / ((2 : ℕ) * sigma ^ 2) * (alpha - 1)) :=
        mul_le_of_le_one_left (Real.exp_pos _).le
          (cutBinomial_le_one hq hq' (lastTerm_le (by linarith)))

theorem computeSubsampledRdp_spec (hsigma : 0 < sigma) (hq : 0 ≤ q) (hq' : q < 1)
    (halpha : 1 < alpha) :
    computeSubsampledRdp sigma q alpha =
      some (Real.log (truncatedSum sigma q alpha) / (alpha - 1)) := by
  rcases hq.eq_or_lt with rfl | hpos
  · rw [computeSubsampledRdp, if_neg (not_le.2 halpha), if_pos rfl,
      truncatedSum_zero (by linarith), Real.log_one, zero_div]
  · exact computeSubsampledRdp_eq hsigma.ne' hpos hq' halpha

theorem truncatedSum_pos_of_nonneg (hq : 0 ≤ q) (hq' : q < 1) (halpha : 0 ≤ alpha) :
    0 < truncatedSum sigma q alpha := by
  rcases hq.eq_or_lt with rfl | hq
  · rw [truncatedSum_zero halpha]
    exact one_pos
  · exact truncatedSum_pos hq hq' halpha

theorem cost_nonneg_iff (hq : 0 ≤ q) (hq' : q < 1) (halpha : 1 < alpha) :
    0 ≤ Real.log (truncatedSum sigma q alpha) / (alpha - 1) ↔
      droppedMass alpha q (lastTerm alpha) ≤ excess sigma q alpha := by
  rw [le_div_iff₀ (sub_pos.2 halpha), zero_mul,
    Real.log_nonneg_iff (truncatedSum_pos_of_nonneg hq hq' (by linarith))]
  exact one_le_truncatedSum_iff hq hq' (by linarith)

theorem cost_le (hq : 0 ≤ q) (hq' : q < 1) (halpha : 1 < alpha) :
    Real.log (truncatedSum sigma q alpha) / (alpha - 1) ≤ alpha / ((2 : ℕ) * sigma ^ 2) := by
  rw [div_le_iff₀ (sub_pos.2 halpha),
    Real.log_le_iff_le_exp (truncatedSum_pos_of_nonneg hq hq' (by linarith))]
  exact truncatedSum_le hq hq' halpha

theorem excess_nonneg (hq : 0 ≤ q) (hq' : q ≤ 1) (halpha : 0 ≤ alpha) :
    0 ≤ excess sigma q alpha := by
  refine Finset.sum_nonneg fun k hk => ?_
  have hk : (k : ℝ) ≤ alpha := le_of_lt_lastTerm halpha (Finset.mem_range.1 hk)
  refine mul_nonneg (binomialWeight_nonneg hq hq' hk) (sub_nonneg.2 (Real.one_le_exp ?_))
  exact div_nonneg (mul_pred_nonneg k) (by positivity)

theorem droppedMass_le_excess_of_whole (hq : 0 ≤ q) (hq' : q ≤ 1) {n : ℕ} (hn : n < 100) :
    droppedMass n q (lastTerm n) ≤ excess sigma q n := by
  have hlast : lastTerm n = n := by
    rw [lastTerm, Nat.floor_natCast]
    omega
  rw [hlast, droppedMass_self]
  exact excess_nonneg hq hq' n.cast_nonneg

/-- Between 1 and 2 something always is, and the noise adds nothing to the first two terms. -/
theorem excess_lt_droppedMass (hq : 0 < q) (hq' : q < 1) (halpha : 1 < alpha) (halpha' : alpha < 2) :
    excess sigma q alpha < droppedMass alpha q (lastTerm alpha) := by
  refine not_le.1 fun hle => ?_
  have hsum := (one_le_truncatedSum_iff hq.le hq' (by linarith)).2 hle
  exact absurd (truncatedSum_lt_one hq hq' halpha halpha') (not_lt.2 hsum)

end Cost

/-- The cost of a step lies between 0 and the cost without sampling if and only if there is no
sampling, or the terms the sum takes grow by at least what it drops. -/
theorem subsampled_cost_iff {sigma q alpha : ℝ} (halpha : 1 < alpha) (hsigma : 0 < sigma)
    (hq : 0 ≤ q) (hq' : q ≤ 1) :
    (∃ cost, computeSubsampledRdp sigma q alpha = some cost ∧ 0 ≤ cost ∧
      cost ≤ alpha / (2 * sigma ^ 2)) ↔
    q = 1 ∨ droppedMass alpha q (lastTerm alpha) ≤ excess sigma q alpha := by
  rcases hq'.eq_or_lt with rfl | hlt
  · have hcost : computeSubsampledRdp sigma 1 alpha = some (alpha / (2 * sigma ^ 2)) := by
      simp [computeSubsampledRdp, gaussianRdp, not_le.2 halpha, hsigma.ne']
    refine iff_of_true ⟨_, hcost, ?_, le_rfl⟩ (.inl rfl)
    exact div_nonneg (by linarith) (by positivity)
  · rw [computeSubsampledRdp_spec hsigma hq hlt halpha]
    constructor
    · rintro ⟨cost, hcost, hle, -⟩
      obtain rfl := Option.some.inj hcost
      exact .inr ((cost_nonneg_iff hq hlt halpha).1 hle)
    · rintro (rfl | hdropped)
      · exact absurd hlt (lt_irrefl _)
      · exact ⟨_, rfl, (cost_nonneg_iff hq hlt halpha).2 hdropped, cost_le hq hlt halpha⟩

section Example

theorem whole_order_cost :
    (∃ cost, computeSubsampledRdp 1 (1 / 2) 2 = some cost ∧ 0 ≤ cost ∧ cost ≤ 2 / (2 * 1 ^ 2)) ↔
    (1 / 2 : ℝ) = 1 ∨ droppedMass 2 (1 / 2) (lastTerm 2) ≤ excess 1 (1 / 2) 2 :=
  subsampled_cost_iff (by norm_num) (by norm_num) (by norm_num) (by norm_num)

/-- At the order 3 / 2 the cost is negative. -/
theorem negative_cost : ∃ cost, computeSubsampledRdp 1 (1 / 2) (3 / 2) = some cost ∧ cost < 0 := by
  have hsum : truncatedSum 1 (1 / 2) (3 / 2) < 1 :=
    truncatedSum_lt_one (by norm_num) (by norm_num) (by norm_num) (by norm_num)
  have hpos : 0 < truncatedSum 1 (1 / 2) (3 / 2) :=
    truncatedSum_pos (by norm_num) (by norm_num) (by norm_num)
  exact ⟨_, computeSubsampledRdp_spec one_pos (by norm_num) (by norm_num) (by norm_num),
    div_neg_of_neg_of_pos (Real.log_neg hpos hsum) (by norm_num)⟩

end Example

end

end GossipRl
