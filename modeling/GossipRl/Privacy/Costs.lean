import GossipRl.Privacy.Accountant
import Mathlib.Analysis.Convex.SpecificFunctions.Basic
import Mathlib.Data.Nat.Choose.Sum

/-!
# The costs of a call

With sampling, the cost at an order is the logarithm of a binomial sum. Where the order is a whole
number below 100 the sum is over the whole binomial distribution and at least 1. But it stops at
`int(alpha)`, and at 100 terms: elsewhere it may be less than 1, as it always is between 1 and 2.
`Accepted` says at which orders the cost can be computed.
-/

namespace GossipRl
open Support

noncomputable section

/-- What `step` is called with: a positive noise multiplier, a sample rate in (0, 1]. -/
structure ValidCall (call : ℝ × ℝ) : Prop where
  noiseMultiplier_pos : 0 < call.1
  sampleRate_pos : 0 < call.2
  sampleRate_le : call.2 ≤ 1

theorem ValidCall.sampleRate_lt {call : ℝ × ℝ} (h : ValidCall call) (hrate : call.2 ≠ 1) :
    call.2 < 1 :=
  lt_of_le_of_ne h.sampleRate_le hrate

/-- A term of the sum in `_compute_subsampled_rdp`. -/
def subsampledTerm (sigma q alpha : ℝ) (k : ℕ) : ℝ :=
  gammaChoose alpha k * q ^ k * (1 - q) ^ (alpha - k) *
    Real.exp (k * (k - 1) / ((2 : ℕ) * sigma ^ 2))

/-- As far as `_compute_subsampled_rdp` takes the sum. -/
def truncatedSum (sigma q alpha : ℝ) : ℝ :=
  ∑ k ∈ Finset.range (min (⌊alpha⌋₊ + 1) 100), subsampledTerm sigma q alpha k

section Terms
variable {sigma q alpha : ℝ} {k : ℕ}

theorem subsampledTerm_pos (hq : 0 < q) (hq' : q < 1) (hk : k ≤ alpha) :
    0 < subsampledTerm sigma q alpha k :=
  mul_pos (mul_pos (mul_pos (gammaChoose_pos hk) (pow_pos hq k))
    (Real.rpow_pos_of_pos (sub_pos.2 hq') _)) (Real.exp_pos _)

theorem exp_logComb (hk : k ≤ alpha) :
    ∃ comb, logComb alpha k = some comb ∧ Real.exp comb = gammaChoose alpha k := by
  rcases Nat.eq_zero_or_pos k with rfl | hpos
  · refine ⟨0, rfl, ?_⟩
    rw [Real.exp_zero, gammaChoose_zero (by simpa using hk)]
  · refine ⟨_, ?_, exp_gammaln_choose hk⟩
    rw [logComb, if_neg hpos.ne', if_neg (not_lt.2 hk)]

theorem logTerm_eq (hq : 0 < q) (hq' : q < 1) (hk : k ≤ alpha) :
    logTerm sigma q alpha k = some (Real.log (subsampledTerm sigma q alpha k)) := by
  obtain ⟨comb, hcomb, hexp⟩ := exp_logComb hk
  have hterm : subsampledTerm sigma q alpha k =
      Real.exp (comb + k * Real.log q + (alpha - k) * Real.log (1 - q) +
        k * (k - 1) / ((2 : ℕ) * sigma ^ 2)) := by
    rw [subsampledTerm, ← hexp, Real.rpow_def_of_pos (sub_pos.2 hq'), Real.exp_add, Real.exp_add,
      Real.exp_add, Real.exp_nat_mul, Real.exp_log hq, mul_comm (Real.log (1 - q))]
  rw [logTerm, hcomb, Option.map_some, hterm, Real.log_exp]

theorem le_of_lt_terms (halpha : 0 ≤ alpha) (hk : k < min (⌊alpha⌋₊ + 1) 100) : (k : ℝ) ≤ alpha :=
  (Nat.le_floor_iff halpha).1 (by omega)

theorem truncatedSum_pos (hq : 0 < q) (hq' : q < 1) (halpha : 0 ≤ alpha) :
    0 < truncatedSum sigma q alpha := by
  refine Finset.sum_pos (fun k hk => ?_) ⟨0, by simp⟩
  exact subsampledTerm_pos hq hq' (le_of_lt_terms halpha (Finset.mem_range.1 hk))

/-- Without sampling only the first term of the sum is left. -/
theorem truncatedSum_zero (halpha : 0 ≤ alpha) : truncatedSum sigma 0 alpha = 1 := by
  rw [truncatedSum, Finset.sum_eq_single_of_mem 0 (Finset.mem_range.2 (by omega))]
  · simp [subsampledTerm, gammaChoose_zero halpha]
  · intro k _ hk
    simp [subsampledTerm, hk]

theorem computeSubsampledRdp_eq (hsigma : sigma ≠ 0) (hq : 0 < q) (hq' : q < 1)
    (halpha : 1 < alpha) :
    computeSubsampledRdp sigma q alpha =
      some (Real.log (truncatedSum sigma q alpha) / (alpha - 1)) := by
  have hterms : (List.range (min (⌊alpha⌋₊ + 1) 100)).map (logTerm sigma q alpha) =
      ((List.range (min (⌊alpha⌋₊ + 1) 100)).map fun k =>
        Real.log (subsampledTerm sigma q alpha k)).map some := by
    rw [List.map_map]
    refine List.map_congr_left fun k hk => ?_
    exact logTerm_eq hq hq' (le_of_lt_terms (by linarith) (List.mem_range.1 hk))
  have hne : ((List.range (min (⌊alpha⌋₊ + 1) 100)).map fun k =>
      Real.log (subsampledTerm sigma q alpha k)) ≠ [] := by
    simp
  have hsum : (((List.range (min (⌊alpha⌋₊ + 1) 100)).map fun k =>
      Real.log (subsampledTerm sigma q alpha k)).map Real.exp).sum = truncatedSum sigma q alpha := by
    rw [List.map_map]
    show _ = ((List.range (min (⌊alpha⌋₊ + 1) 100)).map (subsampledTerm sigma q alpha)).sum
    congr 1
    refine List.map_congr_left fun k hk => ?_
    exact Real.exp_log (subsampledTerm_pos hq hq'
      (le_of_lt_terms (by linarith) (List.mem_range.1 hk)))
  have hraise : ¬ (sigma = 0 ∨ q < 0 ∨ 1 < q) := by
    rintro (h | h | h)
    · exact hsigma h
    · linarith
    · linarith
  rw [computeSubsampledRdp, if_neg (not_le.2 halpha), if_neg hq.ne', if_neg hq'.ne, if_neg hraise,
    hterms, logSumExp_map_some hne, hsum, Option.map_some]

theorem mul_pred_nonneg (k : ℕ) : (0 : ℝ) ≤ k * (k - 1) := by
  rcases Nat.eq_zero_or_pos k with rfl | hpos
  · simp
  · have : (1 : ℝ) ≤ k := by exact_mod_cast hpos
    exact mul_nonneg (by linarith) (by linarith)

theorem one_le_truncatedSum {n : ℕ} (hq : 0 < q) (hq' : q < 1) (hn : n < 100) :
    1 ≤ truncatedSum sigma q n := by
  have hrange : min (⌊(n : ℝ)⌋₊ + 1) 100 = n + 1 := by
    rw [Nat.floor_natCast]
    omega
  have hbinomial : (1 : ℝ) = ∑ k ∈ Finset.range (n + 1), q ^ k * (1 - q) ^ (n - k) * n.choose k := by
    rw [← add_pow, add_sub_cancel, one_pow]
  rw [truncatedSum, hrange, hbinomial]
  refine Finset.sum_le_sum fun k hk => ?_
  have hk : k ≤ n := Nat.lt_succ_iff.1 (Finset.mem_range.1 hk)
  have hpow : (1 - q) ^ ((n : ℝ) - k) = (1 - q) ^ (n - k) := by
    rw [← Nat.cast_sub hk, Real.rpow_natCast]
  have hexp : 1 ≤ Real.exp (k * (k - 1) / ((2 : ℕ) * sigma ^ 2)) :=
    Real.one_le_exp (div_nonneg (mul_pred_nonneg k) (by positivity))
  have hq'' : 0 < 1 - q := sub_pos.2 hq'
  rw [subsampledTerm, gammaChoose_natCast hk, hpow]
  calc q ^ k * (1 - q) ^ (n - k) * n.choose k
      = n.choose k * q ^ k * (1 - q) ^ (n - k) := by ring
    _ ≤ n.choose k * q ^ k * (1 - q) ^ (n - k) * Real.exp (k * (k - 1) / ((2 : ℕ) * sigma ^ 2)) :=
        le_mul_of_one_le_right (by positivity) hexp

/-- Between 1 and 2 only the first two terms are left. -/
theorem truncatedSum_of_lt_two (hq' : q < 1) (halpha : 1 < alpha) (halpha' : alpha < 2) :
    truncatedSum sigma q alpha = (1 - q) ^ (alpha - 1) * (1 + (alpha - 1) * q) := by
  have hfloor : ⌊alpha⌋₊ = 1 := by
    rw [Nat.floor_eq_iff (by linarith)]
    exact ⟨by simpa using halpha.le, by norm_num; exact halpha'⟩
  have hpow : (1 - q) ^ alpha = (1 - q) ^ (alpha - 1) * (1 - q) := by
    rw [← Real.rpow_add_one (sub_pos.2 hq').ne', sub_add_cancel]
  rw [truncatedSum, hfloor]
  show ∑ k ∈ Finset.range 2, subsampledTerm sigma q alpha k = _
  rw [Finset.sum_range_succ, Finset.sum_range_one, subsampledTerm, subsampledTerm,
    gammaChoose_zero (by linarith), gammaChoose_one (by linarith)]
  simp only [Nat.cast_zero, Nat.cast_one, zero_mul, sub_self, mul_zero, zero_div, Real.exp_zero,
    mul_one, sub_zero, pow_zero, pow_one, one_mul, hpow]
  ring

theorem truncatedSum_lt_one (hq : 0 < q) (hq' : q < 1) (halpha : 1 < alpha) (halpha' : alpha < 2) :
    truncatedSum sigma q alpha < 1 := by
  have hpos : 0 < 1 - q := sub_pos.2 hq'
  have hbernoulli : (1 - q) ^ (alpha - 1) < 1 + (alpha - 1) * -q := by
    rw [sub_eq_add_neg]
    exact rpow_one_add_lt_one_add_mul_self (by linarith) (by linarith) (by linarith) (by linarith)
  have hfactor : 0 < 1 + (alpha - 1) * q := by nlinarith
  rw [truncatedSum_of_lt_two hq' halpha halpha']
  calc (1 - q) ^ (alpha - 1) * (1 + (alpha - 1) * q)
      < (1 + (alpha - 1) * -q) * (1 + (alpha - 1) * q) :=
        mul_lt_mul_of_pos_right hbernoulli hfactor
    _ = 1 - ((alpha - 1) * q) ^ 2 := by ring
    _ ≤ 1 := sub_le_self _ (sq_nonneg _)

end Terms

/-- What a call of `step` adds at an order. -/
def stepCost (call : ℝ × ℝ) (order : ℝ) : ℝ :=
  if call.2 = 1 then order / ((2 : ℕ) * call.1 ^ 2)
  else if order ≤ 1 then 0
  else Real.log (truncatedSum call.1 call.2 order) / (order - 1)

/-- The binomial sum falls short of 1. -/
def Undercounts (call : ℝ × ℝ) (order : ℝ) : Prop :=
  call.2 ≠ 1 ∧ truncatedSum call.1 call.2 order < 1

section Cost
variable {call : ℝ × ℝ} {order : ℝ}

theorem stepCost_nonneg (horder : 1 < order) (hunder : ¬ Undercounts call order) :
    0 ≤ stepCost call order := by
  by_cases hrate : call.2 = 1
  · rw [stepCost, if_pos hrate]
    exact div_nonneg (by linarith) (by positivity)
  · rw [stepCost, if_neg hrate, if_neg (not_le.2 horder)]
    have hsum : 1 ≤ truncatedSum call.1 call.2 order := not_lt.1 fun h => hunder ⟨hrate, h⟩
    exact div_nonneg (Real.log_nonneg hsum) (by linarith)

theorem stepCost_neg (hcall : ValidCall call) (horder : 1 < order)
    (hunder : Undercounts call order) : stepCost call order < 0 := by
  have hpos : 0 < truncatedSum call.1 call.2 order := truncatedSum_pos hcall.sampleRate_pos
    (hcall.sampleRate_lt hunder.1) (by linarith)
  rw [stepCost, if_neg hunder.1, if_neg (not_le.2 horder)]
  exact div_neg_of_neg_of_pos (Real.log_neg hpos hunder.2) (by linarith)

/-- Only orders that are not whole, or too great, undercount. -/
theorem not_undercounts_natCast (hcall : ValidCall call) {n : ℕ} (hn : n < 100) :
    ¬ Undercounts call n := by
  rintro ⟨hrate, hsum⟩
  exact hsum.not_ge (one_le_truncatedSum hcall.sampleRate_pos (hcall.sampleRate_lt hrate) hn)

theorem undercounts_of_lt_two (hcall : ValidCall call) (hrate : call.2 ≠ 1) (horder : 1 < order)
    (horder' : order < 2) : Undercounts call order :=
  ⟨hrate, truncatedSum_lt_one hcall.sampleRate_pos (hcall.sampleRate_lt hrate) horder horder'⟩

end Cost

/-- At this order nothing is divided by zero, and no logarithm is taken of a number that is not
positive. -/
def Accepted (call : ℝ × ℝ) (order : ℝ) : Prop :=
  if call.2 = 1 then call.1 ≠ 0
  else order ≤ 1 ∨ call.2 = 0 ∨ call.1 ≠ 0 ∧ 0 < call.2 ∧ call.2 < 1

theorem ValidCall.accepted {call : ℝ × ℝ} (h : ValidCall call) (order : ℝ) : Accepted call order := by
  unfold Accepted
  split_ifs with hrate
  · exact h.noiseMultiplier_pos.ne'
  · exact .inr (.inr ⟨h.noiseMultiplier_pos.ne', h.sampleRate_pos, h.sampleRate_lt hrate⟩)

/-- What the loop of `_compute_rdp` puts at an order. -/
def rdpAt (call : ℝ × ℝ) (order : ℝ) : Option ℝ :=
  if call.2 = 1 then gaussianRdp call.1 order else computeSubsampledRdp call.1 call.2 order

theorem rdpAt_of_accepted {call : ℝ × ℝ} {order : ℝ} (h : Accepted call order) :
    rdpAt call order = some (stepCost call order) := by
  unfold rdpAt stepCost
  by_cases hrate : call.2 = 1
  · rw [Accepted, if_pos hrate] at h
    rw [if_pos hrate, if_pos hrate, gaussianRdp, if_neg h]
  rw [Accepted, if_neg hrate] at h
  rw [if_neg hrate, if_neg hrate]
  rcases le_or_gt order 1 with horder | horder
  · rw [computeSubsampledRdp, if_pos horder, if_pos horder]
  rw [if_neg (not_le.2 horder)]
  rcases h with h | hzero | ⟨hsigma, hpos, hlt⟩
  · exact absurd h (not_le.2 horder)
  · rw [computeSubsampledRdp, if_neg (not_le.2 horder), if_pos hzero, hzero,
      truncatedSum_zero (by linarith), Real.log_one, zero_div]
  · exact computeSubsampledRdp_eq hsigma hpos hlt horder

theorem rdpAt_of_not_accepted {call : ℝ × ℝ} {order : ℝ} (h : ¬ Accepted call order) :
    rdpAt call order = none := by
  unfold rdpAt
  by_cases hrate : call.2 = 1
  · rw [Accepted, if_pos hrate, not_not] at h
    rw [if_pos hrate, gaussianRdp, if_pos h]
  rw [Accepted, if_neg hrate] at h
  obtain ⟨horder, hzero, hbad⟩ : ¬ order ≤ 1 ∧ call.2 ≠ 0 ∧
      ¬ (call.1 ≠ 0 ∧ 0 < call.2 ∧ call.2 < 1) := by
    simpa only [not_or] using h
  have hraise : call.1 = 0 ∨ call.2 < 0 ∨ 1 < call.2 := by
    by_contra hnot
    obtain ⟨hsigma, hpos, hlt⟩ : call.1 ≠ 0 ∧ 0 ≤ call.2 ∧ call.2 ≤ 1 := by
      simpa only [not_or, not_lt] using hnot
    exact hbad ⟨hsigma, lt_of_le_of_ne hpos (Ne.symm hzero), lt_of_le_of_ne hlt hrate⟩
  rw [if_neg hrate, computeSubsampledRdp, if_neg horder, if_neg hzero, if_neg hrate, if_pos hraise]

end

end GossipRl
