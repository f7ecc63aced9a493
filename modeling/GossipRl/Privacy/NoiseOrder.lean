import GossipRl.Privacy.AccountantRun

/-!
# More noise

At every order a step with more noise costs no more. But an order counts for `get_epsilon` only as
long as its value is positive: with more noise the least value may go out, and the result is then
that of another order.
-/

namespace GossipRl
open Support

noncomputable section

/-- The second call has the sample rate of the first one, and no less noise. -/
structure Noisier (call call' : ℝ × ℝ) : Prop where
  valid : ValidCall call
  noiseMultiplier_le : call.1 ≤ call'.1
  sampleRate_eq : call'.2 = call.2

section Cost
variable {call call' : ℝ × ℝ} {calls calls' : List (ℝ × ℝ)} {sigma sigma' q alpha order : ℝ}

theorem Noisier.valid' (h : Noisier call call') : ValidCall call' where
  noiseMultiplier_pos := h.valid.noiseMultiplier_pos.trans_le h.noiseMultiplier_le
  sampleRate_pos := h.sampleRate_eq ▸ h.valid.sampleRate_pos
  sampleRate_le := h.sampleRate_eq ▸ h.valid.sampleRate_le

theorem truncatedSum_anti (hsigma : 0 < sigma) (hle : sigma ≤ sigma') (hq : 0 < q) (hq' : q < 1)
    (halpha : 0 ≤ alpha) : truncatedSum sigma' q alpha ≤ truncatedSum sigma q alpha := by
  refine Finset.sum_le_sum fun k hk => ?_
  have hk := le_of_lt_terms halpha (Finset.mem_range.1 hk)
  have hcoeff : 0 ≤ gammaChoose alpha k * q ^ k * (1 - q) ^ (alpha - k) :=
    mul_nonneg (mul_nonneg (gammaChoose_pos hk).le (pow_nonneg hq.le k))
      (Real.rpow_nonneg (sub_nonneg.2 hq'.le) _)
  refine mul_le_mul_of_nonneg_left (Real.exp_le_exp.2 ?_) hcoeff
  have hpos : 0 < (2 : ℕ) * sigma ^ 2 := by positivity
  refine div_le_div_of_nonneg_left (mul_pred_nonneg k) hpos ?_
  gcongr

theorem Noisier.stepCost_le (h : Noisier call call') (horder : 1 < order) :
    stepCost call' order ≤ stepCost call order := by
  have hsigma := h.valid.noiseMultiplier_pos
  by_cases hrate : call.2 = 1
  · rw [stepCost, if_pos (h.sampleRate_eq.trans hrate), stepCost, if_pos hrate]
    have hpos : 0 < (2 : ℕ) * call.1 ^ 2 := by positivity
    refine div_le_div_of_nonneg_left (by linarith) hpos ?_
    have := h.noiseMultiplier_le
    gcongr
  · have hrate' : call'.2 ≠ 1 := fun h' => hrate (h.sampleRate_eq.symm.trans h')
    rw [stepCost, if_neg hrate', if_neg (not_le.2 horder), stepCost, if_neg hrate,
      if_neg (not_le.2 horder), h.sampleRate_eq]
    have hq := h.valid.sampleRate_pos
    have hq' := h.valid.sampleRate_lt hrate
    have hsum := truncatedSum_anti hsigma h.noiseMultiplier_le hq hq' (by linarith : 0 ≤ order)
    have hpos : 0 < truncatedSum call'.1 call.2 order := truncatedSum_pos hq hq' (by linarith)
    exact div_le_div_of_nonneg_right (Real.log_le_log hpos hsum) (by linarith)

theorem totalCost_le (h : List.Forall₂ Noisier calls calls') (horder : 1 < order) :
    RDPAccountant.totalCost calls' order ≤ RDPAccountant.totalCost calls order := by
  induction h with
  | nil => exact le_rfl
  | cons hcall _ ih => exact add_le_add (hcall.stepCost_le horder) ih

theorem valid_of_noisier (h : List.Forall₂ Noisier calls calls') :
    (∀ call ∈ calls, ValidCall call) ∧ ∀ call ∈ calls', ValidCall call := by
  induction h with
  | nil => simp
  | cons hcall _ ih =>
    simp only [List.forall_mem_cons]
    exact ⟨⟨hcall.valid, ih.1⟩, hcall.valid', ih.2⟩

end Cost

namespace RDPAccountant
variable {orders : List ℝ} {calls calls' : List (ℝ × ℝ)} {a a' : RDPAccountant} {delta : ℝ}

/-- For each order that goes out, another one is left whose value is positive, and no greater than
the one that is lost. -/
def Replaced (delta : ℝ) (orders : List ℝ) (calls calls' : List (ℝ × ℝ)) : Prop :=
  ∀ order ∈ orders, 0 < valueAfter delta calls order → valueAfter delta calls' order ≤ 0 →
    ∃ order' ∈ orders, 0 < valueAfter delta calls' order' ∧
      valueAfter delta calls' order' ≤ valueAfter delta calls order

theorem getEpsilon_run_le_iff (hdelta : 0 < delta) (horders : ∀ order ∈ orders, 1 < order)
    (hrun : run step (init orders) calls = some a)
    (hrun' : run step (init orders) calls' = some a') :
    a'.getEpsilon delta ≤ a.getEpsilon delta ↔
      ∀ order ∈ orders, 0 < valueAfter delta calls order →
        ∃ order' ∈ orders, 0 < valueAfter delta calls' order' ∧
          valueAfter delta calls' order' ≤ valueAfter delta calls order := by
  rw [getEpsilon_le_iff hdelta, (perOrder_run hrun).2, (perOrder_run hrun').2]
  simp only [List.mem_map, forall_exists_index, and_imp, forall_apply_eq_imp_iff₂,
    exists_exists_and_eq_and]
  refine forall₂_congr fun order horder => ?_
  constructor
  · intro h hpos
    obtain ⟨order', horder', hcounted, hle⟩ := h ⟨horders order horder, hpos⟩
    exact ⟨order', horder', hcounted.2, hle⟩
  · rintro h ⟨-, hpos⟩
    obtain ⟨order', horder', hpos', hle⟩ := h hpos
    exact ⟨order', horder', ⟨horders order' horder', hpos'⟩, hle⟩

theorem valueAfter_le (h : List.Forall₂ Noisier calls calls') {order : ℝ} (horder : 1 < order) :
    valueAfter delta calls' order ≤ valueAfter delta calls order :=
  add_le_add_left (totalCost_le h horder) _

theorem replaced_iff (h : List.Forall₂ Noisier calls calls') (horders : ∀ order ∈ orders, 1 < order) :
    Replaced delta orders calls calls' ↔
      ∀ order ∈ orders, 0 < valueAfter delta calls order →
        ∃ order' ∈ orders, 0 < valueAfter delta calls' order' ∧
          valueAfter delta calls' order' ≤ valueAfter delta calls order := by
  refine forall₂_congr fun order horder => forall_congr' fun _ => ⟨fun hout => ?_, fun h _ => h⟩
  rcases le_or_gt (valueAfter delta calls' order) 0 with hle | hpos
  · exact hout hle
  · exact ⟨order, horder, hpos, valueAfter_le h (horders order horder)⟩

theorem replaced_of_whole_orders (hdelta : 0 < delta) (h : List.Forall₂ Noisier calls calls')
    (horders : ∀ order ∈ orders, 1 < order ∧ delta * order < 1 ∧ ∃ n : ℕ, n < 100 ∧ order = n) :
    Replaced delta orders calls calls' := by
  intro order horder _ hout
  obtain ⟨hone, hsmall, n, hn, rfl⟩ := horders order horder
  have hpos := valueAfter_pos_of_whole hdelta (valid_of_noisier h).2 hn hone hsmall
  exact absurd hpos (not_lt.2 hout)

end RDPAccountant

open RDPAccountant

/-- After steps with more noise `get_epsilon` returns no more, if and only if the orders that go out
are replaced. -/
theorem more_noise_iff {orders : List ℝ} {calls calls' : List (ℝ × ℝ)} {delta : ℝ}
    (hdelta : 0 < delta) (horders : ∀ order ∈ orders, 1 < order)
    (hcalls : List.Forall₂ Noisier calls calls') :
    (∃ a a', run RDPAccountant.step (.init orders) calls = some a ∧
      run RDPAccountant.step (.init orders) calls' = some a' ∧
      a'.getEpsilon delta ≤ a.getEpsilon delta) ↔
    Replaced delta orders calls calls' := by
  obtain ⟨hvalid, hvalid'⟩ := valid_of_noisier hcalls
  obtain ⟨a, hrun⟩ := run_of_valid hvalid orders
  obtain ⟨a', hrun'⟩ := run_of_valid hvalid' orders
  rw [replaced_iff hcalls horders, ← getEpsilon_run_le_iff hdelta horders hrun hrun']
  simp [hrun, hrun']

section Example

theorem twice_the_noise : List.Forall₂ Noisier [(2, 1)] [(4, 1)] :=
  .cons ⟨⟨by norm_num, by norm_num, by norm_num⟩, by norm_num, rfl⟩ .nil

theorem more_noise_at_two :
    (∃ a a', run RDPAccountant.step (.init [2]) [(2, 1)] = some a ∧
      run RDPAccountant.step (.init [2]) [(4, 1)] = some a' ∧
      a'.getEpsilon (1 / 10) ≤ a.getEpsilon (1 / 10)) ↔
    Replaced (1 / 10) [2] [(2, 1)] [(4, 1)] :=
  more_noise_iff (by norm_num) (by simp) twice_the_noise

/-- With twice the noise the order 4 goes out, and the result is that of 3 / 2. -/
theorem four_goes_out :
    ∃ a a', run RDPAccountant.step (.init [4, 3 / 2]) [(2, 1)] = some a ∧
      run RDPAccountant.step (.init [4, 3 / 2]) [(4, 1)] = some a' ∧
      a.getEpsilon (1 / 2) < a'.getEpsilon (1 / 2) := by
  obtain ⟨hvalid, hvalid'⟩ := valid_of_noisier twice_the_noise
  obtain ⟨a, hrun⟩ := run_of_valid hvalid [4, 3 / 2]
  obtain ⟨a', hrun'⟩ := run_of_valid hvalid' [4, 3 / 2]
  refine ⟨a, a', hrun, hrun', ?_⟩
  have horders : ∀ order ∈ ([4, 3 / 2] : List ℝ), 1 < order := by
    intro order horder
    rcases List.mem_pair.1 horder with rfl | rfl <;> norm_num
  have hvalue : ∀ sigma order : ℝ, valueAfter (1 / 2) [(sigma, 1)] order =
      order / (2 * sigma ^ 2) + (Real.log (1 / 2) + Real.log order) / (1 - order) := by
    intro sigma order
    simp [valueAfter, epsilonAt, totalCost, stepCost]
  have hfour : ∀ sigma : ℝ, valueAfter (1 / 2) [(sigma, 1)] 4 = 2 / sigma ^ 2 - Real.log 2 / 3 := by
    intro sigma
    rw [hvalue, ← Real.log_mul (by norm_num) (by norm_num), show (1 / 2 * 4 : ℝ) = 2 by norm_num]
    ring
  have hsmall : 1 / 2 ≤ valueAfter (1 / 2) [(4, 1)] (3 / 2) := by
    have hlog : 1 - (4 / 3 : ℝ)⁻¹ ≤ Real.log (4 / 3) := Real.one_sub_inv_le_log_of_pos (by norm_num)
    rw [hvalue, ← Real.log_mul (by norm_num) (by norm_num),
      show (1 / 2 * (3 / 2) : ℝ) = (4 / 3)⁻¹ by norm_num, Real.log_inv]
    norm_num at hlog ⊢
    linarith
  have htwo : 1 - (2 : ℝ)⁻¹ ≤ Real.log 2 := Real.one_sub_inv_le_log_of_pos (by norm_num)
  have htwo' : Real.log 2 ≤ 2 - 1 := Real.log_le_sub_one_of_pos (by norm_num)
  norm_num at htwo htwo'
  by_contra hle
  rw [not_lt] at hle
  obtain ⟨order', horder', hpos, hle⟩ := (getEpsilon_run_le_iff (by norm_num) horders hrun hrun').1
    hle 4 (by simp) (by rw [hfour]; norm_num; linarith)
  rcases List.mem_pair.1 horder' with rfl | rfl
  · rw [hfour] at hpos
    norm_num at hpos
    linarith
  · rw [hfour] at hle
    norm_num at hle
    linarith

end Example

end

end GossipRl
