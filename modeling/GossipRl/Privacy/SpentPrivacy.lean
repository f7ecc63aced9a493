import GossipRl.Privacy.AccountantRun

/-!
# Spent privacy

Where the binomial sum of a call falls short of 1, the value of an order goes down. And an order
whose value is not positive is left out until it is, when it may be below all the others.
-/

namespace GossipRl
open Support

noncomputable section

namespace RDPAccountant
variable {a a' : RDPAccountant} {call : ℝ × ℝ} {delta : ℝ}

/-- An order that was left out, or at which the call undercounts, stays out or does not come below
all that were counted. -/
def Harmless (delta : ℝ) (a : RDPAccountant) (call : ℝ × ℝ) : Prop :=
  ∀ order ∈ a.perOrder, 1 < order.1 → epsilonAt delta order ≤ 0 ∨ Undercounts call order.1 →
    0 < epsilonAt delta order + stepCost call order.1 →
    ∃ order' ∈ a.perOrder, Counted delta order' ∧
      epsilonAt delta order' ≤ epsilonAt delta order + stepCost call order.1

theorem getEpsilon_step_le_iff (hdelta : 0 < delta)
    (hstep : a'.perOrder = a.perOrder.map fun order => (order.1, order.2 + stepCost call order.1)) :
    a.getEpsilon delta ≤ a'.getEpsilon delta ↔ a.Harmless delta call := by
  rw [getEpsilon_le_iff hdelta, hstep]
  constructor
  · intro h order hmem horder _ hpos
    rw [← epsilonAt_add] at hpos ⊢
    exact h _ (List.mem_map_of_mem hmem) ⟨horder, hpos⟩
  · intro h order' hmem' hcounted
    obtain ⟨order, hmem, rfl⟩ := List.mem_map.1 hmem'
    obtain ⟨horder, hpos⟩ := hcounted
    rw [epsilonAt_add] at hpos ⊢
    by_cases hbad : epsilonAt delta order ≤ 0 ∨ Undercounts call order.1
    · exact h order hmem horder hbad hpos
    · obtain ⟨hcounted, hunder⟩ := not_or.1 hbad
      exact ⟨order, hmem, ⟨horder, not_le.1 hcounted⟩,
        le_add_of_nonneg_right (stepCost_nonneg horder hunder)⟩

/-- Every call returns, and `get_epsilon` does not return less after it than before. -/
def NeverLowers (delta : ℝ) (a₀ : RDPAccountant) (calls : List (ℝ × ℝ)) : Prop :=
  Along step (fun a call => ∃ a', a.step call = some a' ∧ a.getEpsilon delta ≤ a'.getEpsilon delta)
    a₀ calls

/-- Nothing is ever left out, nor lowered, if every order is a whole number below 100 and below
`1 / delta`. -/
theorem neverLowers_of_whole_orders {orders : List ℝ} {calls : List (ℝ × ℝ)} (hdelta : 0 < delta)
    (hcalls : ∀ call ∈ calls, ValidCall call)
    (horders : ∀ order ∈ orders, delta * order < 1 ∧ ∃ n : ℕ, n < 100 ∧ order = n) :
    NeverLowers delta (.init orders) calls := by
  intro es₁ call es₂ a hcalls' hrun
  have hcall : ValidCall call := hcalls call (by simp [hcalls'])
  have hbefore : ∀ c ∈ es₁, ValidCall c := fun c hc => hcalls c (by simp [hcalls', hc])
  obtain ⟨a', hstep, hper⟩ := step_spec hcall a
  refine ⟨a', hstep, (getEpsilon_step_le_iff hdelta hper).2 ?_⟩
  rw [Harmless, (perOrder_run hrun).2]
  intro order hmem hone hbad _
  obtain ⟨order, horder, rfl⟩ := List.mem_map.1 hmem
  obtain ⟨hsmall, n, hn, rfl⟩ := horders order horder
  have hpos : 0 < valueAfter delta es₁ n := valueAfter_pos_of_whole hdelta hbefore hn hone hsmall
  rcases hbad with hout | hunder
  · exact absurd hpos (not_lt.2 hout)
  · exact absurd hunder (not_undercounts_natCast hcall hn)

end RDPAccountant

open RDPAccountant

/-- Spent privacy never goes down exactly if every call is harmless: no order that was left out so
far, and none at which the binomial sum falls short of 1, comes out positive and below all that were
counted before. -/
theorem spent_privacy_iff {delta : ℝ} {orders : List ℝ} {calls : List (ℝ × ℝ)} (hdelta : 0 < delta)
    (hcalls : ∀ call ∈ calls, ValidCall call) :
    NeverLowers delta (.init orders) calls ↔
      Along RDPAccountant.step (fun a call => a.Harmless delta call) (.init orders) calls := by
  refine forall₄_congr fun es₁ call es₂ a => forall₂_congr fun hcalls' _ => ?_
  have hcall : ValidCall call := hcalls call (by simp [hcalls'])
  obtain ⟨a', hstep, hper⟩ := step_spec hcall a
  show (∃ a', a.step call = some a' ∧ _) ↔ a.Harmless delta call
  rw [← getEpsilon_step_le_iff hdelta hper]
  constructor
  · rintro ⟨a₁, hstep₁, hle⟩
    obtain rfl := Option.some.inj (hstep.symm.trans hstep₁)
    exact hle
  · exact fun hle => ⟨a', hstep, hle⟩

section Example

theorem halfCall_valid : ValidCall (1, 1 / 2) :=
  ⟨by norm_num, by norm_num, by norm_num⟩

theorem spent_privacy_iff_half : NeverLowers (1 / 10) (.init [3 / 2, 2]) [(1, 1 / 2)] ↔
    Along RDPAccountant.step (fun a call => a.Harmless (1 / 10) call) (.init [3 / 2, 2])
      [(1, 1 / 2)] := by
  refine spent_privacy_iff (by norm_num) ?_
  intro call hmem
  rw [List.mem_singleton.1 hmem]
  exact halfCall_valid

/-- At the order 3/2 the cost of the call is negative, but does not use up the value. -/
theorem value_stays_positive :
    0 < epsilonAt (1 / 10) (3 / 2, 0) + stepCost (1, 1 / 2) (3 / 2) := by
  have hsum : truncatedSum 1 (1 / 2) (3 / 2) = (1 / 2) ^ (1 / 2 : ℝ) * (5 / 4) := by
    rw [truncatedSum_of_lt_two (by norm_num) (by norm_num) (by norm_num)]
    norm_num
  have hroot : (1 / 2 : ℝ) ≤ (1 / 2) ^ (1 / 2 : ℝ) := by
    have h := Real.rpow_le_rpow_of_exponent_ge (x := 1 / 2) (y := 1) (z := 1 / 2) (by norm_num)
      (by norm_num) (by norm_num)
    rwa [Real.rpow_one] at h
  have hlog : Real.log (3 / 20) < Real.log (truncatedSum 1 (1 / 2) (3 / 2)) := by
    refine Real.log_lt_log (by norm_num) ?_
    rw [hsum]
    linarith
  have hvalue : epsilonAt (1 / 10) (3 / 2, 0) = -2 * Real.log (3 / 20) := by
    show 0 + (Real.log (1 / 10) + Real.log (3 / 2)) / (1 - 3 / 2) = _
    rw [← Real.log_mul (by norm_num) (by norm_num)]
    norm_num
    ring
  have hcost : stepCost (1, 1 / 2) (3 / 2) = 2 * Real.log (truncatedSum 1 (1 / 2) (3 / 2)) := by
    rw [stepCost, if_neg (by norm_num), if_neg (by norm_num)]
    show Real.log (truncatedSum 1 (1 / 2) (3 / 2)) / (3 / 2 - 1) = _
    ring
  rw [hvalue, hcost]
  linarith

/-- One more step, and less is spent. -/
theorem epsilon_falls : ∃ a', (RDPAccountant.init [3 / 2]).step (1, 1 / 2) = some a' ∧
    a'.getEpsilon (1 / 10) < (RDPAccountant.init [3 / 2]).getEpsilon (1 / 10) ∧
    ¬ NeverLowers (1 / 10) (.init [3 / 2]) [(1, 1 / 2)] := by
  have hunder : Undercounts (1, 1 / 2) (3 / 2) :=
    undercounts_of_lt_two halfCall_valid (by norm_num) (by norm_num) (by norm_num)
  have hcost := stepCost_neg halfCall_valid (by norm_num) hunder
  have hharm : ¬ (RDPAccountant.init [3 / 2]).Harmless (1 / 10) (1, 1 / 2) := by
    intro h
    obtain ⟨order', hmem, -, hle⟩ := h (3 / 2, 0) (List.mem_singleton.2 rfl) (by norm_num)
      (.inr hunder) value_stays_positive
    obtain rfl := List.mem_singleton.1 (show order' ∈ [((3 / 2, 0) : ℝ × ℝ)] from hmem)
    linarith
  obtain ⟨a', hstep, hper⟩ := step_spec halfCall_valid (RDPAccountant.init [3 / 2])
  have hlt : a'.getEpsilon (1 / 10) < (RDPAccountant.init [3 / 2]).getEpsilon (1 / 10) :=
    not_le.1 (mt (getEpsilon_step_le_iff (by norm_num) hper).1 hharm)
  refine ⟨a', hstep, hlt, fun h => ?_⟩
  obtain ⟨a₁, hstep₁, hle⟩ := h [] (1, 1 / 2) [] _ rfl rfl
  obtain rfl := Option.some.inj (hstep.symm.trans hstep₁)
  exact hlt.not_ge hle

end Example

end

end GossipRl
