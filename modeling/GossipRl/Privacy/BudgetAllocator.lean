import GossipRl.Privacy.NumPy
import Mathlib.Algebra.Order.BigOperators.Group.List
import Mathlib.Tactic.NormNum

/-!
# The budget allocator (`privacy/adaptive.py`)

Epsilon is split by weights, and delta evenly by the number of phases. There are as many pairs as
there are weights, so the deltas add up only if there is a weight for each phase. Arithmetic is that
of the real numbers; `none` is a division by zero, and the weights do not add up to zero, where NumPy
would go on with what is not a number.
-/

namespace GossipRl

noncomputable section

structure BudgetAllocator where
  totalEpsilon : ℝ
  totalDelta : ℝ
  numPhases : Nat
  phaseEpsilon : ℝ
  phaseDelta : ℝ

namespace BudgetAllocator

def init (totalEpsilon totalDelta : ℝ) (numPhases : Nat) : Option BudgetAllocator :=
  if numPhases = 0 then none
  else
    some
      { totalEpsilon := totalEpsilon
        totalDelta := totalDelta
        numPhases := numPhases
        phaseEpsilon := totalEpsilon / numPhases
        phaseDelta := totalDelta / numPhases }

def allocateUniform (b : BudgetAllocator) : List (ℝ × ℝ) :=
  List.replicate b.numPhases (b.phaseEpsilon, b.phaseDelta)

/-- The pairs for weights that are yet to be normalized. -/
def allocateWeighted (weights : List ℝ) (b : BudgetAllocator) : List (ℝ × ℝ) :=
  (weights.map (· / weights.sum)).map fun w => (b.totalEpsilon * w, b.totalDelta / b.numPhases)

def allocateExponentialDecay (decayRate : ℝ) (b : BudgetAllocator) : List (ℝ × ℝ) :=
  b.allocateWeighted ((List.range b.numPhases).map (decayRate ^ ·))

def allocateImportanceWeighted (importance : List ℝ) (b : BudgetAllocator) : List (ℝ × ℝ) :=
  b.allocateWeighted importance

/-- The budgets are not negative, and add up to the whole. -/
structure Exact (totalEpsilon totalDelta : ℝ) (budgets : List (ℝ × ℝ)) : Prop where
  nonneg : ∀ budget ∈ budgets, 0 ≤ budget.1 ∧ 0 ≤ budget.2
  epsilon : (budgets.map Prod.fst).sum = totalEpsilon
  delta : (budgets.map Prod.snd).sum = totalDelta

variable {totalEpsilon totalDelta decayRate : ℝ} {numPhases : Nat} {b : BudgetAllocator}
  {weights : List ℝ}

theorem init_spec (h : init totalEpsilon totalDelta numPhases = some b) :
    numPhases ≠ 0 ∧ b.totalEpsilon = totalEpsilon ∧ b.totalDelta = totalDelta ∧
      b.numPhases = numPhases ∧ b.phaseEpsilon = totalEpsilon / numPhases ∧
      b.phaseDelta = totalDelta / numPhases := by
  unfold init at h
  split_ifs at h with hphases
  obtain rfl := Option.some.inj h
  exact ⟨hphases, rfl, rfl, rfl, rfl, rfl⟩

theorem sum_epsilon_weighted (h : weights.sum ≠ 0) :
    ((b.allocateWeighted weights).map Prod.fst).sum = b.totalEpsilon := by
  have hfst : (b.allocateWeighted weights).map Prod.fst =
      (weights.map (· / weights.sum)).map (b.totalEpsilon * ·) := by
    rw [allocateWeighted, List.map_map]; rfl
  rw [hfst, List.sum_map_mul_left, List.map_id', sum_normalized h, mul_one]

theorem sum_delta_weighted : ((b.allocateWeighted weights).map Prod.snd).sum =
    weights.length * (b.totalDelta / b.numPhases) := by
  have hsnd : (b.allocateWeighted weights).map Prod.snd =
      List.replicate weights.length (b.totalDelta / b.numPhases) := by
    simp [allocateWeighted, Function.comp_def]
  rw [hsnd, List.sum_replicate, nsmul_eq_mul]

theorem exact_weighted_iff (heps : 0 < b.totalEpsilon) (hdelta : 0 < b.totalDelta)
    (hphases : b.numPhases ≠ 0) (hnonneg : ∀ w ∈ weights, 0 ≤ w) (hsum : 0 < weights.sum) :
    Exact b.totalEpsilon b.totalDelta (b.allocateWeighted weights) ↔
      weights.length = b.numPhases := by
  have hcast : (b.numPhases : ℝ) ≠ 0 := by exact_mod_cast hphases
  constructor
  · intro h
    have hlength := sum_delta_weighted.symm.trans h.delta
    rw [mul_div_left_comm, mul_eq_left₀ hdelta.ne', div_eq_one_iff_eq hcast] at hlength
    exact_mod_cast hlength
  · intro h
    refine ⟨fun budget hbudget => ?_, sum_epsilon_weighted hsum.ne', ?_⟩
    · simp only [allocateWeighted, List.map_map, List.mem_map, Function.comp_apply] at hbudget
      obtain ⟨w, hw, rfl⟩ := hbudget
      exact ⟨mul_nonneg heps.le (div_nonneg (hnonneg w hw) hsum.le),
        div_nonneg hdelta.le b.numPhases.cast_nonneg⟩
    · rw [sum_delta_weighted, h, mul_div_cancel₀ _ hcast]

theorem exact_uniform (heps : 0 < totalEpsilon) (hdelta : 0 < totalDelta)
    (h : init totalEpsilon totalDelta numPhases = some b) :
    Exact totalEpsilon totalDelta b.allocateUniform := by
  obtain ⟨hphases, -, -, rfl, heps', hdelta'⟩ := init_spec h
  have hcast : (b.numPhases : ℝ) ≠ 0 := by exact_mod_cast hphases
  have hnonneg : (0 : ℝ) ≤ b.numPhases := b.numPhases.cast_nonneg
  constructor
  · intro budget hbudget
    obtain rfl := List.eq_of_mem_replicate hbudget
    rw [heps', hdelta']
    exact ⟨div_nonneg heps.le hnonneg, div_nonneg hdelta.le hnonneg⟩
  · rw [allocateUniform, List.map_replicate, List.sum_replicate, nsmul_eq_mul, heps',
      mul_div_cancel₀ _ hcast]
  · rw [allocateUniform, List.map_replicate, List.sum_replicate, nsmul_eq_mul, hdelta',
      mul_div_cancel₀ _ hcast]

theorem exact_exponentialDecay (heps : 0 < totalEpsilon) (hdelta : 0 < totalDelta)
    (h : init totalEpsilon totalDelta numPhases = some b) (hdecay : 0 < decayRate) :
    Exact totalEpsilon totalDelta (b.allocateExponentialDecay decayRate) := by
  obtain ⟨hphases, rfl, rfl, rfl, -⟩ := init_spec h
  have hpos : ∀ w ∈ (List.range b.numPhases).map (decayRate ^ ·), 0 < w := by
    intro w hw
    obtain ⟨i, -, rfl⟩ := List.mem_map.1 hw
    exact pow_pos hdecay i
  refine (exact_weighted_iff heps hdelta hphases (fun w hw => (hpos w hw).le) ?_).2 (by simp)
  exact List.sum_pos _ hpos (by simpa using hphases)

theorem exact_importanceWeighted_iff (heps : 0 < totalEpsilon) (hdelta : 0 < totalDelta)
    (h : init totalEpsilon totalDelta numPhases = some b) {importance : List ℝ}
    (hnonneg : ∀ w ∈ importance, 0 ≤ w) (hsum : 0 < importance.sum) :
    Exact totalEpsilon totalDelta (b.allocateImportanceWeighted importance) ↔
      importance.length = numPhases := by
  obtain ⟨hphases, rfl, rfl, rfl, -⟩ := init_spec h
  exact exact_weighted_iff heps hdelta hphases hnonneg hsum

end BudgetAllocator

open BudgetAllocator

/-- All three allocations are exact if and only if there is an importance for each phase. -/
theorem allocations_exact_iff {totalEpsilon totalDelta decayRate : ℝ} {numPhases : Nat}
    {importance : List ℝ} (heps : 0 < totalEpsilon) (hdelta : 0 < totalDelta)
    (hphases : 1 ≤ numPhases) (hdecay : 0 < decayRate) (hnonneg : ∀ w ∈ importance, 0 ≤ w)
    (hsum : 0 < importance.sum) :
    ∃ b, init totalEpsilon totalDelta numPhases = some b ∧
      ((Exact totalEpsilon totalDelta b.allocateUniform ∧
        Exact totalEpsilon totalDelta (b.allocateExponentialDecay decayRate) ∧
        Exact totalEpsilon totalDelta (b.allocateImportanceWeighted importance)) ↔
      importance.length = numPhases) := by
  obtain ⟨b, hinit⟩ : ∃ b, init totalEpsilon totalDelta numPhases = some b :=
    ⟨_, if_neg (by omega)⟩
  refine ⟨b, hinit, ?_⟩
  rw [← exact_importanceWeighted_iff heps hdelta hinit hnonneg hsum]
  exact ⟨fun h => h.2.2, fun h =>
    ⟨exact_uniform heps hdelta hinit, exact_exponentialDecay heps hdelta hinit hdecay, h⟩⟩

section Example

theorem two_phases_exact : ∃ b, init 1 (1 / 10) 2 = some b ∧
    ((Exact 1 (1 / 10) b.allocateUniform ∧
      Exact 1 (1 / 10) (b.allocateExponentialDecay (1 / 2)) ∧
      Exact 1 (1 / 10) (b.allocateImportanceWeighted [1, 3])) ↔ [(1 : ℝ), 3].length = 2) :=
  allocations_exact_iff (by norm_num) (by norm_num) (by norm_num) (by norm_num)
    (by simp) (by norm_num)

/-- With three importances for two phases half as much again is given away. -/
theorem delta_exceeded : ∃ b, init 1 (1 / 10) 2 = some b ∧
    ((b.allocateImportanceWeighted [1, 1, 1]).map Prod.snd).sum = 3 / 20 ∧
    ¬ Exact 1 (1 / 10) (b.allocateImportanceWeighted [1, 1, 1]) := by
  have hsum : ∀ b, init 1 (1 / 10) 2 = some b →
      ((b.allocateImportanceWeighted [1, 1, 1]).map Prod.snd).sum = 3 / 20 := by
    intro b hb
    obtain rfl := Option.some.inj hb
    rw [allocateImportanceWeighted, sum_delta_weighted]
    norm_num
  refine ⟨_, rfl, hsum _ rfl, fun h => ?_⟩
  have := h.delta.symm.trans (hsum _ rfl)
  norm_num at this

end Example

end

end GossipRl
