import Mathlib.Algebra.BigOperators.Ring.List
import Mathlib.Analysis.SpecialFunctions.Sqrt

/-!
# What `privacy/` uses of NumPy

On lists of real numbers.
-/

namespace GossipRl

noncomputable section

/-- The `i`-th of `num` values from `start` to `stop`. -/
def linspace (start stop : ℝ) (num i : Nat) : ℝ := start + i * ((stop - start) / (num - 1))

/-- `np.clip` -/
def npClip (x low high : ℝ) : ℝ := min high (max x low)

/-- `np.mean` -/
def npMean (xs : List ℝ) : ℝ := xs.sum / xs.length

/-- `np.std` -/
def npStd (xs : List ℝ) : ℝ := √(npMean (xs.map fun x => (x - npMean xs) ^ 2))

/-- `np.cumsum` -/
def npCumsum (xs : List ℝ) : List ℝ := (List.range xs.length).map fun i => (xs.take (i + 1)).sum

theorem le_npClip {x low high : ℝ} (h : low ≤ high) : low ≤ npClip x low high :=
  le_min h (le_max_right x low)

theorem npClip_le (x low high : ℝ) : npClip x low high ≤ high := min_le_left _ _

theorem npClip_mono {x y : ℝ} (low high : ℝ) (h : x ≤ y) : npClip x low high ≤ npClip y low high :=
  min_le_min_left _ (max_le_max_right _ h)

theorem sum_normalized {weights : List ℝ} (h : weights.sum ≠ 0) :
    (weights.map (· / weights.sum)).sum = 1 := by
  simp only [div_eq_mul_inv]
  rw [List.sum_map_mul_right, List.map_id', mul_inv_cancel₀ h]

theorem linspace_anti {start stop : ℝ} {num i j : Nat} (h : stop ≤ start) (hij : i ≤ j)
    (hj : j < num) : linspace start stop num j ≤ linspace start stop num i := by
  have hnum : (1 : ℝ) ≤ num := by exact_mod_cast Nat.one_le_of_lt hj
  have hslope : (stop - start) / (num - 1) ≤ 0 :=
    div_nonpos_of_nonpos_of_nonneg (by linarith) (by linarith)
  have hcast : (i : ℝ) ≤ j := by exact_mod_cast hij
  unfold linspace
  nlinarith

theorem linspace_zero (start stop : ℝ) (num : Nat) : linspace start stop num 0 = start := by
  simp [linspace]

theorem linspace_last (start stop : ℝ) {num : Nat} (h : 1 < num) :
    linspace start stop num (num - 1) = stop := by
  have hcast : ((num - 1 : ℕ) : ℝ) = num - 1 := by rw [Nat.cast_sub h.le, Nat.cast_one]
  have hone : (1 : ℝ) < num := by exact_mod_cast h
  rw [linspace, hcast, mul_div_cancel₀ _ (by linarith)]
  ring

theorem le_linspace {start stop : ℝ} {num i : Nat} (h : stop ≤ start) (hi : i < num) :
    stop ≤ linspace start stop num i := by
  rcases Nat.lt_or_ge 1 num with hnum | hnum
  · calc stop = linspace start stop num (num - 1) := (linspace_last start stop hnum).symm
      _ ≤ linspace start stop num i := linspace_anti h (by omega) (by omega)
  · obtain rfl : i = 0 := by omega
    rw [linspace_zero]
    exact h

end

end GossipRl
