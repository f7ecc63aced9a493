import Mathlib.Analysis.SpecialFunctions.Gamma.Basic

/-!
# Sums and binomial coefficients in log space

Numbers are kept as their logarithms, with `none` for minus infinity, the logarithm of 0. `logSumExp`
adds such numbers, relative to the greatest of them; in exact arithmetic that makes no difference.
`gammaChoose n k` is the binomial coefficient for a real `n`, by way of the Gamma function.
-/

namespace Support

/-- The number whose logarithm is given. -/
noncomputable def ofLog : Option ℝ → ℝ
  | none => 0
  | some x => Real.exp x

/-- `none` if there is no greatest term to divide by, or it is minus infinity. -/
noncomputable def logSumExp (terms : List (Option ℝ)) : Option ℝ :=
  match (terms.filterMap id).max? with
  | none => none
  | some m => some (m + Real.log (terms.map fun t => ofLog (t.map (· - m))).sum)

theorem sum_exp_pos {xs : List ℝ} (h : xs ≠ []) : 0 < (xs.map Real.exp).sum := by
  refine List.sum_pos _ ?_ (by simpa using h)
  intro y hy
  obtain ⟨x, -, rfl⟩ := List.mem_map.1 hy
  exact Real.exp_pos x

theorem logSumExp_map_some {xs : List ℝ} (h : xs ≠ []) :
    logSumExp (xs.map some) = some (Real.log (xs.map Real.exp).sum) := by
  have hfinite : (xs.map some).filterMap id = xs := by simp [List.filterMap_map]
  obtain ⟨m, hm⟩ := Option.ne_none_iff_exists'.1 (mt List.max?_eq_none_iff.1 h)
  have hsum : ((xs.map some).map fun t => ofLog (t.map (· - m))).sum =
      (xs.map Real.exp).sum * Real.exp (-m) := by
    rw [List.map_map, ← List.sum_map_mul_right]
    congr 1
    refine List.map_congr_left fun x _ => ?_
    show Real.exp (x - m) = Real.exp x * Real.exp (-m)
    rw [← Real.exp_add, sub_eq_add_neg]
  rw [logSumExp, hfinite, hm]
  show some (m + Real.log _) = _
  rw [hsum, Real.log_mul (sum_exp_pos h).ne' (Real.exp_pos _).ne', Real.log_exp]
  congr 1
  ring

/-- `log |Γ x|` -/
noncomputable def gammaln (x : ℝ) : ℝ := Real.log (Real.Gamma x)

theorem exp_gammaln {x : ℝ} (h : 0 < x) : Real.exp (gammaln x) = Real.Gamma x :=
  Real.exp_log (Real.Gamma_pos_of_pos h)

noncomputable def gammaChoose (n : ℝ) (k : ℕ) : ℝ :=
  Real.Gamma (n + 1) / Real.Gamma (k + 1) / Real.Gamma (n - k + 1)

theorem gammaChoose_pos {n : ℝ} {k : ℕ} (h : k ≤ n) : 0 < gammaChoose n k := by
  have hk : (0 : ℝ) ≤ k := k.cast_nonneg
  have pos : ∀ x : ℝ, 0 ≤ x → 0 < Real.Gamma (x + 1) := fun x hx =>
    Real.Gamma_pos_of_pos (by linarith)
  exact div_pos (div_pos (pos n (hk.trans h)) (pos k hk)) (pos (n - k) (sub_nonneg.2 h))

theorem gammaChoose_zero {n : ℝ} (h : 0 ≤ n) : gammaChoose n 0 = 1 := by
  have hn : Real.Gamma (n + 1) ≠ 0 := (Real.Gamma_pos_of_pos (by linarith)).ne'
  simp [gammaChoose, hn]

theorem gammaChoose_one {n : ℝ} (h : 0 < n) : gammaChoose n 1 = n := by
  have hn : Real.Gamma n ≠ 0 := (Real.Gamma_pos_of_pos h).ne'
  have htwo : Real.Gamma (1 + 1) = 1 := by simpa using Real.Gamma_nat_eq_factorial 1
  rw [gammaChoose, Nat.cast_one, sub_add_cancel, htwo, Real.Gamma_add_one h.ne']
  field_simp

theorem gammaChoose_natCast {n k : ℕ} (h : k ≤ n) : gammaChoose n k = n.choose k := by
  rw [gammaChoose, ← Nat.cast_sub h, Real.Gamma_nat_eq_factorial, Real.Gamma_nat_eq_factorial,
    Real.Gamma_nat_eq_factorial, Nat.cast_choose ℝ h, div_div]

theorem exp_gammaln_choose {n : ℝ} {k : ℕ} (h : k ≤ n) :
    Real.exp (gammaln (n + 1) - gammaln (k + 1) - gammaln (n - k + 1)) = gammaChoose n k := by
  have hk : (0 : ℝ) ≤ k := k.cast_nonneg
  rw [Real.exp_sub, Real.exp_sub, exp_gammaln (by linarith), exp_gammaln (by linarith),
    exp_gammaln (by linarith), gammaChoose]

end Support
