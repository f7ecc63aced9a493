import Mathlib.Analysis.InnerProductSpace.Basic

/-!
# Clipping to a norm

A vector that is longer than `C` is scaled down to length `C`. Two clipped vectors are at most `2 * C`
apart; they are at most `C` apart where the angle between them allows it, at most 60 degrees if both
were scaled down.
-/

namespace Support

noncomputable section

variable {E : Type*} [NormedAddCommGroup E] [InnerProductSpace ℝ E] {C : ℝ} {u v x y : E}

def clip (C : ℝ) (x : E) : E := if ‖x‖ > C then (C / ‖x‖) • x else x

theorem clip_of_le (h : ‖x‖ ≤ C) : clip C x = x := if_neg (not_lt.2 h)

theorem clip_of_lt (h : C < ‖x‖) : clip C x = (C / ‖x‖) • x := if_pos h

theorem norm_clip_of_lt (hC : 0 ≤ C) (h : C < ‖x‖) : ‖clip C x‖ = C := by
  have hx : ‖x‖ ≠ 0 := (hC.trans_lt h).ne'
  rw [clip_of_lt h, norm_smul, Real.norm_of_nonneg (div_nonneg hC (norm_nonneg x)),
    div_mul_cancel₀ C hx]

theorem norm_clip_le (hC : 0 ≤ C) (x : E) : ‖clip C x‖ ≤ C := by
  rcases le_or_gt ‖x‖ C with h | h
  · rwa [clip_of_le h]
  · exact (norm_clip_of_lt hC h).le

theorem norm_clip_sub_clip_le (hC : 0 ≤ C) (x y : E) : ‖clip C x - clip C y‖ ≤ 2 * C :=
  calc ‖clip C x - clip C y‖ ≤ ‖clip C x‖ + ‖clip C y‖ := norm_sub_le _ _
    _ ≤ C + C := add_le_add (norm_clip_le hC x) (norm_clip_le hC y)
    _ = 2 * C := (two_mul C).symm

/-- From a vector of length `C`, a vector is at distance at most `C` if half its square is at most
the inner product. -/
theorem norm_sub_le_iff (hC : 0 ≤ C) (hu : ‖u‖ = C) :
    ‖u - v‖ ≤ C ↔ ‖v‖ ^ 2 ≤ 2 * inner ℝ u v := by
  rw [← sq_le_sq₀ (norm_nonneg _) hC, norm_sub_sq_real, hu]
  constructor <;> intro h <;> linarith

theorem inner_clip_left (h : C < ‖x‖) : inner ℝ (clip C x) v = C / ‖x‖ * inner ℝ x v := by
  rw [clip_of_lt h, real_inner_smul_left]

/-- Only the first vector is scaled down. -/
theorem norm_clip_sub_le_iff (hC : 0 ≤ C) (h : C < ‖x‖) :
    ‖clip C x - v‖ ≤ C ↔ ‖v‖ ^ 2 * ‖x‖ ≤ 2 * C * inner ℝ x v := by
  have hx : 0 < ‖x‖ := hC.trans_lt h
  rw [norm_sub_le_iff hC (norm_clip_of_lt hC h), inner_clip_left h, ← le_div_iff₀ hx]
  have hdiv : 2 * (C / ‖x‖ * inner ℝ x v) = 2 * C * inner ℝ x v / ‖x‖ := by ring
  rw [hdiv]

theorem norm_clip_sub_clip_le_iff (hC : 0 < C) (hx : C < ‖x‖) (hy : C < ‖y‖) :
    ‖clip C x - clip C y‖ ≤ C ↔ ‖x‖ * ‖y‖ ≤ 2 * inner ℝ x y := by
  have hy' : 0 < ‖y‖ := hC.trans hy
  rw [norm_clip_sub_le_iff hC.le hx, norm_clip_of_lt hC.le hy, real_inner_comm, inner_clip_left hy,
    real_inner_comm]
  have hscale : 2 * C * (C / ‖y‖ * inner ℝ x y) = C ^ 2 * (2 * inner ℝ x y / ‖y‖) := by ring
  rw [hscale, mul_le_mul_iff_right₀ (pow_pos hC 2), le_div_iff₀ hy']

end

end Support
