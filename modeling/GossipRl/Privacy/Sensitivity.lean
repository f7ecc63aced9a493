import GossipRl.Privacy.Mechanism
import GossipRl.Support.Clip
import Mathlib.Algebra.BigOperators.Fin
import Mathlib.Analysis.InnerProductSpace.PiL2

/-!
# The sensitivity of clipped gradients (`privacy/mechanism.py`)

`add_noise` multiplies the noise multiplier by `clip_norm`, which bounds a clipped gradient, and not
the distance of two of them. A list of `n` numbers is read as a vector of the `n`-dimensional space,
where `clip_gradients` is `clip`.
-/

namespace GossipRl
open Support

noncomputable section

/-- `np.linalg.norm`, in exact arithmetic. -/
def l2Norm (xs : List ℝ) : ℝ := Real.sqrt (xs.map (· ^ 2)).sum

def dot (xs ys : List ℝ) : ℝ := (List.zipWith (· * ·) xs ys).sum

/-- The L2 distance of two arrays. -/
def l2Dist (xs ys : List ℝ) : ℝ := l2Norm (List.zipWith (· - ·) xs ys)

/-- The distance of `g` and `g'` or, if one of them is clipped, the angle between them is such that
their clipped versions are within `C` of each other. Where both are clipped, the angle is at most 60
degrees. -/
def CloseUnderClip (C : ℝ) (g g' : List ℝ) : Prop :=
  if l2Norm g ≤ C then
    if l2Norm g' ≤ C then l2Dist g g' ≤ C
    else l2Norm g ^ 2 * l2Norm g' ≤ (2 : ℕ) * C * dot g g'
  else
    if l2Norm g' ≤ C then l2Norm g' ^ 2 * l2Norm g ≤ (2 : ℕ) * C * dot g g'
    else l2Norm g * l2Norm g' ≤ (2 : ℕ) * dot g g'

section Vectors
variable {n : Nat} (v w : Fin n → ℝ)

theorem zipWith_ofFn (f : ℝ → ℝ → ℝ) :
    List.zipWith f (List.ofFn v) (List.ofFn w) = List.ofFn fun i => f (v i) (w i) :=
  List.ext_getElem (by simp) fun i _ _ => by simp

theorem l2Norm_ofFn : l2Norm (List.ofFn v) = ‖(WithLp.toLp 2 v : EuclideanSpace ℝ (Fin n))‖ := by
  rw [EuclideanSpace.norm_eq, l2Norm, List.map_ofFn, List.sum_ofFn]
  simp

theorem dot_ofFn : dot (List.ofFn v) (List.ofFn w) =
    inner ℝ (WithLp.toLp 2 v : EuclideanSpace ℝ (Fin n)) (WithLp.toLp 2 w) := by
  rw [dot, zipWith_ofFn, List.sum_ofFn, PiLp.inner_apply]
  simp [mul_comm]

theorem l2Dist_ofFn : l2Dist (List.ofFn v) (List.ofFn w) =
    ‖(WithLp.toLp 2 v : EuclideanSpace ℝ (Fin n)) - WithLp.toLp 2 w‖ := by
  rw [l2Dist, zipWith_ofFn, l2Norm_ofFn]
  rfl

theorem clipGradients_ofFn (dp : DPParams ℝ) : dp.clipGradients l2Norm (List.ofFn v) =
    List.ofFn (clip dp.clipNorm (WithLp.toLp 2 v : EuclideanSpace ℝ (Fin n))).ofLp := by
  rw [DPParams.clipGradients, l2Norm_ofFn, clip]
  split
  · rw [List.map_ofFn]
    congr 1
    funext i
    simp [mul_comm]
  · rfl

end Vectors

theorem exists_ofFn {g g' : List ℝ} (h : g.length = g'.length) :
    ∃ (n : Nat) (v w : Fin n → ℝ), g = List.ofFn v ∧ g' = List.ofFn w := by
  refine ⟨g.length, g.get, fun i => g'.get (i.cast h), (List.ofFn_get g).symm, ?_⟩
  exact List.ext_getElem (by simp [h]) fun i _ _ => by simp

theorem l2Dist_clipGradients_le {dp : DPParams ℝ} {g g' : List ℝ} (hC : 0 ≤ dp.clipNorm)
    (hlen : g.length = g'.length) :
    l2Dist (dp.clipGradients l2Norm g) (dp.clipGradients l2Norm g') ≤ 2 * dp.clipNorm := by
  obtain ⟨n, v, w, rfl, rfl⟩ := exists_ofFn hlen
  rw [clipGradients_ofFn, clipGradients_ofFn, l2Dist_ofFn]
  exact norm_clip_sub_clip_le hC _ _

/-- The clip norm bounds the distance of two clipped gradients just where their angle, or their own
distance, allows it. -/
theorem sensitivity_le_clipNorm_iff {dp : DPParams ℝ} {g g' : List ℝ} (hC : 0 < dp.clipNorm)
    (hlen : g.length = g'.length) :
    l2Dist (dp.clipGradients l2Norm g) (dp.clipGradients l2Norm g') ≤ dp.clipNorm ↔
      CloseUnderClip dp.clipNorm g g' := by
  obtain ⟨n, v, w, rfl, rfl⟩ := exists_ofFn hlen
  rw [clipGradients_ofFn, clipGradients_ofFn, l2Dist_ofFn, CloseUnderClip]
  simp only [l2Norm_ofFn, dot_ofFn, l2Dist_ofFn, Nat.cast_ofNat]
  split
  · rename_i hg
    rw [clip_of_le hg]
    split
    · rename_i hg'
      rw [clip_of_le hg']
    · rename_i hg'
      rw [real_inner_comm, ← norm_clip_sub_le_iff hC.le (not_le.1 hg'), norm_sub_rev]
  · rename_i hg
    split
    · rename_i hg'
      rw [clip_of_le hg', ← norm_clip_sub_le_iff hC.le (not_le.1 hg)]
    · rename_i hg'
      exact norm_clip_sub_clip_le_iff hC (not_le.1 hg) (not_le.1 hg')

section Example

theorem l2Norm_singleton (x : ℝ) : l2Norm [x] = |x| := by
  simp [l2Norm, Real.sqrt_sq_eq_abs]

theorem sensitivity_le_clipNorm_iff_sameSide :
    l2Dist (DPParams.clipGradients l2Norm [2] ⟨1⟩) (DPParams.clipGradients l2Norm [3] ⟨1⟩) ≤ 1 := by
  have hC : 0 < (⟨1⟩ : DPParams ℝ).clipNorm := zero_lt_one
  have hlen : ([2] : List ℝ).length = ([3] : List ℝ).length := rfl
  refine (sensitivity_le_clipNorm_iff hC hlen).2 ?_
  simp only [CloseUnderClip, l2Norm_singleton, dot]
  norm_num

/-- Each clipped gradient has length 1, and they are 2 apart. -/
theorem opposite_gradients :
    l2Norm (DPParams.clipGradients l2Norm [2] ⟨1⟩) = 1 ∧
    l2Norm (DPParams.clipGradients l2Norm [-2] ⟨1⟩) = 1 ∧
    l2Dist (DPParams.clipGradients l2Norm [2] ⟨1⟩) (DPParams.clipGradients l2Norm [-2] ⟨1⟩) = 2 ∧
    ¬ l2Dist (DPParams.clipGradients l2Norm [2] ⟨1⟩)
      (DPParams.clipGradients l2Norm [-2] ⟨1⟩) ≤ 1 := by
  have hpos : DPParams.clipGradients l2Norm [2] ⟨1⟩ = [1] := by
    simp [DPParams.clipGradients, l2Norm_singleton]
  have hneg : DPParams.clipGradients l2Norm [-2] ⟨1⟩ = [-1] := by
    simp [DPParams.clipGradients, l2Norm_singleton]
  rw [hpos, hneg, l2Dist, List.zipWith_cons_cons, List.zipWith_nil_left, l2Norm_singleton,
    l2Norm_singleton, l2Norm_singleton]
  norm_num

end Example

end

end GossipRl
