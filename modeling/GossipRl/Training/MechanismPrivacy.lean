import GossipRl.Gossip.Quantization
import GossipRl.Privacy.Sensitivity
import GossipRl.Support.RenyiPrivacy
import GossipRl.Training.PrivateUpdates
import Mathlib.Algebra.Order.Chebyshev
import Mathlib.Analysis.Complex.ExponentialBounds

/-!
# How private the mechanisms are (`privacy/mechanism.py`)

A call of `privatize` is a random value: `np.random.normal` and `np.random.laplace` draw standard
numbers and multiply them by the scale.
-/

namespace GossipRl
open Support

noncomputable section

/-- The array that is drawn, if the standard numbers are `z`. -/
def drawn (z : List ℝ) (scale : ℝ) (size : Nat) (i : Fin size) : ℝ := scale * z.getD i 0

theorem ofFn_drawn {z : List ℝ} {n : Nat} (hz : z.length = n) (scale : ℝ) :
    List.ofFn (drawn z scale n) = z.map (scale * ·) := by
  subst hz
  refine List.ext_getElem (by simp) fun i hi _ => ?_
  have hi' : i < z.length := by simpa using hi
  simp [drawn, hi']

/-! ### `GaussianMechanism` -/

namespace GaussianMechanism
variable {m m' : GaussianMechanism} {norm : List ℝ → ℝ} {gradients : List ℝ} {x : ℝ}

def randomPrivatize (norm : List ℝ → ℝ) (gradients : List ℝ) (m : GaussianMechanism) :
    RandomValue (Option (List ℝ)) :=
  (RandomValue.normal.draws gradients.length).map fun z =>
    (m.privatize norm (drawn z) gradients).map (·.1.noisy)

theorem randomPrivatize_eq (hread : m.noiseMultiplier = some (x, m')) (hscale : 0 ≤ x * m.clipNorm) :
    m.randomPrivatize norm gradients = (RandomValue.normal.noised (x * m.clipNorm)
      (DPParams.clipGradients norm gradients ⟨m.clipNorm⟩)).map some := by
  have hlen : (DPParams.clipGradients norm gradients ⟨m.clipNorm⟩).length = gradients.length :=
    DPParams.length_clipGradients _
  rw [RandomValue.noised, hlen, RandomValue.map_map]
  refine (RandomValue.surely_draws _).map_congr fun z hz => ?_
  rw [privatize_eq_some hread, if_neg (not_lt.2 hscale), Option.map_some, ofFn_drawn hz]
  rfl

end GaussianMechanism

theorem sum_sq_le {a b : List ℝ} {C : ℝ} (hC : 0 ≤ C) (h : l2Dist a b ≤ C) :
    ((List.zipWith (· - ·) a b).map (· ^ 2)).sum ≤ C ^ 2 :=
  (Real.sqrt_le_left hC).1 h

theorem renyiLE_of_l2Dist_le {α multiplier clipNorm factor : ℝ} (hα : 1 < α) (hnoise : 0 < multiplier)
    (hclip : 0 < clipNorm) (hfactor : 0 ≤ factor) {a b : List ℝ} (hlen : a.length = b.length)
    (h : l2Dist a b ≤ factor * clipNorm) : RenyiLE α (factor ^ 2 * (α / (2 * multiplier ^ 2)))
      (RandomValue.normal.noised (multiplier * clipNorm) a)
      (RandomValue.normal.noised (multiplier * clipNorm) b) := by
  refine (renyiLE_noised hα (mul_pos hnoise hclip).ne' hlen).mono ?_ hα
  have hsum := sum_sq_le (mul_nonneg hfactor hclip.le) h
  calc _ ≤ α * (factor * clipNorm) ^ 2 / (2 * (multiplier * clipNorm) ^ 2) := by gcongr
    _ = factor ^ 2 * (α / (2 * multiplier ^ 2)) := by field_simp

theorem exp_three_halves_le : Real.exp (3 / 2) ≤ 5 := by
  have hsq : Real.exp (3 / 2) ^ 2 = Real.exp 1 ^ 3 := by
    rw [← Real.exp_nat_mul, ← Real.exp_nat_mul]
    norm_num
  have hcube : Real.exp 1 ^ 3 ≤ 2.7182818286 ^ 3 := by
    gcongr
    exact Real.exp_one_lt_d9.le
  refine abs_le_of_sq_le_sq' ?_ (by norm_num) |>.2
  rw [hsq]
  exact hcube.trans (by norm_num)

theorem nine_quarters_le_log_ten : 9 / 4 ≤ Real.log 10 := by
  rw [Real.le_log_iff_exp_le (by norm_num)]
  have hpow : Real.exp (9 / 4) ^ 4 = Real.exp 1 ^ 9 := by
    rw [← Real.exp_nat_mul, ← Real.exp_nat_mul]
    norm_num
  have hninth : Real.exp 1 ^ 9 ≤ 2.7182818286 ^ 9 := by
    gcongr
    exact Real.exp_one_lt_d9.le
  refine le_of_pow_le_pow_left₀ (by norm_num : (4 : ℕ) ≠ 0) (by norm_num) ?_
  rw [hpow]
  exact hninth.trans (by norm_num)

theorem rpow_le_half {α : ℝ} (hα : 2 ≤ α) : (1 - α⁻¹) ^ (α - 1) ≤ 1 / 2 := by
  have hpos : 0 < α - 1 := by linarith
  have hbernoulli := one_add_mul_self_le_rpow_one_add (s := 1 / (α - 1)) (p := α - 1)
    (by have := one_div_pos.2 hpos; linarith) (by linarith)
  rw [mul_one_div_cancel hpos.ne'] at hbernoulli
  have hinv : 1 - α⁻¹ = (1 + 1 / (α - 1))⁻¹ := by
    have hα0 : α ≠ 0 := by linarith
    have hsum : α - 1 + 1 ≠ 0 := by linarith
    field_simp
    ring
  rw [hinv, Real.inv_rpow (by positivity), ← one_div]
  exact one_div_le_one_div_of_le zero_lt_two (by linarith)

theorem failure_computed {epsilon delta : ℝ} (hepsilon : 0 < epsilon) (hle : epsilon ≤ 3)
    (hdelta : 0 < delta) (hsmall : delta ≤ 1 / 8) :
    let L := Real.log (5 / 4 / delta)
    let α := 2 * L / epsilon + 1 / 2
    2 ≤ α ∧ RenyiLE.failure α (α * epsilon ^ 2 / (4 * L)) epsilon ≤ delta := by
  intro L α
  have hL : 9 / 4 ≤ L := by
    refine nine_quarters_le_log_ten.trans (Real.log_le_log (by norm_num) ?_)
    rw [le_div_iff₀ hdelta]
    linarith
  have hα : 2 ≤ α := by
    have hquot : 3 / 2 ≤ 2 * L / epsilon := by
      rw [le_div_iff₀ hepsilon]
      linarith
    show 2 ≤ 2 * L / epsilon + 1 / 2
    linarith
  refine ⟨hα, ?_⟩
  have hexponent : (α - 1) * (α * epsilon ^ 2 / (4 * L) - epsilon) ≤ -L + 3 / 2 := by
    have hL0 : 0 < L := by linarith
    have heq : (α - 1) * (α * epsilon ^ 2 / (4 * L) - epsilon) =
        -L + epsilon / 2 - epsilon ^ 2 / (16 * L) := by
      show (2 * L / epsilon + 1 / 2 - 1) * ((2 * L / epsilon + 1 / 2) * epsilon ^ 2 / (4 * L) - epsilon)
        = _
      field_simp
      ring
    have hlast : 0 ≤ epsilon ^ 2 / (16 * L) := by positivity
    rw [heq]
    linarith
  have hexp : Real.exp (-L + 3 / 2) ≤ 4 * delta := by
    have hratio : 0 < 5 / 4 / delta := by positivity
    rw [Real.exp_add, Real.exp_neg, Real.exp_log hratio]
    calc (5 / 4 / delta)⁻¹ * Real.exp (3 / 2) ≤ (5 / 4 / delta)⁻¹ * 5 := by
          gcongr
          exact exp_three_halves_le
      _ = 4 * delta := by field_simp
  calc RenyiLE.failure α (α * epsilon ^ 2 / (4 * L)) epsilon
      ≤ 2⁻¹ * (1 / 2) * Real.exp (-L + 3 / 2) := by
        have hhalf := rpow_le_half hα
        have hinv : α⁻¹ ≤ 2⁻¹ := inv_anti₀ zero_lt_two hα
        have hpow : 0 ≤ (1 - α⁻¹) ^ (α - 1) := Real.rpow_nonneg (by linarith) _
        unfold RenyiLE.failure
        gcongr
    _ ≤ delta := by linarith

/-! ### `DiscretizedGaussian` -/

structure DiscretizedGaussian extends GaussianMechanism where
  quantizationLevels : Int := 256

namespace DiscretizedGaussian
variable {d : DiscretizedGaussian} {norm : List ℝ → ℝ} {gradients : List ℝ}

/-- The least and the greatest number that `np.clip` lets through. -/
def bounds (d : DiscretizedGaussian) : Int × Int :=
  (-d.quantizationLevels / 2, d.quantizationLevels / 2 - 1)

/-- `quantization_levels / 2` -/
def scale (d : DiscretizedGaussian) : ℝ := d.quantizationLevels / (2 : ℕ)

/-- Discretize to fixed levels. -/
def discretize (noisy : ℝ) (d : DiscretizedGaussian) : ℝ :=
  (min (max (npRound (noisy * d.scale)) d.bounds.1) d.bounds.2 : Int) / d.scale

/-- `privatize`, whose `add_noise` discretizes. -/
def privatize (norm : List ℝ → ℝ) (normal : ℝ → (size : Nat) → Fin size → ℝ) (gradients : List ℝ)
    (d : DiscretizedGaussian) : Option (List ℝ × DiscretizedGaussian) :=
  (d.toGaussianMechanism.privatize norm normal gradients).map fun (out, m) =>
    (out.noisy.map d.discretize, { d with toGaussianMechanism := m })

def randomPrivatize (norm : List ℝ → ℝ) (gradients : List ℝ) (d : DiscretizedGaussian) :
    RandomValue (Option (List ℝ)) :=
  (RandomValue.normal.draws gradients.length).map fun z =>
    (d.privatize norm (drawn z) gradients).map (·.1)

theorem randomPrivatize_eq : d.randomPrivatize norm gradients =
    (d.toGaussianMechanism.randomPrivatize norm gradients).map
      (Option.map (List.map d.discretize)) := by
  rw [GaussianMechanism.randomPrivatize, RandomValue.map_map, randomPrivatize]
  congr 1
  funext z
  rw [privatize, Option.map_map, Option.map_map]
  rfl

/-- The values that `discretize` may return. -/
def levels (d : DiscretizedGaussian) : Finset ℝ :=
  (Finset.Icc d.bounds.1 d.bounds.2).image fun k : Int => (k : ℝ) / d.scale

theorem scale_pos (h : 1 ≤ d.quantizationLevels) : 0 < d.scale := by
  have hlevels : (1 : ℝ) ≤ d.quantizationLevels := by exact_mod_cast h
  unfold scale
  positivity

theorem card_levels (h : 1 ≤ d.quantizationLevels) : d.levels.card = d.quantizationLevels.toNat := by
  have hinj : Function.Injective fun k : Int => (k : ℝ) / d.scale := by
    intro j k hjk
    exact_mod_cast (div_left_inj' (scale_pos h).ne').1 hjk
  rw [levels, Finset.card_image_of_injective _ hinj, Int.card_Icc, bounds]
  congr 1
  omega

/-- A rounded number that is clipped is the nearest whole number within the bounds. -/
theorem abs_clip_npRound_le {x : ℝ} {lo hi k : Int} (hlo : lo ≤ k) (hhi : k ≤ hi) :
    |((min (max (npRound x) lo) hi : Int) : ℝ) - x| ≤ |(k : ℝ) - x| := by
  obtain ⟨hleft, hright⟩ := abs_le.1 (abs_npRound_sub_le x)
  generalize hc : min (max (npRound x) lo) hi = c
  rcases lt_trichotomy (npRound x) k with hlt | heq | hgt
  · have hge : (npRound x : ℝ) ≤ c := by
      have : npRound x ≤ c := by omega
      exact_mod_cast this
    have hle : (c : ℝ) ≤ k := by
      have : c ≤ k := by omega
      exact_mod_cast this
    have hgap : (npRound x : ℝ) + 1 ≤ k := by exact_mod_cast hlt
    rw [abs_of_nonneg (by linarith : 0 ≤ (k : ℝ) - x)]
    exact abs_le.2 ⟨by linarith, by linarith⟩
  · have : c = k := by omega
    rw [this]
  · have hle : (c : ℝ) ≤ npRound x := by
      have : c ≤ npRound x := by omega
      exact_mod_cast this
    have hge : (k : ℝ) ≤ c := by
      have : k ≤ c := by omega
      exact_mod_cast this
    have hgap : (k : ℝ) + 1 ≤ npRound x := by exact_mod_cast hgt
    rw [abs_of_nonpos (by linarith : (k : ℝ) - x ≤ 0)]
    exact abs_le.2 ⟨by linarith, by linarith⟩

theorem discretize_nearest (h : 1 ≤ d.quantizationLevels) (x : ℝ) :
    d.discretize x ∈ d.levels ∧ ∀ level ∈ d.levels, |d.discretize x - x| ≤ |level - x| := by
  have hscale := scale_pos h
  have hbounds : d.bounds.1 ≤ d.bounds.2 := by
    show -d.quantizationLevels / 2 ≤ d.quantizationLevels / 2 - 1
    omega
  constructor
  · exact Finset.mem_image_of_mem _ (Finset.mem_Icc.2 (by omega))
  · intro level hlevel
    obtain ⟨k, hk, rfl⟩ := Finset.mem_image.1 hlevel
    obtain ⟨hlo, hhi⟩ := Finset.mem_Icc.1 hk
    have hdist : ∀ j : Int, |(j : ℝ) / d.scale - x| = |(j : ℝ) - x * d.scale| / d.scale := by
      intro j
      rw [← abs_of_pos hscale, ← abs_div, abs_of_pos hscale, sub_div, mul_div_cancel_right₀ _ hscale.ne']
    unfold discretize
    rw [hdist, hdist]
    exact div_le_div_of_nonneg_right (abs_clip_npRound_le hlo hhi) hscale.le

/-- Of exactly `quantization_levels` values, the discretized mechanism returns for each number the
one nearest to what the Gaussian mechanism returns with the same noise. -/
theorem discretized_gradients_nearest (h : 1 ≤ d.quantizationLevels)
    (normal : ℝ → (size : Nat) → Fin size → ℝ) :
    d.levels.card = d.quantizationLevels.toNat ∧
    match d.toGaussianMechanism.privatize norm normal gradients with
    | none => d.privatize norm normal gradients = none
    | some (out, m) => ∃ discretized,
      d.privatize norm normal gradients = some (discretized, { d with toGaussianMechanism := m }) ∧
      List.Forall₂ (fun x y => y ∈ d.levels ∧ ∀ level ∈ d.levels, |y - x| ≤ |level - x|)
        out.noisy discretized := by
  refine ⟨card_levels h, ?_⟩
  rw [privatize]
  split
  · rename_i hnone
    rw [hnone, Option.map_none]
  · rename_i out m hsome
    rw [hsome, Option.map_some]
    refine ⟨_, rfl, ?_⟩
    rw [List.forall₂_map_right_iff, List.forall₂_same]
    exact fun x _ => discretize_nearest h x

section Example

def fourLevels : DiscretizedGaussian where
  epsilon := 1
  delta := 1
  clipNorm := 1
  override := some 1
  quantizationLevels := 4

theorem discretized_gradients_nearest_four : fourLevels.levels.card = 4 ∧
    ∃ out m discretized,
      fourLevels.toGaussianMechanism.privatize l2Norm (fun _ _ _ => 1) [1 / 8] = some (out, m) ∧
      fourLevels.privatize l2Norm (fun _ _ _ => 1) [1 / 8] =
        some (discretized, { fourLevels with toGaussianMechanism := m }) ∧
      List.Forall₂ (fun x y => y ∈ fourLevels.levels ∧
        ∀ level ∈ fourLevels.levels, |y - x| ≤ |level - x|) out.noisy discretized := by
  obtain ⟨hcard, hmatch⟩ := @discretized_gradients_nearest fourLevels l2Norm [1 / 8] (by decide)
    fun _ _ _ => 1
  obtain ⟨out, m, h⟩ : ∃ out m, fourLevels.toGaussianMechanism.privatize l2Norm (fun _ _ _ => 1)
      [1 / 8] = some (out, m) := by
    refine ⟨_, _, (GaussianMechanism.privatize_eq_some rfl).trans (if_neg ?_)⟩
    norm_num [fourLevels]
  rw [h] at hmatch
  obtain ⟨discretized, hd, hall⟩ := hmatch
  exact ⟨hcard, out, m, discretized, h, hd, hall⟩

end Example

end DiscretizedGaussian

/-! ### The noise multiplier that is computed -/

theorem GaussianMechanism.noiseMultiplier_computed {m : GaussianMechanism} (hoverride : m.override = none)
    (hcomputed : m.computed = none) (hepsilon : 0 < m.epsilon) (hdelta : 0 < m.delta)
    (hsmall : m.delta ≤ 1 / 8) : ∃ m', m.noiseMultiplier =
      some (Real.sqrt (2 * Real.log (5 / 4 / m.delta)) / m.epsilon, m') := by
  have hratio : 1 ≤ 5 / 4 / m.delta := by
    rw [le_div_iff₀ hdelta]
    linarith
  rw [noiseMultiplier, hoverride, hcomputed]
  simp only [computeNoiseMultiplier, Nat.cast_ofNat]
  rw [if_neg]
  · exact ⟨_, rfl⟩
  · rintro (h | h | h | h)
    · exact hdelta.ne' h
    · linarith
    · exact h.not_ge (Real.log_nonneg hratio)
    · exact hepsilon.ne' h

/-- With the noise multiplier that `_compute_noise_multiplier` computes, gradients that clipping
keeps within the clip norm are private, and discretizing them keeps them so. -/
theorem computed_noise_private {m : GaussianMechanism} (hoverride : m.override = none)
    (hcomputed : m.computed = none) (hepsilon : 0 < m.epsilon) (hle : m.epsilon ≤ 3)
    (hdelta : 0 < m.delta) (hsmall : m.delta ≤ 1 / 8) (hclip : 0 < m.clipNorm) {g g' : List ℝ}
    (hlen : g.length = g'.length) (hclose : CloseUnderClip m.clipNorm g g') :
    Private m.epsilon m.delta (m.randomPrivatize l2Norm g) (m.randomPrivatize l2Norm g') ∧
    ∀ levels, Private m.epsilon m.delta
      (DiscretizedGaussian.randomPrivatize l2Norm g ⟨m, levels⟩)
      (DiscretizedGaussian.randomPrivatize l2Norm g' ⟨m, levels⟩) := by
  obtain ⟨m', hread⟩ := m.noiseMultiplier_computed hoverride hcomputed hepsilon hdelta hsmall
  obtain ⟨hα, hfailure⟩ := failure_computed hepsilon hle hdelta hsmall
  have hlog : 0 < Real.log (5 / 4 / m.delta) := by
    refine Real.log_pos ?_
    rw [lt_div_iff₀ hdelta]
    linarith
  have hnoise : 0 < Real.sqrt (2 * Real.log (5 / 4 / m.delta)) / m.epsilon := by positivity
  have hsensitivity : l2Dist (DPParams.clipGradients l2Norm g ⟨m.clipNorm⟩)
      (DPParams.clipGradients l2Norm g' ⟨m.clipNorm⟩) ≤ m.clipNorm :=
    (@sensitivity_le_clipNorm_iff ⟨m.clipNorm⟩ g g' hclip hlen).2 hclose
  have hone := one_lt_two.trans_le hα
  have hrenyi := renyiLE_of_l2Dist_le hone hnoise hclip zero_le_one
    (by rw [DPParams.length_clipGradients, DPParams.length_clipGradients, hlen])
    (hsensitivity.trans (one_mul _).ge)
  have hprivate : Private m.epsilon m.delta (m.randomPrivatize l2Norm g)
      (m.randomPrivatize l2Norm g') := by
    rw [GaussianMechanism.randomPrivatize_eq hread (mul_pos hnoise hclip).le,
      GaussianMechanism.randomPrivatize_eq hread (mul_pos hnoise hclip).le]
    refine (hrenyi.isPrivate hone ?_).map some
    refine (le_of_eq ?_).trans hfailure
    congr 1
    rw [div_pow, Real.sq_sqrt (by positivity)]
    field_simp
    norm_num
  refine ⟨hprivate, fun levels => ?_⟩
  rw [DiscretizedGaussian.randomPrivatize_eq, DiscretizedGaussian.randomPrivatize_eq]
  exact hprivate.map _

/-! ### `LaplaceMechanism` -/

structure LaplaceMechanism where
  epsilon : ℝ
  clipNorm : ℝ
  /-- `params.noise_multiplier` -/
  override : Option ℝ
  /-- `_noise_multiplier` -/
  computed : Option ℝ := none

namespace LaplaceMechanism
variable {m m' : LaplaceMechanism} {norm : List ℝ → ℝ} {gradients : List ℝ} {x : ℝ}

/-- `_compute_noise_multiplier` -/
def computeNoiseMultiplier (m : LaplaceMechanism) : Option ℝ :=
  if m.epsilon = 0 then none else some ((1 : ℕ) / m.epsilon)

def noiseMultiplier (m : LaplaceMechanism) : Option (ℝ × LaplaceMechanism) :=
  match m.override, m.computed with
  | some x, _ => some (x, m)
  | none, some x => some (x, m)
  | none, none => m.computeNoiseMultiplier.map fun x => (x, { m with computed := some x })

/-- `privatize`, without the metadata; `np.random.laplace` takes no negative scale. -/
def privatize (norm : List ℝ → ℝ) (laplace : ℝ → (size : Nat) → Fin size → ℝ)
    (gradients : List ℝ) (m : LaplaceMechanism) : Option (List ℝ × LaplaceMechanism) :=
  let clipped := DPParams.clipGradients norm gradients ⟨m.clipNorm⟩
  m.noiseMultiplier.bind fun (multiplier, m) =>
    if multiplier * m.clipNorm < 0 then none
    else
      let noise := List.ofFn (laplace (multiplier * m.clipNorm) clipped.length)
      some (DPParams.addNoise noise clipped, m)

def randomPrivatize (norm : List ℝ → ℝ) (gradients : List ℝ) (m : LaplaceMechanism) :
    RandomValue (Option (List ℝ)) :=
  (laplace.draws gradients.length).map fun z => (m.privatize norm (drawn z) gradients).map (·.1)

theorem randomPrivatize_eq (hoverride : m.override = none) (hcomputed : m.computed = none)
    (hepsilon : 0 < m.epsilon) (hclip : 0 < m.clipNorm) :
    m.randomPrivatize norm gradients = (laplace.noised (m.clipNorm / m.epsilon)
      (DPParams.clipGradients norm gradients ⟨m.clipNorm⟩)).map some := by
  have hlen : (DPParams.clipGradients norm gradients ⟨m.clipNorm⟩).length = gradients.length :=
    DPParams.length_clipGradients _
  have hread : m.noiseMultiplier =
      some (1 / m.epsilon, { m with computed := some (1 / m.epsilon) }) := by
    rw [noiseMultiplier, hoverride, hcomputed]
    simp [computeNoiseMultiplier, hepsilon.ne']
  have hscale : 1 / m.epsilon * m.clipNorm = m.clipNorm / m.epsilon := one_div_mul_eq_div _ _
  rw [RandomValue.noised, hlen, RandomValue.map_map]
  refine (RandomValue.surely_draws _).map_congr fun z hz => ?_
  rw [privatize, hread, Option.bind_some]
  dsimp only
  rw [hscale, if_neg (not_lt.2 (div_pos hclip hepsilon).le), hlen, ofFn_drawn hz]
  rfl

end LaplaceMechanism

section Example

def oneEighth : GaussianMechanism := { epsilon := 1, delta := 1 / 8, clipNorm := 1, override := none }

theorem computed_noise_private_sameSide :
    Private 1 (1 / 8) (oneEighth.randomPrivatize l2Norm [2]) (oneEighth.randomPrivatize l2Norm [3]) ∧
    ∀ levels, Private 1 (1 / 8) (DiscretizedGaussian.randomPrivatize l2Norm [2] ⟨oneEighth, levels⟩)
      (DiscretizedGaussian.randomPrivatize l2Norm [3] ⟨oneEighth, levels⟩) := by
  have hclose : CloseUnderClip oneEighth.clipNorm [2] [3] := by
    simp only [oneEighth, CloseUnderClip, l2Norm_singleton, dot]
    norm_num
  have hsmall : oneEighth.delta ≤ 1 / 8 := le_refl _
  exact computed_noise_private (m := oneEighth) rfl rfl zero_lt_one (by norm_num [oneEighth])
    (by norm_num [oneEighth]) hsmall zero_lt_one rfl hclose

end Example

theorem l1Dist_le (a b : List ℝ) {n : ℕ} (ha : a.length = n) (hb : b.length = n) :
    l1Dist a b ≤ Real.sqrt n * l2Dist a b := by
  obtain ⟨n, v, w, rfl, rfl⟩ := exists_ofFn (ha.trans hb.symm)
  obtain rfl := (List.length_ofFn ..).symm.trans ha
  have hsum : l1Dist (List.ofFn v) (List.ofFn w) = ∑ i, |v i - w i| := by
    rw [l1Dist, zipWith_ofFn, List.map_ofFn, List.sum_ofFn]
    rfl
  have hnorm : l2Dist (List.ofFn v) (List.ofFn w) = Real.sqrt (∑ i, |v i - w i| ^ 2) := by
    rw [l2Dist, l2Norm, zipWith_ofFn, List.map_ofFn, List.sum_ofFn]
    simp
  rw [hsum, hnorm, ← Real.sqrt_mul n.cast_nonneg]
  refine Real.le_sqrt_of_sq_le ?_
  simpa using sq_sum_le_card_mul_sum_sq (s := Finset.univ) (f := fun i => |v i - w i|)

theorem dist_opposite {t : ℝ} (ht : 0 ≤ t) (n : ℕ) :
    l2Norm (.replicate n t) = Real.sqrt n * t ∧ l2Norm (.replicate n (-t)) = Real.sqrt n * t ∧
    l2Dist (.replicate n t) (.replicate n (-t)) = 2 * (Real.sqrt n * t) ∧
    l1Dist (.replicate n t) (.replicate n (-t)) = 2 * (n * t) := by
  have hnorm : ∀ s : ℝ, l2Norm (.replicate n s) = Real.sqrt n * |s| := by
    intro s
    rw [l2Norm, List.map_replicate, List.sum_replicate, nsmul_eq_mul, Real.sqrt_mul n.cast_nonneg,
      Real.sqrt_sq_eq_abs]
  have hzip : List.zipWith (· - ·) (.replicate n t) (.replicate n (-t)) = .replicate n (2 * t) := by
    rw [List.zipWith_replicate, Nat.min_self, sub_neg_eq_add, two_mul]
  have habs : |2 * t| = 2 * t := abs_of_nonneg (by positivity)
  refine ⟨?_, ?_, ?_, ?_⟩
  · rw [hnorm, abs_of_nonneg ht]
  · rw [hnorm, abs_neg, abs_of_nonneg ht]
  · rw [l2Dist, hzip, hnorm, habs]
    ring
  · rw [l1Dist, hzip, List.map_replicate, List.sum_replicate, nsmul_eq_mul, habs]
    ring

namespace LaplaceMechanism
variable {m : LaplaceMechanism} {g g' : List ℝ} {eps factor : ℝ} {n : ℕ}

theorem private_iff (hoverride : m.override = none) (hcomputed : m.computed = none)
    (hepsilon : 0 < m.epsilon) (hclip : 0 < m.clipNorm) (hlen : g.length = g'.length) :
    Private eps 0 (m.randomPrivatize l2Norm g) (m.randomPrivatize l2Norm g') ↔
      l1Dist (DPParams.clipGradients l2Norm g ⟨m.clipNorm⟩)
        (DPParams.clipGradients l2Norm g' ⟨m.clipNorm⟩) / (m.clipNorm / m.epsilon) ≤ eps := by
  have hscale : 0 < m.clipNorm / m.epsilon := div_pos hclip hepsilon
  rw [randomPrivatize_eq hoverride hcomputed hepsilon hclip,
    randomPrivatize_eq hoverride hcomputed hepsilon hclip, ← private_noised_laplace_iff hscale
      (by rw [DPParams.length_clipGradients, DPParams.length_clipGradients, hlen])]
  constructor
  · intro h S
    have hS := h (some '' S)
    simp only [RandomValue.prob_map, Set.preimage_image_eq _ (Option.some_injective _)] at hS
    exact hS
  · exact fun h => h.map some

/-- Whatever the gradients are, the epsilon that pure privacy has grows with the root of their number. -/
theorem laplace_private_iff (hoverride : m.override = none) (hcomputed : m.computed = none)
    (hepsilon : 0 < m.epsilon) (hclip : 0 < m.clipNorm) (hfactor : 0 ≤ factor) (hle : factor ≤ 2) :
    (∀ g g', g.length = n → g'.length = n →
      l2Dist (DPParams.clipGradients l2Norm g ⟨m.clipNorm⟩)
        (DPParams.clipGradients l2Norm g' ⟨m.clipNorm⟩) ≤ factor * m.clipNorm →
      Private eps 0 (m.randomPrivatize l2Norm g) (m.randomPrivatize l2Norm g')) ↔
    factor * Real.sqrt n * m.epsilon ≤ eps := by
  constructor
  · intro h
    let t := factor * m.clipNorm / (2 * Real.sqrt n)
    have ht : 0 ≤ t := by positivity
    obtain ⟨hnorm, hnorm', hdist, hsum⟩ := dist_opposite ht n
    have hroot : 2 * (Real.sqrt n * t) ≤ factor * m.clipNorm := by
      rcases n.eq_zero_or_pos with rfl | hn
      · simpa using mul_nonneg hfactor hclip.le
      · have hn' : 0 < Real.sqrt n := Real.sqrt_pos.2 (by exact_mod_cast hn)
        refine le_of_eq ?_
        show 2 * (Real.sqrt n * (factor * m.clipNorm / (2 * Real.sqrt n))) = _
        field_simp
    have htotal : 2 * (n * t) = Real.sqrt n * (factor * m.clipNorm) := by
      rcases n.eq_zero_or_pos with rfl | hn
      · simp
      · have hn' : 0 < Real.sqrt n := Real.sqrt_pos.2 (by exact_mod_cast hn)
        show 2 * ((n : ℝ) * (factor * m.clipNorm / (2 * Real.sqrt n))) = _
        nth_rewrite 1 [← Real.mul_self_sqrt n.cast_nonneg]
        field_simp
    -- neither of the two is clipped
    have hwithin : Real.sqrt n * t ≤ m.clipNorm := by
      have := mul_le_mul_of_nonneg_right hle hclip.le
      linarith
    have hsame : DPParams.clipGradients l2Norm (.replicate n t) ⟨m.clipNorm⟩ = .replicate n t :=
      if_neg (by rw [hnorm]; exact not_lt.2 hwithin)
    have hsame' : DPParams.clipGradients l2Norm (.replicate n (-t)) ⟨m.clipNorm⟩ =
        .replicate n (-t) := if_neg (by rw [hnorm']; exact not_lt.2 hwithin)
    have hprivate := h (.replicate n t) (.replicate n (-t)) List.length_replicate
      List.length_replicate (by rw [hsame, hsame', hdist]; exact hroot)
    rw [private_iff hoverride hcomputed hepsilon hclip (by simp), hsame, hsame', hsum, htotal] at hprivate
    calc factor * Real.sqrt n * m.epsilon
        = Real.sqrt n * (factor * m.clipNorm) / (m.clipNorm / m.epsilon) := by field_simp
      _ ≤ eps := hprivate
  · intro h g g' hg hg' hclose
    rw [private_iff hoverride hcomputed hepsilon hclip (hg.trans hg'.symm),
      div_le_iff₀ (div_pos hclip hepsilon)]
    have hl1 := l1Dist_le (DPParams.clipGradients l2Norm g ⟨m.clipNorm⟩)
      (DPParams.clipGradients l2Norm g' ⟨m.clipNorm⟩)
      ((DPParams.length_clipGradients _).trans hg) ((DPParams.length_clipGradients _).trans hg')
    calc _ ≤ Real.sqrt n * (factor * m.clipNorm) := hl1.trans (by gcongr)
      _ = factor * Real.sqrt n * m.epsilon * (m.clipNorm / m.epsilon) := by field_simp
      _ ≤ eps * (m.clipNorm / m.epsilon) := by gcongr

/-- For four numbers the epsilon is doubled, even if clipping keeps the gradients within the clip norm. -/
theorem laplace_private_iff_four :
    let m : LaplaceMechanism := { epsilon := 1, clipNorm := 1, override := none }
    let close : List ℝ → List ℝ → Prop := fun g g' =>
      l2Dist (DPParams.clipGradients l2Norm g ⟨1⟩) (DPParams.clipGradients l2Norm g' ⟨1⟩) ≤ 1 * 1
    (∀ g g', g.length = 4 → g'.length = 4 → close g g' →
      Private 2 0 (m.randomPrivatize l2Norm g) (m.randomPrivatize l2Norm g')) ∧
    ¬ ∀ g g', g.length = 4 → g'.length = 4 → close g g' →
      Private 1 0 (m.randomPrivatize l2Norm g) (m.randomPrivatize l2Norm g') := by
  intro m close
  have hroot : Real.sqrt (4 : ℕ) = 2 := by
    rw [Nat.cast_ofNat, show (4 : ℝ) = 2 ^ 2 by norm_num, Real.sqrt_sq zero_le_two]
  have hiff := fun eps : ℝ => @laplace_private_iff m eps 1 4 rfl rfl zero_lt_one zero_lt_one
    zero_le_one one_le_two
  constructor
  · exact (hiff 2).2 (by rw [hroot]; show 1 * 2 * (1 : ℝ) ≤ 2; norm_num)
  · intro h
    have hle := (hiff 1).1 h
    rw [hroot, one_mul] at hle
    exact absurd hle (by show ¬ 2 * (1 : ℝ) ≤ 1; norm_num)

end LaplaceMechanism

end

end GossipRl
