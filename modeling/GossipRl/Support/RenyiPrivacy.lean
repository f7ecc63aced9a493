import GossipRl.Support.Privacy
import Mathlib.MeasureTheory.Integral.MeanInequalities

/-!
# Rényi divergence

Two random values have Rényi divergence at most `ρ` at an order `α` just if the one's expected values
are bounded by those of the other's (`RenyiLE`). In this form the bounds of values that are drawn one
after the other add up, however the later ones depend on the earlier (`RenyiLE.bind`), and what is
made of a value keeps its bound (`RenyiLE.map`). A bound at any order says how far the probabilities
of an event may be apart (`RenyiLE.isPrivate`). For a value that has a density it is the bound of a
moment of the density (`RenyiLE.withDensity_iff`).
-/

namespace Support
open MeasureTheory ProbabilityTheory ENNReal

noncomputable section

variable {X Y : Type*}

/-- The Rényi divergence of order `α` is at most `ρ`. -/
def RenyiLE (α ρ : ℝ) (r r' : RandomValue X) : Prop :=
  ∀ f : X → ℝ≥0∞, r.expect f ≤
    (.ofReal (Real.exp ρ) * r'.expect fun x => f x ^ α.conjExponent) ^ α.conjExponent⁻¹

namespace RenyiLE
variable {α ρ ρ' : ℝ} {r r' : RandomValue X} {k k' : X → RandomValue Y}

theorem conjExponent_pos (hα : 1 < α) : 0 < α.conjExponent :=
  (Real.HolderConjugate.conjExponent hα).symm.pos

theorem pure (hα : 1 < α) (x : X) : RenyiLE α 0 (.pure x) (.pure x) := by
  intro f
  simp only [RandomValue.expect_pure, Real.exp_zero, ofReal_one, one_mul]
  rw [ENNReal.rpow_rpow_inv (conjExponent_pos hα).ne']

/-- A later value's bound is added, whatever the earlier one is. -/
theorem bind {P : X → Prop} (hα : 1 < α) (h : RenyiLE α ρ r r') (hP : r.Surely P)
    (hP' : r'.Surely P) (hk : ∀ x, P x → RenyiLE α ρ' (k x) (k' x)) :
    RenyiLE α (ρ + ρ') (r.bind k) (r'.bind k') := by
  classical
  intro f
  have hq := conjExponent_pos hα
  let later : X → ℝ≥0∞ := fun x => if P x then (k' x).expect fun y => f y ^ α.conjExponent else 0
  have hlater : ∀ x, (if P x then (k x).expect f else 0) ≤
      (ENNReal.ofReal (Real.exp ρ') * later x) ^ α.conjExponent⁻¹ := by
    intro x
    by_cases hx : P x
    · simpa [later, hx] using hk x hx f
    · simp [hx]
  calc r.expect (fun x => (k x).expect f) = r.expect fun x => if P x then (k x).expect f else 0 :=
        hP _ _ fun x hx => (if_pos hx).symm
    _ ≤ r.expect fun x => (ENNReal.ofReal (Real.exp ρ') * later x) ^ α.conjExponent⁻¹ :=
        r.mono hlater
    _ ≤ _ := h _
    _ = (ENNReal.ofReal (Real.exp (ρ + ρ')) * r'.expect later) ^ α.conjExponent⁻¹ := by
      simp only [ENNReal.rpow_inv_rpow hq.ne']
      rw [r'.const_mul _ ofReal_ne_top, ← mul_assoc, ← ofReal_mul (Real.exp_pos ρ).le,
        ← Real.exp_add]
    _ = _ := by
      rw [hP' _ _ fun x hx => if_pos hx]
      rfl

theorem map (hα : 1 < α) (h : RenyiLE α ρ r r') (g : X → Y) :
    RenyiLE α ρ (r.map g) (r'.map g) := by
  have hboth := h.bind hα RandomValue.surely_true RandomValue.surely_true fun x _ => pure hα (g x)
  rwa [add_zero] at hboth

theorem mono (hle : ρ ≤ ρ') (hα : 1 < α) (h : RenyiLE α ρ r r') : RenyiLE α ρ' r r' := by
  intro f
  refine (h f).trans (ENNReal.rpow_le_rpow ?_ (inv_nonneg.2 (conjExponent_pos hα).le))
  gcongr

/-! ### Privacy -/

/-- The failure probability that is left at `ε`. -/
def failure (α ρ ε : ℝ) : ℝ := α⁻¹ * (1 - α⁻¹) ^ (α - 1) * Real.exp ((α - 1) * (ρ - ε))

theorem rpow_le_add_failure (hα : 1 < α) (ρ ε : ℝ) {x : ℝ} (hx : 0 ≤ x) :
    (Real.exp ρ * x) ^ (1 - α⁻¹) ≤ Real.exp ε * x + failure α ρ ε := by
  have hα0 : 0 < α := by linarith
  have hw : 0 < 1 - α⁻¹ := by
    have := inv_lt_one_of_one_lt₀ hα
    linarith
  have hexp : 0 < Real.exp (ρ - ε) := Real.exp_pos _
  have hfail : α * failure α ρ ε = ((1 - α⁻¹) * Real.exp (ρ - ε)) ^ (α - 1) := by
    rw [failure, Real.mul_rpow hw.le hexp.le, ← Real.exp_mul]
    field_simp
  have hexponent : (α - 1) * α⁻¹ = 1 - α⁻¹ := by field_simp
  have hmean := Real.geom_mean_le_arith_mean2_weighted hw.le (inv_pos.2 hα0).le
    (div_nonneg (mul_nonneg (Real.exp_pos ε).le hx) hw.le)
    (by rw [hfail]; positivity : 0 ≤ α * failure α ρ ε) (by ring)
  have hleft : (Real.exp ε * x / (1 - α⁻¹)) ^ (1 - α⁻¹) * (α * failure α ρ ε) ^ α⁻¹ =
      (Real.exp ρ * x) ^ (1 - α⁻¹) := by
    rw [hfail, ← Real.rpow_mul (by positivity), hexponent, ← Real.mul_rpow (by positivity)
      (by positivity)]
    congr 1
    rw [← mul_assoc, div_mul_cancel₀ _ hw.ne', Real.exp_sub]
    field_simp
  calc (Real.exp ρ * x) ^ (1 - α⁻¹)
      ≤ (1 - α⁻¹) * (Real.exp ε * x / (1 - α⁻¹)) + α⁻¹ * (α * failure α ρ ε) := hleft ▸ hmean
    _ = Real.exp ε * x + failure α ρ ε := by
      rw [mul_div_cancel₀ _ hw.ne', inv_mul_cancel_left₀ hα0.ne']

theorem isPrivate (hα : 1 < α) {ε δ : ℝ} (h : RenyiLE α ρ r r') (hδ : failure α ρ ε ≤ δ) :
    Private ε δ r r' := by
  intro S
  have hq := Real.HolderConjugate.conjExponent hα
  have hpow : ∀ x, S.indicator (1 : X → ℝ≥0∞) x ^ α.conjExponent = S.indicator 1 x := by
    intro x
    by_cases hx : x ∈ S
    · rw [Set.indicator_of_mem hx, Pi.one_apply, ENNReal.one_rpow]
    · rw [Set.indicator_of_notMem hx, ENNReal.zero_rpow_of_pos hq.symm.pos]
  have hS := h (S.indicator 1)
  simp only [hpow] at hS
  rw [← hq.one_sub_inv] at hS
  refine hS.trans ?_
  show _ ≤ ENNReal.ofReal (Real.exp ε) * r'.prob S + _
  rw [← RandomValue.prob]
  rcases eq_or_ne (r'.prob S) ∞ with htop | htop
  · rw [htop, mul_top (ofReal_pos.2 (Real.exp_pos ε)).ne', top_add]
    exact le_top
  · have hw : 0 ≤ 1 - α⁻¹ := by
      rw [hq.one_sub_inv]
      exact hq.symm.inv_nonneg
    rw [← ofReal_toReal htop, ← ofReal_mul (Real.exp_pos ρ).le, ← ofReal_mul (Real.exp_pos ε).le,
      ofReal_rpow_of_nonneg (by positivity) hw]
    refine (ofReal_le_ofReal (rpow_le_add_failure hα ρ ε toReal_nonneg)).trans ?_
    refine ofReal_add_le.trans ?_
    gcongr

theorem failure_le (hα : 1 < α) {ε δ : ℝ} (hδ : 0 < δ)
    (hε : ρ + (Real.log δ + Real.log α) / (1 - α) ≤ ε) : failure α ρ ε ≤ δ := by
  have hα0 : 0 < α := by linarith
  have hwpos : 0 < 1 - α⁻¹ := by
    have := inv_lt_one_of_one_lt₀ hα
    linarith
  have hw : (1 - α⁻¹) ^ (α - 1) ≤ 1 :=
    Real.rpow_le_one hwpos.le (by linarith [inv_pos.2 hα0]) (by linarith)
  have hexponent : (α - 1) * (ρ - ε) ≤ Real.log δ + Real.log α := by
    have hscaled := mul_le_mul_of_nonneg_left hε (by linarith : 0 ≤ α - 1)
    have hcancel : (α - 1) * ((Real.log δ + Real.log α) / (1 - α)) =
        -(Real.log δ + Real.log α) := by
      rw [← neg_sub 1 α, neg_mul, mul_div_cancel₀ _ (by linarith)]
    linarith
  calc failure α ρ ε ≤ α⁻¹ * 1 * Real.exp (Real.log δ + Real.log α) := by
        unfold failure
        gcongr
    _ = δ := by
      rw [Real.exp_add, Real.exp_log hδ, Real.exp_log hα0]
      field_simp

/-! ### Normal distributions -/

/-- Hölder's inequality, where only one of the functions is measurable. -/
theorem lintegral_mul_le [MeasurableSpace X] {μ : Measure X} {p q : ℝ} (hpq : p.HolderConjugate q)
    {f : X → ℝ≥0∞} (g : X → ℝ≥0∞) (hf : Measurable f) (hpos : ∀ x, f x ≠ 0)
    (hfin : ∀ x, f x ≠ ∞) : ∫⁻ x, f x * g x ∂μ ≤
      (∫⁻ x, f x ^ p ∂μ) ^ p⁻¹ * (∫⁻ x, g x ^ q ∂μ) ^ q⁻¹ := by
  obtain ⟨s, hs, hle, heq⟩ := exists_measurable_le_lintegral_eq (μ := μ) fun x => f x * g x
  have hquot : ∀ x, f x * (s x / f x) = s x := fun x => ENNReal.mul_div_cancel (hpos x) (hfin x)
  have hbelow : ∀ x, s x / f x ≤ g x := fun x => ENNReal.div_le_of_le_mul' (hle x)
  calc ∫⁻ x, f x * g x ∂μ = ∫⁻ x, (f * fun x => s x / f x) x ∂μ := by
        rw [heq]
        exact lintegral_congr fun x => (hquot x).symm
    _ ≤ (∫⁻ x, f x ^ p ∂μ) ^ (1 / p) * (∫⁻ x, (s x / f x) ^ q ∂μ) ^ (1 / q) :=
        ENNReal.lintegral_mul_le_Lp_mul_Lq μ hpq hf.aemeasurable (hs.div hf).aemeasurable
    _ ≤ (∫⁻ x, f x ^ p ∂μ) ^ p⁻¹ * (∫⁻ x, g x ^ q ∂μ) ^ q⁻¹ := by
        rw [one_div, one_div]
        gcongr
        · exact hpq.symm.inv_nonneg
        · exact hpq.symm.nonneg
        · exact hbelow _

theorem le_of_le_rpow (hα : 1 < α) {M : ℝ≥0∞} (hM : M ≠ ∞)
    (h : M ≤ (.ofReal (Real.exp ρ) * M) ^ (1 - α⁻¹)) : M ≤ .ofReal (Real.exp ((α - 1) * ρ)) := by
  rcases eq_or_ne M 0 with rfl | hzero
  · simp
  lift M to NNReal using hM
  have hα0 : 0 < α := by linarith
  have hpos : (0 : ℝ) < M := by
    simpa [pos_iff_ne_zero] using hzero
  rw [← ENNReal.ofReal_coe_nnreal, ← ofReal_mul (Real.exp_pos ρ).le,
    ofReal_rpow_of_pos (by positivity), ofReal_le_ofReal_iff (by positivity)] at h
  rw [← ENNReal.ofReal_coe_nnreal, ofReal_le_ofReal_iff (Real.exp_pos _).le,
    ← Real.log_le_iff_le_exp hpos]
  have hlog := Real.log_le_log hpos h
  rw [Real.log_rpow (by positivity), Real.log_mul (Real.exp_pos ρ).ne' hpos.ne', Real.log_exp]
    at hlog
  have hscaled := mul_le_mul_of_nonneg_left hlog hα0.le
  have hexponent : α * ((1 - α⁻¹) * (ρ + Real.log M)) = (α - 1) * (ρ + Real.log M) := by
    field_simp
  linarith

/-- For a value of density `L` it is a bound of the moment that defines the divergence. -/
theorem withDensity_iff (hα : 1 < α) [MeasurableSpace X] {ν : Measure X} {L : X → ℝ≥0∞}
    (hmeas : Measurable L) (hpos : ∀ x, L x ≠ 0) (hfin : ∀ x, L x ≠ ∞)
    (hmoment : ∫⁻ x, L x ^ α ∂ν ≠ ∞) :
    RenyiLE α ρ (.ofMeasure (ν.withDensity L)) (.ofMeasure ν) ↔
      ∫⁻ x, L x ^ α ∂ν ≤ .ofReal (Real.exp ((α - 1) * ρ)) := by
  have hq := Real.HolderConjugate.conjExponent hα
  have hexpect : ∀ f : X → ℝ≥0∞, ∫⁻ x, f x ∂ν.withDensity L = ∫⁻ x, L x * f x ∂ν := fun f =>
    lintegral_withDensity_eq_lintegral_mul_non_measurable ν hmeas
      (.of_forall fun x => lt_top_iff_ne_top.2 (hfin x)) f
  have hexp : (ENNReal.ofReal (Real.exp ((α - 1) * ρ))) ^ α⁻¹ =
      (ENNReal.ofReal (Real.exp ρ)) ^ α.conjExponent⁻¹ := by
    rw [ofReal_rpow_of_pos (Real.exp_pos _), ofReal_rpow_of_pos (Real.exp_pos _), ← Real.exp_mul,
      ← Real.exp_mul, ← hq.one_sub_inv]
    congr 2
    field_simp
  constructor
  · intro h
    -- the test at which the bound is attained
    have htest := h fun x => L x ^ (α - 1)
    simp only [RandomValue.expect_ofMeasure, hexpect] at htest
    have hleft : ∀ x, L x * L x ^ (α - 1) = L x ^ α := by
      intro x
      have hadd := ENNReal.rpow_add 1 (α - 1) (hpos x) (hfin x)
      rw [ENNReal.rpow_one, add_sub_cancel] at hadd
      exact hadd.symm
    have hright : ∀ x, (L x ^ (α - 1)) ^ α.conjExponent = L x ^ α := by
      intro x
      rw [← ENNReal.rpow_mul, hq.sub_one_mul_conj]
    simp only [hleft, hright, ← hq.one_sub_inv] at htest
    exact le_of_le_rpow hα hmoment htest
  · intro h f
    calc ∫⁻ x, f x ∂ν.withDensity L = ∫⁻ x, L x * f x ∂ν := hexpect f
      _ ≤ (∫⁻ x, L x ^ α ∂ν) ^ α⁻¹ * (∫⁻ x, f x ^ α.conjExponent ∂ν) ^ α.conjExponent⁻¹ :=
        lintegral_mul_le hq f hmeas hpos hfin
      _ ≤ (ENNReal.ofReal (Real.exp ((α - 1) * ρ))) ^ α⁻¹ *
          (∫⁻ x, f x ^ α.conjExponent ∂ν) ^ α.conjExponent⁻¹ := by
        gcongr
      _ = _ := by
        rw [hexp, ENNReal.mul_rpow_of_nonneg _ _ hq.symm.inv_nonneg]
        rfl

/-- How much more likely a number is with the mean `a` than with the mean `b`. -/
def likelihood (a b v x : ℝ) : ℝ := Real.exp ((a - b) * ((2 : ℕ) * x - a - b) / ((2 : ℕ) * v))

theorem gaussianPDFReal_mul_likelihood (a b c x : ℝ) {v : NNReal} (hv : v ≠ 0) :
    gaussianPDFReal b v x * likelihood a b v x ^ c =
      Real.exp (c * (c - 1) * (a - b) ^ 2 / (2 * v)) *
        gaussianPDFReal (b + c * (a - b)) v x := by
  have hv' : (v : ℝ) ≠ 0 := NNReal.coe_ne_zero.2 hv
  rw [gaussianPDFReal_def, gaussianPDFReal_def, likelihood, Nat.cast_ofNat, ← Real.exp_mul]
  dsimp only
  rw [mul_assoc, ← Real.exp_add, mul_left_comm, ← Real.exp_add]
  congr 2
  field_simp
  ring

theorem gaussian (hα : 1 < α) (a b : ℝ) {v : NNReal} (hv : v ≠ 0) :
    RenyiLE α (α * (a - b) ^ 2 / (2 * v)) (.ofMeasure (gaussianReal a v))
      (.ofMeasure (gaussianReal b v)) := by
  let L : ℝ → ℝ≥0∞ := fun x => .ofReal (likelihood a b v x)
  have hLpos : ∀ x, 0 < likelihood a b v x := fun x => Real.exp_pos _
  have hmeas : Measurable L := by
    unfold L likelihood
    fun_prop
  have hpow : ∀ c x, gaussianPDF b v x * L x ^ c =
      .ofReal (Real.exp (c * (c - 1) * (a - b) ^ 2 / (2 * v))) *
        gaussianPDF (b + c * (a - b)) v x := by
    intro c x
    rw [gaussianPDF, gaussianPDF, ofReal_rpow_of_pos (hLpos x),
      ← ofReal_mul (gaussianPDFReal_nonneg ..), gaussianPDFReal_mul_likelihood a b c x hv,
      ofReal_mul (Real.exp_pos _).le]
  have hlaw : gaussianReal a v = (gaussianReal b v).withDensity L := by
    have hpdf : gaussianPDF a v = gaussianPDF b v * L := by
      funext x
      have hone := hpow 1 x
      simpa using hone.symm
    rw [gaussianReal_of_var_ne_zero a hv, gaussianReal_of_var_ne_zero b hv, hpdf,
      withDensity_mul _ (measurable_gaussianPDF b v) hmeas]
  have hmoment : ∫⁻ x, L x ^ α ∂gaussianReal b v =
      .ofReal (Real.exp ((α - 1) * (α * (a - b) ^ 2 / (2 * v)))) := by
    rw [gaussianReal_of_var_ne_zero b hv, lintegral_withDensity_eq_lintegral_mul _
      (measurable_gaussianPDF b v) (hmeas.pow_const α)]
    simp only [Pi.mul_apply, hpow α]
    rw [lintegral_const_mul' _ _ ofReal_ne_top, lintegral_gaussianPDF_eq_one _ hv, mul_one]
    congr 2
    ring
  rw [hlaw]
  exact (withDensity_iff hα hmeas (fun x => (ofReal_pos.2 (hLpos x)).ne') (fun x => ofReal_ne_top)
    (hmoment ▸ ofReal_ne_top)).2 hmoment.le

end RenyiLE

theorem renyiLE_noised {α scale : ℝ} (hα : 1 < α) (hscale : scale ≠ 0) {a b : List ℝ}
    (hlen : a.length = b.length) :
    RenyiLE α (α * ((List.zipWith (· - ·) a b).map (· ^ 2)).sum / (2 * scale ^ 2))
      (RandomValue.normal.noised scale a) (RandomValue.normal.noised scale b) := by
  induction a generalizing b with
  | nil =>
    obtain rfl := List.length_eq_zero_iff.1 hlen.symm
    rw [List.zipWith_nil_left, List.map_nil, List.sum_nil, mul_zero, zero_div]
    exact RenyiLE.pure hα []
  | cons x a ih =>
    cases b with
    | nil => cases hlen
    | cons y b =>
      have hfirst := RenyiLE.gaussian hα x y (v := .mk (scale ^ 2) (sq_nonneg scale))
        (by simpa [← NNReal.coe_ne_zero] using hscale)
      have hboth := hfirst.bind hα RandomValue.surely_true RandomValue.surely_true
        fun z _ => (ih (Nat.succ.inj hlen)).map hα (z :: ·)
      rw [RandomValue.noised_cons, RandomValue.noised_cons, RandomValue.map_normal hscale, RandomValue.map_normal hscale]
      convert hboth using 1
      simp only [List.zipWith_cons_cons, List.map_cons, List.sum_cons, NNReal.coe_mk]
      ring

end

end Support
