import GossipRl.Support.RandomValue
import Mathlib.MeasureTheory.Integral.ExpDecay

/-!
# Differential privacy

`Private ε δ` is what is meant by privacy. Without a failure probability it is a bound of all tests'
expected results (`PureLE`), and the bounds of independent values add up. Numbers with Laplace noise
are so private just as far as they are apart (`private_noised_laplace_iff`).
-/

namespace Support
open MeasureTheory ENNReal

noncomputable section

variable {X Y : Type*}

/-- No event tells the values apart but for a factor `exp ε` and a probability `δ`. -/
def Private (ε δ : ℝ) (r r' : RandomValue X) : Prop :=
  ∀ S, r.prob S ≤ .ofReal (Real.exp ε) * r'.prob S + .ofReal δ

theorem Private.map {ε δ : ℝ} {r r' : RandomValue X} (h : Private ε δ r r') (g : X → Y) :
    Private ε δ (r.map g) (r'.map g) := fun S => h (Set.preimage g S)

/-- No test has a result that is expected to be more than `exp ε` times as large. -/
def PureLE (ε : ℝ) (r r' : RandomValue X) : Prop :=
  ∀ f, r.expect f ≤ .ofReal (Real.exp ε) * r'.expect f

namespace PureLE
variable {ε ε' : ℝ} {r r' : RandomValue X} {k k' : X → RandomValue Y}

theorem refl (r : RandomValue X) : PureLE 0 r r := by
  intro f
  rw [Real.exp_zero, ofReal_one, one_mul]

theorem bind (h : PureLE ε r r') (hk : ∀ x, PureLE ε' (k x) (k' x)) :
    PureLE (ε + ε') (r.bind k) (r'.bind k') := by
  intro f
  calc r.expect (fun x => (k x).expect f)
      ≤ r.expect fun x => .ofReal (Real.exp ε') * (k' x).expect f := r.mono fun x => hk x f
    _ = .ofReal (Real.exp ε') * r.expect fun x => (k' x).expect f := r.const_mul _ ofReal_ne_top
    _ ≤ .ofReal (Real.exp ε') * (.ofReal (Real.exp ε) * r'.expect fun x => (k' x).expect f) := by
      gcongr
      exact h _
    _ = _ := by
      rw [← mul_assoc, ← ofReal_mul (Real.exp_pos _).le, ← Real.exp_add, add_comm]
      rfl

theorem map (h : PureLE ε r r') (g : X → Y) : PureLE ε (r.map g) (r'.map g) := fun f => h (f ∘ g)

theorem mono (hle : ε ≤ ε') (h : PureLE ε r r') : PureLE ε' r r' := by
  intro f
  refine (h f).trans ?_
  gcongr

theorem isPrivate (h : PureLE ε r r') : Private ε 0 r r' := by
  intro S
  rw [ofReal_zero, add_zero]
  exact h _

end PureLE

/-! ### Laplace noise -/

/-- The density of the standard Laplace distribution. -/
def laplaceWeight (x : ℝ) : ℝ≥0∞ := .ofReal (Real.exp (-|x|) / (2 : ℕ))

/-- A number with the standard Laplace distribution. -/
def laplace : RandomValue ℝ := .ofMeasure (volume.withDensity laplaceWeight)

theorem measurable_laplaceWeight : Measurable laplaceWeight := by
  unfold laplaceWeight
  fun_prop

theorem expect_laplace (f : ℝ → ℝ≥0∞) : laplace.expect f = ∫⁻ t, laplaceWeight t * f t :=
  lintegral_withDensity_eq_lintegral_mul_non_measurable _ measurable_laplaceWeight
    (.of_forall fun _ => ofReal_lt_top) f

theorem lintegral_laplaceWeight_Iic : ∫⁻ t in Set.Iic 0, laplaceWeight t = 2⁻¹ := by
  have hint := (integrableOn_exp_Iic 0).div_const 2
  have hnonneg : ∀ᵐ t ∂volume.restrict (Set.Iic (0 : ℝ)), 0 ≤ Real.exp t / 2 :=
    .of_forall fun t => by positivity
  calc ∫⁻ t in Set.Iic 0, laplaceWeight t
      = ∫⁻ t in Set.Iic 0, .ofReal (Real.exp t / 2) :=
        setLIntegral_congr_fun measurableSet_Iic fun t ht => by
          rw [laplaceWeight, abs_of_nonpos ht, neg_neg, Nat.cast_ofNat]
    _ = .ofReal (∫ t in Set.Iic 0, Real.exp t / 2) :=
        (ofReal_integral_eq_lintegral_ofReal hint hnonneg).symm
    _ = 2⁻¹ := by
      rw [integral_div, integral_exp_Iic_zero, one_div, ofReal_inv_of_pos zero_lt_two, ofReal_ofNat]

theorem lintegral_laplaceWeight_Ici : ∫⁻ t in Set.Ici 0, laplaceWeight t = 2⁻¹ := by
  have hneg : ∀ t, (Set.Ici 0).indicator laplaceWeight (-t) = (Set.Iic 0).indicator laplaceWeight t :=
    fun t => by simp [Set.indicator, laplaceWeight]
  rw [← lintegral_indicator measurableSet_Ici, ← lintegral_neg_eq_self]
  simp only [hneg]
  rw [lintegral_indicator measurableSet_Iic, lintegral_laplaceWeight_Iic]

theorem laplace_expect_one : laplace.expect (fun _ => 1) = 1 := by
  have hunion := lintegral_add_compl laplaceWeight (measurableSet_Iic (a := (0 : ℝ))) (μ := volume)
  rw [expect_laplace]
  simp only [mul_one]
  rw [← hunion, Set.compl_Iic, setLIntegral_congr Ioi_ae_eq_Ici, lintegral_laplaceWeight_Iic,
    lintegral_laplaceWeight_Ici, ENNReal.inv_two_add_inv_two]

theorem expect_map_laplace {scale : ℝ} (hscale : scale ≠ 0) (x y : ℝ) (f : ℝ → ℝ≥0∞) :
    (laplace.map (x + scale * ·)).expect f =
      ∫⁻ t, laplaceWeight (t + (y - x) / scale) * f (y + scale * t) := by
  rw [RandomValue.expect_map, expect_laplace,
    ← lintegral_add_right_eq_self _ ((y - x) / scale)]
  refine lintegral_congr fun t => ?_
  rw [mul_add, mul_div_cancel₀ _ hscale, ← add_assoc, add_right_comm, add_sub_cancel]

theorem laplaceWeight_add_le (t d : ℝ) :
    laplaceWeight (t + d) ≤ .ofReal (Real.exp |d|) * laplaceWeight t := by
  have htriangle := abs_sub_abs_le_abs_sub t (t + d)
  rw [sub_add_cancel_left, abs_neg] at htriangle
  rw [laplaceWeight, laplaceWeight, ← ofReal_mul (Real.exp_pos _).le, mul_div_assoc', ← Real.exp_add]
  gcongr
  linarith

theorem pureLE_laplace {scale : ℝ} (hscale : 0 < scale) (x y : ℝ) :
    PureLE (|x - y| / scale) (laplace.map (x + scale * ·)) (laplace.map (y + scale * ·)) := by
  intro f
  rw [expect_map_laplace hscale.ne' x y f, expect_map_laplace hscale.ne' y y f, sub_self, zero_div,
    ← lintegral_const_mul' _ _ ofReal_ne_top]
  refine lintegral_mono fun t => ?_
  have hweight := laplaceWeight_add_le t ((y - x) / scale)
  rw [abs_div, abs_of_pos hscale, abs_sub_comm] at hweight
  rw [add_zero, ← mul_assoc]
  gcongr

/-- The sum of how far apart the entries are. -/
def l1Dist (a b : List ℝ) : ℝ := ((List.zipWith (· - ·) a b).map (|·|)).sum

theorem l1Dist_cons (x y : ℝ) (a b : List ℝ) : l1Dist (x :: a) (y :: b) = |x - y| + l1Dist a b := rfl

theorem pureLE_noised_laplace {scale : ℝ} (hscale : 0 < scale) {a b : List ℝ}
    (hlen : a.length = b.length) :
    PureLE (l1Dist a b / scale) (laplace.noised scale a) (laplace.noised scale b) := by
  induction a generalizing b with
  | nil =>
    obtain rfl := List.length_eq_zero_iff.1 hlen.symm
    rw [l1Dist, List.zipWith_nil_left, List.map_nil, List.sum_nil, zero_div]
    exact .refl _
  | cons x a ih =>
    cases b with
    | nil => cases hlen
    | cons y b =>
      rw [l1Dist_cons, add_div, RandomValue.noised_cons, RandomValue.noised_cons]
      exact (pureLE_laplace hscale x y).bind fun z => (ih (Nat.succ.inj hlen)).map (z :: ·)

/-! ### The event that tells most -/

/-- The numbers on the far side of `x`, seen from `y`. -/
def beyond (x y : ℝ) : Set ℝ := if y ≤ x then Set.Ici x else Set.Iic x

def beyonds : List ℝ → List ℝ → Set (List ℝ)
  | x :: a, y :: b => {l | ∃ z zs, l = z :: zs ∧ z ∈ beyond x y ∧ zs ∈ beyonds a b}
  | _, _ => Set.univ

theorem mem_beyond {scale : ℝ} (hscale : 0 < scale) {x y t : ℝ} :
    x + scale * t ∈ beyond x y ↔ if y ≤ x then 0 ≤ t else t ≤ 0 := by
  unfold beyond
  split
  · rw [Set.mem_Ici, le_add_iff_nonneg_right, mul_nonneg_iff_of_pos_left hscale]
  · rw [Set.mem_Iic, add_le_iff_nonpos_right]
    exact ⟨(nonpos_of_mul_nonpos_right · hscale), mul_nonpos_of_nonneg_of_nonpos hscale.le⟩

theorem prob_beyond {scale : ℝ} (hscale : 0 < scale) (x y : ℝ) :
    (laplace.map (x + scale * ·)).prob (beyond x y) = 2⁻¹ := by
  rw [RandomValue.prob_map, RandomValue.prob, expect_laplace]
  rcases le_or_gt y x with h | h
  · have hside : Set.preimage (x + scale * ·) (beyond x y) = Set.Ici 0 :=
      Set.ext fun t => (mem_beyond hscale).trans (by rw [if_pos h, Set.mem_Ici])
    rw [hside, ← lintegral_laplaceWeight_Ici, ← lintegral_indicator measurableSet_Ici]
    exact lintegral_congr fun t => by simp [Set.indicator]
  · have hside : Set.preimage (x + scale * ·) (beyond x y) = Set.Iic 0 :=
      Set.ext fun t => (mem_beyond hscale).trans (by rw [if_neg h.not_ge, Set.mem_Iic])
    rw [hside, ← lintegral_laplaceWeight_Iic, ← lintegral_indicator measurableSet_Iic]
    exact lintegral_congr fun t => by simp [Set.indicator]

theorem laplaceWeight_beyond {scale : ℝ} (hscale : 0 < scale) {x y t : ℝ}
    (h : x + scale * t ∈ beyond x y) : .ofReal (Real.exp (|x - y| / scale)) *
      laplaceWeight (t + (x - y) / scale) = laplaceWeight t := by
  have habs : |t + (x - y) / scale| = |t| + |x - y| / scale := by
    rw [mem_beyond hscale] at h
    split_ifs at h with hle
    · have hd : 0 ≤ (x - y) / scale := div_nonneg (sub_nonneg.2 hle) hscale.le
      rw [abs_of_nonneg h, abs_of_nonneg (sub_nonneg.2 hle), abs_of_nonneg (add_nonneg h hd)]
    · have hlt : x - y < 0 := sub_neg.2 (not_le.1 hle)
      have hd : (x - y) / scale ≤ 0 := div_nonpos_of_nonpos_of_nonneg hlt.le hscale.le
      rw [abs_of_nonpos h, abs_of_neg hlt, abs_of_nonpos (add_nonpos h hd), neg_div, neg_add]
  rw [laplaceWeight, laplaceWeight, ← ofReal_mul (Real.exp_pos _).le, mul_div_assoc', ← Real.exp_add,
    habs, neg_add, add_neg_cancel_comm_assoc]

theorem prob_beyond_far {scale : ℝ} (hscale : 0 < scale) (x y : ℝ) :
    .ofReal (Real.exp (|x - y| / scale)) * (laplace.map (y + scale * ·)).prob (beyond x y) =
      (laplace.map (x + scale * ·)).prob (beyond x y) := by
  rw [RandomValue.prob, RandomValue.prob, expect_map_laplace hscale.ne' y x,
    expect_map_laplace hscale.ne' x x, sub_self, zero_div, ← lintegral_const_mul' _ _ ofReal_ne_top]
  refine lintegral_congr fun t => ?_
  by_cases h : x + scale * t ∈ beyond x y
  · rw [add_zero, ← mul_assoc, laplaceWeight_beyond hscale h]
  · rw [Set.indicator_of_notMem h, mul_zero, mul_zero, mul_zero]

theorem prob_noised_laplace_le_one (scale : ℝ) (a : List ℝ) (S : Set (List ℝ)) :
    (laplace.noised scale a).prob S ≤ 1 := by
  refine RandomValue.prob_le_one ?_ S
  exact RandomValue.draws_expect_one laplace_expect_one a.length

theorem prob_beyonds_cons (scale x y z : ℝ) (a b c : List ℝ) :
    (laplace.noised scale (z :: c)).prob (beyonds (x :: a) (y :: b)) =
      (laplace.map (z + scale * ·)).prob (beyond x y) *
        (laplace.noised scale c).prob (beyonds a b) := by
  have hsplit : ∀ w ws, (beyonds (x :: a) (y :: b)).indicator (1 : List ℝ → ℝ≥0∞) (w :: ws) =
      (beyond x y).indicator 1 w * (beyonds a b).indicator 1 ws := by
    intro w ws
    by_cases hw : w ∈ beyond x y <;> by_cases hws : ws ∈ beyonds a b <;>
      simp [beyonds, Set.indicator, hw, hws]
  have hfin : ∀ w, (beyond x y).indicator (1 : ℝ → ℝ≥0∞) w ≠ ∞ := fun w =>
    ((Set.indicator_le_self' (fun _ _ => zero_le) w).trans_lt one_lt_top).ne
  have hrest := ((prob_noised_laplace_le_one scale c (beyonds a b)).trans_lt one_lt_top).ne
  calc (laplace.noised scale (z :: c)).prob (beyonds (x :: a) (y :: b))
      = (laplace.map (z + scale * ·)).expect fun w => (laplace.noised scale c).expect fun ws =>
          (beyond x y).indicator 1 w * (beyonds a b).indicator 1 ws := by
        simp only [← hsplit]
        rfl
    _ = (laplace.map (z + scale * ·)).expect fun w =>
          (laplace.noised scale c).prob (beyonds a b) * (beyond x y).indicator 1 w := by
        congr 1
        funext w
        rw [RandomValue.const_mul _ _ (hfin w), mul_comm]
        rfl
    _ = _ := by
        rw [RandomValue.const_mul _ _ hrest, mul_comm]
        rfl

theorem prob_beyonds {scale : ℝ} (hscale : 0 < scale) {a b : List ℝ} (hlen : a.length = b.length) :
    (laplace.noised scale a).prob (beyonds a b) ≠ 0 ∧
      .ofReal (Real.exp (l1Dist a b / scale)) * (laplace.noised scale b).prob (beyonds a b) =
        (laplace.noised scale a).prob (beyonds a b) := by
  induction a generalizing b with
  | nil =>
    obtain rfl := List.length_eq_zero_iff.1 hlen.symm
    constructor
    · simp [beyonds, RandomValue.prob, RandomValue.noised_nil]
    · simp [l1Dist]
  | cons x a ih =>
    cases b with
    | nil => cases hlen
    | cons y b =>
      obtain ⟨hpos, hfar⟩ := ih (Nat.succ.inj hlen)
      rw [prob_beyonds_cons, prob_beyonds_cons]
      refine ⟨mul_ne_zero ?_ hpos, ?_⟩
      · rw [prob_beyond hscale]
        exact ENNReal.inv_ne_zero.2 ofNat_ne_top
      · rw [l1Dist_cons, add_div, Real.exp_add, ofReal_mul (Real.exp_pos _).le, mul_mul_mul_comm,
          prob_beyond_far hscale, hfar]

/-- Laplace noise hides numbers just as far as the sum of their distances allows. -/
theorem private_noised_laplace_iff {scale ε : ℝ} (hscale : 0 < scale) {a b : List ℝ}
    (hlen : a.length = b.length) :
    Private ε 0 (laplace.noised scale a) (laplace.noised scale b) ↔ l1Dist a b / scale ≤ ε := by
  constructor
  · intro h
    obtain ⟨hpos, hfar⟩ := prob_beyonds hscale hlen
    have hevent := h (beyonds a b)
    rw [ofReal_zero, add_zero, ← hfar] at hevent
    have hpos' : (laplace.noised scale b).prob (beyonds a b) ≠ 0 := by
      intro hzero
      rw [hzero, mul_zero] at hfar
      exact hpos hfar.symm
    have hfin := ((prob_noised_laplace_le_one scale b (beyonds a b)).trans_lt one_lt_top).ne
    have hexp := (ENNReal.mul_le_mul_iff_left hpos' hfin).1 hevent
    exact Real.exp_le_exp.1 ((ofReal_le_ofReal_iff (Real.exp_pos _).le).1 hexp)
  · intro h
    exact ((pureLE_noised_laplace hscale hlen).mono h).isPrivate

end

end Support
