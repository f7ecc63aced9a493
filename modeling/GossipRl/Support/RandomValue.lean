import Mathlib.MeasureTheory.Constructions.Pi
import Mathlib.Probability.Distributions.Gaussian.Real

/-!
# Random values

A `RandomValue` is what is known of a value that is drawn: for every test of it the expected result.
Such values are drawn one after the other with `bind`, so that later draws may depend on earlier ones
in any way, and nothing has to be measurable. `draws r n` are `n` independent values like `r`; what
can be measured of normal numbers is measured by the product of the distributions (`expect_normals`).
-/

namespace Support
open MeasureTheory ProbabilityTheory ENNReal

noncomputable section

structure RandomValue (X : Type*) where
  expect : (X → ℝ≥0∞) → ℝ≥0∞
  mono : ∀ {f g : X → ℝ≥0∞}, (∀ x, f x ≤ g x) → expect f ≤ expect g
  const_mul : ∀ {c : ℝ≥0∞} (f : X → ℝ≥0∞), c ≠ ∞ → expect (fun x => c * f x) = c * expect f

namespace RandomValue
variable {X Y Z : Type*}

@[ext] theorem ext {r r' : RandomValue X} (h : ∀ f, r.expect f = r'.expect f) : r = r' := by
  obtain ⟨e, _, _⟩ := r
  obtain ⟨e', _, _⟩ := r'
  obtain rfl : e = e' := funext h
  rfl

/-- The probability that the value lies in `S`. -/
def prob (r : RandomValue X) (S : Set X) : ℝ≥0∞ := r.expect (S.indicator 1)

/-- A value that is known. -/
def pure (x : X) : RandomValue X where
  expect f := f x
  mono h := h x
  const_mul _ _ := rfl

def bind (r : RandomValue X) (k : X → RandomValue Y) : RandomValue Y where
  expect f := r.expect fun x => (k x).expect f
  mono h := r.mono fun x => (k x).mono h
  const_mul f hc := by
    rw [← r.const_mul _ hc]
    congr 1
    funext x
    exact (k x).const_mul f hc

def map (g : X → Y) (r : RandomValue X) : RandomValue Y := r.bind fun x => pure (g x)

/-- A value with the distribution `μ`. -/
def ofMeasure [MeasurableSpace X] (μ : Measure X) : RandomValue X where
  expect f := ∫⁻ x, f x ∂μ
  mono h := lintegral_mono h
  const_mul f hc := lintegral_const_mul' _ f hc

variable {r : RandomValue X} {k : X → RandomValue Y} {f : Y → ℝ≥0∞} {x : X}

@[simp] theorem expect_pure {f : X → ℝ≥0∞} : (pure x).expect f = f x := rfl

@[simp] theorem expect_map {g : X → Y} : (r.map g).expect f = r.expect fun x => f (g x) := rfl

@[simp] theorem expect_ofMeasure [MeasurableSpace X] {μ : Measure X} {f : X → ℝ≥0∞} :
    (ofMeasure μ).expect f = ∫⁻ x, f x ∂μ := rfl

theorem map_map {g : X → Y} {h : Y → Z} : (r.map g).map h = r.map fun x => h (g x) := rfl

theorem prob_map {g : X → Y} {S : Set Y} : (r.map g).prob S = r.prob (Set.preimage g S) := rfl

/-- The value satisfies `P`: what a test makes of others does not matter. -/
def Surely (P : X → Prop) (r : RandomValue X) : Prop :=
  ∀ f g : X → ℝ≥0∞, (∀ x, P x → f x = g x) → r.expect f = r.expect g

theorem surely_pure {P : X → Prop} (h : P x) : (pure x).Surely P := fun _ _ hfg => hfg x h

theorem surely_true : r.Surely fun _ => True :=
  fun _ _ hfg => congrArg r.expect (funext fun x => hfg x trivial)

theorem Surely.bind {P : X → Prop} {Q : Y → Prop} (h : r.Surely P) (hk : ∀ x, P x → (k x).Surely Q) :
    (r.bind k).Surely Q := fun _ _ hfg => h _ _ fun x hx => hk x hx _ _ hfg

theorem Surely.map {P : X → Prop} {Q : Y → Prop} {g : X → Y} (h : r.Surely P)
    (hg : ∀ x, P x → Q (g x)) : (r.map g).Surely Q :=
  h.bind fun x hx => surely_pure (hg x hx)

theorem Surely.bind_congr {P : X → Prop} {k' : X → RandomValue Y} (h : r.Surely P)
    (hk : ∀ x, P x → k x = k' x) : r.bind k = r.bind k' := by
  ext f
  exact h _ _ fun x hx => by rw [hk x hx]

theorem Surely.map_congr {P : X → Prop} {g g' : X → Y} (h : r.Surely P)
    (hg : ∀ x, P x → g x = g' x) : r.map g = r.map g' :=
  h.bind_congr fun x hx => by rw [hg x hx]

/-- Independent values. -/
def draws (r : RandomValue X) : ℕ → RandomValue (List X)
  | 0 => pure []
  | n + 1 => r.bind fun x => (r.draws n).map (x :: ·)

theorem surely_draws (n : ℕ) : (r.draws n).Surely fun z => z.length = n := by
  induction n with
  | zero => exact surely_pure rfl
  | succ n ih =>
    refine surely_true.bind fun x _ => ih.map fun z hz => ?_
    rw [List.length_cons, hz]

theorem prob_le_one (h : r.expect (fun _ => 1) = 1) (S : Set X) : r.prob S ≤ 1 := by
  rw [← h]
  exact r.mono fun x => Set.indicator_le_self' (fun _ _ => zero_le) x

theorem draws_expect_one (h : r.expect (fun _ => 1) = 1) (n : ℕ) :
    (r.draws n).expect (fun _ => 1) = 1 := by
  induction n with
  | zero => rfl
  | succ n ih =>
    show r.expect (fun _ => (r.draws n).expect fun _ => 1) = 1
    rw [ih, h]

/-- The numbers `a`, each with noise of its own, `scale` times a draw. -/
def noised (r : RandomValue ℝ) (scale : ℝ) (a : List ℝ) : RandomValue (List ℝ) :=
  (r.draws a.length).map fun z => List.zipWith (· + ·) a (z.map (scale * ·))

theorem noised_nil {r : RandomValue ℝ} (scale : ℝ) : r.noised scale [] = pure [] := rfl

theorem noised_cons {r : RandomValue ℝ} (scale x : ℝ) (a : List ℝ) : r.noised scale (x :: a) =
    (r.map (x + scale * ·)).bind fun y => (r.noised scale a).map (y :: ·) := rfl

theorem surely_noised {r : RandomValue ℝ} (scale : ℝ) (a : List ℝ) :
    (r.noised scale a).Surely fun y => y.length = a.length :=
  (surely_draws a.length).map fun z hz => by simp [hz]

/-! ### Normal numbers -/

/-- A number with the standard normal distribution. -/
def normal : RandomValue ℝ := ofMeasure (gaussianReal 0 1)

/-- Scaled and moved, a normal number has the normal distribution with that mean and deviation. -/
theorem map_normal {scale : ℝ} (hscale : scale ≠ 0) (mean : ℝ) :
    normal.map (fun x => mean + scale * x) =
      ofMeasure (gaussianReal mean (.mk (scale ^ 2) (sq_nonneg _))) := by
  let e : ℝ ≃ᵐ ℝ := (MeasurableEquiv.mulLeft₀ scale hscale).trans (MeasurableEquiv.addLeft mean)
  have hlaw : (gaussianReal 0 1).map e = gaussianReal mean (.mk (scale ^ 2) (sq_nonneg _)) := by
    have hcomp : ⇑e = (mean + ·) ∘ (scale * ·) := rfl
    rw [hcomp, ← Measure.map_map (by fun_prop) (by fun_prop), gaussianReal_map_const_mul,
      gaussianReal_map_const_add]
    simp
  ext f
  rw [expect_ofMeasure, ← hlaw, e.measurableEmbedding.lintegral_map]
  rfl

/-- Tests that can be measured are integrated over the product of the distributions. -/
theorem expect_normals (n : ℕ) {f : List ℝ → ℝ≥0∞}
    (hf : Measurable fun v : Fin n → ℝ => f (List.ofFn v)) : (normal.draws n).expect f =
      ∫⁻ v, f (List.ofFn v) ∂Measure.pi fun _ : Fin n => gaussianReal 0 1 := by
  induction n generalizing f with
  | zero => simp [draws]
  | succ n ih =>
    let e := MeasurableEquiv.piFinSuccAbove (fun _ : Fin (n + 1) => ℝ) 0
    have hmp := (measurePreserving_piFinSuccAbove (fun _ : Fin (n + 1) => gaussianReal 0 1) 0).symm
    have hcons : ∀ x (v : Fin n → ℝ), List.ofFn (e.symm (x, v)) = x :: List.ofFn v := by
      intro x v
      rw [List.ofFn_succ]
      simp [e]
    have hsymm : Measurable fun p => f (List.ofFn (e.symm p)) := hf.comp e.symm.measurable
    have hmeas : Measurable fun p : ℝ × (Fin n → ℝ) => f (p.1 :: List.ofFn p.2) := by
      simpa only [← hcons] using hsymm
    rw [← hmp.lintegral_comp hf, lintegral_prod _ hsymm.aemeasurable]
    show ∫⁻ x, (normal.draws n).expect (fun zs => f (x :: zs)) ∂gaussianReal 0 1 = _
    refine lintegral_congr fun x => ?_
    rw [ih (hmeas.comp measurable_prodMk_left)]
    exact lintegral_congr fun v => by rw [← hcons]

end RandomValue

end

end Support
