import GossipRl.Support.PyFloat

/-!
# The RDP accountant in floats (`privacy/accountant.py`)

`RDPAccountant` has exact arithmetic, in which no square overflows or is rounded to 0. Which calls of
`step` raise is another matter: this is the accountant with the numbers that it has, and with what is
left of it after a call that raised. `gammaln` is SciPy's. Python's own floats raise where NumPy's do
not, and a noise multiplier may be of either kind, so that a call has the kind with it.
-/

namespace GossipRl
open Support PyFloat

noncomputable section

/-- The arguments of `step`, and the type of the noise multiplier. -/
structure FloatCall where
  kind : FloatKind
  noiseMultiplier : PyFloat
  sampleRate : PyFloat

structure FloatSpent where
  epsilon : PyFloat
  delta : PyFloat
  call : FloatCall
  step : Nat

structure FloatAccountant where
  orders : List PyFloat
  /-- Running RDP epsilon for each order. -/
  rdpEpsilon : List PyFloat
  history : List FloatSpent := []
  stepCount : Nat := 0

namespace FloatAccountant
variable (gammaln : PyFloat → PyFloat)

/-- The default orders. -/
def defaultOrders : List PyFloat :=
  ((List.range' 1 99).map fun x => add 1 ((ofNat x).div (ofNat 10))) ++ (List.range' 12 52).map ofNat

/-- `x / (2 * sigma ** 2)` -/
def divTwiceSquare (x : PyFloat) (call : FloatCall) : Option PyFloat :=
  (call.kind.square call.noiseMultiplier).bind fun square => call.kind.div x ((ofNat 2).mul square)

/-- The logarithm of a binomial coefficient. -/
def logComb (n : PyFloat) (k : ℕ) : PyFloat :=
  if k = 0 then 0
  else if n < ofNat k then inf true
  else ((gammaln (n.add 1)).sub (gammaln (ofNat (k + 1)))).sub (gammaln ((n.sub (ofNat k)).add 1))

def logTerm (call : FloatCall) (alpha : PyFloat) (k : ℕ) : Option PyFloat :=
  let q := call.sampleRate
  q.log.bind fun logRate => (sub 1 q).log.bind fun logRest =>
    (divTwiceSquare (ofNat (k * (k - 1))) call).map fun last =>
      (((logComb gammaln alpha k).add ((ofNat k).mul logRate)).add
        ((alpha.sub (ofNat k)).mul logRest)).add last

def computeSubsampledRdp (call : FloatCall) (alpha : PyFloat) : Option PyFloat :=
  if alpha < 1 ∨ alpha = 1 then some 0
  else if call.sampleRate = 0 then some 0
  else if call.sampleRate = 1 then divTwiceSquare alpha call
  else
    alpha.toNat.bind fun n =>
      ((List.range (min (n + 1) 100)).mapM (logTerm gammaln call alpha)).bind fun terms =>
        (logSumExp terms).bind fun result => FloatKind.python.div result (alpha.sub 1)

/-- What the loop of `_compute_rdp` computes for an order. -/
def rdpAt (call : FloatCall) (order : PyFloat) : Option PyFloat :=
  if call.sampleRate = 1 then divTwiceSquare order call
  else computeSubsampledRdp gammaln call order

def init (orders : List PyFloat := defaultOrders) : FloatAccountant where
  orders := orders
  rdpEpsilon := orders.map fun _ => 0

def computeRdp (call : FloatCall) (a : FloatAccountant) : Option (List PyFloat) :=
  a.orders.mapM (rdpAt gammaln call)

/-- A call of `step` with what it leaves behind if it raises, and whether it returns. -/
def step (a : FloatAccountant) (call : FloatCall) : FloatAccountant × Bool :=
  let a := { a with stepCount := a.stepCount + 1 }
  match a.computeRdp gammaln call with
  | none => (a, false)
  | some rdp =>
    ({ a with
       rdpEpsilon := List.zipWith add a.rdpEpsilon rdp
       history := a.history ++ [{ epsilon := 0, delta := 0, call := call, step := a.stepCount }] },
      true)

/-- The square of the noise multiplier can be divided by. -/
def Squarable (call : FloatCall) : Prop :=
  call.kind = .python → call.noiseMultiplier.SquareFinite ∧ call.noiseMultiplier.SquareNonzero

/-- With this order the call does not raise. -/
def Accepted (call : FloatCall) (order : PyFloat) : Prop :=
  if call.sampleRate = 1 then Squarable call
  else order < 1 ∨ order = 1 ∨ call.sampleRate = 0 ∨
    (∃ x, order = finite x) ∧
      (call.sampleRate = nan ∨ 0 < call.sampleRate ∧ call.sampleRate < 1) ∧ Squarable call

variable {gammaln} {call : FloatCall} {order x : PyFloat} {a : FloatAccountant}

theorem divTwiceSquare_eq_none_iff : divTwiceSquare x call = none ↔ ¬ Squarable call := by
  rw [divTwiceSquare, FloatKind.square_eq, Squarable]
  split_ifs with h
  · exact iff_of_true rfl fun h' => h.2 (h' h.1).1
  · rw [Option.bind_some, FloatKind.div_eq_none_iff, two_mul_eq_zero_iff, mul_self_eq_zero_iff]
    tauto

theorem mem_Ioo_iff :
    x = nan ∨ 0 < x ∧ x < 1 ↔ ¬ (x < 0 ∨ x = 0) ∧ ¬ (x = 1 ∨ 1 < x) := by
  cases x with
  | nan => simp [one_eq]
  | inf a => cases a <;> simp [one_eq]
  | finite x =>
    simp only [reduceCtorEq, false_or, zero_lt_finite, finite_lt_one, finite_lt_zero,
      finite_eq_zero_iff, finite_eq_one_iff, one_lt_finite, not_or, not_lt]
    constructor
    · rintro ⟨hpos, hlt⟩
      exact ⟨⟨hpos.le, hpos.ne'⟩, hlt.ne, hlt.le⟩
    · rintro ⟨⟨hnonneg, hne⟩, hne', hle⟩
      exact ⟨lt_of_le_of_ne hnonneg (Ne.symm hne), lt_of_le_of_ne hle hne'⟩

theorem logTerm_eq_none_iff {k : ℕ} :
    logTerm gammaln call order k = none ↔
      ¬ ((call.sampleRate = nan ∨ 0 < call.sampleRate ∧ call.sampleRate < 1) ∧ Squarable call) := by
  rw [mem_Ioo_iff, ← log_eq_none_iff, ← log_one_sub_eq_none_iff, not_and_or, not_and_or, not_not,
    not_not, ← divTwiceSquare_eq_none_iff (x := ofNat (k * (k - 1))), logTerm]
  simp only [Option.bind_eq_none_iff, Option.map_eq_none_iff]
  cases call.sampleRate.log <;> cases (sub 1 call.sampleRate).log <;> simp

/-- Above 1, and with a sample rate between 0 and 1, the sum of the terms does not raise. -/
theorem sum_ne_none {x : Binary64} (hx : 1 < (x : ℝ))
    (h : ∀ k, logTerm gammaln call (finite x) k ≠ none) :
    (((List.range (min (⌊(x : ℝ)⌋₊ + 1) 100)).mapM (logTerm gammaln call (finite x))).bind fun terms =>
      (logSumExp terms).bind fun result => FloatKind.python.div result ((finite x).sub 1)) ≠ none := by
  choose f hf using fun k => Option.ne_none_iff_exists'.1 (h k)
  have hterms : (List.range (min (⌊(x : ℝ)⌋₊ + 1) 100)).map f ≠ [] := by
    simp
  obtain ⟨result, hresult⟩ := Option.ne_none_iff_exists'.1 (logSumExp_ne_none hterms)
  rw [mapM_of_forall_some fun k _ => hf k, Option.bind_some, hresult, Option.bind_some, Ne,
    FloatKind.div_eq_none_iff]
  exact fun h => sub_one_ne_zero (one_lt_finite.2 hx) h.2

theorem rdpAt_eq_none_iff : rdpAt gammaln call order = none ↔ ¬ Accepted call order := by
  unfold rdpAt Accepted
  by_cases hone : call.sampleRate = 1
  · rw [if_pos hone, if_pos hone, divTwiceSquare_eq_none_iff]
  rw [if_neg hone, if_neg hone, computeSubsampledRdp, if_neg hone]
  by_cases horder : order < 1 ∨ order = 1
  · rw [if_pos horder]
    exact iff_of_false (Option.some_ne_none _) (not_not.2 (by tauto))
  rw [if_neg horder]
  by_cases hzero : call.sampleRate = 0
  · rw [if_pos hzero]
    exact iff_of_false (Option.some_ne_none _) (not_not.2 (by tauto))
  rw [if_neg hzero]
  rw [not_or] at horder
  simp only [horder, hzero, false_or]
  cases order with
  | nan => simp [PyFloat.toNat]
  | inf a => simp [PyFloat.toNat]
  | finite x =>
    have hx : 1 < (x : ℝ) := by
      rw [finite_lt_one, finite_eq_one_iff, not_lt] at horder
      exact lt_of_le_of_ne horder.1 (Ne.symm horder.2)
    rw [PyFloat.toNat, Option.bind_some]
    by_cases hterm : (call.sampleRate = nan ∨ 0 < call.sampleRate ∧ call.sampleRate < 1) ∧
      Squarable call
    · refine iff_of_false (sum_ne_none hx fun k => ?_) (not_not.2 ⟨⟨x, rfl⟩, hterm⟩)
      rw [Ne, logTerm_eq_none_iff, not_not]
      exact hterm
    · refine iff_of_true ?_ fun h => hterm h.2
      have hmem : 0 ∈ List.range (min (⌊(x : ℝ)⌋₊ + 1) 100) := by simp
      rw [mapM_of_exists_none hmem (logTerm_eq_none_iff.2 hterm), Option.bind_none]

theorem exists_computeRdp (gammaln : PyFloat → PyFloat) (h : ∀ order ∈ a.orders, Accepted call order) :
    ∃ rdp, a.computeRdp gammaln call = some rdp := by
  have hcost : ∀ order ∈ a.orders, ∃ cost, rdpAt gammaln call order = some cost := fun order horder =>
    Option.ne_none_iff_exists'.1 fun hnone => rdpAt_eq_none_iff.1 hnone (h order horder)
  choose! cost hcost using hcost
  exact ⟨_, mapM_of_forall_some hcost⟩

theorem computeRdp_of_not_accepted (horder : order ∈ a.orders) (h : ¬ Accepted call order) :
    a.computeRdp gammaln call = none :=
  mapM_of_exists_none horder (rdpAt_eq_none_iff.2 h)

theorem step_of_some {rdp : List PyFloat} (h : a.computeRdp gammaln call = some rdp) :
    a.step gammaln call =
      ({ a with
         stepCount := a.stepCount + 1
         rdpEpsilon := List.zipWith add a.rdpEpsilon rdp
         history := a.history ++
           [{ epsilon := 0, delta := 0, call := call, step := a.stepCount + 1 }] }, true) := by
  unfold step
  dsimp only
  rw [show computeRdp gammaln call { a with stepCount := a.stepCount + 1 } = some rdp from h]

theorem step_of_none (h : a.computeRdp gammaln call = none) :
    a.step gammaln call = ({ a with stepCount := a.stepCount + 1 }, false) := by
  unfold step
  dsimp only
  rw [show computeRdp gammaln call { a with stepCount := a.stepCount + 1 } = none from h]

end FloatAccountant

end

end GossipRl
