import GossipRl.Support.LogSpace
import Mathlib.Data.List.MinMax

/-!
# The RDP accountant (`privacy/accountant.py`)

Arithmetic is that of the real numbers, and `none` is an exception: a division by zero or the
logarithm of a number that is not positive. `FloatAccountant` has it in floats.
-/

namespace GossipRl
open Support

noncomputable section

structure PrivacySpent where
  epsilon : ℝ
  delta : ℝ
  noiseMultiplier : ℝ
  sampleRate : ℝ
  step : Nat

structure RDPAccountant where
  orders : List ℝ
  /-- Running RDP epsilon for each order. -/
  rdpEpsilon : List ℝ
  history : List PrivacySpent := []
  stepCount : Nat := 0

/-- The default orders. -/
def defaultOrders : List ℝ :=
  ((List.range' 1 99).map fun x : Nat => 1 + (x : ℝ) / 10) ++ (List.range' 12 52).map (Nat.cast)

theorem defaultOrders_bounds {order : ℝ} (h : order ∈ defaultOrders) : 1 < order ∧ order ≤ 63 := by
  rcases List.mem_append.1 h with h | h
  · obtain ⟨x, hx, rfl⟩ := List.mem_map.1 h
    obtain ⟨hpos, hlt⟩ := List.mem_range'_1.1 hx
    have hpos : (1 : ℝ) ≤ x := by exact_mod_cast hpos
    have hlt : (x : ℝ) ≤ 99 := by exact_mod_cast Nat.le_of_lt_succ hlt
    exact ⟨by linarith, by linarith⟩
  · obtain ⟨n, hn, rfl⟩ := List.mem_map.1 h
    obtain ⟨hpos, hlt⟩ := List.mem_range'_1.1 hn
    have hpos : (12 : ℝ) ≤ n := by exact_mod_cast hpos
    have hlt : (n : ℝ) ≤ 63 := by exact_mod_cast Nat.le_of_lt_succ hlt
    exact ⟨by linarith, by linarith⟩

/-- `order / (2 * noise_multiplier ** 2)` -/
def gaussianRdp (noiseMultiplier order : ℝ) : Option ℝ :=
  if noiseMultiplier = 0 then none else some (order / ((2 : ℕ) * noiseMultiplier ^ 2))

/-- The logarithm of a binomial coefficient, `none` for minus infinity. -/
def logComb (n : ℝ) (k : ℕ) : Option ℝ :=
  if k = 0 then some 0
  else if k > n then none
  else some (gammaln (n + 1) - gammaln (k + 1) - gammaln (n - k + 1))

def logTerm (sigma q alpha : ℝ) (k : ℕ) : Option ℝ :=
  (logComb alpha k).map fun comb =>
    comb + k * Real.log q + (alpha - k) * Real.log (1 - q) + k * (k - 1) / ((2 : ℕ) * sigma ^ 2)

def computeSubsampledRdp (sigma q alpha : ℝ) : Option ℝ :=
  if alpha ≤ 1 then some 0
  else if q = 0 then some 0
  else if q = 1 then gaussianRdp sigma alpha
  else if sigma = 0 ∨ q < 0 ∨ 1 < q then none
  else
    (logSumExp ((List.range (min (⌊alpha⌋₊ + 1) 100)).map (logTerm sigma q alpha))).map
      (· / (alpha - 1))

namespace RDPAccountant

def init (orders : List ℝ := defaultOrders) : RDPAccountant where
  orders := orders
  rdpEpsilon := orders.map fun _ => 0

def computeRdp (noiseMultiplier sampleRate : ℝ) (a : RDPAccountant) : Option (List ℝ) :=
  a.orders.mapM fun order =>
    if sampleRate = 1 then gaussianRdp noiseMultiplier order
    else computeSubsampledRdp noiseMultiplier sampleRate order

/-- A call of `step`, with the noise multiplier and the sample rate. -/
def step (a : RDPAccountant) (call : ℝ × ℝ) : Option RDPAccountant :=
  (a.computeRdp call.1 call.2).map fun rdp =>
    { a with
      stepCount := a.stepCount + 1
      rdpEpsilon := List.zipWith (· + ·) a.rdpEpsilon rdp
      history := a.history ++
        [{ epsilon := 0
           delta := 0
           noiseMultiplier := call.1
           sampleRate := call.2
           step := a.stepCount + 1 }] }

/-- What the loop of `get_epsilon` computes for an order. -/
def epsilonAt (delta : ℝ) (order : ℝ × ℝ) : ℝ :=
  order.2 + (Real.log delta + Real.log order.1) / (1 - order.1)

/-- What the loop of `get_epsilon` appends for an order. -/
def epsilonOf (delta : ℝ) (order : ℝ × ℝ) : Option ℝ :=
  if order.1 ≤ 1 then none
  else if epsilonAt delta order > 0 then some (epsilonAt delta order)
  else none

/-- `float('inf')` if there is no order to take. -/
def getEpsilon (delta : ℝ) (a : RDPAccountant) : WithTop ℝ :=
  if delta ≤ 0 then ⊤
  else ((a.orders.zip a.rdpEpsilon).filterMap (epsilonOf delta)).minimum

/-- What the loop of `get_optimal_order` computes for an order. -/
def optimalEpsilonAt (delta : ℝ) (order : ℝ × ℝ) : ℝ :=
  order.2 + Real.log delta / (order.1 - 1)

/-- The body of the loop of `get_optimal_order`: `min_eps` and `best_order`. -/
def optimalOrderStep (delta : ℝ) (best : WithTop ℝ × ℝ) (order : ℝ × ℝ) : WithTop ℝ × ℝ :=
  if order.1 ≤ 1 then best
  else if (optimalEpsilonAt delta order : WithTop ℝ) < best.1 then
    (optimalEpsilonAt delta order, order.1)
  else best

def getOptimalOrder (delta : ℝ) (a : RDPAccountant) : Option ℝ :=
  if delta ≤ 0 then none
  else
    a.orders.head?.map fun first =>
      ((a.orders.zip a.rdpEpsilon).foldl (optimalOrderStep delta) (⊤, first)).2

def isBudgetExhausted (maxEpsilon delta : ℝ) (a : RDPAccountant) : Prop :=
  a.getEpsilon delta > maxEpsilon

end RDPAccountant

end

end GossipRl
