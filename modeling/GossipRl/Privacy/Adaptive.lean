import GossipRl.Privacy.NumPy
import Mathlib.Analysis.SpecialFunctions.Log.Basic
import Mathlib.Analysis.SpecialFunctions.Trigonometric.Basic

/-!
# The noise scheduler (`privacy/adaptive.py`)

Arithmetic is that of the real numbers, and `none` is an exception: a division by zero, the logarithm
of a number that is not positive, or an index out of range. NumPy divides by zero without one; no
comparison holds of what comes out. The convergence threshold is not zero.
-/

namespace GossipRl

noncomputable section

/-- The values are those that `_setup_dp` leaves at their defaults. -/
structure NoiseScheduleConfig where
  totalSteps : Nat := 10000
  warmupSteps : Nat := 100
  minNoiseMult : ℝ := 1 / (10 : ℕ)
  maxNoiseMult : ℝ := (2 : ℕ)

/-- `get_noise_multiplier`, for the linear strategy. -/
def NoiseScheduleConfig.getNoiseMultiplier (step : Nat) (config : NoiseScheduleConfig) : ℝ :=
  if step < config.warmupSteps then config.maxNoiseMult
  else linspace config.maxNoiseMult config.minNoiseMult config.totalSteps
    (min step (config.totalSteps - 1))

inductive AllocationStrategy where
  | linear
  | exponential
  | cosine
  | adaptive
  /-- Any other string. -/
  | constant
deriving DecidableEq

/-- The whole of `NoiseScheduleConfig`. -/
structure ScheduleConfig extends NoiseScheduleConfig where
  totalEpsilon : ℝ := 1
  delta : ℝ := 1 / (100000 : ℕ)
  gradientWindow : Int := 100
  convergenceThreshold : ℝ := 1 / (10 : ℕ)
  allocationStrategy : AllocationStrategy := .linear

/-- The coefficient of variation, `none` if it is not a number. -/
def coefficientOfVariation (recent : List ℝ) : Option ℝ :=
  if recent = [] ∨ npMean recent + 1 / (10 : ℕ) ^ 8 = 0 then none
  else some (npStd recent / (npMean recent + 1 / (10 : ℕ) ^ 8))

namespace ScheduleConfig

def exponentialNoise (config : ScheduleConfig) (step : Nat) : ℝ :=
  let decayRate := Real.log (config.maxNoiseMult / config.minNoiseMult) / config.totalSteps
  npClip (config.maxNoiseMult * Real.exp (-decayRate * step)) config.minNoiseMult config.maxNoiseMult

def cosineNoise (config : ScheduleConfig) (step : Nat) : ℝ :=
  config.minNoiseMult + 1 / (2 : ℕ) * (config.maxNoiseMult - config.minNoiseMult) *
    (1 + Real.cos (Real.pi * step / config.totalSteps))

def precomputeSchedule (config : ScheduleConfig) : Option (List ℝ) :=
  match config.allocationStrategy with
  | .linear =>
    some ((List.range config.totalSteps).map
      (linspace config.maxNoiseMult config.minNoiseMult config.totalSteps))
  | .exponential =>
    if config.minNoiseMult = 0 ∨ config.maxNoiseMult / config.minNoiseMult ≤ 0 ∨
        config.totalSteps = 0 then none
    else some ((List.range config.totalSteps).map config.exponentialNoise)
  | .cosine => some ((List.range config.totalSteps).map config.cosineNoise)
  -- it is not called
  | .adaptive => some []
  | .constant => some (List.replicate config.totalSteps config.maxNoiseMult)

/-- `gradient_norms[-gradient_window:]` -/
def recent (config : ScheduleConfig) (gradientNorms : List ℝ) : List ℝ :=
  if 0 < config.gradientWindow then
    gradientNorms.drop (gradientNorms.length - config.gradientWindow).toNat
  else gradientNorms.drop (-config.gradientWindow).toNat

/-- The noise multiplier before the remaining budget is looked at. -/
def convergenceNoise (config : ScheduleConfig) (recent : List ℝ) : ℝ :=
  match coefficientOfVariation recent with
  | none => config.maxNoiseMult
  | some cv =>
    if cv < config.convergenceThreshold then
      config.minNoiseMult +
        cv / config.convergenceThreshold * (config.maxNoiseMult - config.minNoiseMult)
    else config.maxNoiseMult

def remainingBudgetRatio (config : ScheduleConfig) (step : Nat) : Option ℝ :=
  if config.totalSteps = 0 then none else some (max 0 (1 - step / config.totalSteps))

/-- `_adaptive_noise`, once the gradient norm has been appended. -/
def adaptiveNoise (config : ScheduleConfig) (step : Nat) (gradientNorms : List ℝ) : Option ℝ :=
  if gradientNorms.length < config.gradientWindow then some config.maxNoiseMult
  else
    (config.remainingBudgetRatio step).map fun budgetRatio : ℝ =>
      let noiseMult := config.convergenceNoise (config.recent gradientNorms)
      let noiseMult :=
        if budgetRatio < 1 / (2 : ℕ) then max noiseMult (config.maxNoiseMult * (1 - budgetRatio))
        else noiseMult
      npClip noiseMult config.minNoiseMult config.maxNoiseMult

end ScheduleConfig

structure AdaptiveNoiseScheduler where
  config : ScheduleConfig
  gradientNorms : List ℝ := []
  noiseHistory : List ℝ := []
  stepsCompleted : Nat := 0
  schedule : List ℝ

namespace AdaptiveNoiseScheduler

def init (config : ScheduleConfig) : Option AdaptiveNoiseScheduler :=
  config.precomputeSchedule.map fun schedule => { config := config, schedule := schedule }

/-- `_adaptive_noise` -/
def adaptiveNoise (step : Nat) (gradientNorm : Option ℝ) (s : AdaptiveNoiseScheduler) :
    Option (ℝ × AdaptiveNoiseScheduler) :=
  let s := { s with gradientNorms := s.gradientNorms ++ gradientNorm.toList }
  (s.config.adaptiveNoise step s.gradientNorms).map fun noiseMult => (noiseMult, s)

/-- `noise_mult`, after the warmup. -/
def chooseNoise (s : AdaptiveNoiseScheduler) (call : Nat × Option ℝ) :
    Option (ℝ × AdaptiveNoiseScheduler) :=
  match s.config.allocationStrategy with
  | .adaptive => s.adaptiveNoise call.1 call.2
  | _ => s.schedule[min call.1 (s.schedule.length - 1)]?.map fun noiseMult => (noiseMult, s)

/-- Track -/
def track (noiseMult : ℝ) (gradientNorm : Option ℝ) (s : AdaptiveNoiseScheduler) :
    AdaptiveNoiseScheduler :=
  { s with
    noiseHistory := s.noiseHistory ++ [noiseMult]
    gradientNorms := s.gradientNorms ++ gradientNorm.toList }

/-- A call of `get_noise_multiplier`, with the step and the gradient norm. -/
def getNoiseMultiplier (s : AdaptiveNoiseScheduler) (call : Nat × Option ℝ) :
    Option (ℝ × AdaptiveNoiseScheduler) :=
  let s := { s with stepsCompleted := call.1 }
  if call.1 < s.config.warmupSteps then some (s.config.maxNoiseMult, s)
  else
    (s.chooseNoise call).map fun (noiseMult, s) => (noiseMult, s.track noiseMult call.2)

end AdaptiveNoiseScheduler

end

end GossipRl
