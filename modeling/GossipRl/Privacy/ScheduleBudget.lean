import GossipRl.Privacy.AccountantRun
import GossipRl.Privacy.Schedule

/-!
# The budget of a schedule

`total_epsilon` stands in the configuration of the scheduler, and nothing reads it. Recording all
the steps of a schedule keeps to it only if it happens to be as great as what they cost: the product
of the moments of the planned noise (`plannedMoment`) has to be in a window that `delta` and
`total_epsilon` set.
-/

namespace GossipRl
open Support

noncomputable section

namespace AdaptiveNoiseScheduler

/-- At a step, ask for its noise, and record it. -/
def recordStep (norms : Nat → Option ℝ) (q : ℝ) (s : AdaptiveNoiseScheduler × RDPAccountant)
    (step : Nat) : Option (AdaptiveNoiseScheduler × RDPAccountant) :=
  (s.1.getNoiseMultiplier (step, norms step)).bind fun (noiseMult, scheduler) =>
    (s.2.step (noiseMult, q)).map fun accountant => (scheduler, accountant)

end AdaptiveNoiseScheduler

namespace ScheduleConfig
open RDPAccountant

/-- The gradient norms that are kept of the steps before `step`: where the strategy is adaptive,
each of them twice. -/
def normsBefore (config : ScheduleConfig) (norms : Nat → Option ℝ) (step : Nat) : List ℝ :=
  (List.range step).flatMap fun i =>
    if i < config.warmupSteps then []
    else if config.allocationStrategy = .adaptive then (norms i).toList ++ (norms i).toList
    else (norms i).toList

/-- What is recorded at a step. -/
def plannedCall (config : ScheduleConfig) (norms : Nat → Option ℝ) (q : ℝ) (step : Nat) : ℝ × ℝ :=
  (config.plannedNoise (config.normsBefore norms step ++ (norms step).toList) step, q)

def plannedCalls (config : ScheduleConfig) (norms : Nat → Option ℝ) (q : ℝ) (steps : Nat) :
    List (ℝ × ℝ) :=
  (List.range steps).map (config.plannedCall norms q)

/-- The moment of order `alpha` of a step with noise `sigma`. -/
def moment (sigma q alpha : ℝ) : ℝ :=
  if q = 1 then Real.exp (alpha * (alpha - 1) / ((2 : ℕ) * sigma ^ 2)) else truncatedSum sigma q alpha

/-- That of the whole schedule. -/
def plannedMoment (config : ScheduleConfig) (norms : Nat → Option ℝ) (q alpha : ℝ) : ℝ :=
  ((List.range config.totalSteps).map fun step =>
    moment (config.plannedCall norms q step).1 q alpha).prod

/-- At some order above 1 the moment of the schedule is above `alpha * delta`, by no more than a
factor of `exp((alpha - 1) * total_epsilon)`. -/
def Affordable (config : ScheduleConfig) (orders : List ℝ) (norms : Nat → Option ℝ) (q : ℝ) : Prop :=
  ∃ alpha ∈ orders, 1 < alpha ∧ alpha * config.delta < config.plannedMoment norms q alpha ∧
    config.plannedMoment norms q alpha ≤
      alpha * config.delta * Real.exp ((alpha - 1) * config.totalEpsilon)

variable {config : ScheduleConfig} {norms : Nat → Option ℝ} {q : ℝ} {step : Nat}

theorem normsBefore_succ : config.normsBefore norms (step + 1) = config.normsBefore norms step ++
    if step < config.warmupSteps then []
    else if config.allocationStrategy = .adaptive then (norms step).toList ++ (norms step).toList
    else (norms step).toList := by
  simp [normsBefore, List.range_succ]

theorem plannedCalls_succ : config.plannedCalls norms q (step + 1) =
    config.plannedCalls norms q step ++ [config.plannedCall norms q step] := by
  simp [plannedCalls, List.range_succ]

theorem Valid.plannedCall_valid (h : config.Valid) (hq : 0 < q) (hq' : q ≤ 1)
    (norms : Nat → Option ℝ) (step : Nat) :
    ValidCall (config.plannedCall norms q step) :=
  ⟨h.minNoiseMult_pos.trans_le (h.plannedNoise_inRange _ step).1, hq, hq'⟩

theorem plannedMoment_eq (hq : 0 < q) (hq' : q ≤ 1)
    (norms : Nat → Option ℝ) {alpha : ℝ} (halpha : 1 < alpha) :
    config.plannedMoment norms q alpha =
      Real.exp ((alpha - 1) * totalCost (config.plannedCalls norms q config.totalSteps) alpha) := by
  have hsub : alpha - 1 ≠ 0 := (sub_pos.2 halpha).ne'
  have hmoment : ∀ step, moment (config.plannedCall norms q step).1 q alpha =
      Real.exp ((alpha - 1) * stepCost (config.plannedCall norms q step) alpha) := by
    intro step
    rw [moment, stepCost]
    by_cases hone : q = 1
    · rw [if_pos hone, if_pos (by exact hone), mul_div_assoc', mul_comm alpha]
    · rw [if_neg hone, if_neg (by exact hone), if_neg (not_le.2 halpha), mul_div_cancel₀ _ hsub,
        Real.exp_log]
      · rfl
      · exact truncatedSum_pos hq (lt_of_le_of_ne hq' hone) (by linarith)
  rw [plannedMoment, totalCost, plannedCalls, List.map_map, ← List.sum_map_mul_left, Real.exp_list_sum,
    List.map_map]
  exact congrArg List.prod (List.map_congr_left fun step _ => hmoment step)

theorem affordable_iff (hq : 0 < q) (hq' : q ≤ 1) (orders : List ℝ)
    (norms : Nat → Option ℝ) : config.Affordable orders norms q ↔
      0 < config.delta ∧ ∃ order ∈ orders, 1 < order ∧
        0 < valueAfter config.delta (config.plannedCalls norms q config.totalSteps) order ∧
        valueAfter config.delta (config.plannedCalls norms q config.totalSteps) order ≤
          config.totalEpsilon := by
  have hwindow : ∀ alpha, 1 < alpha → 0 < config.delta →
      (alpha * config.delta < config.plannedMoment norms q alpha ∧
        config.plannedMoment norms q alpha ≤
          alpha * config.delta * Real.exp ((alpha - 1) * config.totalEpsilon) ↔
      0 < valueAfter config.delta (config.plannedCalls norms q config.totalSteps) alpha ∧
        valueAfter config.delta (config.plannedCalls norms q config.totalSteps) alpha ≤
          config.totalEpsilon) := by
    intro alpha halpha hdelta
    rw [plannedMoment_eq hq hq' norms halpha, ← valueAfter_pos_iff hdelta halpha,
      ← valueAfter_le_iff hdelta halpha]
  constructor
  · rintro ⟨alpha, hmem, halpha, hlow, hhigh⟩
    have hmoment := Real.exp_pos ((alpha - 1) * totalCost (config.plannedCalls norms q config.totalSteps) alpha)
    rw [← plannedMoment_eq hq hq' norms halpha] at hmoment
    have hpos : 0 < alpha * config.delta :=
      pos_of_mul_pos_left (hmoment.trans_le hhigh) (Real.exp_pos _).le
    have hdelta : 0 < config.delta := pos_of_mul_pos_right hpos (by linarith)
    exact ⟨hdelta, alpha, hmem, halpha, (hwindow alpha halpha hdelta).1 ⟨hlow, hhigh⟩⟩
  · rintro ⟨hdelta, alpha, hmem, halpha, hvalue⟩
    exact ⟨alpha, hmem, halpha, (hwindow alpha halpha hdelta).2 hvalue⟩

/-- Without sampling a schedule costs at least what it would with the greatest noise throughout. -/
theorem Valid.le_totalCost (h : config.Valid) (norms : Nat → Option ℝ) {order : ℝ}
    (horder : 0 ≤ order) (steps : Nat) :
    steps * (order / (2 * config.maxNoiseMult ^ 2)) ≤
      totalCost (config.plannedCalls norms 1 steps) order := by
  induction steps with
  | zero => simp [plannedCalls, totalCost]
  | succ steps ih =>
    obtain ⟨hlow, hhigh⟩ := h.plannedNoise_inRange
      (config.normsBefore norms steps ++ (norms steps).toList) steps
    have hpos := h.minNoiseMult_pos.trans_le hlow
    have hcost : order / (2 * config.maxNoiseMult ^ 2) ≤
        stepCost (config.plannedCall norms 1 steps) order := by
      rw [stepCost, if_pos (by rfl)]
      refine div_le_div_of_nonneg_left horder (mul_pos (by norm_num) (pow_pos hpos 2)) ?_
      exact mul_le_mul_of_nonneg_left (pow_le_pow_left₀ hpos.le hhigh 2) (by norm_num)
    rw [plannedCalls_succ, totalCost_concat]
    push_cast
    linarith

theorem Valid.not_affordable (h : config.Valid) (norms : Nat → Option ℝ) {orders : List ℝ}
    (horders : ∀ order ∈ orders, 1 < order ∧ config.delta * order < 1)
    (hcost : ∀ order ∈ orders,
      config.totalEpsilon < config.totalSteps * (order / (2 * config.maxNoiseMult ^ 2))) :
    ¬ config.Affordable orders norms 1 := by
  rw [affordable_iff one_pos le_rfl]
  rintro ⟨hdelta, order, horder, hone, -, hvalue⟩
  have hlow := h.le_totalCost norms (by linarith : 0 ≤ order) config.totalSteps
  have hlt := lt_valueAfter hdelta hone (horders order horder).2
    (config.plannedCalls norms 1 config.totalSteps)
  have := hcost order horder
  exact absurd (hlow.trans_lt hlt) (not_lt.2 (hvalue.trans this.le))

end ScheduleConfig

namespace AdaptiveNoiseScheduler
open RDPAccountant
variable {config : ScheduleConfig} {q : ℝ} {s₀ : AdaptiveNoiseScheduler}

/-- The scheduler has the norms of the steps so far, and the accountant has recorded what was
planned for them. -/
theorem recordSteps_spec (h : config.Valid) (hq : 0 < q) (hq' : q ≤ 1) (hs₀ : s₀.Ready config)
    (hnorms : s₀.gradientNorms = []) (orders : List ℝ) (norms : Nat → Option ℝ) (steps : Nat) :
    ∃ s a, run (recordStep norms q) (s₀, .init orders) (List.range steps) = some (s, a) ∧
      s.Ready config ∧ s.gradientNorms = config.normsBefore norms steps ∧
      run RDPAccountant.step (.init orders) (config.plannedCalls norms q steps) = some a := by
  induction steps with
  | zero => exact ⟨s₀, .init orders, rfl, hs₀, hnorms, rfl⟩
  | succ steps ih =>
    obtain ⟨s, a, hrun, hs, hkept, hplanned⟩ := ih
    obtain ⟨s', hcall, hs', hkept'⟩ := getNoiseMultiplier_spec h hs (steps, norms steps)
    rw [hkept] at hcall
    obtain ⟨a', hstep, -⟩ := step_spec (h.plannedCall_valid hq hq' norms steps) a
    refine ⟨s', a', ?_, hs', ?_, ?_⟩
    · rw [List.range_succ, run_concat, hrun, Option.bind_some]
      show ((s.getNoiseMultiplier (steps, norms steps)).bind _) = _
      rw [hcall, Option.bind_some]
      show (a.step (config.plannedCall norms q steps)).map _ = _
      rw [hstep, Option.map_some]
    · rw [hkept', keptNorms, hs.config_eq, ScheduleConfig.normsBefore_succ, hkept]
      split_ifs <;> simp
    · rw [ScheduleConfig.plannedCalls_succ]
      exact run_concat_eq_some.2 ⟨a, hplanned, hstep⟩

end AdaptiveNoiseScheduler

open AdaptiveNoiseScheduler RDPAccountant

section Example

/-- One step with noise 1, and a budget of 10. -/
def oneStep : ScheduleConfig where
  totalSteps := 1
  minNoiseMult := 1
  maxNoiseMult := 1
  totalEpsilon := (10 : ℕ)
  delta := 1 / (1000 : ℕ)

theorem oneStep_affordable : oneStep.Affordable [2] (fun _ => none) 1 := by
  have hvalid : oneStep.Valid := ⟨one_pos, le_rfl, one_pos⟩
  have hrange := hvalid.plannedNoise_inRange
    (oneStep.normsBefore (fun _ => none) 0 ++ (none : Option ℝ).toList) 0
  have hnoise : (oneStep.plannedCall (fun _ => none) 1 0).1 = 1 := le_antisymm hrange.2 hrange.1
  have hmoment : oneStep.plannedMoment (fun _ => none) 1 2 = Real.exp 1 := by
    show ((List.range 1).map _).prod = _
    rw [List.range_one, List.map_singleton, List.prod_singleton, hnoise, ScheduleConfig.moment, if_pos rfl]
    norm_num
  have hexp : (2 : ℝ) ≤ Real.exp 1 := by
    have := Real.add_one_le_exp (1 : ℝ)
    linarith
  have hten : Real.exp ((2 - 1) * 10) = Real.exp 1 * Real.exp 1 ^ 9 := by
    rw [← pow_succ', ← Real.exp_nat_mul]
    norm_num
  have hpow : (2 : ℝ) ^ 9 ≤ Real.exp 1 ^ 9 := pow_le_pow_left₀ two_pos.le hexp 9
  refine ⟨2, by simp, one_lt_two, ?_, ?_⟩
  · rw [hmoment]
    show 2 * (1 / 1000) < Real.exp 1
    linarith
  · rw [hmoment]
    show Real.exp 1 ≤ 2 * (1 / 1000) * Real.exp ((2 - 1) * 10)
    rw [hten]
    nlinarith

end Example

end

end GossipRl
