import GossipRl.Privacy.Adaptive
import GossipRl.Support.Run

/-!
# The planned noise

`plannedNoise` is what `get_noise_multiplier` returns, and `getNoiseMultiplier_spec` says so: past the
warmup it depends on the step alone, unless the strategy is adaptive. Then it depends on the gradient
norms that were kept, each of them twice.
-/

namespace GossipRl
open Support

noncomputable section

/-- There is some noise, and a step to add it at. -/
structure ScheduleConfig.Valid (config : ScheduleConfig) : Prop where
  minNoiseMult_pos : 0 < config.minNoiseMult
  minNoiseMult_le : config.minNoiseMult ≤ config.maxNoiseMult
  totalSteps_pos : 0 < config.totalSteps

namespace ScheduleConfig
variable {config : ScheduleConfig} {step step' : Nat} {norms : List ℝ}

theorem Valid.maxNoiseMult_pos (h : config.Valid) : 0 < config.maxNoiseMult :=
  h.minNoiseMult_pos.trans_le h.minNoiseMult_le

/-- Between the least noise and the greatest. -/
def InRange (config : ScheduleConfig) (sigma : ℝ) : Prop :=
  config.minNoiseMult ≤ sigma ∧ sigma ≤ config.maxNoiseMult

theorem Valid.max_inRange (h : config.Valid) : config.InRange config.maxNoiseMult :=
  ⟨h.minNoiseMult_le, le_rfl⟩

theorem Valid.clip_inRange (h : config.Valid) (x : ℝ) :
    config.InRange (npClip x config.minNoiseMult config.maxNoiseMult) :=
  ⟨le_npClip h.minNoiseMult_le, npClip_le ..⟩

/-- The noise of a strategy that is not adaptive. -/
def scheduledNoise (config : ScheduleConfig) (step : Nat) : ℝ :=
  match config.allocationStrategy with
  | .linear => linspace config.maxNoiseMult config.minNoiseMult config.totalSteps step
  | .exponential => config.exponentialNoise step
  | .cosine => config.cosineNoise step
  | .adaptive | .constant => config.maxNoiseMult

theorem Valid.precomputeSchedule_eq (h : config.Valid) (hs : config.allocationStrategy ≠ .adaptive) :
    config.precomputeSchedule = some ((List.range config.totalSteps).map config.scheduledNoise) := by
  unfold precomputeSchedule scheduledNoise
  cases hc : config.allocationStrategy with
  | linear => rfl
  | exponential =>
    have hratio : 0 < config.maxNoiseMult / config.minNoiseMult :=
      div_pos h.maxNoiseMult_pos h.minNoiseMult_pos
    simp [h.minNoiseMult_pos.ne', h.totalSteps_pos.ne', not_le.2 hratio]
  | cosine => rfl
  | adaptive => exact absurd hc hs
  | constant => simp

theorem Valid.exponentialNoise_anti (h : config.Valid) (hle : step ≤ step') :
    config.exponentialNoise step' ≤ config.exponentialNoise step := by
  have hrate : 0 ≤ Real.log (config.maxNoiseMult / config.minNoiseMult) / config.totalSteps :=
    div_nonneg (Real.log_nonneg ((one_le_div h.minNoiseMult_pos).2 h.minNoiseMult_le))
      (Nat.cast_nonneg _)
  have hcast : (step : ℝ) ≤ step' := by exact_mod_cast hle
  refine npClip_mono _ _ (mul_le_mul_of_nonneg_left (Real.exp_le_exp.2 ?_) h.maxNoiseMult_pos.le)
  nlinarith

theorem Valid.cosineNoise_anti (h : config.Valid) (hle : step ≤ step')
    (hstep' : step' < config.totalSteps) : config.cosineNoise step' ≤ config.cosineNoise step := by
  have htotal : (0 : ℝ) < config.totalSteps := by exact_mod_cast h.totalSteps_pos
  have hangle : Real.pi * step / config.totalSteps ≤ Real.pi * step' / config.totalSteps := by
    have := Real.pi_pos
    gcongr
  have hpi : Real.pi * step' / config.totalSteps ≤ Real.pi := by
    rw [div_le_iff₀ htotal]
    have hcast : (step' : ℝ) ≤ config.totalSteps := by exact_mod_cast hstep'.le
    exact mul_le_mul_of_nonneg_left hcast Real.pi_pos.le
  have hcos := Real.cos_le_cos_of_nonneg_of_le_pi
    (div_nonneg (mul_nonneg Real.pi_pos.le (Nat.cast_nonneg step)) htotal.le) hpi hangle
  have hrange : 0 ≤ 1 / (2 : ℕ) * (config.maxNoiseMult - config.minNoiseMult) :=
    mul_nonneg (by positivity) (sub_nonneg.2 h.minNoiseMult_le)
  exact add_le_add_right (mul_le_mul_of_nonneg_left (add_le_add_right hcos 1) hrange) _

theorem Valid.cosineNoise_inRange (h : config.Valid) (step : Nat) :
    config.InRange (config.cosineNoise step) := by
  have hrange : 0 ≤ config.maxNoiseMult - config.minNoiseMult := sub_nonneg.2 h.minNoiseMult_le
  have hlow := Real.neg_one_le_cos (Real.pi * step / config.totalSteps)
  have hhigh := Real.cos_le_one (Real.pi * step / config.totalSteps)
  unfold InRange cosineNoise
  push_cast
  constructor <;> nlinarith

theorem Valid.scheduledNoise_anti (h : config.Valid) (hle : step ≤ step')
    (hstep' : step' < config.totalSteps) :
    config.scheduledNoise step' ≤ config.scheduledNoise step := by
  unfold scheduledNoise
  cases config.allocationStrategy with
  | linear => exact linspace_anti h.minNoiseMult_le hle hstep'
  | exponential => exact h.exponentialNoise_anti hle
  | cosine => exact h.cosineNoise_anti hle hstep'
  | adaptive => exact le_rfl
  | constant => exact le_rfl

theorem Valid.scheduledNoise_inRange (h : config.Valid) (hstep : step < config.totalSteps) :
    config.InRange (config.scheduledNoise step) := by
  unfold scheduledNoise
  cases config.allocationStrategy with
  | linear =>
    refine ⟨le_linspace h.minNoiseMult_le hstep, ?_⟩
    exact (linspace_anti h.minNoiseMult_le (Nat.zero_le _) hstep).trans (linspace_zero ..).le
  | exponential => exact h.clip_inRange _
  | cosine => exact h.cosineNoise_inRange step
  | adaptive => exact h.max_inRange
  | constant => exact h.max_inRange

theorem Valid.adaptiveNoise_eq (h : config.Valid) (step : Nat) (norms : List ℝ) :
    ∃ sigma, config.adaptiveNoise step norms = some sigma ∧ config.InRange sigma := by
  unfold adaptiveNoise
  split_ifs with hlength
  · exact ⟨_, rfl, h.max_inRange⟩
  · rw [remainingBudgetRatio, if_neg h.totalSteps_pos.ne', Option.map_some]
    exact ⟨_, rfl, h.clip_inRange _⟩

/-- What `get_noise_multiplier` returns at a step, with the gradient norms that are kept by then. -/
def plannedNoise (config : ScheduleConfig) (norms : List ℝ) (step : Nat) : ℝ :=
  if step < config.warmupSteps then config.maxNoiseMult
  else if config.allocationStrategy = .adaptive then
    (config.adaptiveNoise step norms).getD config.maxNoiseMult
  else config.scheduledNoise (min step (config.totalSteps - 1))

theorem plannedNoise_linear (hs : config.allocationStrategy = .linear) :
    config.plannedNoise norms step = config.toNoiseScheduleConfig.getNoiseMultiplier step := by
  simp [plannedNoise, NoiseScheduleConfig.getNoiseMultiplier, scheduledNoise, hs]

theorem Valid.plannedNoise_inRange (h : config.Valid) (norms : List ℝ) (step : Nat) :
    config.InRange (config.plannedNoise norms step) := by
  unfold plannedNoise
  split_ifs with hwarmup hs
  · exact h.max_inRange
  · obtain ⟨sigma, hsigma, hrange⟩ := h.adaptiveNoise_eq step norms
    rw [hsigma]
    exact hrange
  · have := h.totalSteps_pos
    exact h.scheduledNoise_inRange (by omega)

theorem Valid.plannedNoise_anti (h : config.Valid) (hs : config.allocationStrategy ≠ .adaptive)
    (hle : step ≤ step') (norms norms' : List ℝ) :
    config.plannedNoise norms' step' ≤ config.plannedNoise norms step := by
  have htotal := h.totalSteps_pos
  rcases Nat.lt_or_ge step config.warmupSteps with hwarmup | hwarmup
  · rw [plannedNoise.eq_def config norms step, if_pos hwarmup]
    exact (h.plannedNoise_inRange norms' step').2
  · unfold plannedNoise
    rw [if_neg (by omega : ¬ step' < _), if_neg hs, if_neg (by omega : ¬ step < _), if_neg hs]
    exact h.scheduledNoise_anti (by omega) (by omega)

end ScheduleConfig

namespace AdaptiveNoiseScheduler
variable {config : ScheduleConfig} {s s' : AdaptiveNoiseScheduler} {call : Nat × Option ℝ}
  {calls : List (Nat × Option ℝ)}

/-- The schedule is that of the configuration. -/
structure Ready (config : ScheduleConfig) (s : AdaptiveNoiseScheduler) : Prop where
  config_eq : s.config = config
  schedule : config.allocationStrategy ≠ .adaptive →
    s.schedule = (List.range config.totalSteps).map config.scheduledNoise

theorem init_eq (h : config.Valid) :
    ∃ s, init config = some s ∧ s.Ready config ∧ s.gradientNorms = [] := by
  by_cases hs : config.allocationStrategy = .adaptive
  · exact ⟨_, by rw [init, ScheduleConfig.precomputeSchedule, hs]; rfl, ⟨rfl, absurd hs⟩, rfl⟩
  · exact ⟨_, by rw [init, h.precomputeSchedule_eq hs, Option.map_some], ⟨rfl, fun _ => rfl⟩, rfl⟩

/-- What a call does to the gradient norms. -/
def keptNorms (s : AdaptiveNoiseScheduler) (call : Nat × Option ℝ) : List ℝ :=
  if call.1 < s.config.warmupSteps then s.gradientNorms
  -- `_adaptive_noise` appends the norm, and `get_noise_multiplier` does so again
  else if s.config.allocationStrategy = .adaptive then
    s.gradientNorms ++ call.2.toList ++ call.2.toList
  else s.gradientNorms ++ call.2.toList

theorem getNoiseMultiplier_spec (h : config.Valid) (hs : s.Ready config) (call : Nat × Option ℝ) :
    ∃ s', s.getNoiseMultiplier call =
        some (config.plannedNoise (s.gradientNorms ++ call.2.toList) call.1, s') ∧
      s'.Ready config ∧ s'.gradientNorms = s.keptNorms call := by
  obtain ⟨rfl, hschedule⟩ := hs
  unfold getNoiseMultiplier keptNorms ScheduleConfig.plannedNoise
  by_cases hwarmup : call.1 < s.config.warmupSteps
  · simp only [if_pos hwarmup]
    exact ⟨_, rfl, ⟨rfl, hschedule⟩, rfl⟩
  simp only [if_neg hwarmup]
  by_cases hadaptive : s.config.allocationStrategy = .adaptive
  · obtain ⟨sigma, hsigma, -⟩ := h.adaptiveNoise_eq call.1 (s.gradientNorms ++ call.2.toList)
    simp only [chooseNoise, hadaptive, adaptiveNoise, hsigma, Option.map_some,
      Option.getD_some]
    exact ⟨_, rfl, ⟨rfl, absurd hadaptive⟩, rfl⟩
  · have htotal := h.totalSteps_pos
    have hnoise : s.schedule[min call.1 (s.schedule.length - 1)]? =
        some (s.config.scheduledNoise (min call.1 (s.config.totalSteps - 1))) := by
      rw [hschedule hadaptive, List.length_map, List.length_range, List.getElem?_map,
        List.getElem?_range (by omega), Option.map_some]
    have hchoose : chooseNoise { s with stepsCompleted := call.1 } call =
        some (s.config.scheduledNoise (min call.1 (s.config.totalSteps - 1)),
          { s with stepsCompleted := call.1 }) := by
      unfold chooseNoise
      cases hc : s.config.allocationStrategy with
      | adaptive => exact absurd hc hadaptive
      | _ => simp only [hnoise, Option.map_some]
    rw [hchoose, if_neg hadaptive, if_neg hadaptive]
    exact ⟨_, rfl, ⟨rfl, hschedule⟩, rfl⟩

/-- A call, for what it leaves behind. -/
def next (s : AdaptiveNoiseScheduler) (call : Nat × Option ℝ) : Option AdaptiveNoiseScheduler :=
  (s.getNoiseMultiplier call).map Prod.snd

/-- The multipliers that the calls return. -/
def multipliers (s : AdaptiveNoiseScheduler) (calls : List (Nat × Option ℝ)) : List ℝ :=
  observe next (fun s call => (s.getNoiseMultiplier call).map Prod.fst) s calls

theorem multipliers_spec (h : config.Valid) (hs : s.Ready config) (calls : List (Nat × Option ℝ)) :
    ∃ s', run next s calls = some s' ∧ s'.Ready config ∧
      List.Forall₂ (fun call sigma => ∃ norms, sigma = config.plannedNoise norms call.1) calls
        (s.multipliers calls) := by
  induction calls generalizing s with
  | nil => exact ⟨s, rfl, hs, .nil⟩
  | cons call calls ih =>
    obtain ⟨s₁, hcall, hs₁, -⟩ := getNoiseMultiplier_spec h hs call
    obtain ⟨s', hrun, hs', hrest⟩ := ih hs₁
    have hnext : s.next call = some s₁ := by rw [next, hcall]; rfl
    refine ⟨s', by rw [run_cons, hnext]; exact hrun, hs', ?_⟩
    rw [multipliers, observe, hnext, hcall]
    exact .cons ⟨_, rfl⟩ hrest

end AdaptiveNoiseScheduler

open AdaptiveNoiseScheduler

/-- Whatever the calls, the noise stays in its range, and unless the strategy is adaptive it does not
go up from a step to a later one. -/
theorem noise_multiplier_range {config : ScheduleConfig} (h : config.Valid)
    (calls : List (Nat × Option ℝ)) :
    ∃ s₀ s, init config = some s₀ ∧ run next s₀ calls = some s ∧
      (s₀.multipliers calls).length = calls.length ∧
      (∀ sigma ∈ s₀.multipliers calls,
        config.minNoiseMult ≤ sigma ∧ sigma ≤ config.maxNoiseMult) ∧
      (config.allocationStrategy ≠ .adaptive →
        ∀ x ∈ calls.zip (s₀.multipliers calls), ∀ y ∈ calls.zip (s₀.multipliers calls),
          x.1.1 ≤ y.1.1 → y.2 ≤ x.2) := by
  obtain ⟨s₀, hinit, hs₀, -⟩ := init_eq h
  obtain ⟨s, hrun, -, hcalls⟩ := multipliers_spec h hs₀ calls
  have hplanned : ∀ x ∈ calls.zip (s₀.multipliers calls),
      ∃ norms, x.2 = config.plannedNoise norms x.1.1 := by
    rintro ⟨call, sigma⟩ hx
    exact (List.forall₂_iff_zip.1 hcalls).2 hx
  refine ⟨s₀, s, hinit, hrun, hcalls.length_eq.symm, fun sigma hsigma => ?_, ?_⟩
  · obtain ⟨i, hi, rfl⟩ := List.mem_iff_getElem.1 hsigma
    have hi' : i < calls.length := hcalls.length_eq ▸ hi
    obtain ⟨norms, heq⟩ := hplanned (calls[i], (s₀.multipliers calls)[i])
      (List.mem_iff_getElem.2 ⟨i, by simp [hi, hi'], by simp⟩)
    rw [show (s₀.multipliers calls)[i] = config.plannedNoise norms calls[i].1 from heq]
    exact h.plannedNoise_inRange norms calls[i].1
  · rintro hs x hx y hy hle
    obtain ⟨norms, hx⟩ := hplanned x hx
    obtain ⟨norms', hy⟩ := hplanned y hy
    rw [hx, hy]
    exact h.plannedNoise_anti hs hle norms norms'

section Example

theorem defaultSchedule_valid : ({} : ScheduleConfig).Valid :=
  ⟨by norm_num, by norm_num, by norm_num⟩

/-- In the warmup, and past the end. -/
def lateCalls : List (Nat × Option ℝ) := [(0, none), (20000, some 1)]

theorem default_noise_range :
    ∃ s₀ s, init {} = some s₀ ∧ run next s₀ lateCalls = some s ∧
      (s₀.multipliers lateCalls).length = lateCalls.length ∧
      (∀ sigma ∈ s₀.multipliers lateCalls,
        ({} : ScheduleConfig).minNoiseMult ≤ sigma ∧ sigma ≤ ({} : ScheduleConfig).maxNoiseMult) ∧
      (({} : ScheduleConfig).allocationStrategy ≠ .adaptive →
        ∀ x ∈ lateCalls.zip (s₀.multipliers lateCalls),
          ∀ y ∈ lateCalls.zip (s₀.multipliers lateCalls), x.1.1 ≤ y.1.1 → y.2 ≤ x.2) :=
  noise_multiplier_range defaultSchedule_valid lateCalls

end Example

end

end GossipRl
