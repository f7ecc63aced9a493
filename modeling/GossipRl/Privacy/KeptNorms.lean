import GossipRl.Privacy.Schedule
import Mathlib.Data.List.DropRight

/-!
# The gradient norms that are kept

`observations` are the norms that the calls pass once the warmup is over. What the scheduler keeps is
`run_gradientNorms`: each of them once, and twice under the adaptive strategy, which is the only one
that looks at them.
-/

namespace GossipRl
open Support

noncomputable section

namespace ScheduleConfig
variable {config : ScheduleConfig} {gradientNorms : List ℝ} {calls : List (Nat × Option ℝ)}
  {call : Nat × Option ℝ}

theorem recent_eq_rtake (h : 0 < config.gradientWindow) :
    config.recent gradientNorms = gradientNorms.rtake config.gradientWindow.toNat := by
  rw [recent, if_pos h, List.rtake]
  congr 1
  omega

/-- The gradient norms passed in calls at or after the warmup. -/
def observations (config : ScheduleConfig) (calls : List (Nat × Option ℝ)) : List ℝ :=
  (calls.filter fun call => config.warmupSteps ≤ call.1).filterMap Prod.snd

theorem observations_concat (config : ScheduleConfig) (calls : List (Nat × Option ℝ))
    (call : Nat × Option ℝ) : config.observations (calls ++ [call]) =
      config.observations calls ++
        if call.1 < config.warmupSteps then [] else call.2.toList := by
  rw [observations, List.filter_append, List.filterMap_append]
  congr 1
  split_ifs with hwarmup
  · rw [List.filter_singleton, decide_eq_false (by omega)]
    rfl
  · rw [List.filter_singleton, decide_eq_true (by omega), cond_true]
    exact filterMap_concat Prod.snd [] call

theorem observations_prefix {calls₁ : List (Nat × Option ℝ)} (h : calls₁ <+: calls) :
    config.observations calls₁ <+: config.observations calls :=
  (h.filter _).filterMap _

/-- How many times a norm is appended. -/
def copies (config : ScheduleConfig) : Nat :=
  if config.allocationStrategy = .adaptive then 2 else 1

end ScheduleConfig

namespace AdaptiveNoiseScheduler
variable {config : ScheduleConfig} {s₀ s s' : AdaptiveNoiseScheduler} {call : Nat × Option ℝ}
  {calls : List (Nat × Option ℝ)}

theorem init_spec (h : init config = some s₀) : s₀.config = config ∧ s₀.gradientNorms = [] := by
  rw [init, Option.map_eq_some_iff] at h
  obtain ⟨schedule, -, rfl⟩ := h
  exact ⟨rfl, rfl⟩

theorem chooseNoise_spec {sigma : ℝ} (h : s.chooseNoise call = some (sigma, s')) :
    s'.config = s.config ∧ s'.gradientNorms = s.gradientNorms ++
      if s.config.allocationStrategy = .adaptive then call.2.toList else [] := by
  unfold chooseNoise at h
  split at h
  case h_1 hadaptive =>
    rw [adaptiveNoise, Option.map_eq_some_iff] at h
    obtain ⟨_, -, heq⟩ := h
    obtain ⟨-, rfl⟩ := Prod.mk.inj heq
    exact ⟨rfl, by rw [if_pos hadaptive]⟩
  case h_2 hadaptive =>
    rw [Option.map_eq_some_iff] at h
    obtain ⟨_, -, heq⟩ := h
    obtain ⟨-, rfl⟩ := Prod.mk.inj heq
    exact ⟨rfl, by rw [if_neg hadaptive, List.append_nil]⟩

theorem next_spec (h : s.next call = some s') :
    s'.config = s.config ∧ s'.gradientNorms = s.keptNorms call := by
  rw [next, Option.map_eq_some_iff] at h
  obtain ⟨⟨sigma, s₁⟩, hcall, rfl⟩ := h
  unfold getNoiseMultiplier at hcall
  unfold keptNorms
  by_cases hwarmup : call.1 < s.config.warmupSteps
  · rw [if_pos hwarmup] at hcall ⊢
    obtain ⟨-, rfl⟩ := Prod.mk.inj (Option.some.inj hcall)
    exact ⟨rfl, rfl⟩
  rw [if_neg hwarmup, Option.map_eq_some_iff] at hcall
  obtain ⟨⟨sigma', s₂⟩, hchoose, heq⟩ := hcall
  obtain ⟨-, rfl⟩ := Prod.mk.inj heq
  obtain ⟨hconfig, hnorms⟩ := chooseNoise_spec hchoose
  refine ⟨hconfig, ?_⟩
  rw [if_neg hwarmup, track, hnorms]
  dsimp only
  split_ifs
  · rfl
  · rw [List.append_nil]

theorem run_gradientNorms (hinit : init config = some s₀) (hrun : run next s₀ calls = some s) :
    s.config = config ∧
      s.gradientNorms = (config.observations calls).flatMap (List.replicate config.copies) := by
  obtain ⟨hconfig₀, hnorms₀⟩ := init_spec hinit
  refine run_induction (motive := fun calls s => s.config = config ∧
    s.gradientNorms = (config.observations calls).flatMap (List.replicate config.copies))
    ⟨hconfig₀, hnorms₀⟩ ?_ .unconditional hrun
  rintro calls s call s' - ⟨rfl, hnorms⟩ - hnext
  obtain ⟨hconfig, hkept⟩ := next_spec hnext
  refine ⟨hconfig, ?_⟩
  rw [hkept, keptNorms, ScheduleConfig.observations_concat, List.flatMap_append, ← hnorms,
    ScheduleConfig.copies]
  split_ifs <;> cases call.2 <;> simp

/-- The norms kept are the observations, and the convergence test of the next call looks at the last
of them. -/
structure KeepsObservations (config : ScheduleConfig) (calls : List (Nat × Option ℝ))
    (s : AdaptiveNoiseScheduler) : Prop where
  gradientNorms : s.gradientNorms = config.observations calls
  window : ∀ call, config.warmupSteps ≤ call.1 → 0 < config.gradientWindow →
    config.recent (s.gradientNorms ++ call.2.toList) =
      (config.observations (calls ++ [call])).rtake config.gradientWindow.toNat

theorem keepsObservations_iff (hinit : init config = some s₀) (hrun : run next s₀ calls = some s) :
    KeepsObservations config calls s ↔
      (config.allocationStrategy = .adaptive → config.observations calls = []) := by
  obtain ⟨-, hnorms⟩ := run_gradientNorms hinit hrun
  constructor
  · intro h hadaptive
    have hlength := congrArg List.length (hnorms.symm.trans h.gradientNorms)
    rw [ScheduleConfig.copies, if_pos hadaptive, List.length_flatMap] at hlength
    simp only [List.length_replicate, List.map_const', List.sum_replicate, smul_eq_mul] at hlength
    exact List.length_eq_zero_iff.1 (by omega)
  · intro h
    have hkept : s.gradientNorms = config.observations calls := by
      rw [hnorms, ScheduleConfig.copies]
      split_ifs with hadaptive
      · rw [h hadaptive]; rfl
      · exact List.flatMap_singleton' _
    refine ⟨hkept, fun call hwarmup hwindow => ?_⟩
    rw [ScheduleConfig.recent_eq_rtake hwindow, hkept, ScheduleConfig.observations_concat,
      if_neg (by omega)]

end AdaptiveNoiseScheduler

open AdaptiveNoiseScheduler

/-- Each observation is kept once, all along the run, unless the strategy is adaptive and there is
one. -/
theorem norms_kept_once_iff {config : ScheduleConfig} {s₀ s : AdaptiveNoiseScheduler}
    {calls : List (Nat × Option ℝ)} (hinit : init config = some s₀)
    (hrun : run next s₀ calls = some s) :
    (∀ calls₁ s₁, calls₁ <+: calls → run next s₀ calls₁ = some s₁ →
        KeepsObservations config calls₁ s₁) ↔
      config.allocationStrategy ≠ .adaptive ∨
        ∀ call ∈ calls, config.warmupSteps ≤ call.1 → call.2 = none := by
  have hcond : (config.allocationStrategy = .adaptive → config.observations calls = []) ↔
      config.allocationStrategy ≠ .adaptive ∨
        ∀ call ∈ calls, config.warmupSteps ≤ call.1 → call.2 = none := by
    rw [imp_iff_not_or, ScheduleConfig.observations, List.filterMap_eq_nil_iff]
    simp only [List.mem_filter, decide_eq_true_eq, and_imp]
  rw [← hcond]
  constructor
  · intro h
    exact (keepsObservations_iff hinit hrun).1 (h calls s List.prefix_rfl hrun)
  · intro h calls₁ s₁ hprefix hrun₁
    refine (keepsObservations_iff hinit hrun₁).2 fun hadaptive => ?_
    exact List.prefix_nil.1 (h hadaptive ▸ ScheduleConfig.observations_prefix hprefix)

section Example

def adaptiveSchedule : ScheduleConfig := { allocationStrategy := .adaptive }

theorem adaptiveSchedule_valid : adaptiveSchedule.Valid :=
  ⟨defaultSchedule_valid.1, defaultSchedule_valid.2, defaultSchedule_valid.3⟩

theorem adaptive_norms_kept : ∃ s₀ s, init adaptiveSchedule = some s₀ ∧
    run next s₀ lateCalls = some s ∧
    ((∀ calls₁ s₁, calls₁ <+: lateCalls → run next s₀ calls₁ = some s₁ →
        KeepsObservations adaptiveSchedule calls₁ s₁) ↔
      adaptiveSchedule.allocationStrategy ≠ .adaptive ∨
        ∀ call ∈ lateCalls, adaptiveSchedule.warmupSteps ≤ call.1 → call.2 = none) := by
  obtain ⟨s₀, hinit, hs₀, -⟩ := init_eq adaptiveSchedule_valid
  obtain ⟨s, hrun, -⟩ := multipliers_spec adaptiveSchedule_valid hs₀ lateCalls
  exact ⟨s₀, s, hinit, hrun, norms_kept_once_iff hinit hrun⟩

/-- The first call after the warmup, with a norm. -/
theorem adaptive_norm_kept_twice : ∃ s₀ s, init adaptiveSchedule = some s₀ ∧
    run next s₀ [(100, some 1)] = some s ∧ s.gradientNorms = [1, 1] ∧
    ¬ KeepsObservations adaptiveSchedule [(100, some 1)] s := by
  obtain ⟨s₀, hinit, hs₀, -⟩ := init_eq adaptiveSchedule_valid
  obtain ⟨s, hrun, -⟩ := multipliers_spec adaptiveSchedule_valid hs₀ [(100, some 1)]
  obtain ⟨-, hnorms⟩ := run_gradientNorms hinit hrun
  have hone : adaptiveSchedule.observations [(100, some 1)] = [1] := rfl
  have hcopies : adaptiveSchedule.copies = 2 := rfl
  rw [hone, hcopies] at hnorms
  refine ⟨s₀, s, hinit, hrun, hnorms, fun h => ?_⟩
  have hlength := congrArg List.length (hnorms.symm.trans h.gradientNorms)
  rw [hone] at hlength
  simp at hlength

end Example

end

end GossipRl
