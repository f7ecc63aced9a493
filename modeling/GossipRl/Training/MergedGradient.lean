import GossipRl.Training.Ppo
import Mathlib.Algebra.Field.Rat
import Mathlib.Algebra.Order.Ring.Rat
import Mathlib.Tactic.NormNum

/-!
# The merged gradient

`apply_aggregated_gradients` writes the merged gradient to the parameters' gradients, and the next
thing that is done with these is the `zero_grad` of the next `train_step`. So training cannot tell
whether gradients were merged (`cleared` is what it can tell), and the parameters come out as if the
optimizer had first taken a step with the merged gradient only if that step changes nothing. The
optimizer is one whose update depends on the parameters and their gradients alone (`statelessly`).
-/

namespace GossipRl
open Support

namespace DistributedPPO
variable {K : Type*}

/-- What `train_step` can tell of the trainer. -/
def cleared (t : DistributedPPO K) : DistributedPPO K :=
  { t with
    params := zeroGrad t.params
    modelVersion := 0
    localGradients := none
    aggregatedGradients := none }

@[simp] theorem cleared_cleared (t : DistributedPPO K) : t.cleared.cleared = t.cleared := by
  simp [cleared]

@[simp] theorem parameters_cleared (t : DistributedPPO K) : t.cleared.parameters = t.parameters :=
  map_data_zeroGrad t.params

theorem parameters_eq_of_cleared {o o' : Option (DistributedPPO K)}
    (h : o.map cleared = o'.map cleared) : o.map parameters = o'.map parameters := by
  have hmap : ∀ o : Option (DistributedPPO K), o.map parameters = (o.map cleared).map parameters := by
    intro o
    simp [Function.comp_def]
  rw [hmap o, hmap o', h]

theorem cleared_applyAggregatedGradients [Field K] (gradients : List K) (t : DistributedPPO K) :
    (t.applyAggregatedGradients gradients).1.cleared = t.cleared := by
  unfold applyAggregatedGradients
  dsimp only
  repeat' split
  all_goals simp [cleared]

/-- An update with `gradient`. -/
def updatedWith (torch : Torch K) (gradient : List K) (t : DistributedPPO K) : DistributedPPO K :=
  { t with params := (setGradientVector gradient t.params).1 }.applyStep torch

theorem cleared_updatedWith {torch : Torch K} {gradient : List K} {t : DistributedPPO K}
    (h : (t.updatedWith torch gradient).parameters = t.parameters)
    (hoptimizer : (t.updatedWith torch gradient).optimizer = t.optimizer) :
    (t.updatedWith torch gradient).cleared = t.cleared := by
  have hparams : zeroGrad (t.updatedWith torch gradient).params = zeroGrad t.params :=
    zeroGrad_eq_iff.2 h
  simp only [cleared, hparams, hoptimizer]
  rfl

variable [Field K] [LinearOrder K] {torch : Torch K} {backward : Backward K}
  {start : List (NdArray K)} {noise : Nat → List K} {perms : List (List Nat)}
  {t : DistributedPPO K}

theorem backwardPass_cleared (indices : List Nat) (t : DistributedPPO K) :
    t.cleared.backwardPass torch backward start indices =
      t.backwardPass torch backward start indices := by
  have hparams : zeroGrad t.cleared.params = zeroGrad t.params := zeroGrad_zeroGrad t.params
  simp only [backwardPass, parameters_cleared, hparams]
  rfl

theorem trainBatch_cleared (t : DistributedPPO K) (batch : List Nat × Nat) :
    (t.trainBatch torch backward start noise batch).map cleared =
      (t.cleared.trainBatch torch backward start noise batch).map cleared := by
  simp only [trainBatch, backwardPass_cleared, extractGradients, applyDpNoise]
  cases hdp : t.dpMechanism with
  | none => simp [cleared, applyStep, hdp]
  | some dp =>
    by_cases hset : (setGradientVector (dp.privatize torch.norm (noise batch.2)
        (getGradientVector (t.backwardPass torch backward start batch.1)))
        (t.backwardPass torch backward start batch.1)).2 = true
    · simp [cleared, applyStep, hdp, hset]
    · simp [cleared, hdp, hset]

theorem trainStep_cleared (t : DistributedPPO K) :
    (t.trainStep torch backward perms noise).map cleared =
      (t.cleared.trainStep torch backward perms noise).map cleared := by
  by_cases h : t.buffer.observations.length = 0 ∨ t.config.batchSize = 0 ∨ t.config.nEpochs = 0
  · have h' : t.cleared.buffer.observations.length = 0 ∨ t.cleared.config.batchSize = 0 ∨
        t.cleared.config.nEpochs = 0 := h
    rw [trainStep, if_pos h, trainStep, if_pos h']
  · have h' : ¬ (t.cleared.buffer.observations.length = 0 ∨ t.cleared.config.batchSize = 0 ∨
        t.cleared.config.nEpochs = 0) := h
    have hcleared : ∀ o : Option (DistributedPPO K),
        (o.map fun t => { t with step := t.step + 1 }).map cleared =
          (o.map cleared).map fun t => { t with step := t.step + 1 } := by
      intro o
      simp [Function.comp_def, cleared]
    rw [trainStep, if_neg h, trainStep, if_neg h', parameters_cleared]
    dsimp only
    rw [hcleared, hcleared]
    exact congrArg _ (map_run cleared_cleared trainBatch_cleared t _)

theorem trainStep_parameters_eq {t t' : DistributedPPO K} (h : t.cleared = t'.cleared) :
    (t.trainStep torch backward perms noise).map parameters =
      (t'.trainStep torch backward perms noise).map parameters :=
  parameters_eq_of_cleared (by rw [trainStep_cleared, h, ← trainStep_cleared])

/-- Whatever the loss, the rollout, the shuffles and the noise, `train_step` after
`apply_aggregated_gradients` leaves the parameters as if the optimizer had taken a step with the
merged gradient in between. -/
def PeersReachPolicy (torch : Torch K) (gradients : List K) (t : DistributedPPO K) : Prop :=
  ∀ own, t.localGradients = some own → gradients.length = own.length →
    ∀ backward rollout perms noise, (t.withRollout rollout).Shuffles perms →
      (((t.applyAggregatedGradients gradients).1.withRollout rollout).trainStep torch backward perms
        noise).map parameters =
      (((t.updatedWith torch (merged own gradients)).withRollout rollout).trainStep torch backward
        perms noise).map parameters

end DistributedPPO

/-- With an optimizer that keeps no state. -/
def Torch.statelessly {K : Type*} (step : List (Param K) → Nat → NdArray K) (torch : Torch K) :
    Torch K :=
  { torch with optimizerStep := fun optimizer params => (step params, optimizer) }

/-- The update passes over parameters without a gradient. -/
def SkipsUnset {K : Type*} (step : List (Param K) → Nat → NdArray K) : Prop :=
  ∀ params : List (Param K), (∀ p ∈ params, p.grad = none) →
    ∀ i (h : i < params.length), step params i = params[i].data

theorem SkipsUnset.applyStep_zeroGrad {K : Type*} {step : List (Param K) → Nat → NdArray K}
    (h : SkipsUnset step) (torch : Torch K) {t : DistributedPPO K}
    (ht : zeroGrad t.params = t.params) : t.applyStep (torch.statelessly step) = t := by
  have hparams : (t.params.mapIdx fun i p => { p with data := step t.params i }) = t.params := by
    refine List.ext_getElem (by simp) ?_
    intro i h₁ h₂
    have hgrad : ∀ p ∈ t.params, p.grad = none := by
      rw [← ht]
      simp [zeroGrad]
    have hdata := h t.params hgrad i h₂
    simp [hdata]
  simp only [DistributedPPO.applyStep, Torch.statelessly, hparams]

namespace DistributedPPO
variable {K : Type*} [Field K] [LinearOrder K] {torch : Torch K} {t : DistributedPPO K}
  {step : List (Param K) → Nat → NdArray K} {start : List (NdArray K)} {noise : Nat → List K}
  {perms : List (List Nat)} {own gradients : List K}

theorem backwardPass_no_gradient (indices : List Nat) :
    t.backwardPass torch (fun _ _ _ _ _ => none) start indices = zeroGrad t.params := by
  have hacc : accumulate (fun _ => none) (zeroGrad t.params) = zeroGrad t.params :=
    List.ext_getElem (by simp [accumulate]) fun i h₁ h₂ => by simp [accumulate]
  simp only [backwardPass, hacc]
  split
  · simp [Torch.clipGradNorm, zeroGrad]
  · rfl

theorem trainBatch_no_gradient (h : SkipsUnset step) (batch : List Nat × Nat) :
    t.trainBatch (torch.statelessly step) (fun _ _ _ _ _ => none) start noise batch =
      some { t with params := zeroGrad t.params, localGradients := some [] } := by
  have hprivatize : ∀ dp : DPParams K, 
      dp.privatize (torch.statelessly step).norm (noise batch.2) [] = [] := by
    intro dp
    simp [DPParams.privatize, DPParams.addNoise, DPParams.clipGradients]
  cases hdp : t.dpMechanism with
  | none => simp [trainBatch, backwardPass_no_gradient, extractGradients, applyDpNoise, hdp,
      h.applyStep_zeroGrad]
  | some dp => simp [trainBatch, backwardPass_no_gradient, extractGradients, applyDpNoise, hdp,
      h.applyStep_zeroGrad, hprivatize, setGradientVector_zeroGrad]

theorem run_no_gradient (h : SkipsUnset step) (batches : List (List Nat × Nat))
    (t : DistributedPPO K) :
    (run (trainBatch (torch.statelessly step) (fun _ _ _ _ _ => none) start noise) t batches).map
      parameters = some t.parameters := by
  induction batches generalizing t with
  | nil => rfl
  | cons batch batches ih =>
    rw [run_cons, trainBatch_no_gradient h, Option.bind_some, ih]
    exact congrArg some (map_data_zeroGrad t.params)

theorem trainStep_no_gradient (h : SkipsUnset step) (hbuffer : t.buffer.observations.length ≠ 0)
    (hbatch : 0 < t.config.batchSize) (hepochs : 0 < t.config.nEpochs) :
    (t.trainStep (torch.statelessly step) (fun _ _ _ _ _ => none) perms noise).map parameters =
      some t.parameters := by
  have hok : ¬ (t.buffer.observations.length = 0 ∨ t.config.batchSize = 0 ∨
      t.config.nEpochs = 0) := by omega
  rw [trainStep, if_neg hok, Option.map_map]
  exact run_no_gradient h _ t

theorem parameters_updatedWith_of_peersReachPolicy
    (h : t.PeersReachPolicy (torch.statelessly step) gradients) (hskip : SkipsUnset step)
    (hepochs : 0 < t.config.nEpochs) (hbatch : 0 < t.config.batchSize)
    (hown : t.localGradients = some own) (hlen : gradients.length = own.length) :
    (t.updatedWith (torch.statelessly step) (merged own gradients)).parameters = t.parameters := by
  have hcleared := cleared_applyAggregatedGradients gradients t
  have hconfig : (t.applyAggregatedGradients gradients).1.config = t.config :=
    congrArg (·.config) hcleared
  have hparams : (t.applyAggregatedGradients gradients).1.parameters = t.parameters := by
    rw [← parameters_cleared, hcleared, parameters_cleared]
  have hshuffles : (t.withRollout { observations := [.empty] }).Shuffles
      (List.replicate t.config.nEpochs [0]) := by
    refine ⟨List.length_replicate, fun perm hmem => ?_⟩
    rw [List.eq_of_mem_replicate hmem]
    exact List.Perm.refl _
  have heq := h own hown hlen (fun _ _ _ _ _ => none) { observations := [.empty] } _ (fun _ => [])
    hshuffles
  have trained : ∀ t' : DistributedPPO K, t'.config = t.config →
      ((t'.withRollout { observations := [.empty] }).trainStep (torch.statelessly step)
        (fun _ _ _ _ _ => none) (List.replicate t.config.nEpochs [0]) fun _ => []).map parameters =
      some t'.parameters :=
    fun t' hc => trainStep_no_gradient hskip (by simp [withRollout]) (hc ▸ hbatch) (hc ▸ hepochs)
  rw [trained _ hconfig, trained (t.updatedWith _ (merged own gradients)) rfl] at heq
  exact (Option.some.inj heq).symm.trans hparams

end DistributedPPO

open DistributedPPO

/-- With an optimizer that passes over parameters without a gradient, aggregated gradients reach the
policy exactly if the update with the merged gradient leaves the parameters as they are. -/
theorem peers_reach_policy_iff {K : Type*} [Field K] [LinearOrder K] (torch : Torch K)
    {step : List (Param K) → Nat → NdArray K} {t : DistributedPPO K} {own gradients : List K}
    (hskip : SkipsUnset step) (hepochs : 0 < t.config.nEpochs) (hbatch : 0 < t.config.batchSize)
    (hown : t.localGradients = some own) (hlen : gradients.length = own.length) :
    t.PeersReachPolicy (torch.statelessly step) gradients ↔
      (t.updatedWith (torch.statelessly step) (merged own gradients)).parameters =
        t.parameters := by
  constructor
  · intro h
    exact parameters_updatedWith_of_peersReachPolicy h hskip hepochs hbatch hown hlen
  · intro h own' hown' _ backward rollout perms noise _
    obtain rfl := Option.some.inj (hown.symm.trans hown')
    have hleft := cleared_applyAggregatedGradients gradients t
    have hright := cleared_updatedWith h rfl
    refine trainStep_parameters_eq ?_
    exact congrArg (withRollout rollout) (hleft.trans hright.symm)

section Example

/-- Gradient descent with learning rate 1. -/
def sgdStep (params : List (Param ℚ)) (i : Nat) : NdArray ℚ :=
  match params[i]? with
  | none => .empty
  | some p => p.grad.elim p.data fun grad => p.data.add (grad.smul (-1))

theorem sgdStep_skipsUnset : SkipsUnset sgdStep := by
  intro params h i hi
  simp [sgdStep, hi, h]

def plain : Torch ℚ where
  clipCoef _ _ := 1
  optimizerStep optimizer _ := (fun _ => .empty, optimizer)
  norm _ := 0

def sgd : Torch ℚ := plain.statelessly sgdStep

/-- One parameter at 1, whose last gradient was 2. -/
def oneParam : DistributedPPO ℚ where
  config := { nEpochs := 1, batchSize := 1, maxGradNorm := 0 }
  params := [{ data := .ofList [1], grad := some (.ofList [2]) }]
  localGradients := some [2]

theorem peers_reach_policy_iff_sgd : oneParam.PeersReachPolicy sgd [4] ↔
    (oneParam.updatedWith sgd (merged [2] [4])).parameters = oneParam.parameters :=
  peers_reach_policy_iff plain sgdStep_skipsUnset (by decide) (by decide) rfl rfl

/-- The parameters after training on one sample of a loss with slope 1. -/
def trainOnce (t : DistributedPPO ℚ) : Option (List (NdArray ℚ)) :=
  ((t.withRollout { observations := [.empty] }).trainStep sgd
    (fun _ _ _ _ _ => some (.ofList [1])) [[0]] fun _ => []).map parameters

/-- The peer's gradient is 4, so the merged one is 3; it makes no difference. -/
theorem merged_gradient_not_applied : ∃ p q : NdArray ℚ,
    trainOnce (oneParam.applyAggregatedGradients [4]).1 = some [p] ∧ p.get 0 = 0 ∧
    trainOnce (oneParam.updatedWith sgd (merged [2] [4])) = some [q] ∧ q.get 0 = -3 ∧
    ¬ oneParam.PeersReachPolicy sgd [4] := by
  obtain ⟨p, hp, hp₀⟩ : ∃ p : NdArray ℚ,
      trainOnce (oneParam.applyAggregatedGradients [4]).1 = some [p] ∧ p.get 0 = 0 := by
    refine ⟨_, rfl, ?_⟩
    change (1 : ℚ) + -1 * 1 = 0
    norm_num
  obtain ⟨q, hq, hq₀⟩ : ∃ q : NdArray ℚ,
      trainOnce (oneParam.updatedWith sgd (merged [2] [4])) = some [q] ∧ q.get 0 = -3 := by
    refine ⟨_, rfl, ?_⟩
    change (1 : ℚ) + -1 * (1 / 2 * 2 + 1 / 2 * 4) + -1 * 1 = -3
    norm_num
  refine ⟨p, q, hp, hp₀, hq, hq₀, fun h => ?_⟩
  have heq : some [p] = some [q] := by
    rw [← hp, ← hq]
    exact h [2] rfl rfl _ _ _ _ ⟨rfl, by simp [withRollout]⟩
  have hpq : p = q := by simpa using heq
  rw [hpq, hq₀] at hp₀
  norm_num at hp₀

end Example

end GossipRl
