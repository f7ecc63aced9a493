import GossipRl.Training.PrivateAgent

/-!
# The private trainer (`training/ppo.py`, `privacy/mechanism.py`)

The trainer with its mechanism, whose parameters the noise scheduler changes before each update, its
accountant, and a record of what each call of `optimizer.step` was for. The scheduler may be any:
`getNoiseMultiplier` is its method, on a state of its own. `normal scale k size` is the `k`-th array
that `np.random.normal` draws.
-/

namespace GossipRl
open Support

noncomputable section

/-- `GaussianMechanism`, with its `DPParams`. -/
structure GaussianMechanism where
  epsilon : ℝ
  delta : ℝ
  clipNorm : ℝ
  /-- `params.noise_multiplier` -/
  override : Option ℝ
  /-- `_noise_multiplier` -/
  computed : Option ℝ := none

/-- What `privatize` returns, and what its noise was. -/
structure NoisyGradients where
  noisy : List ℝ
  multiplier : ℝ
  noise : List ℝ

namespace GaussianMechanism

/-- `_compute_noise_multiplier`; `none` where a division or a function of `math` raises. -/
def computeNoiseMultiplier (m : GaussianMechanism) : Option ℝ :=
  let ratio := (5 : ℕ) / (4 : ℕ) / m.delta
  if m.delta = 0 ∨ ratio ≤ 0 ∨ Real.log ratio < 0 ∨ m.epsilon = 0 then none
  else some (Real.sqrt ((2 : ℕ) * Real.log ratio) / m.epsilon)

/-- The property `noise_multiplier`, and the mechanism with what it computed. -/
def noiseMultiplier (m : GaussianMechanism) : Option (ℝ × GaussianMechanism) :=
  match m.override, m.computed with
  | some x, _ => some (x, m)
  | none, some x => some (x, m)
  | none, none => m.computeNoiseMultiplier.map fun x => (x, { m with computed := some x })

/-- `privatize`, without the metadata; `np.random.normal` takes no negative scale. -/
def privatize (norm : List ℝ → ℝ) (normal : ℝ → (size : Nat) → Fin size → ℝ)
    (gradients : List ℝ) (m : GaussianMechanism) : Option (NoisyGradients × GaussianMechanism) :=
  let clipped := DPParams.clipGradients norm gradients ⟨m.clipNorm⟩
  m.noiseMultiplier.bind fun (multiplier, m) =>
    if multiplier * m.clipNorm < 0 then none
    else
      let noise := List.ofFn (normal (multiplier * m.clipNorm) clipped.length)
      some (⟨DPParams.addNoise noise clipped, multiplier, noise⟩, m)

end GaussianMechanism

/-- What a call of `optimizer.step` was for. -/
structure Update where
  indices : List Nat
  /-- The gradient of the loss. -/
  gradients : List ℝ
  /-- The parameters that `optimizer.step` finds in the model. -/
  params : List (Param ℝ)
  /-- Their gradient. -/
  fed : List ℝ
  /-- The noise multiplier that `add_noise` read. -/
  multiplier : ℝ
  noise : List ℝ

structure PrivateTrainer (σ : Type*) where
  trainer : DistributedPPO ℝ
  mechanism : GaussianMechanism
  scheduler : Option σ
  accountant : RDPAccountant
  updates : List Update := []

namespace PrivateTrainer
variable {σ : Type*} (torch : Torch ℝ) (backward : Backward ℝ)
  (getNoiseMultiplier : Nat → ℝ → σ → ℝ × σ) (normal : ℝ → Nat → (size : Nat) → Fin size → ℝ)

/-- Get noise multiplier (possibly adaptive). -/
def schedule (gradients : List ℝ) (s : PrivateTrainer σ) : PrivateTrainer σ :=
  match s.scheduler with
  | none => s
  | some scheduler =>
    let (multiplier, scheduler) :=
      getNoiseMultiplier s.trainer.step (torch.norm gradients) scheduler
    { s with
      mechanism := { s.mechanism with override := some multiplier }
      scheduler := some scheduler }

/-- Track privacy. -/
def track (s : PrivateTrainer σ) : Option (PrivateTrainer σ) :=
  s.mechanism.noiseMultiplier.bind fun (multiplier, mechanism) =>
    let sampleRate : ℝ := s.trainer.config.batchSize / s.trainer.buffer.observations.length
    (s.accountant.step (multiplier, sampleRate)).map fun accountant =>
      { s with mechanism := mechanism, accountant := accountant }

/-- `_apply_dp_noise`. -/
def applyDpNoise (gradients : List ℝ) (s : PrivateTrainer σ) :
    Option (NoisyGradients × PrivateTrainer σ) :=
  let s := s.schedule torch getNoiseMultiplier gradients
  (s.mechanism.privatize torch.norm (normal · s.updates.length) gradients).bind fun (out, mechanism) =>
    let (params, returns) := setGradientVector out.noisy s.trainer.params
    if returns then
      let trainer := { s.trainer with params := params, localGradients := some out.noisy }
      ({ s with trainer := trainer, mechanism := mechanism }.track).map fun s => (out, s)
    else none

/-- `zero_grad`, `backward`, `clip_grad_norm_` and `_extract_gradients`. -/
def backwardPass (start : List (NdArray ℝ)) (indices : List Nat) (s : PrivateTrainer σ) :
    PrivateTrainer σ :=
  let params := s.trainer.backwardPass torch backward start indices
  { s with trainer := { s.trainer with params := params }.extractGradients }

/-- The body of the loop over minibatches. -/
def update (start : List (NdArray ℝ)) (s : PrivateTrainer σ) (indices : List Nat) :
    Option (PrivateTrainer σ) :=
  let s := s.backwardPass torch backward start indices
  let gradients := getGradientVector s.trainer.params
  (s.applyDpNoise torch getNoiseMultiplier normal gradients).map fun (out, s) =>
    { s with
      trainer := s.trainer.applyStep torch
      updates := s.updates ++
        [{ indices := indices
           gradients := gradients
           params := s.trainer.params
           fed := getGradientVector s.trainer.params
           multiplier := out.multiplier
           noise := out.noise }] }

/-- The loop over epochs and minibatches; `perms` has a shuffle of the rollout for each epoch. -/
def trainLoop (perms : List (List Nat)) (s : PrivateTrainer σ) : Option (PrivateTrainer σ) :=
  run (update torch backward getNoiseMultiplier normal s.trainer.parameters) s
    (perms.flatMap (minibatches s.trainer.config.batchSize))

/-- `train_step`. -/
def trainStep (perms : List (List Nat)) (s : PrivateTrainer σ) : Option (PrivateTrainer σ) :=
  -- no last observation, a `range` without a step
  if s.trainer.buffer.observations.length = 0 ∨ s.trainer.config.batchSize = 0 then none
  else
    (s.trainLoop torch backward getNoiseMultiplier normal perms).bind fun s =>
      -- no update to average over
      if s.trainer.config.nEpochs = 0 then none
      else some { s with trainer := { s.trainer with step := s.trainer.step + 1 } }

end PrivateTrainer

end

end GossipRl
