import GossipRl.Privacy.Mechanism
import GossipRl.Support.Run
import GossipRl.Training.Networks

/-!
# Distributed PPO (`training/ppo.py`)

What PyTorch and NumPy compute is in `Torch`, and the gradient of the loss is a `Backward`. The
shuffles and the noise that a `train_step` draws are arguments. Where the source raises, the result
is `none`; the statistics that `train_step` returns are left out.
-/

namespace GossipRl
open Support

structure TrainingConfig (K : Type*) where
  nEpochs : Nat := 10
  batchSize : Nat := 64
  maxGradNorm : K

structure RolloutBuffer (K : Type*) where
  observations : List (NdArray K) := []
  actions : List (NdArray K) := []
  rewards : List K := []
  values : List K := []
  logProbs : List K := []
  dones : List Bool := []

/-- `optimizer.state` of one parameter. -/
structure AdamState (K : Type*) where
  step : Nat
  expAvg : NdArray K
  expAvgSq : NdArray K

structure Torch (K : Type*) where
  /-- The factor by which `clip_grad_norm_` scales the gradients. -/
  clipCoef : K → List (NdArray K) → K
  /-- The new values of the `i`-th parameter, and the new state of the optimizer. -/
  optimizerStep : List (AdamState K) → List (Param K) → (Nat → NdArray K) × List (AdamState K)
  /-- `np.linalg.norm`. -/
  norm : List K → K

/-- The gradient of the loss of a minibatch at the current parameters, for the `i`-th parameter. The
advantages depend on the parameters that `train_step` starts from. -/
abbrev Backward (K : Type*) :=
  (start current : List (NdArray K)) → RolloutBuffer K → (indices : List Nat) → Nat →
    Option (NdArray K)

structure DistributedPPO (K : Type*) where
  config : TrainingConfig K
  params : List (Param K)
  /-- `optimizer.state`, which is empty before the first update. -/
  optimizer : List (AdamState K) := []
  buffer : RolloutBuffer K := {}
  step : Nat := 0
  modelVersion : Nat := 0
  dpMechanism : Option (DPParams K) := none
  localGradients : Option (List K) := none
  aggregatedGradients : Option (List K) := none

/-- Gradients add up. -/
def accumulate {K : Type*} [Add K] [Zero K] (grads : Nat → Option (NdArray K))
    (params : List (Param K)) : List (Param K) :=
  params.mapIdx fun i p =>
    { p with
      grad := match p.grad, grads i with
        | old, none => old
        | none, some new => some new
        | some old, some new => some (old.add new) }

/-- The batches that the loop over `range(0, n_samples, batch_size)` takes. -/
def minibatches (batchSize : Nat) (indices : List Nat) : List (List Nat) :=
  (List.range ((indices.length + batchSize - 1) / batchSize)).map fun k =>
    (indices.drop (k * batchSize)).take batchSize

/-- The sum of one-dimensional arrays, one of which may be stretched. -/
def broadcastAdd {K : Type*} [Add K] : List K → List K → Option (List K)
  | [x], ys => some (ys.map (x + ·))
  | xs, [y] => some (xs.map (· + y))
  | xs, ys => if xs.length = ys.length then some (List.zipWith (· + ·) xs ys) else none

namespace Torch
variable {K : Type*} [Mul K]

def clipGradNorm (torch : Torch K) (maxNorm : K) (params : List (Param K)) : List (Param K) :=
  let coef := torch.clipCoef maxNorm (params.filterMap (·.grad))
  params.map fun p => { p with grad := p.grad.map (.smul coef) }

end Torch

namespace DistributedPPO
variable {K : Type*}

/-- The values of the parameters. -/
def parameters (t : DistributedPPO K) : List (NdArray K) := t.params.map (·.data)

/-- After `collect_rollout`. -/
def withRollout (rollout : RolloutBuffer K) (t : DistributedPPO K) : DistributedPPO K :=
  { t with buffer := rollout }

def extractGradients (t : DistributedPPO K) : DistributedPPO K :=
  { t with localGradients := some (getGradientVector t.params) }

def getGradients (t : DistributedPPO K) : List K := t.localGradients.getD []

/-- `optimizer.step`. -/
def applyStep (torch : Torch K) (t : DistributedPPO K) : DistributedPPO K :=
  let (data, optimizer) := torch.optimizerStep t.optimizer t.params
  { t with
    params := t.params.mapIdx fun i p => { p with data := data i }
    optimizer := optimizer }

section ApplyStep
variable (torch : Torch K) (t : DistributedPPO K)

@[simp] theorem applyStep_config : (t.applyStep torch).config = t.config := rfl
@[simp] theorem applyStep_buffer : (t.applyStep torch).buffer = t.buffer := rfl
@[simp] theorem applyStep_step : (t.applyStep torch).step = t.step := rfl
@[simp] theorem applyStep_dpMechanism : (t.applyStep torch).dpMechanism = t.dpMechanism := rfl
@[simp] theorem applyStep_localGradients :
    (t.applyStep torch).localGradients = t.localGradients := rfl

end ApplyStep

variable [Field K] [LinearOrder K]

def applyDpNoise (torch : Torch K) (noise : List K) (t : DistributedPPO K) :
    Option (DistributedPPO K) :=
  match t.localGradients, t.dpMechanism with
  | some gradients, some dp =>
    let noisy := dp.privatize torch.norm noise gradients
    let set := setGradientVector noisy t.params
    if set.2 then some { t with params := set.1, localGradients := some noisy } else none
  | _, _ => some t

/-- `zero_grad`, `backward` and `clip_grad_norm_`. -/
def backwardPass (torch : Torch K) (backward : Backward K) (start : List (NdArray K))
    (indices : List Nat) (t : DistributedPPO K) : List (Param K) :=
  let params := accumulate (backward start t.parameters t.buffer indices) (zeroGrad t.params)
  if t.config.maxGradNorm > 0 then torch.clipGradNorm t.config.maxGradNorm params else params

/-- The body of the loop over minibatches, for one of them and its number. -/
def trainBatch (torch : Torch K) (backward : Backward K) (start : List (NdArray K))
    (noise : Nat → List K) (t : DistributedPPO K) (batch : List Nat × Nat) :
    Option (DistributedPPO K) :=
  let t := { t with params := t.backwardPass torch backward start batch.1 }
  (t.extractGradients.applyDpNoise torch (noise batch.2)).map (applyStep torch)

/-- `perms` has a shuffle of the rollout for each epoch, `noise k` is for the `k`-th update. -/
def trainStep (torch : Torch K) (backward : Backward K) (perms : List (List Nat))
    (noise : Nat → List K) (t : DistributedPPO K) : Option (DistributedPPO K) :=
  -- no last observation, a `range` without a step, no update to average over
  if t.buffer.observations.length = 0 ∨ t.config.batchSize = 0 ∨ t.config.nEpochs = 0 then none
  else
    let batches := perms.flatMap (minibatches t.config.batchSize)
    (run (trainBatch torch backward t.parameters noise) t batches.zipIdx).map fun t =>
      { t with step := t.step + 1 }

/-- What `np.random.permutation` may give for each epoch. -/
def Shuffles (perms : List (List Nat)) (t : DistributedPPO K) : Prop :=
  perms.length = t.config.nEpochs ∧
    ∀ perm ∈ perms, perm.Perm (List.range t.buffer.observations.length)

instance (perms : List (List Nat)) (t : DistributedPPO K) : Decidable (t.Shuffles perms) :=
  inferInstanceAs (Decidable (_ ∧ _))

/-- The new state, and whether it returns. -/
def applyAggregatedGradients (gradients : List K) (t : DistributedPPO K) : DistributedPPO K × Bool :=
  let t := { t with aggregatedGradients := some gradients }
  match t.localGradients with
  | none => ({ t with modelVersion := t.modelVersion + 1 }, true)
  | some own =>
    match broadcastAdd (own.map (1 / 2 * ·)) (gradients.map (1 / 2 * ·)) with
    | none => (t, false)
    | some merged =>
      let set := setGradientVector merged t.params
      if set.2 then ({ t with params := set.1, modelVersion := t.modelVersion + 1 }, true)
      else ({ t with params := set.1 }, false)

/-- The merged gradient, by its definition. -/
def merged (own gradients : List K) : List K :=
  List.zipWith (fun x y => 1 / 2 * x + 1 / 2 * y) own gradients

end DistributedPPO

end GossipRl
