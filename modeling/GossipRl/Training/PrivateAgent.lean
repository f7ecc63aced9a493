import GossipRl.Privacy.Accountant
import GossipRl.Privacy.Adaptive
import GossipRl.Training.Agent

/-!
# The agent with its privacy budget (`agent.py`, `training/ppo.py`)

With privacy enabled, each update of a `train_step` makes the accountant take a step, and `run` asks
it what was spent each time round its loop. The real numbers stand for the floats. A `train_step`
that raises ends `run`, so what it leaves in the accountant is not kept.
-/

namespace GossipRl
open Support

noncomputable section

structure PrivacyConfig where
  epsilon : ℝ := 1
  delta : ℝ := 1 / (100000 : ℕ)
  clipNorm : ℝ := 1
  adaptiveNoise : Bool := true
  noiseMultiplier : ℝ := (11 : ℕ) / (10 : ℕ)

/-- The noise multiplier of the mechanism when the trainer is at `step`. -/
def PrivacyConfig.noiseMultiplierAt (step : Nat) (privacy : PrivacyConfig) : ℝ :=
  if privacy.adaptiveNoise then NoiseScheduleConfig.getNoiseMultiplier step {}
  else privacy.noiseMultiplier

namespace DistributedPPO

/-- What `_apply_dp_noise` does besides `privatize`. -/
def trackPrivacy (privacy : PrivacyConfig) (t : DistributedPPO ℝ) (a : RDPAccountant) :
    Option RDPAccountant :=
  -- `np.random.normal` takes no negative scale
  if privacy.noiseMultiplierAt t.step * privacy.clipNorm < 0 then none
  else a.step (privacy.noiseMultiplierAt t.step, t.config.batchSize / t.buffer.observations.length)

/-- `trainBatch`, with the accountant. -/
def privateBatch (torch : Torch ℝ) (backward : Backward ℝ) (start : List (NdArray ℝ))
    (noise : Nat → List ℝ) (privacy : PrivacyConfig) (s : DistributedPPO ℝ × RDPAccountant)
    (batch : List Nat × Nat) : Option (DistributedPPO ℝ × RDPAccountant) :=
  (s.1.trackPrivacy privacy s.2).bind fun accountant =>
    (s.1.trainBatch torch backward start noise batch).map fun t => (t, accountant)

/-- `trainStep`, with the accountant. -/
def privateTrainStep (torch : Torch ℝ) (backward : Backward ℝ) (perms : List (List Nat))
    (noise : Nat → List ℝ) (privacy : PrivacyConfig) (s : DistributedPPO ℝ × RDPAccountant) :
    Option (DistributedPPO ℝ × RDPAccountant) :=
  if s.1.buffer.observations.length = 0 ∨ s.1.config.batchSize = 0 ∨ s.1.config.nEpochs = 0 then none
  else
    let batches := perms.flatMap (minibatches s.1.config.batchSize)
    (run (privateBatch torch backward s.1.parameters noise privacy) s batches.zipIdx).map fun s =>
      ({ s.1 with step := s.1.step + 1 }, s.2)

end DistributedPPO

/-- An agent whose privacy is enabled. -/
structure PrivateAgent where
  agent : Agent ℝ
  privacy : PrivacyConfig
  accountant : RDPAccountant := .init
  /-- The epsilons that `get_privacy_spent` has returned. -/
  reports : List (WithTop ℝ) := []
  /-- How often the log has had "Privacy budget nearly exhausted!". -/
  warnings : Nat := 0

inductive PrivateAgentEvent where
  | agent (e : AgentEvent ℝ)
  /-- `get_privacy_spent` is called from outside of `run`. -/
  | getStats

namespace PrivateAgent

def init (privacy : PrivacyConfig) (trainer : DistributedPPO ℝ) (localPeer : Peer)
    (membership : MembershipManager) (pushPull : Bool) : PrivateAgent where
  agent := .init { trainer with dpMechanism := some { clipNorm := privacy.clipNorm } } localPeer
    membership pushPull
  privacy := privacy

def getPrivacySpent (s : PrivateAgent) : WithTop ℝ := s.accountant.getEpsilon s.privacy.delta

/-- A call of `get_privacy_spent`. -/
def report (s : PrivateAgent) : PrivateAgent := { s with reports := s.reports ++ [s.getPrivacySpent] }

/-- Log progress. -/
def logProgress (s : PrivateAgent) : PrivateAgent :=
  if s.agent.trainer.step % 10 = 0 then s.report else s

/-- Check privacy budget. -/
def checkPrivacyBudget (s : PrivateAgent) : PrivateAgent :=
  if s.getPrivacySpent > (s.privacy.epsilon * ((95 : ℕ) / (100 : ℕ)) : ℝ) then
    { s.report with warnings := s.warnings + 1 }
  else s.report

/-- The body of the loop, up to where it waits for the aggregated gradients. -/
def trainRound (torch : Torch ℝ) (backward : Backward ℝ) (rollout : RolloutBuffer ℝ)
    (perms : List (List Nat)) (noise : Nat → List ℝ) (s : PrivateAgent) : PrivateAgent :=
  match DistributedPPO.privateTrainStep torch backward perms noise s.privacy
      (s.agent.trainer.withRollout rollout, s.accountant) with
  | none => { s with agent := s.agent.halt }
  | some (trainer, accountant) =>
    { s with
      agent := { Agent.publish { s.agent with trainer := trainer } with pc := .aggregate }
      accountant := accountant }

/-- The rest of the body, up to `asyncio.sleep`. -/
def applyAggregated (s : PrivateAgent) : PrivateAgent :=
  let s := { s with agent := s.agent.applyAggregated }
  match s.agent.pc with
  | .sleep => s.logProgress.checkPrivacyBudget
  | _ => s

def step (torch : Torch ℝ) (backward : Backward ℝ) (s : PrivateAgent) :
    PrivateAgentEvent → Option PrivateAgent
  | .agent (.train rollout perms noise) =>
    match s.agent.pc with
    | .sleep =>
      if s.agent.running then
        if (s.agent.trainer.withRollout rollout).Shuffles perms then
          some (s.trainRound torch backward rollout perms noise)
        else none
      else some { s with agent := s.agent.halt }
    | _ => none
  | .agent .aggregate =>
    match s.agent.pc with
    | .aggregate => some s.applyAggregated
    | _ => none
  | .agent e => (s.agent.step torch backward e).map fun agent => { s with agent := agent }
  | .getStats => some s.report

end PrivateAgent

end

end GossipRl
