import GossipRl.Support.Discounted
import GossipRl.Training.Ppo

/-!
# Rollouts and their returns (`training/ppo.py`)

`collect_rollout` keeps, for each step, the observation that the action was taken in; the one that
the last action led to is not kept. `train_step` starts the advantages from the value of the last
observation of the buffer, so that of the state before the last action. `trajectory` is what
happened, with the states that were reached, and `referenceReturns` are its returns.
-/

namespace GossipRl
open Support

/-- What `env.step` returns, and the environment's new state. -/
structure EnvStep (σ K : Type*) where
  nextObs : NdArray K
  reward : K
  done : Bool
  truncated : Bool
  state : σ

/-- An environment with states `σ`; `reset` gives the first observation of an episode. -/
structure Env (σ K : Type*) where
  reset : σ → NdArray K × σ
  step : σ → NdArray K → EnvStep σ K

/-- `get_action_and_value`: the action with its log probability, for a draw in `ω`, and the value. -/
structure ActorCritic (ω K : Type*) where
  act : NdArray K → ω → NdArray K × K
  value : NdArray K → K

/-- The fields of `TrainingConfig` that `compute_advantages` reads. -/
structure GaeConfig (K : Type*) [Field K] where
  gamma : K := (99 : ℕ) / (100 : ℕ)
  gaeLambda : K := (95 : ℕ) / (100 : ℕ)

namespace RolloutBuffer
variable {K : Type*}

def add (obs action : NdArray K) (reward value logProb : K) (done : Bool) (b : RolloutBuffer K) :
    RolloutBuffer K where
  observations := b.observations ++ [obs]
  actions := b.actions ++ [action]
  rewards := b.rewards ++ [reward]
  values := b.values ++ [value]
  logProbs := b.logProbs ++ [logProb]
  dones := b.dones ++ [done]

end RolloutBuffer

/-- In the loop of `collect_rollout`. -/
structure CollectState (σ K : Type*) where
  env : σ
  obs : NdArray K
  buffer : RolloutBuffer K := {}
  totalReward : K
  episodeCount : Nat := 0

/-- `env.reset()`, which the test for `__getitem__` calls once more. -/
def Env.resetObs {σ K : Type*} (env : Env σ K) (s : σ) : NdArray K × σ := env.reset (env.reset s).2

/-- One step of what happened. -/
structure Transition (K : Type*) where
  obs : NdArray K
  reward : K
  done : Bool
  /-- The state that the action led to. -/
  next : NdArray K

section Collect
variable {σ ω K : Type*} [Field K]

namespace CollectState

/-- `env.step`, with the action for `draw`. -/
def envStep (env : Env σ K) (model : ActorCritic ω K) (s : CollectState σ K) (draw : ω) :
    EnvStep σ K :=
  env.step s.env (model.act s.obs draw).1

/-- The body of the loop. -/
def step (env : Env σ K) (model : ActorCritic ω K) (s : CollectState σ K) (draw : ω) :
    CollectState σ K :=
  let (action, logProb) := model.act s.obs draw
  let r := s.envStep env model draw
  let done := r.done || r.truncated
  let buffer := s.buffer.add s.obs action r.reward (model.value s.obs) logProb done
  if done then
    let (obs, state) := env.resetObs r.state
    ⟨state, obs, buffer, s.totalReward + r.reward, s.episodeCount + 1⟩
  else ⟨r.state, r.nextObs, buffer, s.totalReward + r.reward, s.episodeCount⟩

def start (env : Env σ K) (s : σ) : CollectState σ K :=
  let (obs, state) := env.resetObs s
  { env := state, obs := obs, totalReward := 0 }

/-- What happens in the step for `draw`. -/
def transition (env : Env σ K) (model : ActorCritic ω K) (s : CollectState σ K) (draw : ω) :
    Transition K :=
  let r := s.envStep env model draw
  ⟨s.obs, r.reward, r.done || r.truncated, r.nextObs⟩

/-- What happens in the loop from `s` on. -/
def trajectory (env : Env σ K) (model : ActorCritic ω K) :
    CollectState σ K → List ω → List (Transition K)
  | _, [] => []
  | s, draw :: draws =>
    s.transition env model draw :: trajectory env model (s.step env model draw) draws

end CollectState

/-- `collect_rollout`, with a draw for each of its steps. -/
def collectRollout (env : Env σ K) (model : ActorCritic ω K) (draws : List ω) (s : σ) :
    CollectState σ K :=
  draws.foldl (CollectState.step env model) (.start env s)

/-- The trajectory that `collect_rollout` gathers. -/
def trajectory (env : Env σ K) (model : ActorCritic ω K) (draws : List ω) (s : σ) :
    List (Transition K) :=
  (CollectState.start env s).trajectory env model draws

def nonTerminal (done : Bool) : K := 1 - if done then 1 else 0

/-- The body of the loop of `compute_advantages`: `last_gae` and the advantages so far. -/
def gaeStep (config : GaeConfig K) (buffer : RolloutBuffer K) (lastValue : K) (s : K × List K)
    (t : Nat) : K × List K :=
  let nextValue :=
    if t = buffer.rewards.length - 1 then lastValue else buffer.values.getD (t + 1) 0
  let nextNonTerminal := nonTerminal (buffer.dones.getD t false)
  let delta :=
    buffer.rewards.getD t 0 + config.gamma * nextValue * nextNonTerminal - buffer.values.getD t 0
  let lastGae := delta + config.gamma * config.gaeLambda * nextNonTerminal * s.1
  (lastGae, lastGae :: s.2)

/-- The normalized advantages and the returns; `std` is that of NumPy. -/
def computeAdvantages (std : List K → K) (config : GaeConfig K) (buffer : RolloutBuffer K)
    (lastValue : K) : List K × List K :=
  let advantages :=
    ((List.range buffer.rewards.length).reverse.foldl (gaeStep config buffer lastValue) (0, [])).2
  let returns := List.zipWith (· + ·) advantages buffer.values
  let mean := advantages.sum / advantages.length
  (advantages.map fun a => (a - mean) / (std advantages + 1 / (100000000 : ℕ)), returns)

/-- The advantages and returns that `train_step` trains on. -/
def trainAdvantages (std : List K → K) (config : GaeConfig K) (model : ActorCritic ω K)
    (buffer : RolloutBuffer K) : Option (List K × List K) :=
  buffer.observations.getLast?.map fun lastObs =>
    computeAdvantages std config buffer (model.value lastObs)

namespace Transition

/-- The temporal difference error for the value function `value`. -/
def tdError (config : GaeConfig K) (value : NdArray K → K) (tr : Transition K) : K :=
  tr.reward + config.gamma * nonTerminal tr.done * value tr.next - value tr.obs

/-- How much the advantage of the step after counts. -/
def decay (config : GaeConfig K) (tr : Transition K) : K :=
  config.gamma * config.gaeLambda * nonTerminal tr.done

end Transition

/-- The generalized advantages, each a discounted sum of temporal difference errors, plus the
values. -/
def referenceReturns (config : GaeConfig K) (value : NdArray K → K) (traj : List (Transition K)) :
    List K :=
  (List.range traj.length).map fun t =>
    discounted (fun i => (traj[i]?).elim 0 (·.decay config))
      (fun i => (traj[i]?).elim 0 (·.tdError config value)) t (traj.length - t) +
    (traj[t]?).elim 0 (value ·.obs)

end Collect

end GossipRl
