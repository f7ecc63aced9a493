import GossipRl.Gossip.Protocol
import GossipRl.Training.Ppo

/-!
# The agent (`agent.py`)

`run` is one task, the gossip loop is another, and a call of `handle_message` is one too.
`AgentPc` says where `run` is suspended: at the end of the body of its loop (or before the first
time round), where it waits for the aggregated gradients, or not at all any more. The environment,
the checkpoints and the log are left out; what they raise is a `cancel`.
-/

namespace GossipRl
open Support

inductive AgentPc where
  | sleep
  | aggregate
  | over

structure Agent (K : Type*) where
  trainer : DistributedPPO K
  gossip : GossipSched K
  /-- `config.gossip.push_pull` -/
  pushPull : Bool
  running : Bool := true
  pc : AgentPc := .sleep

inductive AgentEvent (K : Type*) where
  /-- `run` goes round its loop, with what the environment and the generators give. -/
  | train (rollout : RolloutBuffer K) (perms : List (List Nat)) (noise : Nat → List K)
  /-- `run` gets the aggregated gradients. -/
  | aggregate
  /-- `stop` is called from outside of `run`. -/
  | stop
  /-- `run` ends with an exception. -/
  | cancel
  /-- The gossip loop has selected peers. -/
  | gossipRound
  | receive (msg : GossipMessage K)
  /-- The handler of a message goes on. -/
  | resume (t : Nat) (now : ℚ)
  /-- The tasks of the membership manager have changed it. -/
  | membership (membership : MembershipManager)

namespace Agent
variable {K : Type*}

/-- A new agent, with its gossip started. -/
def init (trainer : DistributedPPO K) (localPeer : Peer) (membership : MembershipManager)
    (pushPull : Bool) : Agent K where
  trainer := trainer
  gossip := .init localPeer membership true
  pushPull := pushPull

/-- `run` is over, and has called `stop`. -/
def halt (s : Agent K) : Agent K := { s with running := false, pc := .over }

def withProtocol (p : GossipProtocol K) (s : Agent K) : Agent K :=
  { s with gossip := { s.gossip with protocol := p } }

/-- Update gossip with new gradients. -/
def publish (s : Agent K) : Agent K :=
  if s.trainer.getGradients.length > 0 then
    s.withProtocol (s.gossip.protocol.setGradients (.ofList s.trainer.getGradients) none
      s.trainer.modelVersion s.trainer.step)
  else s

variable [Field K] [LinearOrder K]

/-- The body of the loop, up to where it waits for the aggregated gradients. -/
def trainRound (torch : Torch K) (backward : Backward K) (rollout : RolloutBuffer K)
    (perms : List (List Nat)) (noise : Nat → List K) (s : Agent K) : Agent K :=
  match (s.trainer.withRollout rollout).trainStep torch backward perms noise with
  | none => s.halt
  | some trainer => { publish { s with trainer := trainer } with pc := .aggregate }

/-- The rest of the body, up to `asyncio.sleep`. -/
def applyAggregated (s : Agent K) : Agent K :=
  let (aggregated, contributors) := s.gossip.protocol.getAggregatedGradients
  if contributors > 1 ∧ aggregated.toList.length > 0 then
    let (trainer, returns) := s.trainer.applyAggregatedGradients aggregated.toList
    if returns then { s with trainer := trainer, pc := .sleep }
    else halt { s with trainer := trainer }
  else { s with pc := .sleep }

def step (torch : Torch K) (backward : Backward K) (s : Agent K) : AgentEvent K → Option (Agent K)
  | .train rollout perms noise =>
    match s.pc with
    | .sleep =>
      if s.running then
        if (s.trainer.withRollout rollout).Shuffles perms then
          some (s.trainRound torch backward rollout perms noise)
        else none
      else some s.halt
    | _ => none
  | .aggregate =>
    match s.pc with
    | .aggregate => some s.applyAggregated
    | _ => none
  | .stop => some { s with running := false }
  | .cancel =>
    match s.pc with
    | .over => none
    | _ => some s.halt
  | .gossipRound =>
    if s.running then
      (s.gossip.protocol.gossipMessage s.pushPull).map fun r => s.withProtocol r.2
    else none
  | .receive msg => (s.gossip.step (.receive msg)).map fun gossip => { s with gossip := gossip }
  | .resume t now => (s.gossip.step (.resume t now)).map fun gossip => { s with gossip := gossip }
  | .membership membership =>
    some (s.withProtocol { s.gossip.protocol with membership := membership })

/-- The message that is built at a step. -/
def builds (s : Agent K) : AgentEvent K → Option (GossipMessage K)
  | .gossipRound =>
    if s.running then (s.gossip.protocol.gossipMessage s.pushPull).map (·.1) else none
  | .receive msg => (HandlerPc.ofMessage msg s.gossip.protocol).1.reply
  | .resume t now =>
    match s.gossip.tasks[t]? with
    | none => none
    | some pc => (pc.advance now s.gossip.protocol).bind (·.1.reply)
  | _ => none

end Agent

end GossipRl
