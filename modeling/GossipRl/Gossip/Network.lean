import GossipRl.Gossip.Protocol
import GossipRl.Support.Run
import Mathlib.Logic.Function.Basic

/-!
# Agents that exchange gradients

`built` lists the messages with gradients in the order in which agents build them, in a gossip round
or as the reply of a handler, each with the agent that did. A message can be delivered to every
other agent, at any time later and any number of times.
-/

namespace GossipRl
open Support

/-- What an agent starts with. -/
structure Member (K : Type*) where
  localPeer : Peer
  membership : MembershipManager
  onGradientReceived : Bool
  gradients : NdArray K
  indices : Option (List Int)
  modelVersion : Int
  step : Int

structure Network (N : Nat) (K : Type*) where
  agents : Fin N → GossipSched K
  built : List (Fin N × GossipMessage K)

inductive NetworkEvent (N : Nat) where
  /-- Agent `i` builds the message of a gossip round. -/
  | gossip (i : Fin N) (pushPull : Bool)
  /-- Message `k` is delivered to agent `i`. -/
  | deliver (k : Nat) (i : Fin N)
  /-- Handler `t` of agent `i` goes on. -/
  | resume (i : Fin N) (t : Nat) (now : ℚ)

namespace Network
variable {N : Nat} {K : Type*} [Field K]

/-- `set_gradients` has been called once at every agent. -/
def start (members : Fin N → Member K) : Network N K where
  agents i :=
    let m := members i
    let s := GossipSched.init m.localPeer m.membership m.onGradientReceived
    { s with
      protocol := s.protocol.setGradients m.gradients m.indices m.modelVersion m.step }
  built := []

def step (s : Network N K) : NetworkEvent N → Option (Network N K)
  | .gossip i pushPull =>
    ((s.agents i).protocol.gossipMessage pushPull).map fun r =>
      ⟨Function.update s.agents i { s.agents i with protocol := r.2 }, s.built ++ [(i, r.1)]⟩
  | .deliver k i =>
    match s.built[k]? with
    | none => none
    | some (j, msg) =>
      if j = i then none
      else
        ((s.agents i).step (.receive msg)).map fun a =>
          { s with agents := Function.update s.agents i a }
  | .resume i t now =>
    ((s.agents i).step (.resume t now)).map fun a =>
      ⟨Function.update s.agents i a,
        s.built ++ (a.tasks[t]?.bind HandlerPc.reply).toList.map fun msg => (i, msg)⟩

/-- The agent that receives a message, and the agent that built it. -/
def reception (s : Network N K) : NetworkEvent N → Option (Fin N × Fin N)
  | .deliver k i => s.built[k]?.map fun m => (i, m.1)
  | _ => none

def receptions (s₀ : Network N K) (events : List (NetworkEvent N)) : List (Fin N × Fin N) :=
  observe step reception s₀ events

end Network

end GossipRl
