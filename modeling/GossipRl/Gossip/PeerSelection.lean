import GossipRl.Gossip.Membership
import Mathlib.Data.List.Perm.Subperm

/-!
# Peer selection and backoff (`gossip/protocol.py`)

`none` is an exception. The peer objects are those of the membership manager; a peer is in another
if it has its `id`. The clock is read once when the peers are selected, and once or twice when one of
them has failed.
-/

namespace GossipRl
open Support

/-- What `random.sample` may give, each time another one: `k` of the entries, in any order. -/
structure Sampler (α : Type*) where
  draw : List α → Nat → List α
  subperm : ∀ population k, k ≤ population.length → (draw population k).Subperm population
  length_eq : ∀ population k, k ≤ population.length → (draw population k).length = k

/-- `random.sample(population, k)` -/
def Sampler.sample {α : Type*} (s : Sampler α) (population : List α) (k : Int) : Option (List α) :=
  -- Sample larger than population or is negative
  if k < 0 ∨ population.length < k then none else some (s.draw population k.toNat)

/-- What `_select_gossip_peers` and `_apply_backoff` read. -/
structure GossipPeers where
  membership : MembershipManager
  /-- The `datacenter` of a peer object, which is not assigned to. -/
  datacenter : Ref → Option String
  /-- That of `local_peer`. -/
  localDatacenter : Option String
  fanout : Int := 3
  backoff : Dict String ℚ := .empty
  maxBackoff : ℚ := (30 : ℕ)

namespace GossipPeers

/-- `p.id` -/
def idOf (p : GossipPeers) (r : Ref) : String := (p.membership.heap r).id

/-- `is_local(self.local_peer)` -/
def isLocal (p : GossipPeers) (r : Ref) : Bool :=
  match p.datacenter r, p.localDatacenter with
  | some datacenter, some localDatacenter => datacenter == localDatacenter
  | _, _ => false

/-- The peer has no deadline, or is past it. -/
def eligible (now : ℚ) (peerId : String) (p : GossipPeers) : Bool :=
  match p.backoff.get? peerId with
  | none => true
  | some deadline => deadline ≤ now

/-- Filter out peers in backoff -/
def available (now : ℚ) (p : GossipPeers) : List Ref :=
  p.membership.getAlivePeers.filter fun r => p.eligible now (p.idOf r)

def sameDc (now : ℚ) (p : GossipPeers) : List Ref := (p.available now).filter fun r => p.isLocal r

def otherDc (now : ℚ) (p : GossipPeers) : List Ref := (p.available now).filter fun r => !p.isLocal r

/-- `p in selected` -/
def contains (p : GossipPeers) (selected : List Ref) (r : Ref) : Bool :=
  selected.any fun r' => p.idOf r' == p.idOf r

/-- Select ~2/3 from same DC if available -/
def selectLocal (first : Sampler Ref) (now : ℚ) (p : GossipPeers) : Option (List Ref) :=
  let localCount := min ((p.sameDc now).length : Int) (p.fanout * 2 / 3)
  if 0 < localCount then first.sample (p.sameDc now) localCount else some []

/-- Fill rest from other DCs -/
def fillFromOthers (second : Sampler Ref) (now : ℚ) (p : GossipPeers) (selected : List Ref) :
    Option (List Ref) :=
  let remaining := p.fanout - selected.length
  if 0 < remaining ∧ p.otherDc now ≠ [] then
    (second.sample (p.otherDc now) (min remaining (p.otherDc now).length)).map (selected ++ ·)
  else some selected

/-- If still not enough, add more from same DC -/
def fillFromLocal (third : Sampler Ref) (now : ℚ) (p : GossipPeers) (selected : List Ref) :
    Option (List Ref) :=
  let remaining := p.fanout - selected.length
  if 0 < remaining then
    let remainingLocal := (p.sameDc now).filter fun r => !p.contains selected r
    (third.sample remainingLocal (min remaining remainingLocal.length)).map (selected ++ ·)
  else some selected

/-- `_select_gossip_peers`, with the three samples it may draw. -/
def selectGossipPeers (first second third : Sampler Ref) (now : ℚ) (p : GossipPeers) :
    Option (List Ref) :=
  if p.available now = [] then some []
  else
    ((p.selectLocal first now).bind (p.fillFromOthers second now)).bind (p.fillFromLocal third now)

/-- The delay of `_apply_backoff`, if the clock shows `read`. -/
def backoffDelay (read : ℚ) (peerId : String) (p : GossipPeers) : ℚ :=
  match p.backoff.get? peerId with
  | some deadline => min p.maxBackoff ((deadline - read) * (2 : ℕ))
  | none => 1

/-- `_apply_backoff`; the clock shows `read`, and then `store`. -/
def applyBackoff (read store : ℚ) (peerId : String) (p : GossipPeers) : GossipPeers :=
  { p with backoff := p.backoff.set peerId (store + p.backoffDelay read peerId) }

/-- Clear backoff on success -/
def clearBackoff (peerId : String) (p : GossipPeers) : GossipPeers :=
  { p with backoff := p.backoff.erase peerId }

end GossipPeers

/-- How it went with a peer to which a gossip round sends. -/
inductive SendEvent where
  | success (peerId : String)
  /-- It was selected at `now`. -/
  | failure (peerId : String) (now read store : ℚ)
deriving DecidableEq, Repr

namespace GossipPeers

/-- A peer is only sent to if it is eligible. -/
def sendStep (p : GossipPeers) : SendEvent → Option GossipPeers
  | .success peerId => some (p.clearBackoff peerId)
  | .failure peerId now read store =>
    if p.eligible now peerId then some (p.applyBackoff read store peerId) else none

end GossipPeers

end GossipRl
