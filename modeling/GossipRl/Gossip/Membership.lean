import GossipRl.Gossip.Message
import GossipRl.Gossip.Peer
import GossipRl.Support.Dict

/-!
# The membership manager (`gossip/membership.py`)

Peers are objects: `peers` maps an id to a reference, and `heap` holds the objects, the local peer
and those the application has made among them. A suspicion timer is a number into `timers`, which
keeps every timer ever started; `suspicionTimers` is the code's dictionary of handles. `notified`
records the callbacks that ran. Each definition below is what a coroutine does between two points
where it can be suspended; `GossipRl.Gossip.MembershipTasks` puts them together.
-/

namespace GossipRl
open Support

abbrev Ref := Nat

abbrev TimerId := Nat

structure ProbeState where
  targetId : String
  sequence : Int
  startTime : ℚ
  indirectTargets : List String := []
  acked : Bool := false
deriving DecidableEq, Repr

inductive TimerState where
  | pending
  | fired
  | cancelled
deriving DecidableEq, Repr

structure Timer where
  peerId : String
  timeout : ℚ
  state : TimerState := .pending
deriving DecidableEq, Repr

/-- Cancelling a timer that has already fired has no effect. -/
def Timer.cancel (t : Timer) : Timer :=
  if t.state = .pending then { t with state := .cancelled } else t

/-- A callback that ran, with the id of the peer it was given. -/
inductive Notice where
  | alive (id : String)
  | suspect (id : String)
  | dead (id : String)
deriving DecidableEq, Repr

/-- The arguments of the constructor other than the local peer. -/
structure MembershipConfig where
  probeIntervalMs : Int := 500
  probeTimeoutMs : Int := 200
  indirectProbes : Int := 3
  suspicionMult : Int := 4
  /-- Whether the callbacks are given. -/
  onPeerAlive : Bool := false
  onPeerSuspect : Bool := false
  onPeerDead : Bool := false
deriving DecidableEq, Repr

structure MembershipManager where
  config : MembershipConfig
  localPeer : Ref
  heap : Ref → Peer
  peers : Dict String Ref := .empty
  sequenceNum : Int := 0
  pendingProbes : Dict Int ProbeState := .empty
  updatesQueue : List MessageHeader := []
  suspicionTimers : Dict String TimerId := .empty
  timers : List Timer := []
  notified : List Notice := []

namespace MembershipManager

def setPeer (r : Ref) (p : Peer) (m : MembershipManager) : MembershipManager :=
  { m with heap := Function.update m.heap r p }

/-- `f` on the object stored for `id`, if there is one. -/
def onEntry (id : String) (f : Ref → MembershipManager → MembershipManager)
    (m : MembershipManager) : MembershipManager :=
  match m.peers.get? id with
  | none => m
  | some r => f r m

/-- A callback, if it is given. -/
def notify (given : Bool) (n : Notice) (m : MembershipManager) : MembershipManager :=
  { m with notified := if given then m.notified ++ [n] else m.notified }

def cancelTimer (id : String) (m : MembershipManager) : MembershipManager :=
  { m with
    timers := match m.suspicionTimers.get? id with
      | none => m.timers
      | some τ => m.timers.modify τ Timer.cancel
    suspicionTimers := m.suspicionTimers.erase id }

/-- `timeout` of `_start_suspicion_timer`. -/
def suspicionTimeout (m : MembershipManager) : ℚ :=
  (m.config.probeIntervalMs * m.config.suspicionMult : Int) / 1000

/-- A timer that is already entered for the id is left as it is. -/
def startSuspicionTimer (id : String) (m : MembershipManager) : MembershipManager :=
  if (m.suspicionTimers.get? id).isSome then m
  else
    { m with
      timers := m.timers ++ [{ peerId := id, timeout := m.suspicionTimeout }]
      suspicionTimers := m.suspicionTimers.set id m.timers.length }

def nextSequence (m : MembershipManager) : Int × MembershipManager :=
  (m.sequenceNum + 1, { m with sequenceNum := m.sequenceNum + 1 })

def addPeer (r : Ref) (m : MembershipManager) : Bool × MembershipManager :=
  let id := (m.heap r).id
  match m.peers.get? id with
  | some existing =>
    if (m.heap r).incarnation > (m.heap existing).incarnation then
      (true, { m with peers := m.peers.set id r })
    else (false, m)
  | none => (true, { m with peers := m.peers.set id r })

def removePeer (id : String) (m : MembershipManager) : Option Ref × MembershipManager :=
  match m.peers.get? id with
  | some r => (some r, { m with peers := m.peers.erase id })
  | none => (none, m)

def getAlivePeers (m : MembershipManager) : List Ref :=
  m.peers.values.filter fun r => (m.heap r).isAlive

/-- The candidates of `select_random_peers`. -/
def candidates (exclude : List String) (m : MembershipManager) : List Ref :=
  m.peers.values.filter fun r => (m.heap r).isAlive && !exclude.contains (m.heap r).id

/-- Outcomes of `select_random_peers`: `picks` is one that `random.sample` may give. -/
def Selects (n : Int) (exclude : List String) (picks : List Ref) (m : MembershipManager) : Prop :=
  if ((m.candidates exclude).length : Int) ≤ n then picks = m.candidates exclude
  else 0 ≤ n ∧ picks.Nodup ∧ (picks.length : Int) = n ∧ ∀ r ∈ picks, r ∈ m.candidates exclude

instance (n : Int) (exclude : List String) (picks : List Ref) (m : MembershipManager) :
    Decidable (m.Selects n exclude picks) := by
  unfold Selects; infer_instance

/-- The two ways to a peer's `ALIVE` state end alike: a change stops the timer and is announced. -/
def reviveEntry (now : ℚ) (id : String) (incarnation : Int) (r : Ref) (m : MembershipManager) :
    MembershipManager :=
  let (changed, p) := (m.heap r).markAlive now (some incarnation)
  let m := m.setPeer r p
  if changed then (m.cancelTimer id).notify m.config.onPeerAlive (.alive id) else m

/-- What `_handle_ping` does to the sender's entry. -/
def handlePing (now : ℚ) (msg : MessageHeader) (m : MembershipManager) : MembershipManager :=
  m.onEntry msg.senderId fun r m =>
    m.setPeer r { m.heap r with lastSeen := now, incarnation := msg.incarnation }

/-- The `ACK` that answers `msg`. -/
def ackFor (msg : MessageHeader) (m : MembershipManager) : MessageHeader :=
  .createAck (m.heap m.localPeer).id msg.sequence msg.senderId

/-- First part of `_handle_ack`, for a pending probe. -/
def ackProbe (sequence : Int) (probe : ProbeState) (m : MembershipManager) : MembershipManager :=
  { m with pendingProbes := m.pendingProbes.set sequence { probe with acked := true } }

/-- Second part of `_handle_ack`, under `peer_lock`. -/
def ackPeer (now : ℚ) (msg : MessageHeader) (targetId : String) (latencyMs : ℚ)
    (m : MembershipManager) : MembershipManager :=
  let m := m.onEntry targetId fun r m =>
    (m.setPeer r ((m.heap r).updateLatency latencyMs)).reviveEntry now targetId msg.incarnation r
  { m with pendingProbes := m.pendingProbes.erase msg.sequence }

def handleAlive (now : ℚ) (id : String) (msg : MessageHeader) (m : MembershipManager) :
    MembershipManager :=
  m.onEntry id (reviveEntry now id msg.incarnation)

/-- `_handle_suspect` for another peer. -/
def handleSuspect (id : String) (msg : MessageHeader) (m : MembershipManager) : MembershipManager :=
  m.onEntry id fun r m =>
    let (changed, p) := (m.heap r).markSuspect (some msg.incarnation)
    let m := m.setPeer r p
    if changed then (m.notify m.config.onPeerSuspect (.suspect id)).startSuspicionTimer id else m

def handleDead (id : String) (msg : MessageHeader) (m : MembershipManager) : MembershipManager :=
  m.onEntry id fun r m =>
    let (changed, p) := (m.heap r).markDead (some msg.incarnation)
    let m := m.setPeer r p
    if changed then (m.cancelTimer id).notify m.config.onPeerDead (.dead id) else m

/-- `_handle_suspect` for the local peer, up to the queue: the new incarnation and the message of
`_broadcast_alive`. -/
def refute (msg : MessageHeader) (m : MembershipManager) : MessageHeader × MembershipManager :=
  let p := m.heap m.localPeer
  let p := { p with incarnation := max p.incarnation msg.incarnation + 1 }
  let m := m.setPeer m.localPeer p
  let (sequence, m) := m.nextSequence
  ({ type := .ALIVE
     senderId := p.id
     sequence := sequence
     targetId := p.id
     incarnation := p.incarnation }, m)

def queueUpdate (msg : MessageHeader) (m : MembershipManager) : MembershipManager :=
  { m with updatesQueue := m.updatesQueue ++ [msg] }

/-- First part of `_confirm_dead`: the timer's entry goes. -/
def dropTimer (id : String) (m : MembershipManager) : MembershipManager :=
  { m with suspicionTimers := m.suspicionTimers.erase id }

/-- Second part of `_confirm_dead`, under `peer_lock`. -/
def confirmDead (id : String) (m : MembershipManager) : MembershipManager :=
  m.onEntry id fun r m =>
    if (m.heap r).state = .SUSPECT then
      (m.setPeer r ((m.heap r).markDead none).2).notify m.config.onPeerDead (.dead id)
    else m

/-- First part of `_probe_peer`: the probe that is to be registered. -/
def newProbe (now : ℚ) (target : Ref) (m : MembershipManager) : ProbeState × MembershipManager :=
  let (sequence, m) := m.nextSequence
  ({ targetId := (m.heap target).id, sequence := sequence, startTime := now }, m)

def registerProbe (probe : ProbeState) (m : MembershipManager) : MembershipManager :=
  { m with pendingProbes := m.pendingProbes.set probe.sequence probe }

/-- The test of both probe stages: registered and not acknowledged. -/
def unanswered (sequence : Int) (m : MembershipManager) : Bool :=
  match m.pendingProbes.get? sequence with
  | none => false
  | some probe => !probe.acked

def setIndirectTargets (sequence : Int) (probes : List Ref) (m : MembershipManager) :
    MembershipManager :=
  match m.pendingProbes.get? sequence with
  | none => m
  | some probe =>
    { m with
      pendingProbes := m.pendingProbes.set sequence
        { probe with indirectTargets := probes.map fun r => (m.heap r).id } }

/-- `_suspect_peer` up to the queue; the message to queue, if the entry became suspect. The message
has the incarnation of the probed object, which need not be the stored one. -/
def suspectPeer (target : Ref) (m : MembershipManager) : Option MessageHeader × MembershipManager :=
  let id := (m.heap target).id
  match m.peers.get? id with
  | none => (none, m)
  | some r =>
    let (changed, p) := (m.heap r).markSuspect none
    let m := m.setPeer r p
    if changed then
      let m := (m.notify m.config.onPeerSuspect (.suspect id)).startSuspicionTimer id
      let (sequence, m) := m.nextSequence
      (some {
        type := .SUSPECT
        senderId := (m.heap m.localPeer).id
        sequence := sequence
        targetId := id
        incarnation := (m.heap target).incarnation }, m)
    else (none, m)

def dropProbe (sequence : Int) (m : MembershipManager) : MembershipManager :=
  { m with pendingProbes := m.pendingProbes.erase sequence }

/-- `get_pending_updates`, for a bound that is not negative. -/
def getPendingUpdates (maxUpdates : Nat) (m : MembershipManager) :
    List MessageHeader × MembershipManager :=
  (m.updatesQueue.take maxUpdates,
    { m with updatesQueue := m.updatesQueue.drop maxUpdates })

/-- `_handle_ack` when nothing else runs in between. -/
def handleAck (now : ℚ) (msg : MessageHeader) (m : MembershipManager) : MembershipManager :=
  match m.pendingProbes.get? msg.sequence with
  | none => m
  | some probe =>
    (m.ackProbe msg.sequence probe).ackPeer now msg probe.targetId ((now - probe.startTime) * 1000)

/-- `handle_message` when nothing else runs in between: the answer and the manager after it. -/
def handleMessage (now : ℚ) (msg : MessageHeader) (m : MembershipManager) :
    Option MessageHeader × MembershipManager :=
  match msg.type, msg.targetId with
  | .PING, _ =>
    let m := m.handlePing now msg
    (some (m.ackFor msg), m)
  | .ACK, _ => (none, m.handleAck now msg)
  | .ALIVE, some id => (none, m.handleAlive now id msg)
  | .SUSPECT, some id =>
    if id = (m.heap m.localPeer).id then
      let refuted := m.refute msg
      (none, refuted.2.queueUpdate refuted.1)
    else (none, m.handleSuspect id msg)
  | .DEAD, some id => (none, m.handleDead id msg)
  | _, _ => (none, m)

end MembershipManager

end GossipRl
