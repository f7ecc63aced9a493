import GossipRl.Gossip.Membership

/-!
# The gossip protocol (`gossip/protocol.py`)

`set_gradients` is called between two awaits of the agent; a call of `handle_message` is a task.
`HandlerPc` says where it is suspended: before `_process_gradient` enters the cache, between that
and `_aggregate_gradients`, or over, with what it has returned. The locks are only waited for where
nothing has been written yet, so a critical section is one step. The callback neither raises nor
calls the protocol; `notified` records its calls.
-/

namespace GossipRl
open Support

structure GradientState (K : Type*) where
  gradients : NdArray K
  indices : Option (List Int)
  modelVersion : Int
  step : Int
  contributors : List String
  timestamp : ℚ

structure GossipProtocol (K : Type*) where
  localPeer : Peer
  membership : MembershipManager
  /-- Whether the callback is given. -/
  onGradientReceived : Bool := false
  sequenceNum : Int := 0
  currentGradients : Option (NdArray K) := none
  currentIndices : Option (List Int) := none
  modelVersion : Int := 0
  step : Int := 0
  gradientCache : Dict String (GradientState K) := .empty
  aggregatedGradients : Option (NdArray K) := none
  messagesReceived : Nat := 0
  gradientsAggregated : Nat := 0
  notified : List (NdArray K × Int × Int) := []

namespace GossipProtocol
variable {K : Type*}

def setGradients (gradients : NdArray K) (indices : Option (List Int)) (modelVersion step : Int)
    (p : GossipProtocol K) : GossipProtocol K :=
  { p with
    currentGradients := some gradients
    currentIndices := indices
    modelVersion := modelVersion
    step := step
    aggregatedGradients := some gradients }

def getAggregatedGradients (p : GossipProtocol K) : NdArray K × Nat :=
  match p.aggregatedGradients with
  | none => (.empty, 0)
  | some gradients => (gradients, p.gradientCache.size + 1)

def nextSequence (p : GossipProtocol K) : Int × GossipProtocol K :=
  (p.sequenceNum + 1, { p with sequenceNum := p.sequenceNum + 1 })

/-- `_handle_pull_gradient`, and the end of `_handle_push_pull_gradient`. -/
def handlePullGradient (p : GossipProtocol K) : GossipMessage K × GossipProtocol K :=
  let (sequence, p) := p.nextSequence
  (.createPushGradient p.localPeer.id sequence (p.currentGradients.getD .empty) p.modelVersion
    p.step p.currentIndices, p)

/-- The message that `_gossip_round` builds once the peers are chosen, as `config.push_pull` says. -/
def gossipMessage (pushPull : Bool) (p : GossipProtocol K) :
    Option (GossipMessage K × GossipProtocol K) :=
  match p.currentGradients with
  | none => none
  | some gradients =>
    let (sequence, p) := p.nextSequence
    if pushPull then
      some (.createPushPullGradient p.localPeer.id sequence gradients p.modelVersion p.step
        p.currentIndices, p)
    else
      some (.createPushGradient p.localPeer.id sequence gradients p.modelVersion p.step
        p.currentIndices, p)

/-- The test of `_process_gradient` for a stale update. -/
def stale (peerId : String) (modelVersion step : Int) (p : GossipProtocol K) : Bool :=
  match p.gradientCache.get? peerId with
  | none => false
  | some cached => cached.step ≥ step && cached.modelVersion ≥ modelVersion

def storeGradient (now : ℚ) (peerId : String) (gradients : NdArray K) (indices : Option (List Int))
    (modelVersion step : Int) (p : GossipProtocol K) : GossipProtocol K :=
  { p with
    gradientCache := p.gradientCache.set peerId
      { gradients := gradients
        indices := indices
        modelVersion := modelVersion
        step := step
        contributors := [peerId]
        timestamp := now } }

/-- The gradients that `_aggregate_gradients` averages, if the local ones are `current`. -/
def allGradients (current : NdArray K) (p : GossipProtocol K) : List (NdArray K) :=
  current :: (p.gradientCache.values.map (·.gradients)).filter (·.shape = current.shape)

def aggregateGradients [Field K] (p : GossipProtocol K) : GossipProtocol K :=
  match p.currentGradients with
  | none => p
  | some current =>
    if p.gradientCache.size = 0 then p
    else
      let all := p.allGradients current
      if all.length > 1 then
        { p with
          aggregatedGradients := some (.mean current.shape all)
          gradientsAggregated := all.length }
      else p

def notify (gradients : NdArray K) (modelVersion step : Int) (p : GossipProtocol K) :
    GossipProtocol K :=
  { p with
    notified := if p.onGradientReceived then p.notified ++ [(gradients, modelVersion, step)]
      else p.notified }

end GossipProtocol

inductive HandlerPc (K : Type*) where
  | membership (msg : MessageHeader)
  | process (msg : GossipMessage K) (gradients : NdArray K)
  | aggregate (msg : GossipMessage K) (gradients : NdArray K)
  | done (reply : Option (GossipMessage K))

namespace HandlerPc
variable {K : Type*}

/-- After `_process_gradient`: a `PUSH_PULL_GRADIENT` is answered. -/
def finish (msg : GossipMessage K) (p : GossipProtocol K) : HandlerPc K × GossipProtocol K :=
  if msg.type = .PUSH_PULL_GRADIENT then
    let (reply, p) := p.handlePullGradient
    (.done (some reply), p)
  else (.done none, p)

/-- `handle_message` up to its first await. -/
def ofMessage (msg : GossipMessage K) (p : GossipProtocol K) : HandlerPc K × GossipProtocol K :=
  let p := { p with messagesReceived := p.messagesReceived + 1 }
  match msg.type with
  | .PING | .PING_REQ | .ACK | .ALIVE | .SUSPECT | .DEAD => (.membership msg.toMessageHeader, p)
  | .PUSH_GRADIENT | .PUSH_PULL_GRADIENT =>
    match msg.gradientData with
    | none => finish msg p
    | some gradients => (.process msg gradients, p)
  | .PULL_GRADIENT =>
    let (reply, p) := p.handlePullGradient
    (.done (some reply), p)
  | _ => (.done none, p)

/-- From one await to the next, at time `now`. -/
def advance [Field K] (now : ℚ) (p : GossipProtocol K) :
    HandlerPc K → Option (HandlerPc K × GossipProtocol K)
  | .membership msg =>
    let (reply, m) := p.membership.handleMessage now msg
    some (.done (reply.map fun header => { toMessageHeader := header }), { p with membership := m })
  | .process msg gradients =>
    if p.stale msg.senderId msg.modelVersion msg.step then some (finish msg p)
    else
      some (.aggregate msg gradients,
        p.storeGradient now msg.senderId gradients msg.indices msg.modelVersion msg.step)
  | .aggregate msg gradients =>
    some (finish msg (p.aggregateGradients.notify gradients msg.modelVersion msg.step))
  | .done _ => none

/-- The handler is over. -/
def isDone : HandlerPc K → Bool
  | .done _ => true
  | _ => false

/-- What the handler has returned. -/
def reply : HandlerPc K → Option (GossipMessage K)
  | .done reply => reply
  | _ => none

end HandlerPc

structure GossipSched (K : Type*) where
  protocol : GossipProtocol K
  tasks : List (HandlerPc K) := []

inductive GossipEvent (K : Type*) where
  | setGradients (gradients : NdArray K) (indices : Option (List Int)) (modelVersion step : Int)
  | receive (msg : GossipMessage K)
  /-- Task `t` goes on. -/
  | resume (t : Nat) (now : ℚ)

namespace GossipSched
variable {K : Type*} [Field K]

/-- A new protocol object. -/
def init (localPeer : Peer) (membership : MembershipManager) (onGradientReceived : Bool) :
    GossipSched K :=
  ⟨{ localPeer := localPeer, membership := membership, onGradientReceived := onGradientReceived },
    []⟩

def step (s : GossipSched K) : GossipEvent K → Option (GossipSched K)
  | .setGradients gradients indices modelVersion step =>
    some { s with protocol := s.protocol.setGradients gradients indices modelVersion step }
  | .receive msg =>
    let (pc, p) := HandlerPc.ofMessage msg s.protocol
    some ⟨p, s.tasks ++ [pc]⟩
  | .resume t now =>
    match s.tasks[t]? with
    | none => none
    | some pc => (pc.advance now s.protocol).map fun r => ⟨r.2, s.tasks.set t r.1⟩

/-- No handler is running. -/
def Quiescent (s : GossipSched K) : Prop := ∀ pc ∈ s.tasks, ∃ reply, pc = .done reply

omit [Field K] in
theorem quiescent_iff {s : GossipSched K} : s.Quiescent ↔ s.tasks.all HandlerPc.isDone = true := by
  rw [List.all_eq_true]
  refine forall₂_congr fun pc _ => ?_
  cases pc <;> simp [HandlerPc.isDone]

omit [Field K] in
theorem Quiescent.filterMap_eq_nil {s : GossipSched K} (h : s.Quiescent) {β : Type*}
    {f : HandlerPc K → Option β} (hf : ∀ reply, f (.done reply) = none) :
    s.tasks.filterMap f = [] := by
  rw [List.filterMap_eq_nil_iff]
  intro pc hpc
  obtain ⟨reply, rfl⟩ := h pc hpc
  exact hf reply

theorem step_resume_iff {s s' : GossipSched K} {t : Nat} {now : ℚ} :
    s.step (.resume t now) = some s' ↔ ∃ pc pc' p, s.tasks[t]? = some pc ∧
      pc.advance now s.protocol = some (pc', p) ∧ s' = ⟨p, s.tasks.set t pc'⟩ := by
  cases ht : s.tasks[t]? with
  | none => simp [step, ht]
  | some pc => simp [step, ht, eq_comm]

end GossipSched

end GossipRl
