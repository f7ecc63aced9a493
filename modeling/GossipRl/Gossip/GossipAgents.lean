import GossipRl.Gossip.NewestWins
import GossipRl.Support.Parties
import Mathlib.Data.Fintype.Basic

/-!
# Agents and what they send

Any number of agents, each with its `GossipProtocol` and the handlers that run on it, take steps in
any order; a gradient message that arrives anywhere has been sent by a gossip round or as the reply
of a handler. Whatever has gradients and is sent by an agent carries its id and the arguments of its
last `set_gradients` (`Speaks`). `Advances` is all that a handler can do to the gradients.
-/

namespace GossipRl
open Support

deriving instance DecidableEq for NdArray, GossipMessage

/-- The arguments of a call of `set_gradients`. -/
structure Contribution (K : Type*) where
  gradients : NdArray K
  indices : Option (List Int) := none
  modelVersion : Int := 0
  step : Int := 0

namespace Contribution
variable {K : Type*}

/-- What an agent sends that has not set any gradients. -/
def unset : Contribution K := { gradients := .empty }

end Contribution

section Carried
variable {K : Type*}

def GradientState.contribution (st : GradientState K) : Contribution K :=
  ⟨st.gradients, st.indices, st.modelVersion, st.step⟩

/-- What a protocol object sends of itself. -/
def GossipProtocol.contribution (p : GossipProtocol K) : Contribution K :=
  ⟨p.currentGradients.getD .empty, p.currentIndices, p.modelVersion, p.step⟩

/-- The message carries the contribution. -/
structure GossipMessage.Carries (c : Contribution K) (msg : GossipMessage K) : Prop where
  gradients : msg.gradientData = some c.gradients
  indices : msg.indices = c.indices
  modelVersion : msg.modelVersion = c.modelVersion
  step : msg.step = c.step

end Carried

inductive GossipAgentEvent (K : Type*) where
  | handle (e : GossipEvent K)
  /-- A gossip round that has chosen peers. -/
  | gossip (pushPull : Bool)

namespace GossipSched
variable {K : Type*} [Field K]

def agentStep (s : GossipSched K) : GossipAgentEvent K → Option (GossipSched K)
  | .handle e => s.step e
  | .gossip pushPull =>
    (s.protocol.gossipMessage pushPull).map fun r => { s with protocol := r.2 }

/-- The messages with gradients that a step sends. -/
def agentSends (s : GossipSched K) : GossipAgentEvent K → List (GossipMessage K)
  | .handle (.setGradients ..) => []
  | .handle (.receive msg) => (HandlerPc.ofMessage msg s.protocol).1.reply.toList
  | .handle (.resume t now) =>
    ((s.tasks[t]?.bind (·.advance now s.protocol)).bind (·.1.reply)).toList
  | .gossip pushPull => ((s.protocol.gossipMessage pushPull).map (·.1)).toList

/-- Messages with gradients arrive only if they have been sent, others at any time. -/
def agentAdmits [DecidableEq K] (sent : List (GossipMessage K)) : GossipAgentEvent K → Bool
  | .handle (.receive msg) => !msg.isGradient || decide (msg ∈ sent)
  | _ => true

def agent (K : Type*) [Field K] [DecidableEq K] :
    Party (GossipSched K) (GossipAgentEvent K) (GossipMessage K) where
  step := agentStep
  sends := agentSends
  admits := agentAdmits

end GossipSched

abbrev GossipAgents (ι K : Type*) := Parties ι (GossipSched K) (GossipMessage K)

/-- New protocol objects. -/
def GossipAgents.start {ι K : Type*} (localPeer : ι → Peer) (membership : ι → MembershipManager)
    (onGradientReceived : ι → Bool) : GossipAgents ι K where
  state i := .init (localPeer i) (membership i) (onGradientReceived i)

/-! ### What an agent sends -/

namespace GossipProtocol
variable {K : Type*} {p p' p'' : GossipProtocol K} {msg : GossipMessage K}

/-- The message, if it has gradients, is the agent's own. -/
def Speaks (p : GossipProtocol K) (msg : GossipMessage K) : Prop :=
  msg.isGradient = true → msg.senderId = p.localPeer.id ∧ msg.Carries p.contribution

/-- What the agent sends of itself is the same. -/
structure SameOwn (p p' : GossipProtocol K) : Prop where
  localPeer : p'.localPeer = p.localPeer
  contribution : p'.contribution = p.contribution

theorem SameOwn.trans (h : p.SameOwn p') (h' : p'.SameOwn p'') : p.SameOwn p'' :=
  ⟨h'.localPeer.trans h.localPeer, h'.contribution.trans h.contribution⟩

theorem SameOwn.speaks (h : p.SameOwn p') (hmsg : p'.Speaks msg) : p.Speaks msg := by
  intro hgradient
  obtain ⟨hsender, hcarries⟩ := hmsg hgradient
  exact ⟨by rw [hsender, h.localPeer], h.contribution ▸ hcarries⟩

theorem speaks_handlePullGradient (p : GossipProtocol K) :
    p.Speaks p.handlePullGradient.1 ∧ p.SameOwn p.handlePullGradient.2 ∧
      p.SameGradients p.handlePullGradient.2 :=
  ⟨fun _ => ⟨rfl, rfl, rfl, rfl, rfl⟩, ⟨rfl, rfl⟩, rfl, rfl, rfl⟩

theorem speaks_gossipMessage {pushPull : Bool} (h : p.gossipMessage pushPull = some (msg, p')) :
    p.Speaks msg ∧ p.SameOwn p' := by
  cases hc : p.currentGradients with
  | none => simp [gossipMessage, hc] at h
  | some current =>
    have hown : p.contribution = ⟨current, p.currentIndices, p.modelVersion, p.step⟩ := by
      rw [contribution, hc]
      rfl
    simp only [gossipMessage, hc] at h
    unfold Speaks
    rw [hown]
    cases pushPull with
    | false =>
      obtain ⟨rfl, rfl⟩ := Prod.mk.inj (Option.some.inj h)
      exact ⟨fun _ => ⟨rfl, rfl, rfl, rfl, rfl⟩, rfl, rfl⟩
    | true =>
      obtain ⟨rfl, rfl⟩ := Prod.mk.inj (Option.some.inj h)
      exact ⟨fun _ => ⟨rfl, rfl, rfl, rfl, rfl⟩, rfl, rfl⟩

theorem sameOwn_aggregateGradients [Field K] (p : GossipProtocol K) :
    p.SameOwn p.aggregateGradients := by
  unfold aggregateGradients
  dsimp only
  repeat' split
  all_goals exact ⟨rfl, rfl⟩

theorem aggregateGradients_cases [Field K] (p : GossipProtocol K) :
    p.aggregateGradients.aggregatedGradients = p.aggregatedGradients ∨
      ∃ current, p.currentGradients = some current ∧ p.aggregateGradients.aggregatedGradients =
        some (.mean current.shape (p.allGradients current)) := by
  cases hc : p.currentGradients with
  | none =>
    left
    simp [aggregateGradients, hc]
  | some current =>
    by_cases hall : p.gradientCache.size ≠ 0 ∧ (p.allGradients current).length > 1
    · exact .inr ⟨current, rfl, aggregateGradients_aggregated hc hall.1 hall.2⟩
    · left
      simp only [aggregateGradients, hc]
      split
      · rfl
      · rename_i hsize
        rw [if_neg fun hlen => hall ⟨hsize, hlen⟩]

theorem sameOwn_notify (gradients : NdArray K) (modelVersion step : Int) (p : GossipProtocol K) :
    p.SameOwn (p.notify gradients modelVersion step) := ⟨rfl, rfl⟩

end GossipProtocol

open GossipProtocol

namespace HandlerPc
variable {K : Type*} {p p' : GossipProtocol K} {pc pc' : HandlerPc K} {msg : GossipMessage K}

/-- A handler that is over, with a reply of the agent's own. -/
def Answered (p : GossipProtocol K) (pc : HandlerPc K) : Prop :=
  ∃ reply, pc = .done reply ∧ ∀ msg, reply = some msg → p.Speaks msg

theorem answered_finish (msg : GossipMessage K) (p : GossipProtocol K) :
    (finish msg p).1.Answered p ∧ p.SameOwn (finish msg p).2 := by
  obtain ⟨hspeaks, hown, -⟩ := p.speaks_handlePullGradient
  unfold finish
  split
  · exact ⟨⟨_, rfl, by rintro m ⟨⟩; exact hspeaks⟩, hown⟩
  · exact ⟨⟨_, rfl, by rintro m ⟨⟩⟩, rfl, rfl⟩

/-- What a call of `handle_message` comes to: it is about to process the gradients of the message, or
has sent nothing but what is the agent's own. -/
structure Begins (msg : GossipMessage K) (p : GossipProtocol K)
    (r : HandlerPc K × GossipProtocol K) : Prop where
  own : p.SameOwn r.2
  process : ∀ m g, r.1 = .process m g →
    m = msg ∧ msg.isGradient = true ∧ msg.gradientData = some g
  reply : ∀ m, r.1.reply = some m → p.Speaks m

theorem begins_of_answered {r : HandlerPc K × GossipProtocol K} (hr : r.1.Answered p)
    (hown : p.SameOwn r.2) : Begins msg p r := by
  obtain ⟨pc, q⟩ := r
  obtain ⟨reply, rfl, hreply⟩ := hr
  exact ⟨hown, by rintro m g ⟨⟩, hreply⟩

theorem begins_ofMessage (msg : GossipMessage K) (p : GossipProtocol K) :
    Begins msg p (ofMessage msg p) := by
  let q : GossipProtocol K := { p with messagesReceived := p.messagesReceived + 1 }
  have hq : p.SameOwn q := ⟨rfl, rfl⟩
  have begins : ∀ {r : HandlerPc K × GossipProtocol K}, r.1.Answered q → q.SameOwn r.2 →
      Begins msg p r := by
    rintro ⟨_, r⟩ ⟨reply, rfl, hreply⟩ hown
    exact begins_of_answered ⟨reply, rfl, fun m hm => hq.speaks (hreply m hm)⟩ (hq.trans hown)
  have hgradient : msg.type = .PUSH_GRADIENT ∨ msg.type = .PUSH_PULL_GRADIENT →
      Begins msg p (ofMessage msg p) := by
    intro htype
    cases hg : msg.gradientData with
    | none =>
      have heq : ofMessage msg p = finish msg q := by
        rcases htype with ht | ht <;> simp [ofMessage, ht, hg, q]
      rw [heq]
      exact begins (answered_finish msg q).1 (answered_finish msg q).2
    | some gradients =>
      have hisGradient : msg.isGradient = true := by
        rcases htype with ht | ht <;> simp [GossipMessage.isGradient, ht, hg]
      rw [ofMessage_gradient hisGradient hg]
      refine ⟨hq, ?_, by rintro m ⟨⟩⟩
      rintro m g ⟨⟩
      exact ⟨rfl, hisGradient, hg⟩
  cases ht : msg.type with
  | PUSH_GRADIENT => exact hgradient (.inl ht)
  | PUSH_PULL_GRADIENT => exact hgradient (.inr ht)
  | PULL_GRADIENT =>
    have heq : ofMessage msg p = (.done (some q.handlePullGradient.1), q.handlePullGradient.2) := by
      simp [ofMessage, ht, q]
    obtain ⟨hspeaks, hown, -⟩ := q.speaks_handlePullGradient
    rw [heq]
    exact begins ⟨_, rfl, by rintro m ⟨⟩; exact hspeaks⟩ hown
  | PING | PING_REQ | ACK | ALIVE | SUSPECT | DEAD =>
    have heq : ofMessage msg p = (.membership msg.toMessageHeader, q) := by simp [ofMessage, ht, q]
    rw [heq]
    exact ⟨hq, by rintro m g ⟨⟩, by rintro m ⟨⟩⟩
  | _ =>
    have heq : ofMessage msg p = (.done none, q) := by simp [ofMessage, ht, q]
    rw [heq]
    exact begins ⟨none, rfl, by rintro m ⟨⟩⟩ ⟨rfl, rfl⟩

/-- What a handler does from one await to the next. -/
inductive Advances [Field K] (now : ℚ) (p : GossipProtocol K) (pc pc' : HandlerPc K)
    (p' : GossipProtocol K) : Prop
  | quiet (same : p.SameGradients p')
  | store (msg : GossipMessage K) (gradients : NdArray K) (at_process : pc = .process msg gradients)
      (stored : p' =
        p.storeGradient now msg.senderId gradients msg.indices msg.modelVersion msg.step)
  | average (same : p.aggregateGradients.SameGradients p')

theorem advances [Field K] {now : ℚ} (h : pc.advance now p = some (pc', p')) :
    Advances now p pc pc' p' ∧ p.SameOwn p' ∧ (∀ m g, pc' ≠ .process m g) ∧
      ∀ m, pc'.reply = some m → p.Speaks m := by
  have finished : ∀ {msg : GossipMessage K} {q : GossipProtocol K}, p.SameOwn q →
      finish msg q = (pc', p') →
      p.SameOwn p' ∧ (∀ m g, pc' ≠ .process m g) ∧ ∀ m, pc'.reply = some m → p.Speaks m := by
    intro msg q hq hfinish
    obtain ⟨hanswered, hown⟩ := answered_finish msg q
    rw [hfinish] at hanswered hown
    obtain ⟨reply, rfl, hreply⟩ := hanswered
    exact ⟨hq.trans hown, by rintro m g ⟨⟩, fun m hm => hq.speaks (hreply m hm)⟩
  cases pc with
  | membership header =>
    obtain ⟨rfl, rfl⟩ := Prod.mk.inj (Option.some.inj h)
    refine ⟨.quiet ⟨rfl, rfl, rfl⟩, ⟨rfl, rfl⟩, by rintro m g ⟨⟩, ?_⟩
    intro m hm hgradient
    obtain ⟨header', -, rfl⟩ := Option.map_eq_some_iff.1 hm
    simp [GossipMessage.isGradient] at hgradient
  | process msg gradients =>
    simp only [advance] at h
    split at h
    · obtain ⟨hsame, -⟩ := finish_same msg p
      rw [Option.some.inj h] at hsame
      exact ⟨.quiet hsame, finished ⟨rfl, rfl⟩ (Option.some.inj h)⟩
    · obtain ⟨rfl, rfl⟩ := Prod.mk.inj (Option.some.inj h)
      exact ⟨.store msg gradients rfl rfl, ⟨rfl, rfl⟩, by rintro m g ⟨⟩, by rintro m ⟨⟩⟩
  | aggregate msg gradients =>
    have hown := (sameOwn_aggregateGradients p).trans
      (sameOwn_notify gradients msg.modelVersion msg.step p.aggregateGradients)
    obtain ⟨hsame, -⟩ := finish_same msg
      (p.aggregateGradients.notify gradients msg.modelVersion msg.step)
    rw [Option.some.inj h] at hsame
    exact ⟨.average ⟨hsame.current, hsame.cache, hsame.aggregated⟩, finished hown (Option.some.inj h)⟩
  | done reply => cases h

end HandlerPc

end GossipRl
