import GossipRl.Gossip.Aggregation
import Mathlib.Logic.Function.Basic

/-!
# Completed exchanges

Where the handlers of two agents do not overlap with others, an exchange is one step: an agent builds
the message of a gossip round, the other one handles it to the end (`handleMessage`, a run of
`GossipSched` by `run_handleMessage`), and its reply, if there is one, is handled too. A node keeps
next to the protocol object what its aggregate is the mean of (`averaged`); `Ok` says that it is.
`Heard` is all that a gradient message can do to a node.
-/

namespace GossipRl
open Support

variable {K : Type*}

namespace GossipProtocol

/-- What `_aggregate_gradients` averages, with the ids of the agents it comes from. -/
def contributions (current : NdArray K) (p : GossipProtocol K) : List (String × NdArray K) :=
  (p.localPeer.id, current) ::
    (p.gradientCache.entries.map fun e => (e.1, e.2.gradients)).filter (·.2.shape = current.shape)

theorem map_contributions (current : NdArray K) (p : GossipProtocol K) :
    (p.contributions current).map Prod.snd = p.allGradients current := by
  simp [contributions, allGradients, Dict.values, List.filter_map, Function.comp_def]

/-- What the aggregate is the mean of after `_aggregate_gradients`. -/
def averagedOver (p : GossipProtocol K) (averaged : List (String × NdArray K)) :
    List (String × NdArray K) :=
  match p.currentGradients with
  | none => averaged
  | some current =>
    if (p.contributions current).length > 1 then p.contributions current else averaged

/-- What an agent sends of itself. -/
structure Offer (K : Type*) where
  id : String
  gradients : NdArray K
  modelVersion : Int
  step : Int

def offer (p : GossipProtocol K) : Offer K :=
  ⟨p.localPeer.id, p.currentGradients.getD .empty, p.modelVersion, p.step⟩

end GossipProtocol

open GossipProtocol

/-- The message carries the gradients of the offer. -/
structure GossipMessage.Brings (o : Offer K) (msg : GossipMessage K) : Prop where
  type : msg.type = .PUSH_GRADIENT ∨ msg.type = .PUSH_PULL_GRADIENT
  sender : msg.senderId = o.id
  gradients : msg.gradientData = some o.gradients
  modelVersion : msg.modelVersion = o.modelVersion
  step : msg.step = o.step

/-- An agent between two handlers. -/
structure GossipNode (K : Type*) where
  protocol : GossipProtocol K
  /-- What `aggregated_gradients` is the mean of. -/
  averaged : List (String × NdArray K)

namespace GossipNode

def setGradients (gradients : NdArray K) (indices : Option (List Int)) (modelVersion step : Int)
    (n : GossipNode K) : GossipNode K where
  protocol := n.protocol.setGradients gradients indices modelVersion step
  averaged := [(n.protocol.localPeer.id, gradients)]

variable [Field K]

/-- A handler goes on, if it is not over. -/
def goOn (now : ℚ) (pc : HandlerPc K) (n : GossipNode K) : HandlerPc K × GossipNode K :=
  match pc.advance now n.protocol with
  | none => (pc, n)
  | some (pc', p) =>
    (pc', ⟨p, match pc with
      | .aggregate .. => n.protocol.averagedOver n.averaged
      | _ => n.averaged⟩)

/-- A call of `handle_message` that no other one overlaps with. -/
def handleMessage (now : ℚ) (msg : GossipMessage K) (n : GossipNode K) :
    Option (GossipMessage K) × GossipNode K :=
  let (pc, p) := HandlerPc.ofMessage msg n.protocol
  let (pc, n) := goOn now pc ⟨p, n.averaged⟩
  let (pc, n) := goOn now pc n
  (pc.reply, n)

end GossipNode

inductive ExchangeEvent (ι K : Type*) where
  | setGradients (i : ι) (gradients : NdArray K) (indices : Option (List Int))
    (modelVersion step : Int)
  /-- Agent `j` handles the message of a gossip round of agent `i` at time `now`, and agent `i` the
  reply at time `later`. -/
  | exchange (i j : ι) (pushPull : Bool) (now later : ℚ)

namespace GossipNode
variable {ι : Type*} [DecidableEq ι] [Field K]

/-- One exchange of the agents `s`. An agent without gradients starts none, and none is with itself. -/
def step (s : ι → GossipNode K) : ExchangeEvent ι K → Option (ι → GossipNode K)
  | .setGradients i gradients indices modelVersion step =>
    some (Function.update s i ((s i).setGradients gradients indices modelVersion step))
  | .exchange i j pushPull now later =>
    if i = j then none
    else
      match (s i).protocol.gossipMessage pushPull with
      | none => none
      | some (msg, p) =>
        let (reply, nodeJ) := (s j).handleMessage now msg
        let nodeI : GossipNode K := { s i with protocol := p }
        let nodeI := match reply with
          | none => nodeI
          | some reply => (nodeI.handleMessage later reply).2
        some (Function.update (Function.update s i nodeI) j nodeJ)

end GossipNode

/-! ### Handlers come to an end -/

namespace GossipProtocol

theorem gossipMessage_brings {p p' : GossipProtocol K} {msg : GossipMessage K} {pushPull : Bool}
    (h : p.gossipMessage pushPull = some (msg, p')) :
    msg.Brings p.offer ∧ p.SameGradients p' ∧ p'.offer = p.offer ∧
      (msg.type = .PUSH_PULL_GRADIENT ↔ pushPull = true) := by
  cases hc : p.currentGradients with
  | none => simp [gossipMessage, hc] at h
  | some current =>
    simp only [gossipMessage, hc] at h
    have hoffer : some p.offer.gradients = some current := by simp [offer, hc]
    cases pushPull with
    | false =>
      obtain ⟨rfl, rfl⟩ := Prod.mk.inj (Option.some.inj h)
      exact ⟨⟨.inl rfl, rfl, hoffer.symm, rfl, rfl⟩, ⟨rfl, rfl, rfl⟩, rfl, by
        simp [GossipMessage.createPushGradient]⟩
    | true =>
      obtain ⟨rfl, rfl⟩ := Prod.mk.inj (Option.some.inj h)
      exact ⟨⟨.inr rfl, rfl, hoffer.symm, rfl, rfl⟩, ⟨rfl, rfl, rfl⟩, rfl, by
        simp [GossipMessage.createPushPullGradient]⟩

variable {p : GossipProtocol K} {current : NdArray K} {averaged : List (String × NdArray K)}

theorem mem_contributions {id : String} {g : NdArray K} (hid : id ≠ p.localPeer.id) : (id, g) ∈ p.contributions current ↔
      ∃ st, p.gradientCache.get? id = some st ∧ st.gradients = g ∧ g.shape = current.shape := by
  have hne : (id, g) ≠ (p.localPeer.id, current) := fun h => hid (congrArg Prod.fst h)
  simp only [contributions, List.mem_cons, hne, false_or, List.mem_filter, List.mem_map,
    Prod.mk.injEq, decide_eq_true_eq, Dict.get?_eq_some_iff]
  constructor
  · rintro ⟨⟨e, he, rfl, rfl⟩, hshape⟩
    exact ⟨e.2, he, rfl, hshape⟩
  · rintro ⟨st, hst, rfl, hshape⟩
    exact ⟨⟨_, hst, rfl, rfl⟩, hshape⟩

theorem one_lt_length_contributions {id : String} {g : NdArray K} (hid : id ≠ p.localPeer.id)
    (h : (id, g) ∈ p.contributions current) : (p.contributions current).length > 1 := by
  have hne : (id, g) ≠ (p.localPeer.id, current) := fun heq => hid (congrArg Prod.fst heq)
  have hrest := (List.mem_cons.1 h).resolve_left hne
  exact Nat.lt_add_of_pos_left (List.length_pos_of_mem hrest)

theorem shape_contributions : ∀ e ∈ p.contributions current, e.2.shape = current.shape := by
  intro e he
  rcases List.mem_cons.1 he with rfl | he
  · rfl
  · simpa using (List.mem_filter.1 he).2

theorem averagedOver_of_some (h : p.currentGradients = some current) : p.averagedOver averaged =
    if (p.contributions current).length > 1 then p.contributions current else averaged := by
  rw [averagedOver, h]

theorem own_mem_averagedOver (h : p.currentGradients = some current)
    (hown : (p.localPeer.id, current) ∈ averaged) :
    (p.localPeer.id, current) ∈ p.averagedOver averaged := by
  rw [averagedOver_of_some h]
  split
  · exact List.mem_cons_self
  · exact hown

theorem shape_averagedOver (h : p.currentGradients = some current)
    (hshape : ∀ e ∈ averaged, e.2.shape = current.shape) :
    ∀ e ∈ p.averagedOver averaged, e.2.shape = current.shape := by
  rw [averagedOver_of_some h]
  split
  · exact shape_contributions
  · exact hshape

theorem mean_averagedOver [Field K] (h : p.currentGradients = some current)
    (hmean : p.aggregatedGradients = some (.mean current.shape (averaged.map Prod.snd))) :
    p.aggregateGradients.aggregatedGradients =
      some (.mean current.shape ((p.averagedOver averaged).map Prod.snd)) := by
  have hlen : (p.contributions current).length = (p.allGradients current).length := by
    rw [← map_contributions, List.length_map]
  rw [averagedOver_of_some h, hlen]
  by_cases hall : (p.allGradients current).length > 1
  · have hsize : p.gradientCache.size ≠ 0 := by
      intro h0
      have hnil := List.length_eq_zero_iff.1 h0
      simp [allGradients, Dict.values, hnil] at hall
    rw [if_pos hall, map_contributions]
    exact aggregateGradients_aggregated h hsize hall
  · rw [if_neg hall, ← hmean]
    simp [aggregateGradients, h, hall]

theorem contributions_congr {p p' : GossipProtocol K} (hoffer : p'.offer = p.offer)
    (hcache : p'.gradientCache = p.gradientCache) (current : NdArray K) :
    p'.contributions current = p.contributions current := by
  have hid : p'.localPeer.id = p.localPeer.id := congrArg Offer.id hoffer
  rw [contributions, contributions, hid, hcache]

theorem averagedOver_congr {p p' : GossipProtocol K} (hoffer : p'.offer = p.offer)
    (hcurrent : p'.currentGradients = p.currentGradients)
    (hcache : p'.gradientCache = p.gradientCache) : p'.averagedOver = p.averagedOver := by
  funext averaged
  cases hc : p.currentGradients with
  | none => rw [averagedOver, averagedOver, hcurrent, hc]
  | some current =>
    rw [averagedOver_of_some hc, averagedOver_of_some (hcurrent.trans hc),
      contributions_congr hoffer hcache]

theorem aggregateGradients_offer [Field K] (p : GossipProtocol K) :
    p.aggregateGradients.offer = p.offer := by
  unfold aggregateGradients
  dsimp only
  repeat' split
  all_goals rfl

end GossipProtocol

namespace HandlerPc
variable {p : GossipProtocol K} {pc pc' : HandlerPc K} {msg : GossipMessage K} {now : ℚ}

theorem finish_offer (msg : GossipMessage K) (p : GossipProtocol K) : ∃ reply p',
    finish msg p = (.done reply, p') ∧ p.SameGradients p' ∧ p'.offer = p.offer ∧
      (∀ m, reply = some m → m.Brings p.offer ∧ m.type = .PUSH_GRADIENT) ∧
      (reply ≠ none ↔ msg.type = .PUSH_PULL_GRADIENT) := by
  unfold finish
  split
  · rename_i htype
    refine ⟨_, _, rfl, ⟨rfl, rfl, rfl⟩, rfl, ?_, by simp [htype]⟩
    rintro m ⟨⟩
    exact ⟨⟨.inl rfl, rfl, rfl, rfl, rfl⟩, rfl⟩
  · rename_i htype
    exact ⟨_, _, rfl, ⟨rfl, rfl, rfl⟩, rfl, by rintro m ⟨⟩, by simp [htype]⟩

/-- How many steps a handler has before it at most. -/
def rank : HandlerPc K → Nat
  | .done _ => 0
  | .membership _ | .aggregate .. => 1
  | .process .. => 2

theorem rank_finish (msg : GossipMessage K) (p : GossipProtocol K) : (finish msg p).1.rank = 0 := by
  unfold finish
  split <;> rfl

theorem rank_ofMessage (msg : GossipMessage K) (p : GossipProtocol K) :
    (ofMessage msg p).1.rank ≤ 2 := by
  unfold ofMessage
  dsimp only
  repeat' split
  all_goals first
    | exact (rank_finish msg _).trans_le (Nat.zero_le _)
    | simp [rank]

theorem rank_advance [Field K] {r : HandlerPc K × GossipProtocol K}
    (h : pc.advance now p = some r) : r.1.rank < pc.rank := by
  cases pc with
  | membership msg =>
    obtain rfl := Option.some.inj h
    exact Nat.one_pos
  | process msg gradients =>
    simp only [advance] at h
    split at h
    · obtain rfl := Option.some.inj h
      rw [rank_finish]
      exact Nat.two_pos
    · obtain rfl := Option.some.inj h
      exact Nat.one_lt_two
  | aggregate msg gradients =>
    obtain rfl := Option.some.inj h
    rw [rank_finish]
    exact Nat.one_pos
  | done reply => cases h

end HandlerPc

namespace GossipNode
variable [Field K] {n : GossipNode K} {pc : HandlerPc K} {now : ℚ}

theorem rank_goOn : (n.goOn now pc).1.rank ≤ pc.rank - 1 := by
  unfold goOn
  split
  · rename_i h
    cases pc with
    | done reply => exact Nat.le_refl _
    | membership msg => cases h
    | aggregate msg gradients => cases h
    | process msg gradients =>
      simp only [HandlerPc.advance] at h
      split at h <;> cases h
  · rename_i h
    exact Nat.le_sub_one_of_lt (HandlerPc.rank_advance h)

theorem run_goOn (now : ℚ) (pc : HandlerPc K) (n : GossipNode K) (tasks : List (HandlerPc K)) :
    ∃ events,
      run GossipSched.step ⟨n.protocol, tasks ++ [pc]⟩ events =
        some ⟨(n.goOn now pc).2.protocol, tasks ++ [(n.goOn now pc).1]⟩ := by
  unfold goOn
  split
  · exact ⟨[], rfl⟩
  · rename_i pc' p h
    refine ⟨[.resume tasks.length now], ?_⟩
    have htask : (tasks ++ [pc])[tasks.length]? = some pc := List.getElem?_concat_length
    have hstep : GossipSched.step ⟨n.protocol, tasks ++ [pc]⟩ (.resume tasks.length now) =
        some ⟨p, tasks ++ [pc']⟩ := by
      refine GossipSched.step_resume_iff.2 ⟨pc, pc', p, htask, h, ?_⟩
      rw [List.set_append_right _ _ (Nat.le_refl _), Nat.sub_self]
      rfl
    rw [run_cons, hstep]
    rfl

/-- `handleMessage` is what the scheduler does with the message while it does nothing else. -/
theorem run_handleMessage (now : ℚ) (msg : GossipMessage K) (n : GossipNode K)
    (tasks : List (HandlerPc K)) : ∃ events pc,
      run GossipSched.step ⟨n.protocol, tasks⟩ (.receive msg :: events) =
        some ⟨(n.handleMessage now msg).2.protocol, tasks ++ [pc]⟩ ∧
      pc = .done (n.handleMessage now msg).1 := by
  let first := HandlerPc.ofMessage msg n.protocol
  let second := goOn now first.1 ⟨first.2, n.averaged⟩
  let last := goOn now second.1 second.2
  obtain ⟨events₁, h₁⟩ := run_goOn now first.1 ⟨first.2, n.averaged⟩ tasks
  obtain ⟨events₂, h₂⟩ := run_goOn now second.1 second.2 tasks
  have hrank : last.1.rank = 0 := by
    have hfirst : first.1.rank ≤ 2 := HandlerPc.rank_ofMessage msg n.protocol
    have hsecond : second.1.rank ≤ first.1.rank - 1 := rank_goOn
    have hlast : last.1.rank ≤ second.1.rank - 1 := rank_goOn
    omega
  refine ⟨events₁ ++ events₂, last.1, ?_, ?_⟩
  · rw [run_cons]
    show run GossipSched.step ⟨first.2, tasks ++ [first.1]⟩ (events₁ ++ events₂) = _
    exact run_append_eq_some.2 ⟨_, h₁, h₂⟩
  · show last.1 = .done last.1.reply
    cases hlast : last.1 with
    | done reply => rfl
    | membership msg => simp [hlast, HandlerPc.rank] at hrank
    | process msg gradients => simp [hlast, HandlerPc.rank] at hrank
    | aggregate msg gradients => simp [hlast, HandlerPc.rank] at hrank

/-! ### What a gradient message does -/

variable {n' : GossipNode K} {o : Offer K} {msg : GossipMessage K} {reply : Option (GossipMessage K)}

/-- What can be told from a node's messages and its aggregate is the same. -/
structure Same (n n' : GossipNode K) : Prop where
  offer : n'.protocol.offer = n.protocol.offer
  gradients : n.protocol.SameGradients n'.protocol
  averaged : n'.averaged = n.averaged

/-- All that a node does with a message that brings `o`: nothing if it is stale, and else cache it and
average over the cache. -/
structure Heard (o : Offer K) (n n' : GossipNode K) : Prop where
  offer : n'.protocol.offer = n.protocol.offer
  current : n'.protocol.currentGradients = n.protocol.currentGradients
  skipped : n.protocol.stale o.id o.modelVersion o.step = true → n.Same n'
  stored : n.protocol.stale o.id o.modelVersion o.step = false → ∃ st : GradientState K,
    st.gradients = o.gradients ∧ st.modelVersion = o.modelVersion ∧ st.step = o.step ∧
      n'.protocol.gradientCache = n.protocol.gradientCache.set o.id st ∧
      n'.averaged = n'.protocol.averagedOver n.averaged ∧
      ∃ p : GossipProtocol K, p.aggregatedGradients = n.protocol.aggregatedGradients ∧
        p.offer = n.protocol.offer ∧ p.aggregateGradients.SameGradients n'.protocol

theorem heard_of_handleMessage (hmsg : msg.Brings o)
    (h : n.handleMessage now msg = (reply, n')) :
    n.Heard o n' ∧ (∀ m, reply = some m → m.Brings n.protocol.offer ∧ m.type = .PUSH_GRADIENT) ∧
      (reply ≠ none ↔ msg.type = .PUSH_PULL_GRADIENT) := by
  have hstart : HandlerPc.ofMessage msg n.protocol = (.process msg o.gradients,
      { n.protocol with messagesReceived := n.protocol.messagesReceived + 1 }) := by
    rcases hmsg.type with ht | ht <;> simp [HandlerPc.ofMessage, ht, hmsg.gradients]
  let p : GossipProtocol K :=
    { n.protocol with messagesReceived := n.protocol.messagesReceived + 1 }
  have hstale : p.stale msg.senderId msg.modelVersion msg.step =
      n.protocol.stale o.id o.modelVersion o.step := by
    rw [hmsg.sender, hmsg.modelVersion, hmsg.step]
    rfl
  simp only [handleMessage, hstart] at h
  cases hs : n.protocol.stale o.id o.modelVersion o.step with
  | true =>
    obtain ⟨r, p', hfinish, hsame, hoffer, hreply, hiff⟩ := HandlerPc.finish_offer msg p
    have hgo : goOn now (.process msg o.gradients) ⟨p, n.averaged⟩ =
        (.done r, ⟨p', n.averaged⟩) := by
      simp [goOn, HandlerPc.advance, hstale, hs, hfinish]
    rw [hgo] at h
    obtain ⟨rfl, rfl⟩ := Prod.mk.inj h
    refine ⟨⟨hoffer, hsame.current, fun _ => ⟨hoffer, ⟨hsame.current, hsame.cache, hsame.aggregated⟩, rfl⟩,
      fun hs' => ?_⟩, hreply, hiff⟩
    rw [hs] at hs'
    cases hs'
  | false =>
    let stored := p.storeGradient now msg.senderId o.gradients msg.indices msg.modelVersion msg.step
    have hgo : goOn now (.process msg o.gradients) ⟨p, n.averaged⟩ =
        (.aggregate msg o.gradients, ⟨stored, n.averaged⟩) := by
      simp [goOn, HandlerPc.advance, hstale, hs, stored]
    obtain ⟨r, p', hfinish, hsame, hoffer, hreply, hiff⟩ := HandlerPc.finish_offer msg
      (stored.aggregateGradients.notify o.gradients msg.modelVersion msg.step)
    have hgo' : goOn now (.aggregate msg o.gradients) ⟨stored, n.averaged⟩ =
        (.done r, ⟨p', stored.averagedOver n.averaged⟩) := by
      simp [goOn, HandlerPc.advance, hfinish]
    rw [hgo, hgo'] at h
    obtain ⟨rfl, rfl⟩ := Prod.mk.inj h
    have hoffer' : p'.offer = stored.offer := hoffer.trans (aggregateGradients_offer stored)
    have hcurrent : p'.currentGradients = stored.currentGradients :=
      hsame.current.trans aggregateGradients_current
    have hcache : p'.gradientCache = stored.gradientCache :=
      hsame.cache.trans aggregateGradients_cache
    refine ⟨⟨hoffer', hcurrent, fun hs' => ?_, fun _ => ?_⟩, ?_, hiff⟩
    · rw [hs] at hs'
      cases hs'
    · let st : GradientState K := ⟨o.gradients, msg.indices, msg.modelVersion, msg.step,
        [msg.senderId], now⟩
      refine ⟨st, rfl, hmsg.modelVersion, hmsg.step, ?_, ?_, stored, rfl, rfl, hsame.current,
        hsame.cache, hsame.aggregated⟩
      · rw [← hmsg.sender]
        exact hcache
      · rw [averagedOver_congr hoffer' hcurrent hcache]
    · intro m hm
      have hbrings := hreply m hm
      exact ⟨by rw [← hoffer, hoffer'] at hbrings; exact hbrings.1, hbrings.2⟩

theorem Heard.congr_left {m : GossipNode K} (hm : n.Same m) (h : m.Heard o n') : n.Heard o n' := by
  have hstale : m.protocol.stale o.id o.modelVersion o.step =
      n.protocol.stale o.id o.modelVersion o.step := by
    simp only [stale, hm.gradients.cache]
  refine ⟨h.offer.trans hm.offer, h.current.trans hm.gradients.current, fun hs => ?_, fun hs => ?_⟩
  · have hsame := h.skipped (hstale.trans hs)
    exact ⟨hsame.offer.trans hm.offer, hm.gradients.trans hsame.gradients,
      hsame.averaged.trans hm.averaged⟩
  · obtain ⟨st, hg, hversion, hstep, hcache, haveraged, p, hp, hoffer, hsame⟩ :=
      h.stored (hstale.trans hs)
    refine ⟨st, hg, hversion, hstep, hm.gradients.cache ▸ hcache, hm.averaged ▸ haveraged, p,
      hp.trans hm.gradients.aggregated, hoffer.trans hm.offer, hsame⟩

variable {ι : Type*} [DecidableEq ι] {s s' : ι → GossipNode K} {i j : ι} {pushPull : Bool}
  {later : ℚ}

/-- An exchange: the message of a gossip round is heard and, if it asks for one, the reply. -/
theorem step_exchange (h : step s (.exchange i j pushPull now later) = some s') :
    i ≠ j ∧ (s j).Heard (s i).protocol.offer (s' j) ∧
      (pushPull = true → (s i).Heard (s j).protocol.offer (s' i)) ∧
      (pushPull = false → (s i).Same (s' i)) ∧ ∀ k, k ≠ i → k ≠ j → s' k = s k := by
  simp only [step] at h
  split at h
  · cases h
  · rename_i hij
    split at h
    · cases h
    · rename_i msg p hmsg
      obtain ⟨hbrings, hsame, hoffer, htype⟩ := gossipMessage_brings hmsg
      have hnode : (s i).Same { s i with protocol := p } := ⟨hoffer, hsame, rfl⟩
      rcases hj : (s j).handleMessage now msg with ⟨reply, nodeJ⟩
      obtain ⟨hheard, hreply, hiff⟩ := heard_of_handleMessage hbrings hj
      rw [hj] at h
      obtain rfl := Option.some.inj h
      refine ⟨hij, ?_, ?_, ?_, fun k hki hkj => ?_⟩
      · rw [Function.update_self]
        exact hheard
      · intro hpp
        rw [Function.update_of_ne hij, Function.update_self]
        cases reply with
        | none => exact absurd rfl (hiff.2 (htype.2 hpp))
        | some reply =>
          exact (heard_of_handleMessage (hreply reply rfl).1 rfl).1.congr_left hnode
      · intro hpp
        rw [Function.update_of_ne hij, Function.update_self]
        cases reply with
        | none => exact hnode
        | some reply =>
          have := htype.1 (hiff.1 (Option.some_ne_none _))
          rw [hpp] at this
          cases this
      · rw [Function.update_of_ne hkj, Function.update_of_ne hki]

end GossipNode
end GossipRl
