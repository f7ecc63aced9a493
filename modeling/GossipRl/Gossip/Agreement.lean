import GossipRl.Gossip.Aggregation
import GossipRl.Gossip.Network
import Mathlib.Data.List.FinRange
import Mathlib.Data.List.Nodup

/-!
# Agreement after a full exchange

The local gradients do not change, so whatever an agent caches of another is what that one started
with, and a message that is stale brings nothing new. An agent that has handled a message of every
other agent has cached all of them. A handler averages after it has stored, so between handlers the
aggregate is the mean over the whole cache.
-/

namespace GossipRl
open Support

variable {N : Nat} {K : Type*} {members : Fin N → Member K} {i j : Fin N}

/-- The agent has its own gradients. -/
structure GossipProtocol.Of (members : Fin N → Member K) (i : Fin N) (p : GossipProtocol K) :
    Prop where
  id : p.localPeer.id = (members i).localPeer.id
  current : p.currentGradients = some (members i).gradients

/-- The message brings the gradients of agent `i`. -/
structure GossipMessage.From (members : Fin N → Member K) (i : Fin N) (msg : GossipMessage K) :
    Prop where
  type : msg.type = .PUSH_GRADIENT ∨ msg.type = .PUSH_PULL_GRADIENT
  sender : msg.senderId = (members i).localPeer.id
  gradients : msg.gradientData = some (members i).gradients

namespace GossipProtocol
variable {p p' : GossipProtocol K} {msg : GossipMessage K}

theorem gossipMessage_of (hp : p.Of members i) {pushPull : Bool}
    (h : p.gossipMessage pushPull = some (msg, p')) :
    msg.From members i ∧ p.SameGradients p' ∧ p'.localPeer = p.localPeer := by
  obtain ⟨htype, hsender, hgradients, hsame, hpeer⟩ := gossipMessage_spec h
  exact ⟨⟨htype, hsender.trans hp.id, hgradients.trans hp.current⟩, hsame, hpeer⟩

theorem aggregateGradients_localPeer [Field K] (p : GossipProtocol K) :
    p.aggregateGradients.localPeer = p.localPeer := by
  unfold aggregateGradients
  dsimp only
  repeat' split
  all_goals rfl

end GossipProtocol

namespace HandlerPc
variable {p : GossipProtocol K} {msg : GossipMessage K}

theorem finish_of (hp : p.Of members i) (msg : GossipMessage K) :
    ∃ reply p', finish msg p = (.done reply, p') ∧ p.SameGradients p' ∧
      p'.localPeer = p.localPeer ∧ ∀ m, reply = some m → m.From members i := by
  unfold finish
  split
  · refine ⟨_, _, rfl, ⟨rfl, rfl, rfl⟩, rfl, ?_⟩
    rintro m ⟨⟩
    refine ⟨.inl rfl, hp.id, ?_⟩
    simp [GossipMessage.createPushGradient, hp.current]
  · exact ⟨_, _, rfl, ⟨rfl, rfl, rfl⟩, rfl, by rintro m ⟨⟩⟩

theorem ofMessage_from (hmsg : msg.From members j) (p : GossipProtocol K) :
    ofMessage msg p = (.process msg (members j).gradients,
      { p with messagesReceived := p.messagesReceived + 1 }) := by
  rcases hmsg.type with ht | ht <;> simp [ofMessage, ht, hmsg.gradients]

/-- The handler goes on with the gradients of another agent. -/
def CarriesOf (members : Fin N → Member K) (i : Fin N) : HandlerPc K → Prop
  | .membership _ => False
  | .process msg gradients | .aggregate msg gradients =>
    ∃ j ≠ i, msg.senderId = (members j).localPeer.id ∧ gradients = (members j).gradients
  | .done _ => True

/-- The handler is about to enter the cache for agent `j`. -/
def Brings (members : Fin N → Member K) (j : Fin N) (pc : HandlerPc K) : Prop :=
  ∃ msg gradients, pc = .process msg gradients ∧ msg.senderId = (members j).localPeer.id

end HandlerPc

namespace GossipSched
open GossipProtocol
variable [Field K] {s s' : GossipSched K} {heard : Fin N → Prop}

/-- Agent `i` has received messages of the agents in `heard`. -/
structure Exchange (members : Fin N → Member K) (i : Fin N) (heard : Fin N → Prop)
    (s : GossipSched K) : Prop where
  of : s.protocol.Of members i
  carries : ∀ pc ∈ s.tasks, pc.CarriesOf members i
  cached : ∀ k st, s.protocol.gradientCache.get? k = some st →
    ∃ j ≠ i, k = (members j).localPeer.id ∧ st.gradients = (members j).gradients
  heard : ∀ j, heard j → s.protocol.gradientCache.get? (members j).localPeer.id ≠ none ∨
    ∃ pc ∈ s.tasks, pc.Brings members j
  stored : (∃ pc ∈ s.tasks, pc.Averages) → s.protocol.gradientCache.size ≠ 0
  averaged : (∃ pc ∈ s.tasks, pc.Averages) ∨ s.protocol.gradientCache.size = 0 ∨
    s.protocol.aggregatedGradients = some
      (.mean (members i).gradients.shape (s.protocol.allGradients (members i).gradients))

namespace Exchange
variable {p : GossipProtocol K} {pc pc' : HandlerPc K} {msg : GossipMessage K} {t : Nat} {now : ℚ}

theorem shapesAgree (hshape : ∀ j k, (members j).gradients.shape = (members k).gradients.shape)
    (hs : Exchange members i heard s) : s.protocol.ShapesAgree (members i).gradients := by
  intro st hst
  obtain ⟨e, he, rfl⟩ := List.mem_map.1 hst
  obtain ⟨j, -, -, hgradients⟩ := hs.cached e.1 e.2 (Dict.get?_eq_some_iff.2 he)
  rw [hgradients, hshape j i]

theorem mono {heard' : Fin N → Prop} (hs : Exchange members i heard s) (h : ∀ j, heard' j → heard j) :
    Exchange members i heard' s :=
  { hs with heard := fun j hj => hs.heard j (h j hj) }

theorem of_same (hs : Exchange members i heard s) (hsame : s.protocol.SameGradients p)
    (hpeer : p.localPeer = s.protocol.localPeer) :
    Exchange members i heard { s with protocol := p } := {
  of := ⟨by rw [hpeer, hs.of.id], by rw [hsame.current, hs.of.current]⟩
  carries := hs.carries
  cached := by rw [hsame.cache]; exact hs.cached
  heard := by rw [hsame.cache]; exact hs.heard
  stored := by rw [hsame.cache]; exact hs.stored
  averaged := by rw [hsame.cache, hsame.aggregated, hsame.allGradients]; exact hs.averaged }

theorem receive (hs : Exchange members i heard s) (hmsg : msg.From members j) (hj : j ≠ i)
    (h : s.step (.receive msg) = some s') :
    Exchange members i (fun k => heard k ∨ k = j) s' := by
  rw [step, HandlerPc.ofMessage_from hmsg] at h
  obtain rfl := Option.some.inj h
  have havg : (∃ pc ∈ s.tasks ++ [HandlerPc.process msg (members j).gradients], pc.Averages) ↔
      ∃ pc ∈ s.tasks, pc.Averages := by
    simp [HandlerPc.Averages]
  exact {
    of := ⟨hs.of.id, hs.of.current⟩
    carries := by
      intro pc hpc
      rcases List.mem_append.1 hpc with hpc | hpc
      · exact hs.carries pc hpc
      · obtain rfl := List.mem_singleton.1 hpc
        exact ⟨j, hj, hmsg.sender, rfl⟩
    cached := hs.cached
    heard := by
      rintro k (hk | rfl)
      · rcases hs.heard k hk with hk | ⟨pc, hpc, hbrings⟩
        · exact .inl hk
        · exact .inr ⟨pc, List.mem_append_left _ hpc, hbrings⟩
      · exact .inr ⟨_, List.mem_append_right _ (List.mem_singleton_self _), msg, _, rfl, hmsg.sender⟩
    stored := by rw [havg]; exact hs.stored
    averaged := by rw [havg]; exact hs.averaged }

/-- The task that goes on brings what is cached now, so nothing that was heard is lost. -/
theorem heard_set (hs : Exchange members i heard s) (ht : s.tasks[t]? = some pc)
    (hcache : ∀ k, s.protocol.gradientCache.get? k ≠ none → p.gradientCache.get? k ≠ none)
    (hpc : ∀ j, pc.Brings members j → p.gradientCache.get? (members j).localPeer.id ≠ none) (pc') :
    ∀ j, heard j → p.gradientCache.get? (members j).localPeer.id ≠ none ∨
      ∃ pc₁ ∈ s.tasks.set t pc', pc₁.Brings members j := by
  intro j hj
  rcases hs.heard j hj with hget | ⟨pc₁, hmem, hbrings⟩
  · exact .inl (hcache _ hget)
  · by_cases heq : pc₁ = pc
    · exact .inl (hpc j (heq ▸ hbrings))
    · exact .inr ⟨pc₁, mem_set_of_ne hmem ht heq, hbrings⟩

theorem skip (hs : Exchange members i heard s) {gradients : NdArray K}
    (ht : s.tasks[t]? = some (.process msg gradients))
    (hstale : s.protocol.stale msg.senderId msg.modelVersion msg.step = true)
    (hsame : s.protocol.SameGradients p) (hpeer : p.localPeer = s.protocol.localPeer)
    (reply : Option (GossipMessage K)) :
    Exchange members i heard ⟨p, s.tasks.set t (.done reply)⟩ := by
  have hget : s.protocol.gradientCache.get? msg.senderId ≠ none := by
    intro hnone
    simp [stale, hnone] at hstale
  have havg : (∃ pc ∈ s.tasks.set t (.done reply), pc.Averages) ↔ ∃ pc ∈ s.tasks, pc.Averages := by
    constructor
    · rintro ⟨pc, hpc, hav⟩
      rcases List.mem_or_eq_of_mem_set hpc with hpc | rfl
      · exact ⟨pc, hpc, hav⟩
      · obtain ⟨_, _, heq⟩ := hav
        cases heq
    · rintro ⟨pc, hpc, hav⟩
      refine ⟨pc, mem_set_of_ne hpc ht ?_, hav⟩
      rintro rfl
      obtain ⟨_, _, heq⟩ := hav
      cases heq
  have hs' := hs.of_same hsame hpeer
  exact {
    of := hs'.of
    carries := forall_mem_set hs.carries trivial
    cached := hs'.cached
    heard := by
      refine hs.heard_set ht (fun k hk => by rwa [hsame.cache]) ?_ _
      rintro j ⟨_, _, ⟨⟩, hsender⟩
      rwa [hsame.cache, ← hsender]
    stored := by rw [havg]; exact hs'.stored
    averaged := by rw [havg]; exact hs'.averaged }

theorem store (hs : Exchange members i heard s) {gradients : NdArray K}
    (ht : s.tasks[t]? = some (.process msg gradients)) :
    Exchange members i heard
      ⟨s.protocol.storeGradient now msg.senderId gradients msg.indices msg.modelVersion msg.step,
        s.tasks.set t (.aggregate msg gradients)⟩ := by
  have hpc := hs.carries _ (List.mem_of_getElem? ht)
  have havg : ∃ pc ∈ s.tasks.set t (.aggregate msg gradients), pc.Averages :=
    ⟨_, List.mem_set (List.getElem?_eq_some_iff.1 ht).1 _, msg, gradients, rfl⟩
  exact {
    of := ⟨hs.of.id, hs.of.current⟩
    carries := forall_mem_set hs.carries hpc
    cached := by
      intro k st hget
      rcases Dict.get?_set_eq_some_iff.1 hget with ⟨hk, rfl⟩ | ⟨-, hget⟩
      · obtain ⟨j, hj, hsender, hgradients⟩ := hpc
        exact ⟨j, hj, hk.trans hsender, hgradients⟩
      · exact hs.cached k st hget
    heard := by
      refine hs.heard_set ht (fun k hk => ?_) ?_ _
      · rw [storeGradient, Dict.get?_set]
        split
        · exact Option.some_ne_none _
        · exact hk
      · rintro j ⟨_, _, ⟨⟩, hsender⟩
        rw [storeGradient, hsender, Dict.get?_set_self]
        exact Option.some_ne_none _
    stored := fun _ => mt List.length_eq_zero_iff.1 (Dict.entries_set_ne_nil _ _ _)
    averaged := .inl havg }

theorem average (hshape : ∀ j k, (members j).gradients.shape = (members k).gradients.shape)
    (hs : Exchange members i heard s) {gradients : NdArray K}
    (ht : s.tasks[t]? = some (.aggregate msg gradients))
    (hsame : s.protocol.aggregateGradients.SameGradients p)
    (hpeer : p.localPeer = s.protocol.localPeer) (reply : Option (GossipMessage K)) :
    Exchange members i heard ⟨p, s.tasks.set t (.done reply)⟩ := by
  have hsize := hs.stored ⟨_, List.mem_of_getElem? ht, msg, gradients, rfl⟩
  have hcurrent : p.currentGradients = s.protocol.currentGradients :=
    hsame.current.trans aggregateGradients_current
  have hcache : p.gradientCache = s.protocol.gradientCache :=
    hsame.cache.trans aggregateGradients_cache
  have hall : (s.protocol.allGradients (members i).gradients).length > 1 := by
    rw [length_allGradients_eq_iff.2 (hs.shapesAgree hshape)]
    omega
  exact {
    of := ⟨by rw [hpeer, hs.of.id], by rw [hcurrent, hs.of.current]⟩
    carries := forall_mem_set hs.carries trivial
    cached := by rw [hcache]; exact hs.cached
    heard := by
      refine hs.heard_set ht (fun k hk => by rwa [hcache]) ?_ _
      rintro j ⟨_, _, heq, -⟩
      cases heq
    stored := fun _ => by rwa [hcache]
    averaged := by
      refine .inr (.inr ?_)
      rw [hsame.aggregated, aggregateGradients_aggregated hs.of.current hsize hall, allGradients,
        allGradients, hcache] }

theorem resume (hshape : ∀ j k, (members j).gradients.shape = (members k).gradients.shape)
    (hs : Exchange members i heard s) (h : s.step (.resume t now) = some s') :
    Exchange members i heard s' ∧
      ∀ reply, s'.tasks[t]?.bind HandlerPc.reply = some reply → reply.From members i := by
  obtain ⟨pc, pc', p, ht, hadv, rfl⟩ := step_resume_iff.1 h
  have hnew : (s.tasks.set t pc')[t]? = some pc' :=
    List.getElem?_set_self (List.getElem?_eq_some_iff.1 ht).1
  simp only [hnew, Option.bind_some]
  cases pc with
  | membership msg => exact absurd (hs.carries _ (List.mem_of_getElem? ht)) not_false
  | process msg gradients =>
    simp only [HandlerPc.advance] at hadv
    split at hadv
    · rename_i hstale
      obtain ⟨reply, p', hfinish, hsame, hpeer, hreply⟩ := HandlerPc.finish_of hs.of msg
      rw [hfinish] at hadv
      obtain ⟨rfl, rfl⟩ := Prod.mk.inj (Option.some.inj hadv)
      exact ⟨hs.skip ht hstale hsame hpeer reply, hreply⟩
    · obtain ⟨rfl, rfl⟩ := Prod.mk.inj (Option.some.inj hadv)
      exact ⟨hs.store ht, by rintro reply ⟨⟩⟩
  | aggregate msg gradients =>
    have hof : (s.protocol.aggregateGradients.notify gradients msg.modelVersion msg.step).Of
        members i := by
      refine ⟨?_, aggregateGradients_current.trans hs.of.current⟩
      rw [notify, aggregateGradients_localPeer, hs.of.id]
    obtain ⟨reply, p', hfinish, hsame, hpeer, hreply⟩ := HandlerPc.finish_of hof msg
    simp only [HandlerPc.advance, hfinish] at hadv
    obtain ⟨rfl, rfl⟩ := Prod.mk.inj (Option.some.inj hadv)
    have hpeer : p'.localPeer = s.protocol.localPeer :=
      hpeer.trans (aggregateGradients_localPeer s.protocol)
    exact ⟨hs.average hshape ht ⟨hsame.current, hsame.cache, hsame.aggregated⟩ hpeer reply, hreply⟩
  | done reply => cases hadv

/-- Everything another agent has can be found in the cache, once all have been heard. -/
theorem cached_perm (hids : Function.Injective fun j => (members j).localPeer.id)
    (hs : Exchange members i heard s) (hheard : ∀ j ≠ i, heard j)
    (hnone : ∀ pc ∈ s.tasks, ∀ j, ¬ pc.Brings members j) :
    (s.protocol.gradientCache.values.map (·.gradients)).Perm
      (((List.finRange N).filter (· ≠ i)).map fun j => (members j).gradients) := by
  have : Nonempty (Fin N) := ⟨i⟩
  let agent := Function.invFun fun j => (members j).localPeer.id
  have hagent : ∀ j, agent (members j).localPeer.id = j := Function.leftInverse_invFun hids
  have hgradients : s.protocol.gradientCache.values.map (·.gradients) =
      ((s.protocol.gradientCache.entries.map Prod.fst).map agent).map
        fun j => (members j).gradients := by
    simp only [Dict.values, List.map_map]
    refine List.map_congr_left fun e he => ?_
    obtain ⟨j, -, hk, hst⟩ := hs.cached e.1 e.2 (Dict.get?_eq_some_iff.2 he)
    simp [hk, hst, hagent]
  rw [hgradients]
  refine List.Perm.map _ ?_
  have hkeys : ∀ k ∈ s.protocol.gradientCache.entries.map Prod.fst,
      ∃ j ≠ i, k = (members j).localPeer.id := by
    intro k hk
    obtain ⟨e, he, rfl⟩ := List.mem_map.1 hk
    obtain ⟨j, hj, hk, -⟩ := hs.cached e.1 e.2 (Dict.get?_eq_some_iff.2 he)
    exact ⟨j, hj, hk⟩
  have hnodup : ((s.protocol.gradientCache.entries.map Prod.fst).map agent).Nodup := by
    refine s.protocol.gradientCache.nodup.map_on ?_
    intro k hk k' hk' heq
    obtain ⟨j, -, rfl⟩ := hkeys k hk
    obtain ⟨j', -, rfl⟩ := hkeys k' hk'
    rw [hagent, hagent] at heq
    rw [heq]
  refine (List.perm_ext_iff_of_nodup hnodup ((List.nodup_finRange N).filter _)).2 fun j => ?_
  constructor
  · intro hj
    obtain ⟨k, hk, rfl⟩ := List.mem_map.1 hj
    obtain ⟨j', hj', rfl⟩ := hkeys k hk
    simpa [hagent] using hj'
  · intro hj
    have hj : j ≠ i := by simpa using hj
    have hget := (hs.heard j (hheard j hj)).resolve_right (by
      rintro ⟨pc, hpc, hbrings⟩
      exact hnone pc hpc j hbrings)
    obtain ⟨st, hst⟩ := Option.ne_none_iff_exists'.1 hget
    refine List.mem_map.2 ⟨_, List.mem_map.2 ⟨_, Dict.get?_eq_some_iff.1 hst, rfl⟩, hagent j⟩

theorem aggregated (hN : 2 ≤ N) (hids : Function.Injective fun j => (members j).localPeer.id)
    (hshape : ∀ j k, (members j).gradients.shape = (members k).gradients.shape)
    (hs : Exchange members i heard s) (hheard : ∀ j ≠ i, heard j) (hquiet : s.Quiescent) :
    s.protocol.getAggregatedGradients =
      (.mean (members i).gradients.shape (List.ofFn fun j => (members j).gradients), N) := by
  have hnone : ∀ pc ∈ s.tasks, ∀ j, ¬ pc.Brings members j := by
    rintro pc hpc j ⟨_, _, rfl, -⟩
    obtain ⟨_, heq⟩ := hquiet _ hpc
    cases heq
  have hav : ¬ ∃ pc ∈ s.tasks, pc.Averages := by
    rintro ⟨pc, hpc, _, _, rfl⟩
    obtain ⟨_, heq⟩ := hquiet _ hpc
    cases heq
  have hperm : ((members i).gradients ::
      s.protocol.gradientCache.values.map (·.gradients)).Perm
        (List.ofFn fun j => (members j).gradients) := by
    have hfin : (i :: (List.finRange N).filter (· ≠ i)).Perm (List.finRange N) := by
      refine (List.perm_ext_iff_of_nodup ?_ (List.nodup_finRange N)).2 fun j => ?_
      · exact List.nodup_cons.2 ⟨by simp, (List.nodup_finRange N).filter _⟩
      · simpa using em (j = i)
    rw [List.ofFn_eq_map]
    refine List.Perm.trans ?_ (hfin.map _)
    exact (hs.cached_perm hids hheard hnone).cons _
  have hsize : s.protocol.gradientCache.size + 1 = N := by
    have := hperm.length_eq
    simpa [Dict.size, Dict.values] using this
  have hmean := (hs.averaged.resolve_left hav).resolve_left (by omega)
  rw [allGradients_of_shapesAgree (hs.shapesAgree hshape), NdArray.mean_perm _ hperm] at hmean
  rw [getAggregatedGradients, hmean]
  exact Prod.ext rfl hsize

end Exchange

end GossipSched

namespace Network
open GossipSched
variable [Field K] {s s' : Network N K} {events : List (NetworkEvent N)}

/-- What holds along every run: each agent has received what the receptions say, and a message brings
the gradients of the agent that built it. -/
structure Inv (members : Fin N → Member K) (events : List (NetworkEvent N)) (s : Network N K) :
    Prop where
  agents : ∀ i, (s.agents i).Exchange members i fun j => (i, j) ∈ receptions (start members) events
  built : ∀ m ∈ s.built, m.2.From members m.1

theorem receptions_concat {s₀ : Network N K} (hrun : run step s₀ events = some s)
    (e : NetworkEvent N) :
    receptions s₀ (events ++ [e]) = receptions s₀ events ++ (s.reception e).toList :=
  observe_concat hrun

theorem Inv.step (hshape : ∀ j k, (members j).gradients.shape = (members k).gradients.shape)
    {e : NetworkEvent N} (hrun : run Network.step (start members) events = some s)
    (hs : Inv members events s) (h : s.step e = some s') : Inv members (events ++ [e]) s' := by
  have hreceptions := receptions_concat hrun e
  cases e with
  | gossip i pushPull =>
    obtain ⟨⟨msg, p⟩, hmsg, rfl⟩ := Option.map_eq_some_iff.1 h
    obtain ⟨hfrom, hsame, hpeer⟩ := GossipProtocol.gossipMessage_of (hs.agents i).of hmsg
    simp only [reception, Option.toList_none, List.append_nil] at hreceptions
    constructor
    · rw [hreceptions]
      refine (Function.forall_update_iff _ fun j a => Exchange members j _ a).2 ⟨?_, ?_⟩
      · exact (hs.agents i).of_same hsame hpeer
      · exact fun j _ => hs.agents j
    · intro m hm
      rcases List.mem_append.1 hm with hm | hm
      · exact hs.built m hm
      · obtain rfl := List.mem_singleton.1 hm
        exact hfrom
  | deliver k i =>
    simp only [Network.step] at h
    cases hk : s.built[k]? with
    | none => simp [hk] at h
    | some m =>
      obtain ⟨j, msg⟩ := m
      simp only [hk] at h
      simp only [reception, hk] at hreceptions
      split at h
      · cases h
      · rename_i hne
        obtain ⟨a, ha, rfl⟩ := Option.map_eq_some_iff.1 h
        have hfrom := hs.built _ (List.mem_of_getElem? hk)
        refine ⟨?_, hs.built⟩
        rw [hreceptions]
        refine (Function.forall_update_iff _ fun j a => Exchange members j _ a).2 ⟨?_, ?_⟩
        · refine ((hs.agents i).receive hfrom hne ha).mono ?_
          simp
        · intro j' hj'
          refine (hs.agents j').mono ?_
          simp [hj']
  | resume i t now =>
    obtain ⟨a, ha, rfl⟩ := Option.map_eq_some_iff.1 h
    obtain ⟨hagent, hreply⟩ := (hs.agents i).resume hshape ha
    simp only [reception, Option.toList_none, List.append_nil] at hreceptions
    constructor
    · rw [hreceptions]
      refine (Function.forall_update_iff _ fun j a => Exchange members j _ a).2 ⟨hagent, ?_⟩
      exact fun j _ => hs.agents j
    · intro m hm
      rcases List.mem_append.1 hm with hm | hm
      · exact hs.built m hm
      · obtain ⟨msg, hmsg, rfl⟩ := List.mem_map.1 hm
        exact hreply msg (Option.mem_toList.1 hmsg)

theorem inv_run (hshape : ∀ j k, (members j).gradients.shape = (members k).gradients.shape)
    (hrun : run step (start members) events = some s) : Inv members events s := by
  have nil : Inv members [] (start members) := {
    agents := fun i => {
      of := ⟨rfl, rfl⟩
      carries := by
        intro pc hpc
        cases hpc
      cached := by
        intro k st hget
        cases hget
      heard := by
        intro j hj
        cases hj
      stored := by
        rintro ⟨pc, hpc, -⟩
        cases hpc
      averaged := .inr (.inl rfl) }
    built := by
      intro m hm
      cases hm }
  refine run_induction (motive := Inv members) nil ?_ .unconditional hrun
  intro es s e s' hes hs _ hstep
  exact hs.step hshape hes hstep

end Network

open Network

/-- Once every agent has received a message of every other one and no handler is running, all have
the mean of all local gradients. -/
theorem agreement_after_full_exchange [Field K] (hN : 2 ≤ N)
    (hids : Function.Injective fun i => (members i).localPeer.id) {shape : List Nat}
    (hshape : ∀ i, (members i).gradients.shape = shape) {events : List (NetworkEvent N)}
    {s : Network N K} (hrun : run Network.step (start members) events = some s)
    (hheard : ∀ i j, j ≠ i → (i, j) ∈ receptions (start members) events)
    (hquiet : ∀ i, (s.agents i).Quiescent) (i : Fin N) :
    (s.agents i).protocol.getAggregatedGradients =
      (.mean shape (List.ofFn fun j => (members j).gradients), N) := by
  have hshape' : ∀ j k, (members j).gradients.shape = (members k).gradients.shape := by
    intro j k
    rw [hshape j, hshape k]
  have hs := inv_run hshape' hrun
  rw [(hs.agents i).aggregated hN hids hshape' (fun j hj => hheard i j hj) (hquiet i), hshape i]

section Example

def twoMembers (i : Fin 2) : Member ℚ where
  localPeer := { id := if i = 0 then "a" else "b" }
  membership := membershipA
  onGradientReceived := false
  gradients := .ofList [if i = 0 then 1 else 3]
  indices := none
  modelVersion := 0
  step := 0

/-- The first agent sends its gradients, and the answer reaches it twice. -/
def exchangeRun : List (NetworkEvent 2) :=
  [.gossip 0 true, .deliver 0 1, .resume 1 0 0, .resume 1 0 0, .deliver 1 0, .deliver 1 0,
    .resume 0 1 0, .resume 0 0 0, .resume 0 1 0]

theorem agreement_after_full_exchange_two : ∃ s,
    run Network.step (start twoMembers) exchangeRun = some s ∧
    ∀ i, (s.agents i).protocol.getAggregatedGradients =
      (.mean [1] (List.ofFn fun j => (twoMembers j).gradients), 2) := by
  have hids : ∀ i j, (twoMembers i).localPeer.id = (twoMembers j).localPeer.id → i = j := by
    decide
  have hquiet : ∀ s, run Network.step (start twoMembers) exchangeRun = some s →
      ∀ i, (s.agents i).Quiescent := by
    rintro s ⟨⟩ i
    refine GossipSched.quiescent_iff.2 ?_
    cases i using Fin.cases with
    | zero => rfl
    | succ i => cases i using Fin.cases with
      | zero => rfl
      | succ i => exact i.elim0
  have hheard : ∀ i j, j ≠ i → (i, j) ∈ receptions (start twoMembers) exchangeRun := by
    decide
  have hrun : run Network.step (start twoMembers) exchangeRun = some _ := rfl
  exact ⟨_, hrun, agreement_after_full_exchange (by decide) (fun i j => hids i j) (fun _ => rfl) hrun
    hheard (hquiet _ hrun)⟩

end Example

end GossipRl
