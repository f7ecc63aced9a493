import GossipRl.Gossip.GossipAgents
import GossipRl.Support.ConvexMean
import Mathlib.Order.CompletePartialOrder

/-!
# Where the gradients of an agent come from

Senders are known by the id in a message alone. What is cached under an id is what an agent of that
id has set (`OriginalGradients`), so the aggregate of an agent is the mean of gradients that have
been set, and lies in every convex set that they lie in.
-/

namespace GossipRl
open Support GossipProtocol

/-- An agent of that id has set the contribution, or it has sent that it has none. -/
inductive OriginalGradients {ι K : Type*} (ids : ι → String) (sets : Set (ι × Contribution K))
    (id : String) (c : Contribution K) : Prop
  | set (i : ι) (named : ids i = id) (given : (i, c) ∈ sets)
  | unset (i : ι) (named : ids i = id) (given : c = .unset)

/-- The calls of `set_gradients` among the events. -/
def gradientsSet {ι K : Type*} (events : List (ι × GossipAgentEvent K)) : Set (ι × Contribution K) :=
  {x | (x.1, .handle (.setGradients x.2.gradients x.2.indices x.2.modelVersion x.2.step)) ∈ events}

theorem gradientsSet_mono {ι K : Type*} (events : List (ι × GossipAgentEvent K))
    (e : ι × GossipAgentEvent K) : gradientsSet events ⊆ gradientsSet (events ++ [e]) :=
  fun _ hx => List.mem_append_left _ hx

namespace OriginalGradients
variable {ι K : Type*} {ids : ι → String} {sets sets' : Set (ι × Contribution K)} {id : String}
  {c : Contribution K}

theorem mono (hle : sets ⊆ sets') (h : OriginalGradients ids sets id c) :
    OriginalGradients ids sets' id c := by
  cases h with
  | set i named given => exact .set i named (hle given)
  | unset i named given => exact .unset i named given

end OriginalGradients

/-! ### The invariant -/

variable {ι K : Type*} {ids : ι → String} {sets sets' : Set (ι × Contribution K)} {i : ι}

/-- A message with gradients brings what an agent of the sender's id has set. -/
def GossipMessage.Genuine (ids : ι → String) (sets : Set (ι × Contribution K))
    (msg : GossipMessage K) : Prop :=
  msg.isGradient = true → ∃ c, msg.Carries c ∧ OriginalGradients ids sets msg.senderId c

theorem GossipMessage.Genuine.mono {msg : GossipMessage K} (hle : sets ⊆ sets')
    (h : msg.Genuine ids sets) : msg.Genuine ids sets' := by
  intro hgradient
  obtain ⟨c, hcarries, horiginal⟩ := h hgradient
  exact ⟨c, hcarries, horiginal.mono hle⟩

/-- All that agent `i` has cached, is about to cache or has averaged over was set by an agent. -/
structure GossipSched.Honest [Field K] (ids : ι → String) (sets : Set (ι × Contribution K)) (i : ι)
    (s : GossipSched K) : Prop where
  named : s.protocol.localPeer.id = ids i
  own : ∀ g, s.protocol.currentGradients = some g → (i, s.protocol.contribution) ∈ sets
  unset : s.protocol.currentGradients = none → s.protocol.contribution = .unset
  cached : ∀ id st, s.protocol.gradientCache.get? id = some st →
    OriginalGradients ids sets id st.contribution
  tasks : ∀ msg g, .process msg g ∈ s.tasks →
    ∃ c, msg.Carries c ∧ c.gradients = g ∧ OriginalGradients ids sets msg.senderId c
  aggregate : ∀ a, s.protocol.aggregatedGradients = some a → ∃ current others,
    s.protocol.currentGradients = some current ∧ a = .mean current.shape (current :: others) ∧
      ∀ g ∈ others, g.shape = current.shape ∧ ∃ id c, OriginalGradients ids sets id c ∧ c.gradients = g

namespace GossipSched.Honest
variable [Field K] {s s' : GossipSched K} {p : GossipProtocol K} {msg : GossipMessage K}

theorem mono (hle : sets ⊆ sets') (h : s.Honest ids sets i) : s.Honest ids sets' i where
  named := h.named
  own g hg := hle (h.own g hg)
  unset := h.unset
  cached id st hget := (h.cached id st hget).mono hle
  tasks msg g hmem := by
    obtain ⟨c, hcarries, hg, horiginal⟩ := h.tasks msg g hmem
    exact ⟨c, hcarries, hg, horiginal.mono hle⟩
  aggregate a ha := by
    obtain ⟨current, others, hcurrent, hmean, hothers⟩ := h.aggregate a ha
    refine ⟨current, others, hcurrent, hmean, fun g hg => ?_⟩
    obtain ⟨hshape, id, c, horiginal, hc⟩ := hothers g hg
    exact ⟨hshape, id, c, horiginal.mono hle, hc⟩

theorem original (h : s.Honest ids sets i) :
    OriginalGradients ids sets (ids i) s.protocol.contribution := by
  cases hc : s.protocol.currentGradients with
  | none => exact .unset i rfl (h.unset hc)
  | some g => exact .set i rfl (h.own g hc)

theorem genuine (h : s.Honest ids sets i) (hmsg : s.protocol.Speaks msg) :
    msg.Genuine ids sets := by
  intro hgradient
  obtain ⟨hsender, hcarries⟩ := hmsg hgradient
  exact ⟨_, hcarries, by rw [hsender, h.named]; exact h.original⟩

/-- Where neither gradients nor cache are touched, it is enough that no handler is about to process
what is not genuine. -/
theorem of_same (h : s.Honest ids sets i) (hown : s.protocol.SameOwn p)
    (hsame : s.protocol.SameGradients p) {tasks : List (HandlerPc K)}
    (htasks : ∀ msg g, .process msg g ∈ tasks →
      ∃ c, msg.Carries c ∧ c.gradients = g ∧ OriginalGradients ids sets msg.senderId c) :
    Honest ids sets i ⟨p, tasks⟩ where
  named := by rw [hown.localPeer, h.named]
  own g hg := by
    rw [hown.contribution]
    exact h.own g (hsame.current ▸ hg)
  unset hg := by
    rw [hown.contribution]
    exact h.unset (hsame.current ▸ hg)
  cached := by
    rw [hsame.cache]
    exact h.cached
  tasks := htasks
  aggregate := by
    rw [hsame.aggregated, hsame.current]
    exact h.aggregate

theorem setGradients (h : s.Honest ids sets i) (c : Contribution K) (hle : sets ⊆ sets')
    (hc : (i, c) ∈ sets') :
    Honest ids sets' i
      ⟨s.protocol.setGradients c.gradients c.indices c.modelVersion c.step, s.tasks⟩ where
  named := h.named
  own _ _ := hc
  unset := by
    rintro ⟨⟩
  cached := (h.mono hle).cached
  tasks := (h.mono hle).tasks
  aggregate a ha := by
    obtain rfl := Option.some.inj ha
    exact ⟨c.gradients, [], rfl, (NdArray.mean_singleton _).symm, by rintro g ⟨⟩⟩

theorem receive (h : s.Honest ids sets i) (hmsg : msg.Genuine ids sets)
    (hstep : s.step (.receive msg) = some s') : s'.Honest ids sets i := by
  obtain rfl := Option.some.inj hstep
  obtain ⟨hown, hprocess, -⟩ := HandlerPc.begins_ofMessage msg s.protocol
  refine h.of_same hown (HandlerPc.ofMessage_same msg s.protocol).1 fun m g hmem => ?_
  rcases List.mem_append.1 hmem with hmem | hmem
  · exact h.tasks m g hmem
  · obtain ⟨rfl, hgradient, hdata⟩ := hprocess m g (List.mem_singleton.1 hmem).symm
    obtain ⟨c, hcarries, horiginal⟩ := hmsg hgradient
    exact ⟨c, hcarries, Option.some.inj (hcarries.gradients.symm.trans hdata), horiginal⟩

theorem store (h : s.Honest ids sets i) {g : NdArray K} (hmem : .process msg g ∈ s.tasks)
    (now : ℚ) {tasks : List (HandlerPc K)}
    (htasks : ∀ m g, HandlerPc.process m g ∈ tasks → .process m g ∈ s.tasks) :
    Honest ids sets i
      ⟨s.protocol.storeGradient now msg.senderId g msg.indices msg.modelVersion msg.step, tasks⟩ where
  named := h.named
  own := h.own
  unset := h.unset
  cached id st hget := by
    rcases Dict.get?_set_eq_some_iff.1 hget with ⟨rfl, rfl⟩ | ⟨-, hget⟩
    · obtain ⟨c, hcarries, rfl, horiginal⟩ := h.tasks msg g hmem
      have hst : c = ⟨c.gradients, msg.indices, msg.modelVersion, msg.step⟩ := by
        rw [hcarries.indices, hcarries.modelVersion, hcarries.step]
      rw [hst] at horiginal
      exact horiginal
    · exact h.cached id st hget
  tasks m g hm := h.tasks m g (htasks m g hm)
  aggregate := h.aggregate

theorem average (h : s.Honest ids sets i) (hown : s.protocol.SameOwn p)
    (hsame : s.protocol.aggregateGradients.SameGradients p) {tasks : List (HandlerPc K)}
    (htasks : ∀ m g, HandlerPc.process m g ∈ tasks → .process m g ∈ s.tasks) :
    Honest ids sets i ⟨p, tasks⟩ where
  named := by rw [hown.localPeer, h.named]
  own g hg := by
    rw [hsame.current, aggregateGradients_current] at hg
    exact hown.contribution ▸ h.own g hg
  unset hg := by
    rw [hsame.current, aggregateGradients_current] at hg
    exact hown.contribution.trans (h.unset hg)
  cached := by
    rw [hsame.cache, aggregateGradients_cache]
    exact h.cached
  tasks m g hm := h.tasks m g (htasks m g hm)
  aggregate := by
    rw [hsame.aggregated, hsame.current, aggregateGradients_current]
    rcases s.protocol.aggregateGradients_cases with heq | ⟨current, hc, heq⟩
    · rw [heq]
      exact h.aggregate
    · rintro a ha
      obtain rfl := Option.some.inj (heq.symm.trans ha)
      refine ⟨current, _, hc, rfl, fun g hg => ?_⟩
      obtain ⟨hmem, hshape⟩ := List.mem_filter.1 hg
      obtain ⟨st, hst, rfl⟩ := List.mem_map.1 hmem
      obtain ⟨id, hget⟩ := Dict.mem_values_iff.1 hst
      exact ⟨of_decide_eq_true hshape, id, _, h.cached id st hget, rfl⟩

theorem resume (h : s.Honest ids sets i) {t : Nat} {now : ℚ}
    (hstep : s.step (.resume t now) = some s') : s'.Honest ids sets i := by
  obtain ⟨pc, pc', p, ht, hadv, rfl⟩ := step_resume_iff.1 hstep
  obtain ⟨hcase, hown, hprocess, -⟩ := HandlerPc.advances hadv
  have htasks : ∀ m g, .process m g ∈ s.tasks.set t pc' → .process m g ∈ s.tasks := by
    intro m g hmem
    exact (List.mem_or_eq_of_mem_set hmem).resolve_right fun heq => hprocess m g heq.symm
  cases hcase with
  | quiet same => exact h.of_same hown same fun m g hmem => h.tasks m g (htasks m g hmem)
  | store msg g at_process stored =>
    subst at_process stored
    exact h.store (List.mem_of_getElem? ht) now htasks
  | average same => exact h.average hown same htasks

end GossipSched.Honest

namespace GossipAgents
open GossipSched
variable [Field K] [DecidableEq K] [DecidableEq ι] {s s' : GossipAgents ι K}
  {events : List (ι × GossipAgentEvent K)} {e : GossipAgentEvent K} {localPeer : ι → Peer}
  {membership : ι → MembershipManager} {onGradientReceived : ι → Bool}

/-- Every agent is honest, and every message that has been sent is genuine. -/
def Honest (ids : ι → String) (sets : Set (ι × Contribution K)) (s : GossipAgents ι K) : Prop :=
  Parties.Holds (fun sets i n => GossipSched.Honest ids sets i n)
    (fun sets msg => GossipMessage.Genuine ids sets msg) sets s

theorem keeps_step (hs : s.Honest ids (gradientsSet events))
    (h : Parties.step (agent K) s (i, e) = some s') :
    Parties.Keeps (fun sets i n => GossipSched.Honest ids sets i n)
      (fun sets msg => GossipMessage.Genuine ids sets msg) (agent K) (gradientsSet events)
      (gradientsSet (events ++ [(i, e)])) s s' i e := by
  have hle := gradientsSet_mono events (i, e)
  obtain ⟨hadmits, n, hn, rfl⟩ := Parties.step_iff.1 h
  have hhere := hs.states i
  have old : ∀ {msg : GossipMessage K}, (s.state i).protocol.Speaks msg →
      msg.Genuine ids (gradientsSet (events ++ [(i, e)])) :=
    fun hmsg => (hhere.genuine hmsg).mono hle
  refine ⟨hle, ?_, ?_⟩
  · show GossipSched.Honest _ _ i (Function.update s.state i n i)
    rw [Function.update_self]
    cases e with
    | handle e =>
      cases e with
      | setGradients gradients indices modelVersion step =>
        obtain rfl := Option.some.inj hn
        exact hhere.setGradients ⟨gradients, indices, modelVersion, step⟩ hle
          (List.mem_append_right _ (List.mem_singleton.2 rfl))
      | receive msg =>
        refine (hhere.mono hle).receive ?_ hn
        intro hgradient
        have hsent : msg ∈ s.sent := by
          simpa [agent, agentAdmits, hgradient] using hadmits
        exact (hs.sent msg hsent).mono hle hgradient
      | resume t now => exact (hhere.mono hle).resume hn
    | gossip pushPull =>
      obtain ⟨⟨msg, p⟩, hmsg, rfl⟩ := Option.map_eq_some_iff.1 hn
      obtain ⟨-, hown⟩ := GossipProtocol.speaks_gossipMessage hmsg
      obtain ⟨-, -, -, hsame, -⟩ := GossipProtocol.gossipMessage_spec hmsg
      exact (hhere.of_same hown hsame hhere.tasks).mono hle
  · intro msg hmsg
    cases e with
    | handle e =>
      cases e with
      | setGradients gradients indices modelVersion step => cases hmsg
      | receive m =>
        exact old ((HandlerPc.begins_ofMessage m _).reply msg (Option.mem_toList.1 hmsg))
      | resume t now =>
        obtain ⟨⟨pc', p⟩, hadv, hreply⟩ := Option.bind_eq_some_iff.1 (Option.mem_toList.1 hmsg)
        obtain ⟨pc, -, hadv⟩ := Option.bind_eq_some_iff.1 hadv
        exact old ((HandlerPc.advances hadv).2.2.2 msg hreply)
    | gossip pushPull =>
      obtain ⟨⟨m, p⟩, hm, rfl⟩ := Option.map_eq_some_iff.1 (Option.mem_toList.1 hmsg)
      exact old (GossipProtocol.speaks_gossipMessage hm).1

theorem honest_run
    (hrun : run (Parties.step (agent K)) (start localPeer membership onGradientReceived) events =
      some s) : s.Honest (fun i => (localPeer i).id) (gradientsSet events) := by
  refine Parties.Holds.run (C := fun _ _ => True) (fun es _ => gradientsSet es)
    ⟨fun hle h => h.mono hle, fun hle h => h.mono hle⟩ ?_ ?_ .unconditional hrun
  · intro es s i e s' _ _ hs _ hstep
    exact keeps_step hs hstep
  · constructor
    · intro i
      exact {
        named := rfl
        own := by rintro g ⟨⟩
        unset := fun _ => rfl
        cached := by rintro id st ⟨⟩
        tasks := by rintro msg g ⟨⟩
        aggregate := by rintro a ⟨⟩ }
    · rintro m ⟨⟩

end GossipAgents

variable [Field K] [DecidableEq K] [DecidableEq ι] {s : GossipAgents ι K}
  {events : List (ι × GossipAgentEvent K)} {localPeer : ι → Peer}
  {membership : ι → MembershipManager} {onGradientReceived : ι → Bool}

/-- What an agent has cached under an id was set at an agent of that id, all four arguments of one
call, or is the answer of such an agent that has not set any gradients. -/
theorem cached_gradients_were_set
    (hrun : run (Parties.step (GossipSched.agent K))
      (GossipAgents.start localPeer membership onGradientReceived) events = some s)
    {id : String} {st : GradientState K}
    (hget : (s.state i).protocol.gradientCache.get? id = some st) :
    OriginalGradients (fun j => (localPeer j).id) (gradientsSet events) id st.contribution :=
  ((GossipAgents.honest_run hrun).states i).cached id st hget

section Example

def agentIds (i : Bool) : Peer := { id := if i then "b" else "a" }

def newAgents : GossipAgents Bool ℚ :=
  .start agentIds (fun _ => membershipA) fun _ => false

/-- Agent `a` starts a push-pull exchange, `b` caches its gradients and answers, and `a` caches and
averages those of `b`. -/
def pushPullRun : List (Bool × GossipAgentEvent ℚ) :=
  [(false, .handle (.setGradients (.ofList [1]) none 1 1)),
    (true, .handle (.setGradients (.ofList [3]) none 2 5)),
    (false, .gossip true),
    (true, .handle (.receive (.createPushPullGradient "a" 1 (.ofList [1]) 1 1 none))),
    (true, .handle (.resume 0 7)),
    (true, .handle (.resume 0 7)),
    (false, .handle (.receive (.createPushGradient "b" 1 (.ofList [3]) 2 5 none))),
    (false, .handle (.resume 0 8)),
    (false, .handle (.resume 0 8))]

theorem cached_gradients_were_set_pair : ∃ s st,
    run (Parties.step (GossipSched.agent ℚ)) newAgents pushPullRun = some s ∧
    (s.state false).protocol.gradientCache.get? "b" = some st ∧
    OriginalGradients (fun j => (agentIds j).id) (gradientsSet pushPullRun) "b" st.contribution := by
  obtain ⟨s, hs, st, hst⟩ : ∃ s,
      run (Parties.step (GossipSched.agent ℚ)) newAgents pushPullRun = some s ∧
      ∃ st, (s.state false).protocol.gradientCache.get? "b" = some st := ⟨_, rfl, _, rfl⟩
  exact ⟨s, st, hs, hst, cached_gradients_were_set hs hst⟩

end Example

/-- The aggregate of an agent lies in every convex set in which all gradients of its shape lie that
have been set. -/
theorem aggregate_mem_of_convex [LinearOrder K] [IsStrictOrderedRing K] {C : Set (Nat → K)}
    (hC : Convex K C)
    (hrun : run (Parties.step (GossipSched.agent K))
      (GossipAgents.start localPeer membership onGradientReceived) events = some s)
    {a : NdArray K} (ha : (s.state i).protocol.aggregatedGradients = some a)
    (hsets : ∀ x ∈ gradientsSet events, x.2.gradients.shape = a.shape → x.2.gradients.get ∈ C) :
    a.get ∈ C := by
  have hi := (GossipAgents.honest_run hrun).states i
  obtain ⟨current, others, hcurrent, rfl, hothers⟩ := hi.aggregate a ha
  have hown : current.get ∈ C := by
    have hgradients : (s.state i).protocol.contribution.gradients = current := by
      rw [GossipProtocol.contribution, hcurrent]
      rfl
    have := hsets _ (hi.own current hcurrent)
    rw [hgradients] at this
    exact this rfl
  have hshape : ∀ g ∈ current :: others, g.shape = current.shape := by
    intro g hg
    rcases List.mem_cons.1 hg with rfl | hg
    · rfl
    · exact (hothers g hg).1
  refine NdArray.mean_mem hC (List.cons_ne_nil _ _) hshape fun g hg => ?_
  rcases List.mem_cons.1 hg with rfl | hg
  · exact hown
  · obtain ⟨hg', id, c, horiginal, rfl⟩ := hothers g hg
    cases horiginal with
    | set j named given => exact hsets _ given hg'
    | unset j named given =>
      -- the empty array counts only beside empty gradients
      subst given
      have hempty : current.get = NdArray.get (.empty : NdArray K) := by
        funext k
        have hprod : current.shape.prod = 0 := by
          rw [← hg']
          rfl
        rw [NdArray.get_of_le (hprod.trans_le k.zero_le), NdArray.get_of_le k.zero_le]
      exact hempty ▸ hown

theorem aggregate_mem_of_convex_pair : ∃ s a,
    run (Parties.step (GossipSched.agent ℚ)) newAgents pushPullRun = some s ∧
    (s.state false).protocol.aggregatedGradients = some a ∧ a.get 0 ∈ Set.Icc (1 : ℚ) 3 := by
  obtain ⟨s, hs, a, ha, hshape⟩ : ∃ s,
      run (Parties.step (GossipSched.agent ℚ)) newAgents pushPullRun = some s ∧
      ∃ a, (s.state false).protocol.aggregatedGradients = some a ∧ a.shape = [1] :=
    ⟨_, rfl, _, rfl, rfl⟩
  have hC : Convex ℚ {f : Nat → ℚ | f 0 ∈ Set.Icc (1 : ℚ) 3} :=
    (convex_Icc (1 : ℚ) 3).linear_preimage (LinearMap.proj 0 : (Nat → ℚ) →ₗ[ℚ] ℚ)
  refine ⟨s, a, hs, ha, aggregate_mem_of_convex hC hs ha ?_⟩
  rintro x hx -
  have hcases : x.2.gradients = .ofList [1] ∨ x.2.gradients = .ofList [3] := by
    have hmem : (x.1, GossipAgentEvent.handle (.setGradients x.2.gradients x.2.indices
        x.2.modelVersion x.2.step)) ∈ pushPullRun := hx
    simp only [pushPullRun, List.mem_cons, Prod.mk.injEq, GossipAgentEvent.handle.injEq,
      GossipEvent.setGradients.injEq, reduceCtorEq, and_false, or_false, List.not_mem_nil] at hmem
    rcases hmem with ⟨-, hg, -⟩ | ⟨-, hg, -⟩
    · exact .inl hg
    · exact .inr hg
  rcases hcases with hg | hg <;> rw [hg] <;> exact ⟨by decide, by decide⟩

end GossipRl
