import GossipRl.Gossip.Exchange

/-!
# How far gradients travel

An agent sends its own gradients only, never what it has aggregated: in a sequence of exchanges
without `set_gradients` the messages of an agent all bring the same offer. A node takes the offer of
another agent from the first message that is handed to it, if its cache had nothing as new at the
start, and averages over its whole cache then (`NodeInv`, by `Heard` step by step). So an agent's
gradients get as far as its own messages do, however many exchanges lead on from there.
-/

namespace GossipRl
open Support GossipProtocol

variable {ι K : Type*}

namespace ExchangeEvent

/-- The message of agent `a` is handled by agent `b`. -/
def Link (a b : ι) : ExchangeEvent ι K → Prop
  | .exchange i j .. => i = a ∧ j = b
  | .setGradients .. => False

/-- Agent `b` handles a message of agent `a`, which may be the reply to its own. -/
def Hands (a b : ι) : ExchangeEvent ι K → Prop
  | .exchange i j pushPull .. => i = a ∧ j = b ∨ pushPull = true ∧ i = b ∧ j = a
  | .setGradients .. => False

def IsExchange : ExchangeEvent ι K → Prop
  | .exchange .. => True
  | .setGradients .. => False

/-- The exchanges lead from agent `a` to agent `b`, one after the other. -/
def Path (a b : ι) : List (ExchangeEvent ι K) → Prop
  | [] => a = b
  | e :: es => ∃ c, e.Link a c ∧ Path c b es

/-- Some of the exchanges, in their order, lead from agent `a` to agent `b`. -/
def Relay (es : List (ExchangeEvent ι K)) (a b : ι) : Prop :=
  ∃ path, path.Sublist es ∧ path ≠ [] ∧ Path a b path

end ExchangeEvent

open ExchangeEvent

namespace GossipNode
variable [Field K] {s s' s₀ : ι → GossipNode K} {n n' m : GossipNode K} {o : Offer K}
  {a b c : ι}

/-! ### Nodes -/

/-- The aggregate is the mean of what the node says, its own gradients among it. -/
structure Ok (n : GossipNode K) : Prop where
  own : ∀ g, n.protocol.currentGradients = some g → (n.protocol.localPeer.id, g) ∈ n.averaged
  shape : ∀ g, n.protocol.currentGradients = some g → ∀ e ∈ n.averaged, e.2.shape = g.shape
  mean : ∀ g, n.protocol.currentGradients = some g →
    n.protocol.aggregatedGradients = some (.mean g.shape (n.averaged.map Prod.snd))

theorem Ok.setGradients (n : GossipNode K) (gradients : NdArray K) (indices : Option (List Int))
    (modelVersion step : Int) : (n.setGradients gradients indices modelVersion step).Ok := by
  constructor
  · rintro g ⟨⟩
    exact List.mem_singleton_self _
  · rintro g ⟨⟩ e he
    rw [List.mem_singleton.1 he]
  · rintro g ⟨⟩
    refine congrArg some (NdArray.ext_get rfl fun i hi => ?_)
    rw [NdArray.get_mean _ hi]
    simp [GossipNode.setGradients]

theorem Ok.same (h : n.Ok) (hn : n.Same n') : n'.Ok := by
  have hid : n'.protocol.localPeer.id = n.protocol.localPeer.id := congrArg Offer.id hn.offer
  constructor <;> rw [hn.averaged, hn.gradients.current]
  · rw [hid]
    exact h.own
  · exact h.shape
  · rw [hn.gradients.aggregated]
    exact h.mean

theorem Ok.heard (h : n.Ok) (hn : n.Heard o n') : n'.Ok := by
  have hid : n'.protocol.localPeer.id = n.protocol.localPeer.id := congrArg Offer.id hn.offer
  cases hstale : n.protocol.stale o.id o.modelVersion o.step with
  | true => exact h.same (hn.skipped hstale)
  | false =>
    obtain ⟨st, -, -, -, -, haveraged, p, hp, hoffer, hsame⟩ := hn.stored hstale
    have hcurrent : n'.protocol.currentGradients = p.currentGradients :=
      hsame.current.trans aggregateGradients_current
    have hcache : n'.protocol.gradientCache = p.gradientCache :=
      hsame.cache.trans aggregateGradients_cache
    rw [averagedOver_congr (hn.offer.trans hoffer.symm) hcurrent hcache] at haveraged
    have hidp : p.localPeer.id = n.protocol.localPeer.id := congrArg Offer.id hoffer
    constructor <;> rw [haveraged, hn.current]
    · intro g hg
      rw [hid, ← hidp]
      exact own_mem_averagedOver (hcurrent ▸ hn.current ▸ hg) (hidp ▸ h.own g hg)
    · intro g hg
      exact shape_averagedOver (hcurrent ▸ hn.current ▸ hg) (h.shape g hg)
    · intro g hg
      rw [hsame.aggregated]
      exact mean_averagedOver (hcurrent ▸ hn.current ▸ hg) (hp.trans (h.mean g hg))

/-- What agent `b` sends can still tell agent `c` something. -/
def News (s₀ : ι → GossipNode K) (b c : ι) : Prop :=
  (s₀ c).protocol.stale (s₀ b).protocol.localPeer.id (s₀ b).protocol.modelVersion
    (s₀ b).protocol.step = false

/-- The node of agent `c` after the agents in `handed` have handed it their gradients. -/
structure NodeInv (s₀ : ι → GossipNode K) (c : ι) (handed : ι → Prop) (n : GossipNode K) : Prop where
  offer : n.protocol.offer = (s₀ c).protocol.offer
  current : n.protocol.currentGradients = (s₀ c).protocol.currentGradients
  ok : n.Ok
  cached : ∀ b, handed b → News s₀ b c → ∃ st : GradientState K,
    n.protocol.gradientCache.get? (s₀ b).protocol.localPeer.id = some st ∧
      st.gradients = (s₀ b).protocol.offer.gradients ∧
      st.modelVersion = (s₀ b).protocol.modelVersion ∧ st.step = (s₀ b).protocol.step
  uncached : ∀ b, ¬ (handed b ∧ News s₀ b c) →
    n.protocol.gradientCache.get? (s₀ b).protocol.localPeer.id =
      (s₀ c).protocol.gradientCache.get? (s₀ b).protocol.localPeer.id
  averaged : (∃ b, handed b ∧ News s₀ b c) → ∀ g, n.protocol.currentGradients = some g →
    (n.protocol.contributions g).length > 1 → n.averaged = n.protocol.contributions g
  kept : (¬ ∃ b, handed b ∧ News s₀ b c) → n.averaged = (s₀ c).averaged

namespace NodeInv
variable {handed handed' : ι → Prop}

theorem congr (h : NodeInv s₀ c handed n)
    (hiff : ∀ b, handed b ∧ News s₀ b c ↔ handed' b ∧ News s₀ b c) : NodeInv s₀ c handed' n where
  offer := h.offer
  current := h.current
  ok := h.ok
  cached b hb hnews := h.cached b ((hiff b).2 ⟨hb, hnews⟩).1 hnews
  uncached b hb := h.uncached b (mt (hiff b).1 hb)
  averaged := fun ⟨b, hb⟩ => h.averaged ⟨b, (hiff b).2 hb⟩
  kept hno := h.kept fun ⟨b, hb⟩ => hno ⟨b, (hiff b).1 hb⟩

theorem same (h : NodeInv s₀ c handed n) (hn : n.Same n') : NodeInv s₀ c handed n' where
  offer := hn.offer.trans h.offer
  current := hn.gradients.current.trans h.current
  ok := h.ok.same hn
  cached := by
    rw [hn.gradients.cache]
    exact h.cached
  uncached := by
    rw [hn.gradients.cache]
    exact h.uncached
  averaged := by
    intro hnews g hg hlen
    rw [contributions_congr hn.offer hn.gradients.cache] at hlen ⊢
    rw [hn.averaged]
    exact h.averaged hnews g (hn.gradients.current ▸ hg) hlen
  kept hno := hn.averaged.trans (h.kept hno)

/-- A message that was handed over already, or that is no news, is stale; any other one is not. -/
theorem stale_iff (h : NodeInv s₀ c handed n) : n.protocol.stale (s₀ b).protocol.localPeer.id
    (s₀ b).protocol.modelVersion (s₀ b).protocol.step = true ↔ (News s₀ b c → handed b) := by
  by_cases hb : handed b ∧ News s₀ b c
  · obtain ⟨st, hget, -, hversion, hstep⟩ := h.cached b hb.1 hb.2
    simp [stale, hget, hversion, hstep, hb.1]
  · have hsame : n.protocol.stale (s₀ b).protocol.localPeer.id (s₀ b).protocol.modelVersion
        (s₀ b).protocol.step = (s₀ c).protocol.stale (s₀ b).protocol.localPeer.id
          (s₀ b).protocol.modelVersion (s₀ b).protocol.step := by
      simp only [stale, h.uncached b hb]
    rw [hsame, ← Bool.not_eq_false]
    constructor
    · exact fun hnot hnews => absurd hnews hnot
    · exact fun himp hnews => hb ⟨himp hnews, hnews⟩

theorem hear (hids : Function.Injective fun i => (s₀ i).protocol.localPeer.id)
    (h : NodeInv s₀ c handed n) (hn : n.Heard (s₀ b).protocol.offer n') :
    NodeInv s₀ c (fun k => handed k ∨ k = b) n' := by
  by_cases hstale : News s₀ b c → handed b
  · refine (h.same (hn.skipped (h.stale_iff.2 hstale))).congr fun k => ?_
    constructor
    · rintro ⟨hk, hnews⟩
      exact ⟨.inl hk, hnews⟩
    · rintro ⟨hk | rfl, hnews⟩
      · exact ⟨hk, hnews⟩
      · exact ⟨hstale hnews, hnews⟩
  · have hnew : News s₀ b c := by
      by_contra hnot
      exact hstale fun hnews => absurd hnews hnot
    obtain ⟨st, hgradients, hversion, hstep, hcache, haveraged, -⟩ :=
      hn.stored (Bool.not_eq_true _ ▸ mt h.stale_iff.1 hstale)
    have hother : ∀ k, k ≠ b → n'.protocol.gradientCache.get? (s₀ k).protocol.localPeer.id =
        n.protocol.gradientCache.get? (s₀ k).protocol.localPeer.id := by
      intro k hk
      rw [hcache]
      exact Dict.get?_set_of_ne fun heq => hk (hids heq)
    refine ⟨hn.offer.trans h.offer, hn.current.trans h.current, h.ok.heard hn, ?_, ?_, ?_, ?_⟩
    · intro k hk hnewk
      by_cases hkb : k = b
      · obtain rfl := hkb
        refine ⟨st, ?_, hgradients, hversion, hstep⟩
        rw [hcache]
        exact Dict.get?_set_self
      · rw [hother k hkb]
        exact h.cached k (hk.resolve_right hkb) hnewk
    · intro k hk
      have hkb : k ≠ b := by
        rintro rfl
        exact hk ⟨.inr rfl, hnew⟩
      rw [hother k hkb]
      exact h.uncached k fun hk' => hk ⟨.inl hk'.1, hk'.2⟩
    · intro _ g hg hlen
      rw [haveraged, averagedOver_of_some hg, if_pos hlen]
    · exact fun hno => absurd ⟨b, .inr rfl, hnew⟩ hno

end NodeInv

/-! ### Runs -/

/-- An agent handles a message of another one in the exchanges `es`. -/
def Handed (es : List (ExchangeEvent ι K)) (a b : ι) : Prop := ∃ e ∈ es, e.Hands a b

omit [Field K] in
theorem handed_concat {es : List (ExchangeEvent ι K)} {e : ExchangeEvent ι K} :
    Handed (es ++ [e]) a b ↔ Handed es a b ∨ e.Hands a b := by
  simp [Handed, or_and_right, exists_or]

variable [DecidableEq ι] {es : List (ExchangeEvent ι K)}

theorem nodeInv_run (hids : Function.Injective fun i => (s₀ i).protocol.localPeer.id)
    (hok : ∀ i, (s₀ i).Ok) (hex : ∀ e ∈ es, e.IsExchange) (hrun : run step s₀ es = some s) (c : ι) :
    NodeInv s₀ c (Handed es · c) (s c) := by
  have hcond : Along step (fun _ e => e.IsExchange) s₀ es := by
    rintro es₁ e es₂ s₁ rfl -
    exact hex e (by simp)
  have nil : ∀ c, NodeInv s₀ c (Handed ([] : List (ExchangeEvent ι K)) · c) (s₀ c) := by
    intro c
    have hno : ∀ b, ¬ Handed ([] : List (ExchangeEvent ι K)) b c := by simp [Handed]
    exact {
      offer := rfl
      current := rfl
      ok := hok c
      cached := fun b hb => absurd hb (hno b)
      uncached := fun _ _ => rfl
      averaged := fun ⟨b, hb, _⟩ => absurd hb (hno b)
      kept := fun _ => rfl }
  refine run_induction (motive := fun es s => ∀ c, NodeInv s₀ c (Handed es · c) (s c)) nil ?_ hcond
    hrun c
  intro es s e s' _ ih he hstep c
  cases e with
  | setGradients => cases he
  | exchange i j pushPull now later =>
    obtain ⟨hij, hj, hi, hi', hother⟩ := step_exchange hstep
    rw [(ih i).offer] at hj
    rw [(ih j).offer] at hi
    by_cases hcj : c = j
    · subst hcj
      refine ((ih c).hear hids hj).congr fun b => and_congr_left fun _ => ?_
      simp [handed_concat, Hands, hij, eq_comm]
    · by_cases hci : c = i
      · subst hci
        cases hpp : pushPull with
        | true =>
          refine ((ih c).hear hids (hi hpp)).congr fun b => and_congr_left fun _ => ?_
          simp [handed_concat, Hands, Ne.symm hij, eq_comm]
        | false =>
          refine ((ih c).same (hi' hpp)).congr fun b => and_congr_left fun _ => ?_
          simp [handed_concat, Hands, Ne.symm hij]
      · rw [hother c hci hcj]
        refine (ih c).congr fun b => and_congr_left fun _ => ?_
        simp [handed_concat, Hands, Ne.symm hci, Ne.symm hcj]

/-- New agents. -/
def start (localPeer : ι → Peer) (membership : ι → MembershipManager)
    (onGradientReceived : ι → Bool) : ι → GossipNode K := fun i =>
  ⟨(GossipSched.init (localPeer i) (membership i) (onGradientReceived i)).protocol, []⟩

/-- Every agent keeps its id, and its aggregate is a mean over what its node says. -/
theorem ok_run {localPeer : ι → Peer} {membership : ι → MembershipManager}
    {onGradientReceived : ι → Bool}
    (hrun : run step (start localPeer membership onGradientReceived) es = some s) :
    ∀ i, (s i).Ok ∧ (s i).protocol.localPeer.id = (localPeer i).id := by
  refine run_invariant (P := fun s : ι → GossipNode K =>
    ∀ i, (s i).Ok ∧ (s i).protocol.localPeer.id = (localPeer i).id) ?_ ?_ hrun
  · exact fun i => ⟨⟨nofun, nofun, nofun⟩, rfl⟩
  · intro s e s' ih hstep k
    cases e with
    | setGradients i gradients indices modelVersion step =>
      obtain rfl := Option.some.inj hstep
      by_cases hk : k = i
      · subst hk
        rw [Function.update_self]
        exact ⟨.setGradients (s k) .., (ih k).2⟩
      · rw [Function.update_of_ne hk]
        exact ih k
    | exchange i j pushPull now later =>
      obtain ⟨hij, hj, hi, hi', hother⟩ := step_exchange hstep
      by_cases hkj : k = j
      · subst hkj
        exact ⟨(ih k).1.heard hj, (congrArg Offer.id hj.offer).trans (ih k).2⟩
      · by_cases hki : k = i
        · subst hki
          cases hpp : pushPull with
          | true => exact ⟨(ih k).1.heard (hi hpp), (congrArg Offer.id (hi hpp).offer).trans (ih k).2⟩
          | false => exact ⟨(ih k).1.same (hi' hpp), (congrArg Offer.id (hi' hpp).offer).trans (ih k).2⟩
        · rw [hother k hki hkj]
          exact ih k

/-! ### Contributions -/

/-- Agent `c` has cached the gradients `g` of agent `a`. -/
def Caches (s : ι → GossipNode K) (a c : ι) (g : NdArray K) : Prop :=
  ∃ st, (s c).protocol.gradientCache.get? (s a).protocol.localPeer.id = some st ∧ st.gradients = g

/-- The aggregate of agent `c` is a mean over the local gradients of agent `a` and others. -/
def Contributes (s : ι → GossipNode K) (a c : ι) : Prop :=
  ∃ ga gc, (s a).protocol.currentGradients = some ga ∧ (s c).protocol.currentGradients = some gc ∧
    ((s a).protocol.localPeer.id, ga) ∈ (s c).averaged ∧ (a = c ∨ Caches s a c ga)

/-- In the exchanges `es` agent `c` handles a message of agent `a` that is not stale. -/
def Told (s₀ : ι → GossipNode K) (es : List (ExchangeEvent ι K)) (a c : ι) : Prop :=
  Handed es a c ∧ News s₀ a c

/-- The condition on the state `s₀` before the exchanges `es`. -/
def Reaches (s₀ : ι → GossipNode K) (es : List (ExchangeEvent ι K)) (a c : ι) : Prop :=
  ∃ ga gc, (s₀ a).protocol.currentGradients = some ga ∧
    (s₀ c).protocol.currentGradients = some gc ∧
    (a = c ∨ ga.shape = gc.shape ∧
      (Told s₀ es a c ∨ Contributes s₀ a c ∨ Caches s₀ a c ga ∧ ∃ b, Told s₀ es b c))

namespace NodeInv

omit [DecidableEq ι] in
/-- The cache of agent `c` holds of agent `a` what that one told it, or what it did before. -/
theorem caches_iff (hc : NodeInv s₀ c (Handed es · c) (s c)) (ha : NodeInv s₀ a (Handed es · a) (s a))
    {ga : NdArray K} (hga : (s₀ a).protocol.currentGradients = some ga) :
    Caches s a c ga ↔ Told s₀ es a c ∨ Caches s₀ a c ga := by
  have hid : (s a).protocol.localPeer.id = (s₀ a).protocol.localPeer.id :=
    congrArg Offer.id ha.offer
  by_cases htold : Told s₀ es a c
  · obtain ⟨st, hget, hgradients, -⟩ := hc.cached a htold.1 htold.2
    have hst : st.gradients = ga := by simp [hgradients, GossipProtocol.offer, hga]
    rw [or_iff_left_of_imp fun _ => htold]
    exact iff_of_true ⟨st, hid ▸ hget, hst⟩ htold
  · rw [or_iff_right htold, Caches, hid, hc.uncached a htold, Caches]

end NodeInv

theorem contributes_iff (hids : Function.Injective fun i => (s₀ i).protocol.localPeer.id)
    (hok : ∀ i, (s₀ i).Ok) (hex : ∀ e ∈ es, e.IsExchange) (hrun : run step s₀ es = some s) :
    Contributes s a c ↔ Reaches s₀ es a c := by
  have ha := nodeInv_run hids hok hex hrun a
  have hc := nodeInv_run hids hok hex hrun c
  have hida : (s a).protocol.localPeer.id = (s₀ a).protocol.localPeer.id :=
    congrArg Offer.id ha.offer
  have hidc : (s c).protocol.localPeer.id = (s₀ c).protocol.localPeer.id :=
    congrArg Offer.id hc.offer
  constructor
  · rintro ⟨ga, gc, hga, hgc, hmem, hor⟩
    have hshape := hc.ok.shape gc hgc _ hmem
    rw [ha.current] at hga
    rw [hc.current] at hgc
    refine ⟨ga, gc, hga, hgc, hor.imp_right fun hcaches => ⟨hshape, ?_⟩⟩
    rcases (hc.caches_iff ha hga).1 hcaches with htold | hbefore
    · exact .inl htold
    · by_cases hany : ∃ b, Told s₀ es b c
      · exact .inr (.inr ⟨hbefore, hany⟩)
      · rw [hida, hc.kept hany] at hmem
        exact .inr (.inl ⟨ga, gc, hga, hgc, hmem, .inr hbefore⟩)
  · rintro ⟨ga, gc, hga, hgc, hor⟩
    refine ⟨ga, gc, ha.current.trans hga, hc.current.trans hgc, ?_⟩
    have hown := hc.ok.own gc (hc.current.trans hgc)
    by_cases hac : a = c
    · subst hac
      obtain rfl : ga = gc := Option.some.inj (hga.symm.trans hgc)
      exact ⟨hown, .inl rfl⟩
    · obtain ⟨hshape, hor⟩ := hor.resolve_left hac
      have hne : (s a).protocol.localPeer.id ≠ (s c).protocol.localPeer.id := by
        rw [hida, hidc]
        exact fun heq => hac (hids heq)
      -- an earlier contribution of these gradients is one that is still cached
      have hbefore : Contributes s₀ a c → ((s₀ a).protocol.localPeer.id, ga) ∈ (s₀ c).averaged ∧
          Caches s₀ a c ga := by
        rintro ⟨ga', gc', hga', -, hmem, hcaches⟩
        obtain rfl : ga = ga' := Option.some.inj (hga.symm.trans hga')
        exact ⟨hmem, hcaches.resolve_left hac⟩
      have hcaches : Caches s a c ga := by
        refine (hc.caches_iff ha hga).2 (hor.imp_right ?_)
        rintro (hcontributes | ⟨hcaches, -⟩)
        · exact (hbefore hcontributes).2
        · exact hcaches
      refine ⟨?_, .inr hcaches⟩
      by_cases hany : ∃ b, Told s₀ es b c
      · obtain ⟨st, hget, hst⟩ := hcaches
        have hmem := (mem_contributions hne).2 ⟨st, hget, hst, hshape⟩
        rw [hc.averaged hany gc (hc.current.trans hgc) (one_lt_length_contributions hne hmem)]
        exact hmem
      · rcases hor with htold | hcontributes | ⟨-, hany'⟩
        · exact absurd ⟨a, htold⟩ hany
        · rw [hida, hc.kept hany]
          exact (hbefore hcontributes).1
        · exact absurd hany' hany

end GossipNode

open GossipNode

/-- After exchanges in which no agent sets its gradients, those of an agent are averaged into the
aggregate of every agent to which exchanges lead from it, if and only if each of the latter was told
of them by their owner, and not by others, in the exchanges or before them. -/
theorem relayed_contribute_iff [DecidableEq ι] [Field K] {localPeer : ι → Peer}
    {membership : ι → MembershipManager} {onGradientReceived : ι → Bool}
    (hids : Function.Injective fun i => (localPeer i).id) {es₁ es₂ : List (ExchangeEvent ι K)}
    {s₀ s : ι → GossipNode K}
    (h₁ : run GossipNode.step (start localPeer membership onGradientReceived) es₁ = some s₀)
    (h₂ : run GossipNode.step s₀ es₂ = some s) (hex : ∀ e ∈ es₂, e.IsExchange) :
    (∀ a c, Relay es₂ a c → Contributes s a c) ↔ ∀ a c, Relay es₂ a c → Reaches s₀ es₂ a c := by
  have hids₀ : Function.Injective fun i => (s₀ i).protocol.localPeer.id := by
    have heq : (fun i => (s₀ i).protocol.localPeer.id) = fun i => (localPeer i).id :=
      funext fun i => (ok_run h₁ i).2
    rw [heq]
    exact hids
  refine forall₂_congr fun a c => imp_congr_right fun _ => ?_
  exact contributes_iff hids₀ (fun i => (ok_run h₁ i).1) hex h₂

section Example

def relayPeers (i : Fin 3) : Peer where
  id := ["a", "b", "c"].get i

/-- All three agents set their gradients. -/
def relaySet : List (ExchangeEvent (Fin 3) ℚ) :=
  [.setGradients 0 (.ofList [1]) none 0 0, .setGradients 1 (.ofList [3]) none 0 0,
    .setGradients 2 (.ofList [5]) none 0 0]

/-- The gradients of the first agent would have to come to the third through the second. -/
def relayRun : List (ExchangeEvent (Fin 3) ℚ) :=
  [.exchange 0 1 true 0 0, .exchange 1 2 true 0 0]

theorem relayPeers_injective : Function.Injective fun i => (relayPeers i).id := by
  have : ∀ i j, (relayPeers i).id = (relayPeers j).id → i = j := by decide
  exact fun i j => this i j

theorem isExchange_relayRun : ∀ e ∈ relayRun, e.IsExchange := by
  simp [relayRun, IsExchange]

theorem relayed_contribute_iff_three : ∃ s₀ s,
    run GossipNode.step (start relayPeers (fun _ => membershipA) fun _ => false) relaySet = some s₀ ∧
    run GossipNode.step s₀ relayRun = some s ∧
    ((∀ a c, Relay relayRun a c → Contributes s a c) ↔
      ∀ a c, Relay relayRun a c → Reaches s₀ relayRun a c) := by
  have hrun : ∃ s₀ s, run GossipNode.step
        (start relayPeers (fun _ => membershipA) fun _ => false) relaySet = some s₀ ∧
      run GossipNode.step s₀ relayRun = some s := ⟨_, _, rfl, rfl⟩
  obtain ⟨s₀, s, h₁, h₂⟩ := hrun
  exact ⟨s₀, s, h₁, h₂, relayed_contribute_iff relayPeers_injective h₁ h₂ isExchange_relayRun⟩

/-- The third agent averages over its own gradients and those of the second. -/
theorem relayed_gradients_stay_behind : ∃ s₀ s,
    run GossipNode.step (start relayPeers (fun _ => membershipA) fun _ => false) relaySet = some s₀ ∧
    run GossipNode.step s₀ relayRun = some s ∧ (∀ e ∈ relayRun, e.IsExchange) ∧
    Relay relayRun 0 2 ∧ (s 2).averaged.map Prod.fst = ["c", "b"] ∧ ¬ Contributes s 0 2 := by
  refine ⟨_, _, rfl, rfl, isExchange_relayRun, ?_, rfl, ?_⟩
  · exact ⟨relayRun, List.Sublist.refl _, by simp [relayRun], 1, ⟨rfl, rfl⟩, 2, ⟨rfl, rfl⟩, rfl⟩
  · rintro ⟨ga, gc, -, -, hmem, -⟩
    have hids : "a" ∈ ["c", "b"] := List.mem_map_of_mem (f := Prod.fst) hmem
    revert hids
    decide

end Example

end GossipRl
