import GossipRl.Gossip.NewestWins

/-!
# The counters of a cache entry

The test for a stale update compares a pair of counters, and pairs need not be comparable: what is
stored is not below the entry it takes the place of (`counters_step`), but it need not be above it
either. If the messages of a peer can be compared, the counters of its entry do not go down.
-/

namespace GossipRl
open Support

variable {K : Type*}

def GradientState.counters (st : GradientState K) : Int × Int := (st.modelVersion, st.step)

def GossipMessage.counters (msg : GossipMessage K) : Int × Int := (msg.modelVersion, msg.step)

namespace GossipProtocol
variable {sender peerId : String} {p : GossipProtocol K} {msg : GossipMessage K} {c : Int × Int}

/-- The model version and the step of the cache entry of `sender`. -/
def counters (sender : String) (p : GossipProtocol K) : Option (Int × Int) :=
  (p.gradientCache.get? sender).map GradientState.counters

theorem stale_iff_counters : p.stale sender msg.modelVersion msg.step = true ↔
    ∃ c, p.counters sender = some c ∧ msg.counters ≤ c := by
  unfold stale counters
  cases p.gradientCache.get? sender with
  | none => simp
  | some cached =>
    simp only [Option.map_some, Option.some.injEq, exists_eq_left', Bool.and_eq_true,
      decide_eq_true_eq, Prod.le_def]
    exact and_comm

theorem counters_storeGradient {gradients : NdArray K} (now : ℚ) :
    (p.storeGradient now peerId gradients msg.indices msg.modelVersion msg.step).counters sender =
      if sender = peerId then some msg.counters else p.counters sender := by
  rw [counters, storeGradient, Dict.get?_set]
  split_ifs <;> rfl

end GossipProtocol

namespace HandlerPc
variable [Field K] {p p' : GossipProtocol K} {pc pc' : HandlerPc K} {now : ℚ}

/-- A handler stores its gradient if that is not stale, and tests the cache once. -/
theorem advance_cache (h : pc.advance now p = some (pc', p')) : pc'.checking = none ∧
    (p'.gradientCache = p.gradientCache ∨ ∃ msg gradients, pc = .process msg gradients ∧
      p.stale msg.senderId msg.modelVersion msg.step ≠ true ∧
      p' = p.storeGradient now msg.senderId gradients msg.indices msg.modelVersion msg.step) := by
  cases pc with
  | membership msg =>
    obtain ⟨rfl, rfl⟩ := Prod.mk.inj (Option.some.inj h)
    exact ⟨rfl, .inl rfl⟩
  | process msg gradients =>
    rw [advance] at h
    split_ifs at h with hstale
    · obtain ⟨reply, hfinish⟩ := finish_eq msg p
      obtain ⟨rfl, rfl⟩ := Prod.mk.inj (Option.some.inj (hfinish ▸ h))
      exact ⟨rfl, .inl (p.answered_gradientCache msg)⟩
    · obtain ⟨rfl, rfl⟩ := Prod.mk.inj (Option.some.inj h)
      exact ⟨rfl, .inr ⟨msg, gradients, rfl, hstale, rfl⟩⟩
  | aggregate msg gradients =>
    obtain ⟨reply, hfinish⟩ :=
      finish_eq msg (p.aggregateGradients.notify gradients msg.modelVersion msg.step)
    rw [advance, hfinish] at h
    obtain ⟨rfl, rfl⟩ := Prod.mk.inj (Option.some.inj h)
    exact ⟨rfl, .inl ((GossipProtocol.answered_gradientCache ..).trans
      GossipProtocol.aggregateGradients_cache)⟩
  | done reply => cases h

end HandlerPc

namespace GossipSched
open GossipProtocol HandlerPc
variable [Field K] {s₀ s s' : GossipSched K} {e : GossipEvent K} {events : List (GossipEvent K)}
  {sender : String} {msg : GossipMessage K} {c : Int × Int}

/-- The messages that are about to be tested against the cache. -/
def waiting (s : GossipSched K) : List (GossipMessage K) := s.tasks.filterMap checking

/-- An entry stays, or a message that is not below it takes its place. -/
inductive CounterStep (sender : String) (s s' : GossipSched K) : Prop
  | same (heq : s'.protocol.counters sender = s.protocol.counters sender)
  | stored (msg : GossipMessage K) (hmem : msg ∈ s.waiting) (hsender : msg.senderId = sender)
      (heq : s'.protocol.counters sender = some msg.counters)
      (hnew : ∀ c, s.protocol.counters sender = some c → ¬ msg.counters ≤ c)

omit [Field K] in
theorem counterStep_of_cache
    (h : s'.protocol.gradientCache = s.protocol.gradientCache) : CounterStep sender s s' :=
  .same (by rw [counters, counters, h])

theorem counters_step (sender : String) (h : s.step e = some s') : CounterStep sender s s' := by
  cases e with
  | setGradients gradients indices modelVersion step =>
    obtain rfl := Option.some.inj h
    exact counterStep_of_cache rfl
  | receive msg =>
    obtain rfl := Option.some.inj h
    exact counterStep_of_cache (ofMessage_same msg s.protocol).1.cache
  | resume t now =>
    obtain ⟨pc, pc', p, ht, hadv, rfl⟩ := step_resume_iff.1 h
    rcases (advance_cache hadv).2 with hcache | ⟨msg, gradients, rfl, hstale, rfl⟩
    · exact counterStep_of_cache hcache
    rcases eq_or_ne sender msg.senderId with rfl | hne
    · refine .stored msg (List.mem_filterMap.2 ⟨_, List.mem_of_getElem? ht, rfl⟩) rfl ?_ ?_
      · exact (counters_storeGradient now).trans (if_pos rfl)
      · exact fun c hc hle => hstale (stale_iff_counters.2 ⟨c, hc, hle⟩)
    · exact .same ((counters_storeGradient now).trans (if_neg hne))

/-- A message waits because it has been received. -/
theorem waiting_step (h : s.step e = some s') (hmem : msg ∈ s'.waiting) :
    msg ∈ s.waiting ∨ GossipEvent.gradient e = some msg := by
  cases e with
  | setGradients gradients indices modelVersion step =>
    obtain rfl := Option.some.inj h
    exact .inl hmem
  | receive received =>
    have htasks : s'.tasks = s.tasks ++ [(ofMessage received s.protocol).1] := by
      rw [← Option.some.inj h]
      rfl
    rw [waiting, htasks, filterMap_concat, (ofMessage_spec received s.protocol).1,
      List.mem_append, Option.mem_toList] at hmem
    exact hmem
  | resume t now =>
    obtain ⟨pc, pc', p, ht, hadv, rfl⟩ := step_resume_iff.1 h
    obtain ⟨pc₁, hpc₁, hmsg⟩ := List.mem_filterMap.1 hmem
    rcases List.mem_or_eq_of_mem_set hpc₁ with hpc₁ | rfl
    · exact .inl (List.mem_filterMap.2 ⟨pc₁, hpc₁, hmsg⟩)
    · rw [(advance_cache hadv).1] at hmsg
      cases hmsg

/-- The pairs that the messages of `sender` carry. -/
def pairs (sender : String) (events : List (GossipEvent K)) : List (Int × Int) :=
  (ofSender sender (received events)).map GossipMessage.counters

omit [Field K] in
theorem mem_pairs : c ∈ pairs sender events ↔ ∃ e ∈ events, ∃ msg,
    GossipEvent.gradient e = some msg ∧ msg.senderId = sender ∧ msg.counters = c := by
  simp only [pairs, ofSender, received, List.mem_map, List.mem_filter, List.mem_filterMap,
    decide_eq_true_eq]
  constructor
  · rintro ⟨msg, ⟨⟨e, he, hmsg⟩, hsender⟩, hc⟩
    exact ⟨e, he, msg, hmsg, hsender, hc⟩
  · rintro ⟨e, he, msg, hmsg, hsender, hc⟩
    exact ⟨msg, ⟨⟨e, he, hmsg⟩, hsender⟩, hc⟩

/-- A gradient message of `sender` that the event is has one of the pairs. -/
def PairIn (sender : String) (allowed : List (Int × Int)) (_ : GossipSched K) (e : GossipEvent K) :
    Prop :=
  ∀ msg, GossipEvent.gradient e = some msg → msg.senderId = sender → msg.counters ∈ allowed

theorem along_pairIn (sender : String) {es : List (GossipEvent K)} (h : ∀ e ∈ es, e ∈ events) :
    Along step (PairIn sender (pairs sender events)) s es := by
  rintro es₁ e es₂ s₁ rfl - msg hmsg hsender
  exact mem_pairs.2 ⟨e, h e (by simp), msg, hmsg, hsender, rfl⟩

/-- What waits, and what is cached, has one of the pairs. -/
structure PairsIn (sender : String) (allowed : List (Int × Int)) (s : GossipSched K) : Prop where
  waiting : ∀ msg ∈ s.waiting, msg.senderId = sender → msg.counters ∈ allowed
  cached : ∀ c, s.protocol.counters sender = some c → c ∈ allowed

theorem PairsIn.step {allowed : List (Int × Int)} (hs : PairsIn sender allowed s)
    (he : PairIn sender allowed s e) (h : s.step e = some s') : PairsIn sender allowed s' := by
  constructor
  · intro msg hmem hsender
    rcases waiting_step h hmem with hmem | hmsg
    · exact hs.waiting msg hmem hsender
    · exact he msg hmsg hsender
  · intro c hc
    cases counters_step sender h with
    | same heq => exact hs.cached c (heq ▸ hc)
    | stored msg hmem hsender heq hnew =>
      obtain rfl := Option.some.inj (heq.symm.trans hc)
      exact hs.waiting msg hmem hsender

theorem pairsIn_run {allowed : List (Int × Int)} {es : List (GossipEvent K)}
    (hs₀ : PairsIn sender allowed s₀) (hes : Along GossipSched.step (PairIn sender allowed) s₀ es)
    (hrun : run GossipSched.step s₀ es = some s) : PairsIn sender allowed s :=
  run_induction (motive := fun _ => PairsIn sender allowed) hs₀
    (fun _ _ _ _ _ hs he hstep => hs.step he hstep) hes hrun

/-- From any state on the way to any later one, neither counter of the entry of `sender` goes down. -/
def NeverDecreases (sender : String) (s₀ : GossipSched K) (events : List (GossipEvent K)) : Prop :=
  ∀ es₁ es₂ es₃ s₁ s₂, events = es₁ ++ es₂ ++ es₃ → run step s₀ es₁ = some s₁ →
    run step s₁ es₂ = some s₂ → ∀ c, s₁.protocol.counters sender = some c →
      ∃ c', s₂.protocol.counters sender = some c' ∧ c ≤ c'

/-- One of two pairs is not below the other. -/
def Comparable (allowed : List (Int × Int)) : Prop :=
  ∀ a ∈ allowed, ∀ b ∈ allowed, a ≤ b ∨ b ≤ a

theorem neverDecreases_of_comparable (hs₀ : PairsIn sender (pairs sender events) s₀)
    (hcomp : Comparable (pairs sender events)) : NeverDecreases sender s₀ events := by
  rintro es₁ es₂ es₃ s₁ s₂ heq hrun₁ hrun₂ c hc
  have hmem₁ : ∀ e ∈ es₁, e ∈ events := fun e he => by simp [heq, he]
  have hmem₂ : ∀ e ∈ es₂, e ∈ events := fun e he => by simp [heq, he]
  have hs₁ := pairsIn_run hs₀ (along_pairIn sender hmem₁) hrun₁
  refine (run_induction (motive := fun _ s => PairsIn sender (pairs sender events) s ∧
    ∃ c', s.protocol.counters sender = some c' ∧ c ≤ c') ⟨hs₁, c, hc, le_rfl⟩ ?_
    (along_pairIn sender hmem₂) hrun₂).2
  rintro es s e s' - ⟨hs, c', hc', hle⟩ he hstep
  refine ⟨hs.step he hstep, ?_⟩
  cases counters_step sender hstep with
  | same heq => exact ⟨c', heq.trans hc', hle⟩
  | stored msg hmem hsender heq hnew =>
    have hcached := hs.cached c' hc'
    have hup := (hcomp _ (hs.waiting msg hmem hsender) c' hcached).resolve_left (hnew c' hc')
    exact ⟨msg.counters, heq, hle.trans hup⟩

end GossipSched

open GossipSched GossipProtocol

/-- What takes the place of an entry has a greater model version or a greater step; and if any two
pairs of a peer's messages can be compared, neither of the two ever goes down. -/
theorem entry_counters_progress [Field K] (localPeer : Peer) (membership : MembershipManager)
    (onGradientReceived : Bool) (sender : String) (events : List (GossipEvent K)) :
    (∀ es₁ e es₂ s₁ s₂, events = es₁ ++ e :: es₂ →
      run GossipSched.step (.init localPeer membership onGradientReceived) es₁ = some s₁ →
      s₁.step e = some s₂ → ∀ c, s₁.protocol.counters sender = some c →
        ∃ c', s₂.protocol.counters sender = some c' ∧ (c' = c ∨ c.1 < c'.1 ∨ c.2 < c'.2)) ∧
    (Comparable (pairs sender events) →
      NeverDecreases sender (.init localPeer membership onGradientReceived) events) := by
  constructor
  · rintro es₁ e es₂ s₁ s₂ - - hstep c hc
    cases counters_step sender hstep with
    | same heq => exact ⟨c, heq.trans hc, .inl rfl⟩
    | stored msg hmem hsender heq hnew =>
      refine ⟨msg.counters, heq, .inr ?_⟩
      have hnot := hnew c hc
      rw [Prod.le_def, not_and_or, not_le, not_le] at hnot
      exact hnot
  · intro hcomp
    refine neverDecreases_of_comparable ⟨?_, ?_⟩ hcomp
    · rintro msg hmem
      cases hmem
    · rintro c hc
      cases hc

section Example

/-- Two messages of a peer that was restarted in between. -/
def restartedRun : List (GossipEvent ℚ) :=
  [.receive (.createPushGradient "b" 1 (.ofList [3]) 2 1 none), .resume 0 0,
    .receive (.createPushGradient "b" 1 (.ofList [3]) 1 2 none), .resume 1 0]

/-- Model version 2 is replaced by model version 1. -/
theorem model_version_decreases :
    ¬ NeverDecreases "b" (.init peerA membershipA false) restartedRun := by
  intro h
  obtain ⟨c, hc, hle⟩ := h (restartedRun.take 2) (restartedRun.drop 2) [] _ _ rfl rfl rfl (2, 1) rfl
  obtain rfl := Option.some.inj hc
  exact absurd hle (by decide)

end Example

end GossipRl
