import GossipRl.Gossip.Protocol
import GossipRl.Support.Run
import Mathlib.Tactic.NormNum

/-!
# The aggregate and its count

`_aggregate_gradients` leaves the mean of the local gradients and the cached ones of their shape,
but `set_gradients` puts the local gradients alone in its place, and `get_aggregated_gradients`
counts the whole cache all the same. So between handlers the pair is right exactly if every cached
gradient has the local shape and a handler has averaged since the last `set_gradients`, or the mean
happens to be the local gradients.
-/

namespace GossipRl
open Support

variable {K : Type*}

namespace GossipProtocol
variable {p p' p'' : GossipProtocol K} {current : NdArray K}

/-- The returned pair is the mean of the local gradients and the cached ones of their shape, and
their number. -/
def AggregateOk [Field K] (current : NdArray K) (p : GossipProtocol K) : Prop :=
  p.getAggregatedGradients =
    (.mean current.shape (p.allGradients current), (p.allGradients current).length)

/-- The cached gradients average to the local ones, or there are none. -/
def Balanced [Field K] (current : NdArray K) (p : GossipProtocol K) : Prop :=
  ∀ i < current.shape.prod, (p.gradientCache.values.map fun st => st.gradients.get i).sum =
    p.gradientCache.size * current.get i

def ShapesAgree (current : NdArray K) (p : GossipProtocol K) : Prop :=
  ∀ st ∈ p.gradientCache.values, st.gradients.shape = current.shape

/-- The fields that the aggregate depends on are the same. -/
structure SameGradients (p p' : GossipProtocol K) : Prop where
  current : p'.currentGradients = p.currentGradients
  cache : p'.gradientCache = p.gradientCache
  aggregated : p'.aggregatedGradients = p.aggregatedGradients

theorem SameGradients.trans (h : p.SameGradients p') (h' : p'.SameGradients p'') :
    p.SameGradients p'' :=
  ⟨h'.current.trans h.current, h'.cache.trans h.cache, h'.aggregated.trans h.aggregated⟩

theorem gossipMessage_spec {pushPull : Bool} {msg : GossipMessage K}
    (h : p.gossipMessage pushPull = some (msg, p')) :
    (msg.type = .PUSH_GRADIENT ∨ msg.type = .PUSH_PULL_GRADIENT) ∧
      msg.senderId = p.localPeer.id ∧ msg.gradientData = p.currentGradients ∧
      p.SameGradients p' ∧ p'.localPeer = p.localPeer := by
  cases hc : p.currentGradients with
  | none => simp [gossipMessage, hc] at h
  | some current =>
    simp only [gossipMessage, hc] at h
    cases pushPull with
    | false =>
      obtain ⟨rfl, rfl⟩ := Prod.mk.inj (Option.some.inj h)
      exact ⟨.inl rfl, rfl, rfl, ⟨rfl, rfl, rfl⟩, rfl⟩
    | true =>
      obtain ⟨rfl, rfl⟩ := Prod.mk.inj (Option.some.inj h)
      exact ⟨.inr rfl, rfl, rfl, ⟨rfl, rfl, rfl⟩, rfl⟩

theorem SameGradients.allGradients (h : p.SameGradients p') (current : NdArray K) :
    p'.allGradients current = p.allGradients current := by
  simp [GossipProtocol.allGradients, h.cache]

theorem allGradients_of_shapesAgree (h : p.ShapesAgree current) :
    p.allGradients current = current :: p.gradientCache.values.map (·.gradients) := by
  rw [allGradients, List.filter_eq_self.2]
  simpa [ShapesAgree] using h

theorem length_allGradients_eq_iff :
    (p.allGradients current).length = p.gradientCache.size + 1 ↔ p.ShapesAgree current := by
  have hsize : p.gradientCache.size = (p.gradientCache.values.map (·.gradients)).length := by
    simp [Dict.size, Dict.values]
  rw [allGradients, List.length_cons, Nat.add_right_cancel_iff, hsize, List.length_filter_eq_length_iff]
  simp [ShapesAgree]

variable [Field K]

theorem aggregateGradients_current : p.aggregateGradients.currentGradients = p.currentGradients := by
  unfold aggregateGradients
  dsimp only
  repeat' split
  all_goals rfl

theorem aggregateGradients_cache : p.aggregateGradients.gradientCache = p.gradientCache := by
  unfold aggregateGradients
  dsimp only
  repeat' split
  all_goals rfl

theorem aggregateGradients_aggregated (hc : p.currentGradients = some current)
    (hsize : p.gradientCache.size ≠ 0) (hall : (p.allGradients current).length > 1) :
    p.aggregateGradients.aggregatedGradients =
      some (.mean current.shape (p.allGradients current)) := by
  simp [aggregateGradients, hc, hsize, hall]

theorem aggregateGradients_ne_none (h : p.aggregatedGradients ≠ none) :
    p.aggregateGradients.aggregatedGradients ≠ none := by
  unfold aggregateGradients
  dsimp only
  repeat' split
  all_goals first
    | exact h
    | exact Option.some_ne_none _

theorem aggregateOk_iff [CharZero K] (h : p.aggregatedGradients = some current) :
    p.AggregateOk current ↔ p.ShapesAgree current ∧ p.Balanced current := by
  have hpair : p.getAggregatedGradients = (current, p.gradientCache.size + 1) := by
    simp [getAggregatedGradients, h]
  rw [AggregateOk, hpair, Prod.mk.injEq, and_comm, eq_comm, length_allGradients_eq_iff]
  refine and_congr_right ?_
  intro hshapes
  rw [eq_comm, allGradients_of_shapesAgree hshapes, NdArray.mean_cons_eq_self_iff]
  simp [Balanced, Dict.size, Dict.values, Function.comp_def]

theorem aggregateOk_of_mean
    (h : p.aggregatedGradients = some (.mean current.shape (p.allGradients current)))
    (hshapes : p.ShapesAgree current) : p.AggregateOk current := by
  rw [AggregateOk, length_allGradients_eq_iff.2 hshapes]
  simp [getAggregatedGradients, h]

theorem AggregateOk.shapesAgree (h : p.AggregateOk current)
    (ha : p.aggregatedGradients ≠ none) : p.ShapesAgree current := by
  obtain ⟨g, hg⟩ := Option.ne_none_iff_exists'.1 ha
  rw [AggregateOk, getAggregatedGradients, hg] at h
  exact length_allGradients_eq_iff.1 (Prod.mk.inj h).2.symm

end GossipProtocol

namespace HandlerPc
variable {p : GossipProtocol K} {pc' : HandlerPc K}

/-- The handler has stored a gradient and is about to average. -/
def Averages (pc : HandlerPc K) : Prop := ∃ msg gradients, pc = .aggregate msg gradients

theorem finish_same (msg : GossipMessage K) (p : GossipProtocol K) :
    p.SameGradients (finish msg p).2 ∧ ¬ (finish msg p).1.Averages := by
  unfold finish
  split
  all_goals exact ⟨⟨rfl, rfl, rfl⟩, by rintro ⟨_, _, h⟩; cases h⟩

theorem ofMessage_same (msg : GossipMessage K) (p : GossipProtocol K) :
    p.SameGradients (ofMessage msg p).2 ∧ ¬ (ofMessage msg p).1.Averages := by
  have hp : p.SameGradients { p with messagesReceived := p.messagesReceived + 1 } := ⟨rfl, rfl, rfl⟩
  unfold ofMessage
  dsimp only
  repeat' split
  all_goals first
    | exact ⟨⟨rfl, rfl, rfl⟩, by rintro ⟨_, _, h⟩; cases h⟩
    | exact ⟨hp.trans (finish_same msg _).1, (finish_same msg _).2⟩

end HandlerPc

namespace GossipEvent

def IsSet : GossipEvent K → Prop
  | .setGradients .. => True
  | _ => False

end GossipEvent

namespace GossipSched
open GossipProtocol
variable [Field K] {s s' : GossipSched K} {e : GossipEvent K}

/-- The step is the averaging of a handler. -/
def AveragesAt (s : GossipSched K) (e : GossipEvent K) : Prop :=
  ∃ t now pc, e = .resume t now ∧ s.tasks[t]? = some pc ∧ pc.Averages

/-- What a step is: a call of `set_gradients`, the storing of a gradient, an averaging, or nothing
that matters to the aggregate. -/
inductive Step (s : GossipSched K) (e : GossipEvent K) (s' : GossipSched K) : Prop
  | set (he : e.IsSet) (tasks : s'.tasks = s.tasks)
      (cache : s'.protocol.gradientCache = s.protocol.gradientCache)
      (aggregated : s'.protocol.aggregatedGradients = s'.protocol.currentGradients)
  | store (he : ¬ e.IsSet) (ha : ¬ s.AveragesAt e) (tasks : ∃ pc ∈ s'.tasks, pc.Averages)
      (cache : s'.protocol.gradientCache.size ≠ 0)
      (current : s'.protocol.currentGradients = s.protocol.currentGradients)
      (aggregated : s'.protocol.aggregatedGradients = s.protocol.aggregatedGradients)
  | average (he : ¬ e.IsSet) (ha : s.AveragesAt e)
      (same : s.protocol.aggregateGradients.SameGradients s'.protocol)
  | other (he : ¬ e.IsSet) (ha : ¬ s.AveragesAt e)
      (tasks : ∀ pc : HandlerPc K, pc.Averages → (pc ∈ s'.tasks ↔ pc ∈ s.tasks))
      (same : s.protocol.SameGradients s'.protocol)

theorem step_cases (h : s.step e = some s') : Step s e s' := by
  cases e with
  | setGradients gradients indices modelVersion step =>
    obtain rfl := Option.some.inj h
    exact .set trivial rfl rfl rfl
  | receive msg =>
    obtain rfl := Option.some.inj h
    obtain ⟨hsame, hpc⟩ := HandlerPc.ofMessage_same msg s.protocol
    refine .other not_false (by rintro ⟨_, _, _, heq, -⟩; cases heq) (fun pc hav => ?_) hsame
    rw [List.mem_append, List.mem_singleton, or_iff_left]
    rintro rfl
    exact hpc hav
  | resume t now =>
    obtain ⟨pc, pc', p, ht, hadv, rfl⟩ := step_resume_iff.1 h
    have here : s.AveragesAt (.resume t now) ↔ pc.Averages := by
      constructor
      · rintro ⟨_, _, pc₁, ⟨rfl, rfl⟩, ht₁, hav⟩
        exact Option.some.inj (ht.symm.trans ht₁) ▸ hav
      · exact fun hav => ⟨t, now, pc, rfl, ht, hav⟩
    -- a handler that neither stores nor averages goes on to a place that does not average
    have quiet : ¬ pc.Averages → ¬ pc'.Averages → s.protocol.SameGradients p →
        Step s (.resume t now) ⟨p, s.tasks.set t pc'⟩ := by
      intro hpc hpc' hsame
      refine .other not_false (here.not.2 hpc) (fun pc₁ hav => ⟨fun hmem => ?_, fun hmem => ?_⟩) hsame
      · exact (List.mem_or_eq_of_mem_set hmem).resolve_right fun heq => hpc' (heq ▸ hav)
      · exact mem_set_of_ne hmem ht fun heq => hpc (heq ▸ hav)
    cases pc with
    | membership msg =>
      obtain ⟨rfl, rfl⟩ := Prod.mk.inj (Option.some.inj hadv)
      exact quiet (by rintro ⟨_, _, heq⟩; cases heq) (by rintro ⟨_, _, heq⟩; cases heq) ⟨rfl, rfl, rfl⟩
    | process msg gradients =>
      simp only [HandlerPc.advance] at hadv
      split at hadv
      · obtain ⟨hsame, hpc⟩ := HandlerPc.finish_same msg s.protocol
        rw [Option.some.inj hadv] at hsame hpc
        exact quiet (by rintro ⟨_, _, heq⟩; cases heq) hpc hsame
      · obtain ⟨rfl, rfl⟩ := Prod.mk.inj (Option.some.inj hadv)
        refine .store not_false (here.not.2 (by rintro ⟨_, _, heq⟩; cases heq))
          ⟨_, List.mem_set (List.getElem?_eq_some_iff.1 ht).1 _, msg, gradients, rfl⟩ ?_ rfl rfl
        exact mt List.length_eq_zero_iff.1 (Dict.entries_set_ne_nil _ _ _)
    | aggregate msg gradients =>
      obtain ⟨hsame, -⟩ := HandlerPc.finish_same msg
        (s.protocol.aggregateGradients.notify gradients msg.modelVersion msg.step)
      rw [Option.some.inj hadv] at hsame
      exact .average not_false (here.2 ⟨msg, gradients, rfl⟩)
        ⟨hsame.current, hsame.cache, hsame.aggregated⟩
    | done reply => cases hadv

/-- A handler has averaged, and `set_gradients` has not been called since. -/
def AveragedSinceSet (s₀ : GossipSched K) (events : List (GossipEvent K)) : Prop :=
  Since step AveragesAt GossipEvent.IsSet s₀ events

/-- The aggregate is the local gradients or, once a handler has averaged and none is about to, the
mean over the cache. -/
structure AggregateInv (s₀ : GossipSched K) (events : List (GossipEvent K)) (s : GossipSched K) :
    Prop where
  present : s.protocol.currentGradients ≠ none → s.protocol.aggregatedGradients ≠ none
  reset : ¬ AveragedSinceSet s₀ events →
    s.protocol.aggregatedGradients = s.protocol.currentGradients
  stored : (∃ pc ∈ s.tasks, pc.Averages) ∨ AveragedSinceSet s₀ events →
    s.protocol.gradientCache.size ≠ 0
  averaged : AveragedSinceSet s₀ events → (∀ pc ∈ s.tasks, ¬ pc.Averages) →
    ∀ current, s.protocol.currentGradients = some current →
      (s.protocol.allGradients current).length > 1 →
      s.protocol.aggregatedGradients =
        some (.mean current.shape (s.protocol.allGradients current))

theorem aggregateInv_step {s₀ : GossipSched K} {events : List (GossipEvent K)}
    (hrun : run step s₀ events = some s) (hs : AggregateInv s₀ events s) (h : s.step e = some s') :
    AggregateInv s₀ (events ++ [e]) s' := by
  have hsince : AveragedSinceSet s₀ (events ++ [e]) ↔
      s.AveragesAt e ∨ ¬ e.IsSet ∧ AveragedSinceSet s₀ events := Since.concat_iff hrun
  cases step_cases h with
  | set he tasks cache aggregated =>
    have ha : ¬ s.AveragesAt e := by
      rintro ⟨t, now, pc, rfl, -⟩
      cases he
    have hno : ¬ AveragedSinceSet s₀ (events ++ [e]) := by simp [hsince, ha, he]
    exact {
      present := fun hc => by rwa [aggregated]
      reset := fun _ => aggregated
      stored := fun hor => by
        rw [cache]
        exact hs.stored (.inl (tasks ▸ hor.resolve_right hno))
      averaged := fun hav => absurd hav hno }
  | store he ha tasks cache current aggregated =>
    have heq : AveragedSinceSet s₀ (events ++ [e]) ↔ AveragedSinceSet s₀ events := by
      simp [hsince, ha, he]
    exact {
      present := by rw [current, aggregated]; exact hs.present
      reset := by rw [heq, current, aggregated]; exact hs.reset
      stored := fun _ => cache
      averaged := fun _ hnone =>
        let ⟨pc, hmem, hav⟩ := tasks
        absurd hav (hnone pc hmem) }
  | average he ha same =>
    have hyes : AveragedSinceSet s₀ (events ++ [e]) := hsince.2 (.inl ha)
    obtain ⟨t, now, pc, rfl, ht, hav⟩ := ha
    have hsize : s.protocol.gradientCache.size ≠ 0 :=
      hs.stored (.inl ⟨pc, List.mem_of_getElem? ht, hav⟩)
    have hcur : s'.protocol.currentGradients = s.protocol.currentGradients :=
      same.current.trans aggregateGradients_current
    have hcache : s'.protocol.gradientCache = s.protocol.gradientCache :=
      same.cache.trans aggregateGradients_cache
    exact {
      present := fun hc => by
        rw [same.aggregated]
        exact aggregateGradients_ne_none (hs.present (hcur ▸ hc))
      reset := fun hno => absurd hyes hno
      stored := fun _ => by rwa [hcache]
      averaged := fun _ _ current hc hall => by
        have hsame : s'.protocol.allGradients current = s.protocol.allGradients current := by
          simp [GossipProtocol.allGradients, hcache]
        rw [hsame] at hall ⊢
        rw [same.aggregated]
        exact aggregateGradients_aggregated (hcur ▸ hc) hsize hall }
  | other he ha tasks same =>
    have heq : AveragedSinceSet s₀ (events ++ [e]) ↔ AveragedSinceSet s₀ events := by
      simp [hsince, ha, he]
    exact {
      present := by rw [same.current, same.aggregated]; exact hs.present
      reset := by rw [heq, same.current, same.aggregated]; exact hs.reset
      stored := by
        rintro (⟨pc, hmem, hav⟩ | hav)
        · rw [same.cache]
          exact hs.stored (.inl ⟨pc, (tasks pc hav).1 hmem, hav⟩)
        · rw [same.cache]
          exact hs.stored (.inr (heq.1 hav))
      averaged := fun hav hnone current hc hall => by
        rw [same.allGradients] at hall ⊢
        rw [same.aggregated]
        refine hs.averaged (heq.1 hav) (fun pc hmem hpc => ?_) current (same.current ▸ hc) hall
        exact hnone pc ((tasks pc hpc).2 hmem) hpc }

theorem aggregateInv_run {localPeer : Peer} {membership : MembershipManager}
    {onGradientReceived : Bool} {events : List (GossipEvent K)}
    (hrun : run step (.init localPeer membership onGradientReceived) events = some s) :
    AggregateInv (.init localPeer membership onGradientReceived) events s := by
  have nil : AggregateInv (K := K) (.init localPeer membership onGradientReceived) []
      (.init localPeer membership onGradientReceived) := {
    present := fun hc => absurd rfl hc
    reset := fun _ => rfl
    stored := by
      rintro (⟨pc, hmem, -⟩ | hav)
      · cases hmem
      · exact absurd hav Since.not_nil
    averaged := fun hav => absurd hav Since.not_nil }
  refine run_induction (motive := AggregateInv _) nil ?_ .unconditional hrun
  intro es s e s' hes hs _ hstep
  exact aggregateInv_step hes hs hstep

end GossipSched

open GossipSched GossipProtocol

/-- Between handlers the returned pair is the mean of the local gradients and the cached ones of
their shape, and their number, exactly if every cached gradient has the local shape, and a handler
has averaged since the last `set_gradients` or the cached gradients average to the local ones. -/
theorem aggregate_ok_iff [Field K] [CharZero K] {localPeer : Peer} {membership : MembershipManager}
    {onGradientReceived : Bool} {events : List (GossipEvent K)} {s : GossipSched K}
    {current : NdArray K}
    (hrun : run GossipSched.step (.init localPeer membership onGradientReceived) events = some s)
    (hquiet : s.Quiescent) (hcurrent : s.protocol.currentGradients = some current) :
    s.protocol.AggregateOk current ↔ s.protocol.ShapesAgree current ∧
      (AveragedSinceSet (.init localPeer membership onGradientReceived) events ∨
        s.protocol.Balanced current) := by
  have hinv := aggregateInv_run hrun
  have hnone : ∀ pc ∈ s.tasks, ¬ pc.Averages := by
    rintro pc hmem ⟨msg, gradients, rfl⟩
    obtain ⟨reply, heq⟩ := hquiet _ hmem
    cases heq
  by_cases hav : AveragedSinceSet (.init localPeer membership onGradientReceived) events
  · rw [and_iff_left (.inl hav)]
    constructor
    · exact fun h => h.shapesAgree (hinv.present (by simp [hcurrent]))
    · intro hshapes
      refine aggregateOk_of_mean (hinv.averaged hav hnone current hcurrent ?_) hshapes
      have := hinv.stored (.inr hav)
      rw [length_allGradients_eq_iff.2 hshapes]
      omega
  · rw [aggregateOk_iff ((hinv.reset hav).trans hcurrent), or_iff_right hav]

section Example

def peerA : Peer := { id := "a" }

def membershipA : MembershipManager := { config := {}, localPeer := 0, heap := fun _ => peerA }

def pushOf (xs : List ℚ) : GossipMessage ℚ :=
  .createPushGradient "b" 1 (.ofList xs) 0 0 none

/-- The local gradients are set, and a peer's are handled. -/
def pushRun : List (GossipEvent ℚ) :=
  [.setGradients (.ofList [1]) none 0 0, .receive (pushOf [3]), .resume 0 0, .resume 0 0]

theorem aggregate_ok_iff_push : ∃ s,
    run GossipSched.step (.init peerA membershipA false) pushRun = some s ∧
    (s.protocol.AggregateOk (.ofList [1]) ↔ s.protocol.ShapesAgree (.ofList [1]) ∧
      (AveragedSinceSet (.init peerA membershipA false) pushRun ∨
        s.protocol.Balanced (.ofList [1]))) := by
  refine ⟨_, rfl, aggregate_ok_iff rfl ?_ rfl⟩
  intro pc hmem
  exact ⟨none, List.mem_singleton.1 hmem⟩

theorem mean_five_three :
    NdArray.mean [1] [.ofList [(5 : ℚ)], .ofList [3]] ≠ .ofList [5] := by
  intro heq
  have h₅ : (NdArray.ofList [(5 : ℚ)]).get 0 = 5 := rfl
  have h₃ : (NdArray.ofList [(3 : ℚ)]).get 0 = 3 := rfl
  have h₀ := congrArg (fun a => a.get 0) heq
  rw [NdArray.get_mean _ (by decide)] at h₀
  norm_num [h₅, h₃] at h₀

/-- After the next `set_gradients` the pair is the new local gradients alone and the count 2. -/
theorem set_gradients_leaves_count : ∃ s,
    run GossipSched.step (.init peerA membershipA false)
      (pushRun ++ [.setGradients (.ofList [5]) none 1 1]) = some s ∧
    s.Quiescent ∧ s.protocol.currentGradients = some (.ofList [5]) ∧
    s.protocol.getAggregatedGradients = (.ofList [5], 2) ∧
    s.protocol.allGradients (.ofList [5]) = [.ofList [5], .ofList [3]] ∧
    ¬ s.protocol.AggregateOk (.ofList [5]) := by
  refine ⟨_, rfl, ?_, rfl, rfl, rfl, fun h => ?_⟩
  · intro pc hmem
    exact ⟨none, List.mem_singleton.1 hmem⟩
  · exact mean_five_three (congrArg Prod.fst h).symm

end Example

end GossipRl
