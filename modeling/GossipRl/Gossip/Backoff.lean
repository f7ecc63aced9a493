import GossipRl.Gossip.PeerSelection
import GossipRl.Support.Run
import Mathlib.Tactic.Linarith
import Mathlib.Tactic.NormNum

/-!
# The delays of the backoff

What is stored is a deadline, and the next delay is twice what is left of it. But a peer only fails
when it has been selected, past its deadline, so there is nothing left (`backoffDelay_nonpos`): all
the delays after the first one are at most zero.
-/

namespace GossipRl
open Support

namespace GossipPeers
variable {p₀ p p' : GossipPeers} {e : SendEvent} {events : List SendEvent} {peerId : String}
  {now read store : ℚ}

/-- The readings of the clock at a failure of the peer. -/
def readings (peerId : String) : SendEvent → List ℚ
  | .failure peerId' now read store => if peerId' = peerId then [now, read, store] else []
  | _ => []

/-- When the peer's deadline is set, and by what delay it is later. -/
def delayAt (peerId : String) (p : GossipPeers) : SendEvent → Option (ℚ × ℚ)
  | .failure peerId' _ read store =>
    if peerId' = peerId then some (store, p.backoffDelay read peerId) else none
  | _ => none

/-- The delays of the peer in a run. -/
def delays (peerId : String) (p₀ : GossipPeers) (events : List SendEvent) : List (ℚ × ℚ) :=
  observe sendStep (delayAt peerId) p₀ events

/-- Each deadline is later than the time at which it is set, and the delays go up from 1 to the
greatest one, doubling. -/
structure Doubles (maxBackoff : ℚ) (delays : List (ℚ × ℚ)) : Prop where
  later : ∀ d ∈ delays, d.1 < d.1 + d.2
  nondecreasing : (delays.map Prod.snd).Pairwise (· ≤ ·)
  doubling : ∀ k d, (delays.map Prod.snd)[k]? = some d → d = min maxBackoff (2 ^ k)

/-- A failure of the peer. -/
def isFailure (peerId : String) : SendEvent → Bool
  | .failure peerId' .. => peerId' = peerId
  | _ => false

theorem backoffDelay_nonpos {deadline : ℚ} (hget : p.backoff.get? peerId = some deadline)
    (heligible : p.eligible now peerId) (hread : now ≤ read) : p.backoffDelay read peerId ≤ 0 := by
  rw [eligible, hget] at heligible
  have hpast : deadline ≤ now := of_decide_eq_true heligible
  rw [backoffDelay, hget]
  refine (min_le_right _ _).trans ?_
  push_cast
  linarith

theorem backoffDelay_first (hget : p.backoff.get? peerId = none) :
    p.backoffDelay read peerId = 1 := by
  rw [backoffDelay, hget]

theorem sendStep_cases (hfail : e ≠ .success peerId) (hstep : p.sendStep e = some p') :
    (isFailure peerId e = false ∧ delayAt peerId p e = none ∧
      p'.backoff.get? peerId = p.backoff.get? peerId) ∨
    ∃ now read store, e = .failure peerId now read store ∧ p.eligible now peerId ∧
      p'.backoff.get? peerId = some (store + p.backoffDelay read peerId) := by
  cases e with
  | success peerId' =>
    obtain rfl := Option.some.inj hstep
    have hne : peerId' ≠ peerId := by
      rintro rfl
      exact hfail rfl
    exact .inl ⟨rfl, rfl, (Dict.get?_erase ..).trans (if_neg hne.symm)⟩
  | failure peerId' now read store =>
    rw [sendStep] at hstep
    split_ifs at hstep with heligible
    obtain rfl := Option.some.inj hstep
    rcases eq_or_ne peerId' peerId with rfl | hne
    · exact .inr ⟨now, read, store, rfl, heligible, Dict.get?_set_self⟩
    · exact .inl ⟨decide_eq_false hne, if_neg hne, Dict.get?_set_of_ne hne.symm⟩

/-- The first delay is 1, and the peer has a deadline from then on. -/
structure BackoffInv (peerId : String) (p₀ : GossipPeers) (events : List SendEvent)
    (p : GossipPeers) : Prop where
  fresh : delays peerId p₀ events = [] → p.backoff.get? peerId = none
  stored : ∀ d rest, delays peerId p₀ events = d :: rest →
    d.2 = 1 ∧ (∀ d' ∈ rest, d'.2 ≤ 0) ∧ ∃ deadline, p.backoff.get? peerId = some deadline
  count : (delays peerId p₀ events).length = (events.filter (isFailure peerId)).length

theorem delays_concat (hrun : run sendStep p₀ events = some p) :
    delays peerId p₀ (events ++ [e]) =
      delays peerId p₀ events ++ (delayAt peerId p e).toList := observe_concat hrun

theorem length_failures_concat : ((events ++ [e]).filter (isFailure peerId)).length =
    (events.filter (isFailure peerId)).length + if isFailure peerId e then 1 else 0 := by
  rw [List.filter_append, List.length_append]
  cases hisFailure : isFailure peerId e <;> simp [hisFailure]

theorem BackoffInv.other (hrun : run sendStep p₀ events = some p)
    (hp : BackoffInv peerId p₀ events p) (hother : isFailure peerId e = false)
    (hnone : delayAt peerId p e = none) (hsame : p'.backoff.get? peerId = p.backoff.get? peerId) :
    BackoffInv peerId p₀ (events ++ [e]) p' := by
  have hdelays : delays peerId p₀ (events ++ [e]) = delays peerId p₀ events := by
    rw [delays_concat hrun, hnone, Option.toList_none, List.append_nil]
  constructor
  · rw [hdelays, hsame]
    exact hp.fresh
  · rw [hdelays, hsame]
    exact hp.stored
  · rw [hdelays, length_failures_concat, hother, hp.count]
    rfl

/-- The peer has been selected, so that its deadline has passed, if it has one. -/
theorem BackoffInv.failure (hrun : run sendStep p₀ events = some p)
    (hp : BackoffInv peerId p₀ events p) (heligible : p.eligible now peerId) (hread : now ≤ read)
    (hget : p'.backoff.get? peerId = some (store + p.backoffDelay read peerId)) :
    BackoffInv peerId p₀ (events ++ [.failure peerId now read store]) p' := by
  have hdelays : delays peerId p₀ (events ++ [.failure peerId now read store]) =
      delays peerId p₀ events ++ [(store, p.backoffDelay read peerId)] := by
    rw [delays_concat hrun, delayAt, if_pos rfl, Option.toList_some]
  constructor
  · intro h
    rw [hdelays] at h
    simp at h
  · intro d rest heq
    rw [hdelays] at heq
    cases hold : delays peerId p₀ events with
    | nil =>
      rw [hold] at heq
      obtain ⟨rfl, rfl⟩ := List.cons.inj heq
      exact ⟨backoffDelay_first (hp.fresh hold), by simp, _, hget⟩
    | cons d₀ rest₀ =>
      rw [hold] at heq
      obtain ⟨rfl, rfl⟩ := List.cons.inj heq
      obtain ⟨hone, hrest, deadline, hdeadline⟩ := hp.stored _ _ hold
      refine ⟨hone, fun d' hd' => ?_, _, hget⟩
      rcases List.mem_append.1 hd' with hd' | hd'
      · exact hrest d' hd'
      · rw [List.mem_singleton.1 hd']
        exact backoffDelay_nonpos hdeadline heligible hread
  · rw [hdelays, length_failures_concat, List.length_append, hp.count]
    simp [isFailure]

theorem BackoffInv.step (hrun : run sendStep p₀ events = some p)
    (hp : BackoffInv peerId p₀ events p) (hclock : (readings peerId e).Pairwise (· ≤ ·))
    (hfail : e ≠ .success peerId) (hstep : p.sendStep e = some p') :
    BackoffInv peerId p₀ (events ++ [e]) p' := by
  rcases sendStep_cases hfail hstep with ⟨hother, hnone, hsame⟩ |
    ⟨now, read, store, rfl, heligible, hget⟩
  · exact hp.other hrun hother hnone hsame
  · rw [readings, if_pos rfl] at hclock
    have hread : now ≤ read := (List.pairwise_cons.1 hclock).1 read (List.mem_cons_self ..)
    exact hp.failure hrun heligible hread hget

theorem backoffInv_run (hfresh : p₀.backoff.get? peerId = none)
    (hclock : (events.flatMap (readings peerId)).Pairwise (· ≤ ·))
    (hfail : .success peerId ∉ events) (hrun : run sendStep p₀ events = some p) :
    BackoffInv peerId p₀ events p := by
  have nil : BackoffInv peerId p₀ [] p₀ := by
    refine ⟨fun _ => hfresh, fun d rest heq => ?_, rfl⟩
    cases heq
  refine run_induction (C := fun _ e => (readings peerId e).Pairwise (· ≤ ·) ∧ e ≠ .success peerId)
    nil ?_ ?_ hrun
  · rintro es p e p' hes hp ⟨hclock, hfail⟩ hstep
    exact hp.step hes hclock hfail hstep
  · rintro es₁ e es₂ p₁ rfl -
    refine ⟨(List.pairwise_flatMap.1 hclock).1 e (by simp), ?_⟩
    rintro rfl
    exact hfail (by simp)

theorem doubles_of_length_le {maxBackoff : ℚ} {ds : List (ℚ × ℚ)} (hmax : 1 ≤ maxBackoff)
    (hlength : ds.length ≤ 1) (hfirst : ∀ d ∈ ds, d.2 = 1) : Doubles maxBackoff ds := by
  rcases ds with _ | ⟨d, _ | ⟨next, ds⟩⟩
  · exact ⟨by simp, by simp, by simp⟩
  · have hone := hfirst d (List.mem_cons_self ..)
    refine ⟨fun d' hd' => ?_, by simp, fun k x hk => ?_⟩
    · rw [List.mem_singleton.1 hd', hone]
      linarith
    · rcases k with _ | k
      · obtain rfl : d.2 = x := by simpa using hk
        rw [hone, pow_zero, min_eq_right hmax]
      · simp at hk
  · simp at hlength

end GossipPeers

open GossipPeers

/-- The delays double if and only if the peer fails no more than once. -/
theorem backoff_doubles_iff {p₀ p : GossipPeers} {peerId : String} {events : List SendEvent}
    (hmax : 1 ≤ p₀.maxBackoff) (hfresh : p₀.backoff.get? peerId = none)
    (hclock : (events.flatMap (readings peerId)).Pairwise (· ≤ ·))
    (hfail : .success peerId ∉ events) (hrun : run sendStep p₀ events = some p) :
    Doubles p₀.maxBackoff (delays peerId p₀ events) ↔
      (events.filter (isFailure peerId)).length ≤ 1 := by
  have hinv := backoffInv_run hfresh hclock hfail hrun
  rw [← hinv.count]
  constructor
  · intro h
    by_contra hlength
    rcases hdelays : delays peerId p₀ events with _ | ⟨d, _ | ⟨next, rest⟩⟩
    · simp [hdelays] at hlength
    · simp [hdelays] at hlength
    · obtain ⟨-, hrest, -⟩ := hinv.stored _ _ hdelays
      have hnonpos := hrest next (List.mem_cons_self ..)
      have hlater := h.later next (by simp [hdelays])
      linarith
  · intro hlength
    refine doubles_of_length_le hmax hlength fun d hd => ?_
    rcases hdelays : delays peerId p₀ events with _ | ⟨first, _ | ⟨next, rest⟩⟩
    · simp [hdelays] at hd
    · rw [hdelays, List.mem_singleton] at hd
      rw [hd]
      exact (hinv.stored _ _ hdelays).1
    · simp [hdelays] at hlength

section Example

/-- The peer `b` alone is stored. -/
def onePeer : GossipPeers where
  membership :=
    { config := {}
      localPeer := 0
      heap := fun r => { id := if r = 0 then "a" else "b" }
      peers := Dict.empty.set "b" 1 }
  datacenter := fun _ => none
  localDatacenter := none

theorem backoff_doubles_iff_one : ∃ p,
    run sendStep onePeer [.failure "b" 0 0 0] = some p ∧
    (Doubles onePeer.maxBackoff (delays "b" onePeer [.failure "b" 0 0 0]) ↔
      ([.failure "b" 0 0 0].filter (isFailure "b")).length ≤ 1) := by
  refine ⟨_, rfl, backoff_doubles_iff ?_ rfl (by decide) (by decide) rfl⟩
  norm_num [onePeer]

/-- The peer fails again when it is selected at its deadline. -/
def failedTwice : List SendEvent := [.failure "b" 0 0 0, .failure "b" 1 1 1]

/-- Nothing is left of the deadline, and the new one is not later than now. -/
theorem second_delay_zero : (∃ p, run sendStep onePeer failedTwice = some p) ∧
    (failedTwice.flatMap (readings "b")).Pairwise (· ≤ ·) ∧
    delays "b" onePeer failedTwice = [(0, 1), (1, 0)] ∧
    ¬ Doubles onePeer.maxBackoff (delays "b" onePeer failedTwice) := by
  have hdelays : delays "b" onePeer failedTwice = [(0, 1), (1, 0)] := by decide +kernel
  refine ⟨Option.isSome_iff_exists.1 (by decide +kernel), by decide +kernel, hdelays, fun h => ?_⟩
  have hlater := h.later (1, 0) (by simp [hdelays])
  simp at hlater

end Example

end GossipRl
