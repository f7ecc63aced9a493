import GossipRl.Gossip.StoredState
import GossipRl.Gossip.Suspicion

/-!
# Callbacks and stored states

Every change of a stored state among `ALIVE`, `SUSPECT` and `DEAD` that the `mark_*` functions make
is announced by its callback, once. An `add_peer` that replaces the object of a known id changes the
stored state without a callback, so the callbacks follow the table exactly as long as such a
replacement has the state it replaces (`Pc.KeepsState`).
-/

namespace GossipRl
open Support

/-- The state that the callback announces for `id`. -/
def Notice.announces (id : String) : Notice → Option PeerState
  | .alive id' => if id' = id then some .ALIVE else none
  | .suspect id' => if id' = id then some .SUSPECT else none
  | .dead id' => if id' = id then some .DEAD else none

/-- What an observer of the callbacks takes the state of `id` to be, which was `st` before them. -/
def heard (id : String) (st : PeerState) (ns : List Notice) : PeerState :=
  ns.foldl (fun st n => (n.announces id).getD st) st

namespace MembershipManager
variable {m m' : MembershipManager} {id : String} {pc : Pc} {st st' : PeerState} {n : Notice}

/-- The callbacks run from `m` to `m'` are the matching one, once, for each known id whose state has
changed among the three, and none for an id whose state has not. -/
def AnnouncesChanges (m m' : MembershipManager) : Prop :=
  ∃ ns, m'.notified = m.notified ++ ns ∧ ∀ id st st', m.storedState id = some st →
    m'.storedState id = some st' → st ≠ .LEFT → st' ≠ .LEFT →
      ns.filterMap (Notice.announces id) = if st' = st then [] else [st']

theorem announcesChanges_of_quiet (hn : m'.notified = m.notified)
    (hs : ∀ id st st', m.storedState id = some st → m'.storedState id = some st' → st ≠ .LEFT →
      st' ≠ .LEFT → st' = st) : m.AnnouncesChanges m' := by
  refine ⟨[], by rw [hn, List.append_nil], fun id st st' h h' hl hl' => ?_⟩
  rw [if_pos (hs id st st' h h' hl hl'), List.filterMap_nil]

theorem announcesChanges_of_update {id₀ : String} (hold : m.storedState id₀ = some st)
    (hne : st ≠ st') (hs : m'.storedState = Function.update m.storedState id₀ (some st'))
    (hn : m'.notified = (m.notify true n).notified)
    (hann : ∀ id, n.announces id = if id₀ = id then some st' else none) : m.AnnouncesChanges m' := by
  refine ⟨[n], hn, fun id st₁ st₂ h₁ h₂ _ _ => ?_⟩
  rw [List.filterMap_cons, List.filterMap_nil, hann]
  by_cases hid : id₀ = id
  · subst hid
    obtain rfl := Option.some.inj (hold.symm.trans h₁)
    rw [hs, Function.update_self] at h₂
    obtain rfl := Option.some.inj h₂
    rw [if_pos rfl, if_neg (Ne.symm hne)]
  · rw [hs, Function.update_of_ne (Ne.symm hid), h₁] at h₂
    obtain rfl := Option.some.inj h₂
    rw [if_neg hid, if_pos rfl]

theorem heard_of_announcesChanges {ns : List Notice}
    (hc : ns.filterMap (Notice.announces id) = if st' = st then [] else [st']) :
    heard id st ns = st' := by
  have hfold : ∀ (ns : List Notice) (st : PeerState),
      heard id st ns = (ns.filterMap (Notice.announces id)).foldl (fun _ st => st) st := by
    intro ns
    induction ns with
    | nil => exact fun st => rfl
    | cons n ns ih =>
      intro st
      show heard id _ ns = _
      rw [ih]
      cases h : n.announces id <;> simp [h]
  rw [hfold, hc]
  split
  · rename_i h
    exact h.symm
  · rfl

end MembershipManager

namespace Pc
open MembershipManager

/-- An `add_peer` that replaces a known peer does not change its state among the three. -/
def KeepsState (pc : Pc) (m : MembershipManager) : Prop :=
  ∀ r, pc = .addPeer r → m.Accepts r → ∀ st, m.storedState (m.heap r).id = some st → st ≠ .LEFT →
    (m.heap r).state ≠ .LEFT → (m.heap r).state = st

end Pc

namespace MembershipManager
variable {m m' : MembershipManager} {pc pc' : Pc} {now : ℚ} {picks : List Ref}

/-- All three callbacks are given. -/
def Observed (m : MembershipManager) : Prop :=
  m.config.onPeerAlive = true ∧ m.config.onPeerSuspect = true ∧ m.config.onPeerDead = true

theorem StateChange.announcesChanges (hc : m.StateChange m' pc) (hobs : m.Observed)
    (hpc : pc.KeepsState m) : m.AnnouncesChanges m' := by
  obtain ⟨hal, hsu, hde⟩ := hobs
  cases hc with
  | same hs ht hn | drop id₀ τ₀ hs ht hn =>
    refine announcesChanges_of_quiet hn fun id st st' h h' _ _ => ?_
    rw [hs, h] at h'
    exact (Option.some.inj h').symm
  | revive id₀ st hold hst hs ht hn =>
    exact announcesChanges_of_update hold hst hs (hal ▸ hn) fun id => rfl
  | suspect id₀ hold hs ht hn =>
    exact announcesChanges_of_update hold (by simp) hs (hsu ▸ hn) fun id => rfl
  | dead id₀ st hold hst hs ht hn =>
    exact announcesChanges_of_update hold hst hs (hde ▸ hn) fun id => rfl
  | confirm id₀ τ₀ hold hs ht hn =>
    exact announcesChanges_of_update hold (by simp) hs (hde ▸ hn) fun id => rfl
  | remove id₀ hs ht hn =>
    refine announcesChanges_of_quiet hn fun id st st' h h' _ _ => ?_
    rw [hs, Function.update_apply] at h'
    split at h'
    · cases h'
    · exact Option.some.inj (h'.symm.trans h)
  | enter r hacc hs ht hn =>
    refine announcesChanges_of_quiet hn fun id st st' h h' hl hl' => ?_
    rw [hs, Function.update_apply] at h'
    split at h'
    · rename_i hid
      obtain rfl := Option.some.inj h'
      exact hpc r rfl hacc st (hid ▸ h) hl hl'
    · exact Option.some.inj (h'.symm.trans h)

theorem keepsState_of_announcesChanges (hadv : pc.advance now picks m = some (pc', m'))
    (hc : m.AnnouncesChanges m') : pc.KeepsState m := by
  rintro r rfl hacc st hst hl hl'
  obtain ⟨-, rfl⟩ := Prod.mk.inj (Option.some.inj hadv)
  obtain ⟨ns, hn, hns⟩ := hc
  have hnil : ns = [] := by
    rw [addPeer_of_accepts hacc] at hn
    exact List.self_eq_append_right.1 hn
  have hst' : (m.addPeer r).2.storedState (m.heap r).id = some (m.heap r).state := by
    rw [storedState_addPeer hacc, Function.update_self]
  have h := hns _ st _ hst hst' hl hl'
  rw [hnil] at h
  by_contra hne
  rw [if_neg hne] at h
  cases h

end MembershipManager

namespace Sched
open MembershipManager
variable {s s' : Sched} {e : MembershipEvent}

theorem announcesChanges_step (h : s.step e = some s') (hm : s.manager.Keyed)
    (hobs : s.manager.Observed) (he : OnResume Pc.KeepsState s e) :
    s.manager.AnnouncesChanges s'.manager := by
  rcases stateChange_step h hm with ⟨t, now, picks, pc, pc', rfl, ht, -, -, hch⟩ |
    ⟨-, -, hst, -, hn⟩
  · exact hch.announcesChanges hobs (he pc ht)
  · refine announcesChanges_of_quiet hn fun id st st' h h' _ _ => ?_
    rw [hst, h] at h'
    exact (Option.some.inj h').symm

theorem keepsState_step (h : s.step e = some s') (hc : s.manager.AnnouncesChanges s'.manager) :
    OnResume Pc.KeepsState s e := by
  cases e with
  | resume t now picks =>
    intro pc ht
    obtain ⟨pc₀, pc', m, ht', -, hadv, rfl⟩ := step_resume_iff.1 h
    obtain rfl := Option.some.inj (ht.symm.trans ht')
    exact keepsState_of_announcesChanges hadv hc
  | _ => trivial

/-- Throughout the run the state stored for `id` is one of the three. -/
def KnownAlong (s₀ : Sched) (events : List MembershipEvent) (id : String) : Prop :=
  ∀ es₁ es₂ s, events = es₁ ++ es₂ → run step s₀ es₁ = some s →
    ∃ st, s.manager.storedState id = some st ∧ st ≠ .LEFT

/-- The callbacks tell the stored states: each change among the three is announced once, and an
observer who knew the state of an id follows it from the callbacks alone while the id is known. -/
structure NoticesFollow (s₀ : Sched) (events : List MembershipEvent) : Prop where
  changes : ∀ es₁ e es₂ s s', events = es₁ ++ e :: es₂ → run step s₀ es₁ = some s →
    s.step e = some s' → s.manager.AnnouncesChanges s'.manager
  observer : ∀ es₁ es₂ es₃ s₁ s₂ id st, events = es₁ ++ es₂ ++ es₃ → run step s₀ es₁ = some s₁ →
    run step s₁ es₂ = some s₂ → KnownAlong s₁ es₂ id → s₁.manager.storedState id = some st →
    ∃ ns, s₂.manager.notified = s₁.manager.notified ++ ns ∧
      s₂.manager.storedState id = some (heard id st ns)

theorem observer_run {s₁ s₂ : Sched} {es : List MembershipEvent} {id : String} {st : PeerState}
    (hchanges : Along step (fun s e => ∀ s', s.step e = some s' →
      s.manager.AnnouncesChanges s'.manager) s₁ es)
    (hrun : run step s₁ es = some s₂) (hk : KnownAlong s₁ es id)
    (hst : s₁.manager.storedState id = some st) :
    ∃ ns, s₂.manager.notified = s₁.manager.notified ++ ns ∧
      s₂.manager.storedState id = some (heard id st ns) := by
  refine run_induction (motive := fun es s => KnownAlong s₁ es id → ∃ ns,
    s.manager.notified = s₁.manager.notified ++ ns ∧
      s.manager.storedState id = some (heard id st ns)) ?_ ?_ hchanges hrun hk
  · exact fun _ => ⟨[], by simp, hst⟩
  · intro es s e s' hes ih hann hstep hk
    have hk' : KnownAlong s₁ es id := fun es₁ es₂ s₃ heq => hk es₁ (es₂ ++ [e]) s₃ (by simp [heq])
    obtain ⟨ns, hns, hs⟩ := ih hk'
    obtain ⟨new, hnew, hmatch⟩ := hann s' hstep
    obtain ⟨st', hs', hl'⟩ := hk (es ++ [e]) [] s' (by simp) (run_concat_eq_some.2 ⟨s, hes, hstep⟩)
    obtain ⟨st₀, hs₀, hl₀⟩ := hk' es [] s (by simp) hes
    obtain rfl := Option.some.inj (hs.symm.trans hs₀)
    refine ⟨ns ++ new, by rw [hnew, hns, List.append_assoc], ?_⟩
    rw [hs', heard, List.foldl_append]
    exact congrArg some (heard_of_announcesChanges (hmatch id _ st' hs hs' hl₀ hl')).symm

end Sched

open MembershipManager in
/-- With all three callbacks given, the callbacks follow the stored states through a run exactly if
no `add_peer` replaces a known peer by one in another of the three states. -/
theorem notices_follow_iff {config : MembershipConfig} {localPeer : Ref} {heap : Ref → Peer}
    {events : List MembershipEvent} {s : Sched} (halive : config.onPeerAlive = true)
    (hsuspect : config.onPeerSuspect = true) (hdead : config.onPeerDead = true)
    (hrun : run Sched.step (.init config localPeer heap) events = some s) :
    Sched.NoticesFollow (.init config localPeer heap) events ↔
      Along Sched.step (Sched.OnResume Pc.KeepsState) (.init config localPeer heap) events := by
  constructor
  · rintro h es₁ e es₂ s₁ rfl hs₁
    obtain ⟨s₂, hs₂⟩ := step_of_run hrun hs₁
    exact Sched.keepsState_step hs₂ (h.changes es₁ e es₂ s₁ s₂ rfl hs₁ hs₂)
  · intro h
    have hinv : ∀ es s, run Sched.step (.init config localPeer heap) es = some s →
        s.manager.Keyed ∧ s.manager.Observed := by
      intro es s hs
      refine run_invariant (P := fun s : Sched => s.manager.Keyed ∧ s.manager.Observed)
        ⟨?_, halive, hsuspect, hdead⟩ (fun s e s' hs hstep => ⟨Sched.keyed_step hstep hs.1, ?_⟩) hs
      · intro id r hr
        cases hr
      · rw [Observed, (Sched.sameSetup_step hstep).config]
        exact hs.2
    have hchanges : Along Sched.step (fun s e => ∀ s', s.step e = some s' →
        s.manager.AnnouncesChanges s'.manager) (.init config localPeer heap) events := by
      rintro es₁ e es₂ s₁ rfl hs₁ s' hstep
      obtain ⟨hm, hobs⟩ := hinv es₁ s₁ hs₁
      exact Sched.announcesChanges_step hstep hm hobs (h es₁ e es₂ s₁ rfl hs₁)
    refine ⟨fun es₁ e es₂ s₁ s' heq hs₁ => hchanges es₁ e es₂ s₁ heq hs₁ s', ?_⟩
    rintro es₁ es₂ es₃ s₁ s₂ id st rfl hs₁ hs₂ hk hst
    exact Sched.observer_run (hchanges.of_append.of_run hs₁) hs₂ hk hst

section Example

/-- All callbacks are given. -/
def observedConfig : MembershipConfig :=
  { onPeerAlive := true, onPeerSuspect := true, onPeerDead := true }

/-- The local peer `a`, a peer `b`, and `b` under a higher incarnation. -/
def renewedB : Ref → Peer
  | 0 => { id := "a" }
  | 1 => { id := "b" }
  | _ => { id := "b", incarnation := 1 }

/-- `b` is suspected and then added again. -/
def renewalRun : List MembershipEvent :=
  [.addPeer 1, .resume 0 0 [], .receive suspectB, .resume 1 0 [], .addPeer 2, .resume 2 0 []]

theorem notices_follow_iff_renewal :
    ∃ s, run Sched.step (.init observedConfig 0 renewedB) renewalRun = some s ∧
      (Sched.NoticesFollow (.init observedConfig 0 renewedB) renewalRun ↔
        Along Sched.step (Sched.OnResume Pc.KeepsState) (.init observedConfig 0 renewedB)
          renewalRun) :=
  ⟨_, rfl, notices_follow_iff rfl rfl rfl rfl⟩

/-- The suspect is `ALIVE` again, and nobody is told. -/
theorem renewal_unannounced : ∃ s₁ s,
    run Sched.step (.init observedConfig 0 renewedB) (renewalRun.take 5) = some s₁ ∧
    s₁.step (.resume 2 0 []) = some s ∧ s₁.manager.storedState "b" = some .SUSPECT ∧
    s.manager.storedState "b" = some .ALIVE ∧ s.manager.notified = s₁.manager.notified ∧
    ¬ Sched.NoticesFollow (.init observedConfig 0 renewedB) renewalRun := by
  refine ⟨_, _, rfl, rfl, rfl, rfl, rfl, fun h => ?_⟩
  obtain ⟨ns, hn, hns⟩ := h.changes (renewalRun.take 5) (.resume 2 0 []) [] _ _ rfl rfl rfl
  have hnil : ns = [] := List.self_eq_append_right.1 hn
  have hb := hns "b" .SUSPECT .ALIVE rfl rfl (by simp) (by simp)
  rw [hnil] at hb
  cases hb

end Example

end GossipRl
