import GossipRl.Gossip.StoredState
import GossipRl.Gossip.Suspicion

/-!
# Suspects and entered timers

A peer that is suspect has a timer entered for its id, or a `_confirm_dead` task that is to deal with
it (`Sched.Covered`); the only way around that is to enter an object that is suspect already. The
converse, that an id with an entered timer is suspect, holds as long as three operations that leave
the entry alone do not meet one: `remove_peer`, an `add_peer` that replaces the object, and the
second part of a `_confirm_dead` during which a new suspicion has begun (`Pc.KeepsSuspicion`).
-/

namespace GossipRl
open Support

namespace MembershipManager
variable {m m' : MembershipManager} {id id' : String} {τ : TimerId} {pc : Pc} {r : Ref}

/-- An entered timer of a peer that is suspect afterwards is only dropped by `_confirm_dead`. -/
theorem StateChange.entry_stays (hc : m.StateChange m' pc)
    (hsus : m'.storedState id = some .SUSPECT) (hτ : m.suspicionTimers.get? id = some τ) :
    m'.suspicionTimers.get? id = some τ ∨ ∃ τ', pc = .confirmStart id τ' := by
  cases hc with
  | same hs ht hn => exact .inl (ht ▸ hτ)
  | revive id₀ st hold hst hs ht hn | dead id₀ st hold hst hs ht hn =>
    have hne : id ≠ id₀ := by
      rintro rfl
      rw [hs, Function.update_self] at hsus
      cases hsus
    exact .inl (by rw [ht, Dict.get?_erase, if_neg hne, hτ])
  | suspect id₀ hold hs ht hn => exact .inl (by rw [ht, get?_startSuspicionTimer_of_some hτ])
  | drop id₀ τ₀ hs ht hn =>
    by_cases hid : id = id₀
    · exact .inr ⟨τ₀, by rw [hid]⟩
    · exact .inl (by rw [ht, Dict.get?_erase, if_neg hid, hτ])
  | confirm id₀ τ₀ hold hs ht hn => exact .inl (ht ▸ hτ)
  | enter r hacc hs ht hn => exact .inl (ht ▸ hτ)
  | remove id₀ hs ht hn => exact .inl (ht ▸ hτ)

theorem StateChange.suspect_cases (hc : m.StateChange m' pc)
    (hsus : m'.storedState id = some .SUSPECT) : m.storedState id = some .SUSPECT ∨
      (∃ τ, m'.suspicionTimers.get? id = some τ) ∨
      ∃ r, pc = .addPeer r ∧ m.Accepts r ∧ (m.heap r).state = .SUSPECT := by
  have other : ∀ {id₀ : String} {st : Option PeerState}, st ≠ some .SUSPECT →
      m'.storedState = Function.update m.storedState id₀ st → m.storedState id = some .SUSPECT := by
    intro id₀ st hst hs
    rw [hs, Function.update_apply] at hsus
    split at hsus
    · exact absurd hsus hst
    · exact hsus
  cases hc with
  | same hs ht hn | drop id₀ τ₀ hs ht hn => exact .inl (hs ▸ hsus)
  | revive id₀ st hold hst hs ht hn | dead id₀ st hold hst hs ht hn => exact .inl (other (by simp) hs)
  | confirm id₀ τ₀ hold hs ht hn => exact .inl (other (by simp) hs)
  | remove id₀ hs ht hn => exact .inl (other (by simp) hs)
  | suspect id₀ hold hs ht hn =>
    by_cases hid : id = id₀
    · subst hid
      exact .inr (.inl (ht ▸ get?_startSuspicionTimer_self))
    · rw [hs, Function.update_of_ne hid] at hsus
      exact .inl hsus
  | enter r hacc hs ht hn =>
    by_cases hst : (m.heap r).state = .SUSPECT
    · exact .inr (.inr ⟨r, rfl, hacc, hst⟩)
    · exact .inl (other (by simpa using hst) hs)

theorem storedState_confirmDead_ne_suspect : (m.confirmDead id).storedState id ≠ some .SUSPECT := by
  intro h
  obtain ⟨r, hr, hst⟩ := storedState_eq_suspect_iff.1 h
  unfold confirmDead at hr hst
  cases hr₀ : m.peers.get? id with
  | none =>
    rw [onEntry_of_none hr₀, hr₀] at hr
    cases hr
  | some r₀ =>
    rw [onEntry_of_some hr₀] at hr hst
    split at hr
    · rename_i hsus
      obtain rfl := Option.some.inj (hr₀.symm.trans hr)
      simp [hsus, Peer.markDead] at hst
    · rename_i hsus
      obtain rfl := Option.some.inj (hr₀.symm.trans hr)
      rw [if_neg hsus] at hst
      exact hsus hst

end MembershipManager

namespace Sched
variable {s s' : Sched} {e : MembershipEvent}

/-- A `_confirm_dead` task for `id` is scheduled and not over. -/
def Confirming (id : String) (s : Sched) : Prop :=
  ∃ τ, .confirmStart id τ ∈ s.tasks ∨ .confirm id τ ∈ s.tasks

/-- Every suspect has an entered timer or a `_confirm_dead` task. -/
def Covered (s : Sched) : Prop :=
  ∀ id, s.manager.storedState id = some .SUSPECT →
    (∃ τ, s.manager.suspicionTimers.get? id = some τ) ∨ s.Confirming id

/-- A peer that is entered in this step is `ALIVE`. -/
def EntersAlive : Sched → MembershipEvent → Prop :=
  OnResume fun pc m => ∀ r, pc = .addPeer r → m.Accepts r → (m.heap r).state = .ALIVE

theorem confirming_resume {t : Nat} {now : ℚ} {picks : List Ref} {pc pc' : Pc} {id : String}
    (hc : s.Confirming id) (ht : s.tasks[t]? = some pc)
    (hadv : pc.advance now picks s.manager = some (pc', s'.manager))
    (htasks : s'.tasks = s.tasks.set t pc') (hsus : s'.manager.storedState id = some .SUSPECT) :
    s'.Confirming id := by
  obtain ⟨τ, hmem⟩ := hc
  have hlt : t < s.tasks.length := (List.getElem?_eq_some_iff.1 ht).1
  by_cases hstart : pc = .confirmStart id τ
  · subst hstart
    obtain ⟨rfl, -⟩ := Prod.mk.inj (Option.some.inj hadv)
    exact ⟨τ, .inr (htasks ▸ List.mem_set hlt _)⟩
  · by_cases hconfirm : pc = .confirm id τ
    · subst hconfirm
      obtain ⟨-, hm⟩ := Prod.mk.inj (Option.some.inj hadv)
      rw [← hm] at hsus
      exact absurd hsus MembershipManager.storedState_confirmDead_ne_suspect
    · refine ⟨τ, ?_⟩
      rw [htasks]
      exact hmem.imp (fun h => mem_set_of_ne h ht (Ne.symm hstart))
        fun h => mem_set_of_ne h ht (Ne.symm hconfirm)

theorem Covered.step (hc : s.Covered) (hm : s.manager.Keyed) (he : s.EntersAlive e)
    (h : s.step e = some s') : s'.Covered := by
  intro id hsus
  rcases stateChange_step h hm with ⟨t, now, picks, pc, pc', rfl, ht, hadv, htasks, hch⟩ |
    ⟨-, hmem, hs, htimers, -⟩
  · rcases hch.suspect_cases hsus with hold | hentry | ⟨r, rfl, hacc, hst⟩
    · rcases hc id hold with ⟨τ, hτ⟩ | hconf
      · rcases hch.entry_stays hsus hτ with hτ' | ⟨τ', rfl⟩
        · exact .inl ⟨τ, hτ'⟩
        · -- the entry is handed over to the task
          exact .inr (confirming_resume ⟨τ', .inl (List.mem_of_getElem? ht)⟩ ht hadv htasks hsus)
      · exact .inr (confirming_resume hconf ht hadv htasks hsus)
    · exact .inl hentry
    · have halive := he _ ht r rfl hacc
      rw [halive] at hst
      cases hst
  · rw [htimers]
    refine (hc id (hs ▸ hsus)).imp_right ?_
    rintro ⟨τ, hτ⟩
    exact ⟨τ, hτ.imp (hmem _) (hmem _)⟩

end Sched

/-- Where only `ALIVE` peers are added, every suspect in the table has an entry in
`suspicion_timers` or a `_confirm_dead` task that is not over, and every entry belongs to a timer
that is pending or whose task has not started. -/
theorem no_stuck_suspect {config : MembershipConfig} {localPeer : Ref} {heap : Ref → Peer}
    {events : List MembershipEvent} {s : Sched}
    (hadd : Along Sched.step Sched.EntersAlive (.init config localPeer heap) events)
    (hrun : run Sched.step (.init config localPeer heap) events = some s) :
    (∀ id, s.manager.storedState id = some .SUSPECT →
      (∃ τ, s.manager.suspicionTimers.get? id = some τ) ∨
        ∃ τ, .confirmStart id τ ∈ s.tasks ∨ .confirm id τ ∈ s.tasks) ∧
    ∀ id τ, s.manager.suspicionTimers.get? id = some τ →
      ∃ timer, s.manager.timers[τ]? = some timer ∧ timer.peerId = id ∧
        (timer.state = .pending ∨ .confirmStart id τ ∈ s.tasks) := by
  obtain ⟨hok, hc⟩ : s.TimersOk ∧ s.Covered := by
    refine run_induction (motive := fun _ s => s.TimersOk ∧ s.Covered)
      ⟨Sched.timersOk_init .., ?_⟩ (fun es s e s' _ hs he hstep => ?_) hadd hrun
    · intro id hsus
      cases hsus
    · exact ⟨hs.1.step hstep, hs.2.step hs.1.keyed he hstep⟩
  exact ⟨hc, hok.entered⟩

/-- `b` is added and suspected. -/
def suspectRun : List MembershipEvent :=
  [.addPeer 1, .resume 0 0 [], .receive suspectB, .resume 1 0 []]

theorem no_stuck_suspect_once : ∃ s, run Sched.step (.init {} 0 namedB) suspectRun = some s ∧
    s.manager.storedState "b" = some .SUSPECT ∧
    ((∃ τ, s.manager.suspicionTimers.get? "b" = some τ) ∨
      ∃ τ, .confirmStart "b" τ ∈ s.tasks ∨ .confirm "b" τ ∈ s.tasks) := by
  have hadd : Along Sched.step Sched.EntersAlive (.init {} 0 namedB) suspectRun := by
    refine Along.cons_iff.2 ⟨trivial, ?_⟩
    rintro _ ⟨⟩
    refine Along.cons_iff.2 ⟨?_, ?_⟩
    · rintro _ ⟨⟩ r ⟨⟩ -
      rfl
    rintro _ ⟨⟩
    refine Along.cons_iff.2 ⟨trivial, ?_⟩
    rintro _ ⟨⟩
    refine Along.cons_iff.2 ⟨?_, fun _ _ => Along.nil⟩
    rintro _ ⟨⟩ r ⟨⟩
  exact ⟨_, rfl, rfl, (no_stuck_suspect hadd rfl).1 "b" rfl⟩

namespace Pc
open MembershipManager

/-- What the task does next leaves no entered timer behind: it does not remove the peer, replace it
by one that is not suspect or declare it dead while a timer is entered for its id. -/
def KeepsSuspicion (pc : Pc) (m : MembershipManager) : Prop :=
  match pc with
  | .removePeer id => m.suspicionTimers.get? id = none
  | .addPeer r =>
    m.Accepts r → (m.heap r).state = .SUSPECT ∨ m.suspicionTimers.get? (m.heap r).id = none
  | .confirm id _ => m.suspicionTimers.get? id = none
  | _ => True

end Pc

namespace MembershipManager

/-- An id with an entered timer is suspect in the table. -/
def EntriesSuspect (m : MembershipManager) : Prop :=
  ∀ id τ, m.suspicionTimers.get? id = some τ → m.storedState id = some .SUSPECT

variable {m m' : MembershipManager} {pc pc' : Pc} {now : ℚ} {picks : List Ref}

theorem EntriesSuspect.change (h : m.EntriesSuspect) (hc : m.StateChange m' pc)
    (hpc : pc.KeepsSuspicion m) : m'.EntriesSuspect := by
  have updated : ∀ {id₀ : String} {st : Option PeerState}, m.suspicionTimers.get? id₀ = none →
      m'.storedState = Function.update m.storedState id₀ st →
      m'.suspicionTimers = m.suspicionTimers → m'.EntriesSuspect := by
    intro id₀ st hnone hs ht id τ hτ
    rw [ht] at hτ
    have hne : id ≠ id₀ := by
      rintro rfl
      cases hnone.symm.trans hτ
    rw [hs, Function.update_of_ne hne]
    exact h id τ hτ
  have erased : ∀ {id₀ : String}, (∀ id, id ≠ id₀ → m'.storedState id = m.storedState id) →
      m'.suspicionTimers = m.suspicionTimers.erase id₀ → m'.EntriesSuspect := by
    intro id₀ hs ht id τ hτ
    rw [ht] at hτ
    obtain ⟨hne, hτ⟩ := Dict.get?_erase_eq_some_iff.1 hτ
    rw [hs id hne]
    exact h id τ hτ
  cases hc with
  | same hs ht hn =>
    intro id τ hτ
    rw [hs]
    exact h id τ (ht ▸ hτ)
  | revive id₀ st hold hst hs ht hn | dead id₀ st hold hst hs ht hn =>
    exact erased (fun id hne => by rw [hs, Function.update_of_ne hne]) ht
  | drop id₀ τ₀ hs ht hn => exact erased (fun id _ => by rw [hs]) ht
  | suspect id₀ hold hs ht hn =>
    intro id τ hτ
    by_cases hid : id = id₀
    · rw [hs, hid, Function.update_self]
    · rw [ht, get?_startSuspicionTimer_of_ne hid] at hτ
      rw [hs, Function.update_of_ne hid]
      exact h id τ hτ
  | confirm id₀ τ₀ hold hs ht hn => exact updated hpc hs ht
  | remove id₀ hs ht hn => exact updated hpc hs ht
  | enter r hacc hs ht hn =>
    rcases hpc hacc with hst | hnone
    · intro id τ hτ
      rw [hs, Function.update_apply, hst]
      split
      · rfl
      · exact h id τ (ht ▸ hτ)
    · exact updated hnone hs ht

/-- A task that does not keep the suspicion leaves an entered timer whose peer is not suspect. -/
theorem keepsSuspicion_of_entriesSuspect (hadv : pc.advance now picks m = some (pc', m'))
    (h' : m'.EntriesSuspect) : pc.KeepsSuspicion m := by
  have none_of : ∀ {id : String}, m'.suspicionTimers = m.suspicionTimers →
      m'.storedState id ≠ some .SUSPECT → m.suspicionTimers.get? id = none := by
    intro id ht hne
    refine Option.eq_none_iff_forall_not_mem.2 fun τ hτ => hne (h' id τ ?_)
    rw [ht]
    exact hτ
  cases pc with
  | removePeer id =>
    obtain ⟨-, rfl⟩ := Prod.mk.inj (Option.some.inj hadv)
    refine none_of (timersEq_removePeer id).2 ?_
    rw [storedState_removePeer, Function.update_self]
    simp
  | confirm id τ =>
    obtain ⟨-, rfl⟩ := Prod.mk.inj (Option.some.inj hadv)
    exact none_of timersEq_confirmDead.2 storedState_confirmDead_ne_suspect
  | addPeer r =>
    obtain ⟨-, rfl⟩ := Prod.mk.inj (Option.some.inj hadv)
    intro hacc
    by_cases hst : (m.heap r).state = .SUSPECT
    · exact .inl hst
    · refine .inr (none_of (timersEq_addPeer r).2 ?_)
      rw [storedState_addPeer hacc, Function.update_self]
      simpa using hst
  | _ => trivial

end MembershipManager

open MembershipManager in
/-- Every state of a run has its entered timers at suspects only, exactly if no task removes a peer,
replaces it by one that is not suspect or confirms it dead while a timer is entered for its id. -/
theorem entries_suspect_iff {config : MembershipConfig} {localPeer : Ref} {heap : Ref → Peer}
    {events : List MembershipEvent} {s : Sched}
    (hrun : run Sched.step (.init config localPeer heap) events = some s) :
    (∀ es₁ es₂ s₁, events = es₁ ++ es₂ → run Sched.step (.init config localPeer heap) es₁ = some s₁ →
      s₁.manager.EntriesSuspect) ↔
    Along Sched.step (Sched.OnResume Pc.KeepsSuspicion) (.init config localPeer heap) events := by
  constructor
  · rintro h es₁ e es₂ s₁ rfl hs₁
    cases e with
    | resume t now picks =>
      intro pc ht
      obtain ⟨s₂, hs₂⟩ := step_of_run hrun hs₁
      have hgood := h (es₁ ++ [.resume t now picks]) es₂ s₂ (by simp)
        (run_concat_eq_some.2 ⟨s₁, hs₁, hs₂⟩)
      obtain ⟨pc₀, pc', m, ht', -, hadv, rfl⟩ := Sched.step_resume_iff.1 hs₂
      obtain rfl := Option.some.inj (ht.symm.trans ht')
      exact keepsSuspicion_of_entriesSuspect hadv hgood
    | _ => trivial
  · rintro h es₁ es₂ s₁ rfl hs₁
    have hinv : s₁.manager.Keyed ∧ s₁.manager.EntriesSuspect := by
      refine run_induction (motive := fun _ (s : Sched) => s.manager.Keyed ∧ s.manager.EntriesSuspect)
        ⟨?_, ?_⟩ (fun es s e s' _ hs he hstep => ⟨Sched.keyed_step hstep hs.1, ?_⟩) h.of_append hs₁
      · intro id r hr
        cases hr
      · intro id τ hτ
        cases hτ
      · rcases Sched.stateChange_step hstep hs.1 with ⟨t, now, picks, pc, pc', rfl, ht, -, -, hch⟩ |
          ⟨-, -, hst, htimers, -⟩
        · exact hs.2.change hch (he pc ht)
        · intro id τ hτ
          rw [hst]
          exact hs.2 id τ (htimers ▸ hτ)
    exact hinv.2

section Example

theorem entries_suspect_iff_once : ∃ s, run Sched.step (.init {} 0 namedB) suspectRun = some s ∧
    ((∀ es₁ es₂ s₁, suspectRun = es₁ ++ es₂ → run Sched.step (.init {} 0 namedB) es₁ = some s₁ →
      s₁.manager.EntriesSuspect) ↔
    Along Sched.step (Sched.OnResume Pc.KeepsSuspicion) (.init {} 0 namedB) suspectRun) :=
  ⟨_, rfl, entries_suspect_iff rfl⟩

/-- `remove_peer` leaves the timer of a suspect. -/
theorem entry_of_removed_peer : ∃ s,
    run Sched.step (.init {} 0 namedB) (suspectRun ++ [.removePeer "b", .resume 2 0 []]) = some s ∧
    s.manager.suspicionTimers.get? "b" = some 0 ∧ s.manager.storedState "b" = none ∧
    ¬ s.manager.EntriesSuspect := by
  refine ⟨_, rfl, rfl, rfl, fun h => ?_⟩
  cases h "b" 0 rfl

end Example

end GossipRl
