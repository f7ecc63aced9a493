import GossipRl.Gossip.MembershipTable
import GossipRl.Support.Run

/-!
# Stored incarnations

Every write to the table but one compares incarnations first or leaves them alone: `_handle_ping`
stores the incarnation of the `PING` as it comes, and `create_ping` leaves that at 0. So along a run
without `remove_peer` the stored incarnations never decrease exactly if no `PING` of a known sender
is older than the stored incarnation.
-/

namespace GossipRl
open Support

namespace MembershipManager

/-- No entry is lost, and none has a lower incarnation. -/
def IncarnationsLe (m m' : MembershipManager) : Prop :=
  ∀ id r, m.peers.get? id = some r →
    ∃ r', m'.peers.get? id = some r' ∧ (m.heap r).incarnation ≤ (m'.heap r').incarnation

variable {m m' m'' : MembershipManager}

theorem IncarnationsLe.refl (m : MembershipManager) : m.IncarnationsLe m :=
  fun _ r h => ⟨r, h, le_rfl⟩

theorem IncarnationsLe.trans (h : m.IncarnationsLe m') (h' : m'.IncarnationsLe m'') :
    m.IncarnationsLe m'' := fun id r hr =>
  let ⟨r', hr', hle⟩ := h id r hr
  let ⟨r'', hr'', hle'⟩ := h' id r' hr'
  ⟨r'', hr'', hle.trans hle'⟩

theorem Updates.incarnationsLe
    (h : Updates (fun p p' => p.incarnation ≤ p'.incarnation) m m') : m.IncarnationsLe m' :=
  fun id r hr => ⟨r, by rw [h.peers]; exact hr, h.heap r⟩

theorem incarnationsLe_addPeer (r : Ref) (m : MembershipManager) :
    m.IncarnationsLe (m.addPeer r).2 := by
  intro id r₀ h₀
  rcases addPeer_cases r m with ⟨hacc, heq⟩ | heq
  · rw [heq]
    by_cases hid : id = (m.heap r).id
    · subst hid
      exact ⟨r, Dict.get?_set_self, (hacc r₀ h₀).le⟩
    · exact ⟨r₀, by rw [Dict.get?_set_of_ne hid]; exact h₀, le_rfl⟩
  · rw [heq]
    exact ⟨r₀, h₀, le_rfl⟩

theorem incarnationsLe_handlePing_iff (now : ℚ) (msg : MessageHeader) (m : MembershipManager) :
    m.IncarnationsLe (m.handlePing now msg) ↔
      ∀ r, m.peers.get? msg.senderId = some r → (m.heap r).incarnation ≤ msg.incarnation := by
  constructor
  · intro h r hr
    obtain ⟨r', hr', hle⟩ := h _ r hr
    rw [handlePing, onEntry_of_some hr] at hr' hle
    obtain rfl := Option.some.inj (hr.symm.trans hr')
    rwa [heap_setPeer_self] at hle
  · intro h
    exact (updates_handlePing (fun p => le_refl p.incarnation) h).incarnationsLe

end MembershipManager

open MembershipManager

theorem Pc.incarnationsLe_advance {pc pc' : Pc} {now : ℚ} {picks : List Ref}
    (h : pc.advance now picks m = some (pc', m')) (hremove : ∀ id, pc ≠ .removePeer id)
    (hping : ∀ msg, pc = .ping msg → ∀ r, m.peers.get? msg.senderId = some r →
      (m.heap r).incarnation ≤ msg.incarnation) : m.IncarnationsLe m' := by
  cases hpc : pc.changesPeers with
  | true =>
    rcases Pc.advance_changesPeers h hpc with ⟨r, -, rfl⟩ | ⟨id, rfl, -⟩
    · exact incarnationsLe_addPeer r m
    · exact absurd rfl (hremove id)
  | false =>
    refine Updates.incarnationsLe (Pc.updates_advance h hpc (fun _ => le_rfl)
      (fun _ _ _ hpq hqr => hpq.trans hqr) ?_ ?_ ?_ ?_ ?_)
    · exact fun p l => le_rfl
    · exact fun i _ p => p.le_incarnation_markAlive now i
    · exact fun p i => (p.incarnation_markDead i).ge
    · exact fun _ p i => (p.incarnation_markSuspect i).ge
    · exact fun msg r hmsg hr => hping msg hmsg r hr

theorem Pc.advance_ne_removePeer {pc pc' : Pc} {now : ℚ} {picks : List Ref}
    (h : pc.advance now picks m = some (pc', m')) (id : String) : pc' ≠ .removePeer id := by
  rintro rfl
  cases pc <;> simp only [Pc.advance] at h
  all_goals first
    | cases h
    | (repeat' split at h) <;> cases h

theorem Pc.ofMessage_ne_removePeer (msg : MessageHeader) (m : MembershipManager) (id : String) :
    (Pc.ofMessage msg m).1 ≠ .removePeer id := by
  unfold Pc.ofMessage
  repeat' split
  all_goals simp

namespace Sched

/-- If the step is the handling of a `PING` of a known sender, its incarnation is not below the
stored one. -/
def PingsUpToDate (s : Sched) (e : MembershipEvent) : Prop :=
  ∀ t now picks msg r, e = .resume t now picks → s.tasks[t]? = some (.ping msg) →
    s.manager.peers.get? msg.senderId = some r → (s.manager.heap r).incarnation ≤ msg.incarnation

def NoRemovals (s : Sched) : Prop := ∀ id, .removePeer id ∉ s.tasks

variable {s s' : Sched} {e : MembershipEvent}

theorem incarnationsLe_step (h : s.step e = some s') (hremove : s.NoRemovals)
    (hping : s.PingsUpToDate e) : s.manager.IncarnationsLe s'.manager := by
  by_cases he : ∃ t now picks, e = .resume t now picks
  · obtain ⟨t, now, picks, rfl⟩ := he
    obtain ⟨pc, pc', m, ht, -, hadv, rfl⟩ := step_resume_iff.1 h
    refine Pc.incarnationsLe_advance hadv ?_ ?_
    · rintro id rfl
      exact hremove id (List.mem_of_getElem? ht)
    · rintro msg rfl r hr
      exact hping t now picks msg r rfl ht hr
  · refine Updates.incarnationsLe (updates_step h (fun _ => le_rfl) (fun p i => ?_) ?_)
    · show p.incarnation ≤ max p.incarnation i + 1
      omega
    · exact fun t now picks heq => he ⟨t, now, picks, heq⟩

theorem noRemovals_step (h : s.step e = some s') (hs : s.NoRemovals)
    (he : ∀ id, e ≠ .removePeer id) : s'.NoRemovals := by
  intro id hmem
  rcases mem_tasks_step h hmem with hmem | ⟨t, now, picks, pc, m, -, -, hadv⟩ | ⟨msg, -, heq⟩ |
    ⟨r, -, heq⟩ | ⟨id', rfl, -⟩ | heq | ⟨n, heq⟩ | heq | ⟨τ, timer, -, -, -, heq⟩
  · exact hs id hmem
  · exact Pc.advance_ne_removePeer hadv id rfl
  · exact Pc.ofMessage_ne_removePeer msg _ id heq.symm
  · cases heq
  · exact he id' rfl
  all_goals cases heq

theorem pingsUpToDate_of_incarnationsLe (h : s.step e = some s')
    (hle : s.manager.IncarnationsLe s'.manager) : s.PingsUpToDate e := by
  rintro t now picks msg r rfl ht hr
  obtain ⟨pc, pc', m, ht', -, hadv, rfl⟩ := step_resume_iff.1 h
  obtain rfl := Option.some.inj (ht.symm.trans ht')
  obtain ⟨-, rfl⟩ := Prod.mk.inj (Option.some.inj hadv)
  exact (incarnationsLe_handlePing_iff now msg s.manager).1 hle r hr

/-- Between any two moments of the run no stored incarnation goes down. -/
def NeverDecreases (s₀ : Sched) (events : List MembershipEvent) : Prop :=
  ∀ es₁ es₂ es₃ s₁ s₂, events = es₁ ++ es₂ ++ es₃ → run step s₀ es₁ = some s₁ →
    run step s₁ es₂ = some s₂ → s₁.manager.IncarnationsLe s₂.manager

end Sched

/-- In a run without `remove_peer` the stored incarnations never decrease exactly if every `PING`
of a known sender, when it is handled, is at least as new as the stored incarnation. -/
theorem incarnations_never_decrease_iff {config : MembershipConfig} {localPeer : Ref}
    {heap : Ref → Peer} {events : List MembershipEvent} {s : Sched}
    (hrun : run Sched.step (.init config localPeer heap) events = some s)
    (hremove : ∀ id, .removePeer id ∉ events) :
    Sched.NeverDecreases (.init config localPeer heap) events ↔
      Along Sched.step Sched.PingsUpToDate (.init config localPeer heap) events := by
  constructor
  · rintro h es₁ e es₂ s₁ rfl hs₁
    obtain ⟨s₂, hs₂⟩ := step_of_run hrun hs₁
    refine Sched.pingsUpToDate_of_incarnationsLe hs₂ (h es₁ [e] es₂ s₁ s₂ (by simp) hs₁ ?_)
    simp [run_cons, hs₂]
  · rintro h es₁ es₂ es₃ s₁ s₂ rfl hs₁ hs₂
    have removals : ∀ es s', (∀ id, .removePeer id ∉ es) →
        run Sched.step (.init config localPeer heap) es = some s' → s'.NoRemovals := by
      intro es s' hes hs'
      refine run_induction (C := fun _ e => ∀ id, e ≠ .removePeer id)
        (motive := fun _ s => s.NoRemovals) (fun id => by simp [Sched.init])
        (fun _ s e s' _ hs he hstep => Sched.noRemovals_step hstep hs he) ?_ hs'
      rintro es₁ e es₂ _ rfl - id rfl
      exact hes id (by simp)
    have hcond : Along Sched.step (fun s e => s.NoRemovals ∧ s.PingsUpToDate e) s₁ es₂ := by
      rintro a e b s' rfl hs'
      have hs₀ : run Sched.step (.init config localPeer heap) (es₁ ++ a) = some s' :=
        run_append_eq_some.2 ⟨s₁, hs₁, hs'⟩
      refine ⟨removals (es₁ ++ a) s' (fun id hmem => hremove id ?_) hs₀,
        h (es₁ ++ a) e (b ++ es₃) s' (by simp) hs₀⟩
      rw [List.append_assoc, List.append_assoc, ← List.append_assoc]
      exact List.mem_append_left _ hmem
    exact run_rel (R := fun s s' : Sched => s.manager.IncarnationsLe s'.manager)
      (fun s => .refl s.manager) (fun _ _ _ => .trans)
      (fun s e s' hc hstep => Sched.incarnationsLe_step hstep hc.1 hc.2) hcond hs₂

section Example

/-- The local peer `a` and a peer `b` that has refuted five suspicions. -/
def refutedPeer : Ref → Peer
  | 0 => { id := "a" }
  | _ => { id := "b", incarnation := 5 }

def pingFrom (incarnation : Int) : MessageHeader :=
  { MessageHeader.createPing "b" 1 "a" with incarnation := incarnation }

theorem incarnations_never_decrease_iff_ping :
    ∃ s, run Sched.step (.init {} 0 refutedPeer)
        [.addPeer 1, .resume 0 0 [], .receive (pingFrom 6), .resume 1 0 []] = some s ∧
      (Sched.NeverDecreases (.init {} 0 refutedPeer)
          [.addPeer 1, .resume 0 0 [], .receive (pingFrom 6), .resume 1 0 []] ↔
        Along Sched.step Sched.PingsUpToDate (.init {} 0 refutedPeer)
          [.addPeer 1, .resume 0 0 [], .receive (pingFrom 6), .resume 1 0 []]) := by
  obtain ⟨s, hs⟩ : ∃ s, run Sched.step (.init {} 0 refutedPeer)
      [.addPeer 1, .resume 0 0 [], .receive (pingFrom 6), .resume 1 0 []] = some s := ⟨_, rfl⟩
  exact ⟨s, hs, incarnations_never_decrease_iff hs (by simp)⟩

/-- A `PING` as `create_ping` makes it sets the stored incarnation of its sender back to 0. -/
theorem ping_decreases_incarnation : ∃ s₁ s₂ r,
    run Sched.step (.init {} 0 refutedPeer) [.addPeer 1, .resume 0 0 []] = some s₁ ∧
    run Sched.step s₁ [.receive (.createPing "b" 1 "a"), .resume 1 0 []] = some s₂ ∧
    s₁.manager.peers.get? "b" = some r ∧ (s₁.manager.heap r).incarnation = 5 ∧
    s₂.manager.peers.get? "b" = some r ∧ (s₂.manager.heap r).incarnation = 0 ∧
    ¬ Sched.NeverDecreases (.init {} 0 refutedPeer)
      [.addPeer 1, .resume 0 0 [], .receive (.createPing "b" 1 "a"), .resume 1 0 []] := by
  refine ⟨_, _, 1, rfl, rfl, rfl, rfl, rfl, rfl, fun h => ?_⟩
  obtain ⟨r', hr', hle⟩ := h [.addPeer 1, .resume 0 0 []]
    [.receive (.createPing "b" 1 "a"), .resume 1 0 []] [] _ _ rfl rfl rfl "b" 1 rfl
  obtain rfl : 1 = r' := Option.some.inj hr'
  exact absurd hle (by decide)

end Example

end GossipRl
