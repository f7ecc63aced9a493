import GossipRl.Gossip.StoredPeer
import GossipRl.Gossip.Suspicion

/-!
# Answered probes

`create_ack` leaves the incarnation of an `ACK` at 0, and `mark_alive` takes no incarnation that is
not above the stored one. So the answer to a probe revives the peer only if a negative incarnation is
stored for it (`answered_probe_revives_iff`).
-/

namespace GossipRl
open Support

namespace MembershipManager
variable {m : MembershipManager} {id : String} {r : Ref} {now l : ℚ} {msg : MessageHeader}

theorem suspicionTimers_ackPeer (hr : m.peers.get? id = some r) :
    (m.ackPeer now msg id l).suspicionTimers =
      if (((m.heap r).updateLatency l).markAlive now (some msg.incarnation)).1 then
        m.suspicionTimers.erase id
      else m.suspicionTimers := by
  unfold ackPeer
  rw [onEntry_of_some hr]
  unfold reviveEntry
  simp only [heap_setPeer_self]
  split <;> rfl

theorem revived_ackPeer_iff {pc' : Pc} {m' : MembershipManager} {picks : List Ref} (hm : m.Keyed)
    (hinc : msg.incarnation = 0)
    (hadv : (Pc.ackPeer msg id l).advance now picks m = some (pc', m')) :
    (m'.storedState id = some .ALIVE ∧ m'.suspicionTimers.get? id = none) ↔
      ∃ p, m.storedPeer id = some p ∧ (p.state = .ALIVE ∧ m.suspicionTimers.get? id = none ∨
        p.state ≠ .ALIVE ∧ p.incarnation < 0) := by
  have hp' : m'.storedPeer id = _ := Pc.storedPeer_advance hadv hm rfl
  obtain ⟨-, rfl⟩ := Prod.mk.inj (Option.some.inj hadv)
  cases hr : m.peers.get? id with
  | none =>
    rw [storedPeer_of_none hr, Option.map_none] at hp'
    rw [storedState_eq_map, hp', storedPeer_of_none hr]
    simp
  | some r =>
    rw [storedPeer_of_get? hr, Option.map_some] at hp'
    simp only [Pc.effect, if_true, hinc] at hp'
    rw [storedState_eq_map, hp', suspicionTimers_ackPeer hr, hinc, storedPeer_of_get? hr,
      Option.map_some]
    simp only [Option.some.injEq, exists_eq_left']
    have hinc' : ((m.heap r).updateLatency l).incarnation = (m.heap r).incarnation := rfl
    have hst' : ((m.heap r).updateLatency l).state = (m.heap r).state := rfl
    generalize (m.heap r).updateLatency l = q at hinc' hst' ⊢
    rw [← hinc', ← hst']
    unfold Peer.markAlive
    by_cases hneg : q.incarnation < 0
    · by_cases hst : q.state = .ALIVE
      · simp [hneg, hneg.not_ge, hst]
      · simp [hneg, hneg.not_ge, hst, Dict.get?_erase]
    · have hge : 0 ≤ q.incarnation := by omega
      simp [hneg, hge]

end MembershipManager

/-- `A` has probed `B` with `sequence`, `mB` is what `B` is when it handles the `PING`, and `A`
handles the `ACK` that comes back (task `t`) while the probe is pending. Afterwards `B` is `ALIVE` at
`A` without an entered timer exactly if it was so before, or was stored with a negative incarnation
in another state. -/
theorem answered_probe_revives_iff {config : MembershipConfig} {localPeer : Ref} {heap : Ref → Peer}
    {es mid : List MembershipEvent} {s s₁ s₂ s₃ : Sched} {mB : MembershipManager}
    {sequence : Int} {probe : ProbeState} {ack : MessageHeader} {t : Nat} {nowB now₁ now₂ : ℚ}
    {picks₁ picks₂ : List Ref}
    (hping : (mB.handleMessage nowB (.createPing (heap localPeer).id sequence
      (mB.heap mB.localPeer).id)).1 = some ack)
    (hrun : run Sched.step (.init config localPeer heap) es = some s)
    (hack : s.tasks[t]? = some (.ack ack))
    (hpending : s.manager.pendingProbes.get? sequence = some probe)
    (hprobe : probe.targetId = (mB.heap mB.localPeer).id)
    (h₁ : s.step (.resume t now₁ picks₁) = some s₁) (hmid : run Sched.step s₁ mid = some s₂)
    (h₂ : s₂.step (.resume t now₂ picks₂) = some s₃) :
    (s₃.manager.storedState (mB.heap mB.localPeer).id = some .ALIVE ∧
      s₃.manager.suspicionTimers.get? (mB.heap mB.localPeer).id = none) ↔
    ∃ p, s₂.manager.storedPeer (mB.heap mB.localPeer).id = some p ∧
      (p.state = .ALIVE ∧
          s₂.manager.suspicionTimers.get? (mB.heap mB.localPeer).id = none ∨
        p.state ≠ .ALIVE ∧ p.incarnation < 0) := by
  obtain ⟨hseq, hinc⟩ : ack.sequence = sequence ∧ ack.incarnation = 0 := by
    obtain rfl := Option.some.inj hping
    exact ⟨rfl, rfl⟩
  obtain ⟨l, ht₁⟩ : ∃ l, s₁.tasks[t]? = some (.ackPeer ack (mB.heap mB.localPeer).id l) := by
    obtain ⟨pc, pc', m, ht, -, hadv, rfl⟩ := Sched.step_resume_iff.1 h₁
    obtain rfl := Option.some.inj (ht.symm.trans hack)
    simp only [Pc.advance, hseq, hpending, hprobe] at hadv
    obtain ⟨rfl, -⟩ := Prod.mk.inj (Option.some.inj hadv)
    exact ⟨_, List.getElem?_set_self (List.getElem?_eq_some_iff.1 ht).1⟩
  have hkeyed : s₂.manager.Keyed := by
    refine run_invariant (P := fun s : Sched => s.manager.Keyed) ?_
      (fun s e s' hs hstep => Sched.keyed_step hstep hs)
      (run_append_eq_some.2 ⟨s, hrun, ?_⟩ : run Sched.step (.init config localPeer heap)
        (es ++ .resume t now₁ picks₁ :: mid) = some s₂)
    · intro id r hr
      cases hr
    · rw [run_cons, h₁, Option.bind_some, hmid]
  obtain ⟨pc, pc', m, ht, -, hadv, rfl⟩ := Sched.step_resume_iff.1 h₂
  rcases Sched.task_waits (by rintro _ _ _ _ _ ⟨⟩; rfl) ht₁ hmid with ht₂ | ht₂
  · obtain rfl := Option.some.inj (ht.symm.trans ht₂)
    exact MembershipManager.revived_ackPeer_iff hkeyed hinc hadv
  · obtain rfl := Option.some.inj (ht.symm.trans ht₂)
    cases hadv

section Example

/-- `a` has registered a probe of `b` with sequence 1, and then hears that `b` is suspect. -/
def probedRun : List MembershipEvent :=
  [.addPeer 1, .resume 0 0 [], .start, .resume 1 0 [1], .resume 1 0 [], .receive suspectB,
    .resume 2 0 [], .receive (.createAck "b" 1 "a")]

/-- The manager of `b`. -/
def managerB : MembershipManager :=
  { config := {}, localPeer := 0, heap := fun _ => { id := "b" } }

theorem answered_probe_revives_iff_once : ∃ s₂ s₃ : Sched, ∃ p,
    s₂.manager.storedPeer "b" = some p ∧ ((s₃.manager.storedState "b" = some .ALIVE ∧
      s₃.manager.suspicionTimers.get? "b" = none) ↔
    ∃ p, s₂.manager.storedPeer "b" = some p ∧
      (p.state = .ALIVE ∧ s₂.manager.suspicionTimers.get? "b" = none ∨
        p.state ≠ .ALIVE ∧ p.incarnation < 0)) := by
  obtain ⟨s, s₁, s₃, hrun, hack, hpending, h₁, h₂, p, hp⟩ : ∃ s s₁ s₃ : Sched,
      run Sched.step (.init {} 0 namedB) probedRun = some s ∧
      s.tasks[3]? = some (.ack (.createAck "b" 1 "a")) ∧
      s.manager.pendingProbes.get? 1 = some { targetId := "b", sequence := 1, startTime := 0 } ∧
      s.step (.resume 3 0 []) = some s₁ ∧ s₁.step (.resume 3 0 []) = some s₃ ∧
      ∃ p, s₁.manager.storedPeer "b" = some p :=
    ⟨_, _, _, rfl, rfl, rfl, rfl, rfl, _, rfl⟩
  have hping : (managerB.handleMessage 0 (.createPing "a" 1 "b")).1 = some (.createAck "b" 1 "a") :=
    rfl
  exact ⟨s₁, s₃, p, hp,
    answered_probe_revives_iff hping hrun hack hpending rfl h₁ run_nil h₂⟩

/-- The answer of `b` comes while the probe is pending, and `b` stays suspect. -/
theorem answered_suspect : ∃ s s₁ s₂ : Sched,
    (managerB.handleMessage 0 (.createPing "a" 1 "b")).1 = some (.createAck "b" 1 "a") ∧
    run Sched.step (.init {} 0 namedB) probedRun = some s ∧
    s.tasks[3]? = some (.ack (.createAck "b" 1 "a")) ∧
    s.manager.pendingProbes.get? 1 = some { targetId := "b", sequence := 1, startTime := 0 } ∧
    s.step (.resume 3 0 []) = some s₁ ∧ s₁.step (.resume 3 0 []) = some s₂ ∧
    s₂.manager.storedState "b" = some .SUSPECT ∧ s₂.manager.suspicionTimers.get? "b" = some 0 ∧
    ¬ (s₂.manager.storedState "b" = some .ALIVE ∧ s₂.manager.suspicionTimers.get? "b" = none) := by
  refine ⟨_, _, _, rfl, rfl, rfl, rfl, rfl, rfl, rfl, rfl, ?_⟩
  rintro ⟨⟨⟩, -⟩

end Example

end GossipRl
