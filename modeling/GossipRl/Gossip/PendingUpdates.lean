import GossipRl.Gossip.SpreadSuspicion

/-!
# Updates on their way to other managers

An update is made by a refutation or by a suspicion, waits in its task for `updates_lock`, lies in
the queue, and leaves it in a batch of `get_pending_updates`. `Flows` says what one step does to
these places. Updates are numbered in the order in which they are made, and need not be queued in
this order.
-/

namespace GossipRl
open Support

namespace MembershipManager

theorem sequence_suspectPeer {m m' : MembershipManager} {target : Ref} {out : MessageHeader}
    (h : m.suspectPeer target = (some out, m')) :
    out.sequence = m.sequenceNum + 1 ∧ m'.sequenceNum = m.sequenceNum + 1 := by
  unfold suspectPeer at h
  dsimp only at h
  split at h
  · cases h
  · split at h
    · obtain ⟨hout, rfl⟩ := Prod.mk.inj h
      obtain rfl := Option.some.inj hout
      simp only [nextSequence, sequenceNum_startSuspicionTimer]
      exact ⟨rfl, rfl⟩
    · cases h

end MembershipManager

namespace Pc
open MembershipManager

/-- The update that the task is about to make. -/
def makes (m : MembershipManager) : Pc → Option MessageHeader
  | .suspectPeer target _ => (m.suspectPeer target).1
  | _ => none

/-- What the task is about to return from `get_pending_updates`. -/
def takes (m : MembershipManager) : Pc → Option (List MessageHeader)
  | .getUpdates maxUpdates => some (m.getPendingUpdates maxUpdates).1
  | _ => none

variable {pc pc' : Pc} {now : ℚ} {picks : List Ref} {m m' : MembershipManager}
  {out msg : MessageHeader}

theorem outgoing_advance_eq (h : pc.advance now picks m = some (pc', m')) :
    pc'.outgoing = pc.makes m := by
  cases hout : pc'.outgoing with
  | some out =>
    obtain ⟨target, drop, rfl, hs⟩ := outgoing_advance h hout
    simp only [makes, hs]
  | none =>
    cases pc with
    | suspectPeer target drop =>
      simp only [advance] at h
      split at h
      · rename_i hs
        simp only [makes, hs]
      · obtain ⟨rfl, -⟩ := Prod.mk.inj (Option.some.inj h)
        cases hout
    | _ => rfl

theorem queue_advance (h : pc.advance now picks m = some (pc', m')) :
    m.updatesQueue ++ pc.outgoing.toList = (pc.takes m).toList.flatten ++ m'.updatesQueue := by
  cases hw : pc.writesQueue with
  | false =>
    have hq := (sameQueue_advance h hw).queue
    cases pc with
    | broadcast | suspectQueue | getUpdates => cases hw
    | _ => simp [outgoing, takes, hq]
  | true =>
    cases pc with
    | broadcast out =>
      obtain ⟨-, rfl⟩ := Prod.mk.inj (Option.some.inj h)
      simp [outgoing, takes, queueUpdate]
    | suspectQueue out drop =>
      have hq : m'.updatesQueue = m.updatesQueue ++ [out] := by
        cases drop <;> (obtain ⟨-, rfl⟩ := Prod.mk.inj (Option.some.inj h); rfl)
      simp [outgoing, takes, hq]
    | getUpdates n =>
      obtain ⟨-, rfl⟩ := Prod.mk.inj (Option.some.inj h)
      simp [outgoing, takes, getPendingUpdates]
    | _ => cases hw

theorem sequence_makes (h : pc.advance now picks m = some (pc', m')) (hout : pc.makes m = some out) :
    out.sequence = m.sequenceNum + 1 ∧ m'.sequenceNum = m.sequenceNum + 1 := by
  cases pc with
  | suspectPeer target drop =>
    have hs : m.suspectPeer target = (some out, (m.suspectPeer target).2) := Prod.ext hout rfl
    obtain ⟨hseq, hnum⟩ := sequence_suspectPeer hs
    rcases suspectPeer_advance h with rfl | ⟨sequence, rfl⟩
    · exact ⟨hseq, hnum⟩
    · exact ⟨hseq, hnum⟩
  | _ => cases hout

/-- So does a refutation. -/
theorem sequence_ofMessage (hout : (ofMessage msg m).1.outgoing = some out) :
    out.sequence = m.sequenceNum + 1 ∧ (ofMessage msg m).2.sequenceNum = m.sequenceNum + 1 := by
  obtain ⟨-, -, hof, rfl⟩ := outgoing_ofMessage hout
  rw [hof]
  exact ⟨rfl, rfl⟩

end Pc

namespace Sched
variable {s s' : Sched} {e : MembershipEvent} {out : MessageHeader}

/-- The update that a step makes. -/
def makes (s : Sched) : MembershipEvent → Option MessageHeader
  | .receive msg => (Pc.ofMessage msg s.manager).1.outgoing
  | .resume t _ _ => s.tasks[t]?.bind (Pc.makes s.manager)
  | _ => none

/-- The update that a step appends to the queue. -/
def queues (s : Sched) : MembershipEvent → Option MessageHeader
  | .resume t _ _ => s.tasks[t]?.bind Pc.outgoing
  | _ => none

/-- The batch that a step takes from the queue. -/
def takes (s : Sched) : MembershipEvent → Option (List MessageHeader)
  | .resume t _ _ => s.tasks[t]?.bind (Pc.takes s.manager)
  | _ => none

/-- The updates that tasks are about to queue. -/
def waitingUpdates (s : Sched) : List MessageHeader := s.tasks.filterMap Pc.outgoing

/-- What the step does to the updates. -/
structure Flows (s : Sched) (e : MembershipEvent) (s' : Sched) : Prop where
  queue : s.manager.updatesQueue ++ (s.queues e).toList =
    (s.takes e).toList.flatten ++ s'.manager.updatesQueue
  waiting : (s'.waitingUpdates ++ (s.queues e).toList).Perm
    (s.waitingUpdates ++ (s.makes e).toList)
  sequence : s.manager.sequenceNum ≤ s'.manager.sequenceNum
  numbered : ∀ out, s.makes e = some out →
    s.manager.sequenceNum < out.sequence ∧ out.sequence ≤ s'.manager.sequenceNum

theorem flows_spawn {pc : Pc} (hpc : pc.outgoing = none) (hqueues : s.queues e = none)
    (htakes : s.takes e = none) (hmakes : s.makes e = none) : s.Flows e (s.spawn pc) where
  queue := by simp [hqueues, htakes, spawn]
  waiting := by simp [waitingUpdates, hqueues, hmakes, spawn, hpc]
  sequence := le_rfl
  numbered out hout := by cases hmakes.symm.trans hout

theorem flows_step (h : s.step e = some s') : s.Flows e s' := by
  cases e with
  | resume t now picks =>
    obtain ⟨pc, pc', m, ht, -, hadv, rfl⟩ := step_resume_iff.1 h
    have hmakes : s.makes (.resume t now picks) = pc.makes s.manager := by simp [makes, ht]
    have hqueues : s.queues (.resume t now picks) = pc.outgoing := by simp [queues, ht]
    have htakes : s.takes (.resume t now picks) = pc.takes s.manager := by simp [takes, ht]
    refine ⟨?_, ?_, (Pc.sameSetup_advance hadv).sequence, fun out hout => ?_⟩
    · rw [hqueues, htakes]
      exact Pc.queue_advance hadv
    · rw [hqueues, hmakes, ← Pc.outgoing_advance_eq hadv]
      obtain ⟨rest, hold, hnew⟩ := filterMap_set_perm (f := Pc.outgoing) ht
      -- the old and the new update of the task change places
      have hswap : (pc'.outgoing.toList ++ rest ++ pc.outgoing.toList).Perm
          (pc.outgoing.toList ++ rest ++ pc'.outgoing.toList) := by
        refine List.perm_append_comm.trans ?_
        rw [List.append_assoc]
        exact List.perm_append_comm.append_left _
      exact ((hnew pc').append_right _).trans (hswap.trans (hold.append_right _).symm)
    · obtain ⟨hout, hnum⟩ := Pc.sequence_makes hadv (hmakes ▸ hout)
      show s.manager.sequenceNum < out.sequence ∧ out.sequence ≤ m.sequenceNum
      omega
  | receive msg =>
    rw [step_receive] at h
    obtain rfl := Option.some.inj h
    refine ⟨?_, ?_, (Pc.sameQueue_ofMessage msg s.manager).sequence, fun out hout => ?_⟩
    · simp [queues, takes, (Pc.sameQueue_ofMessage msg s.manager).queue]
    · simp only [waitingUpdates, queues, makes, filterMap_concat, Option.toList_none, List.append_nil,
        List.Perm.refl]
    · obtain ⟨hout, hnum⟩ := Pc.sequence_ofMessage hout
      show s.manager.sequenceNum < out.sequence ∧
        out.sequence ≤ (Pc.ofMessage msg s.manager).2.sequenceNum
      omega
  | fire τ =>
    obtain ⟨timer, -, -, rfl⟩ := step_fire_iff.1 h
    obtain ⟨-, hwaiting, -, -⟩ : s.Flows (.fire τ) (s.spawn (.confirmStart timer.peerId τ)) :=
      flows_spawn rfl rfl rfl rfl
    exact ⟨by simp [queues, takes], hwaiting, le_rfl, fun out hout => by cases hout⟩
  | addPeer | removePeer | readPeers | getUpdates | start =>
    obtain rfl := Option.some.inj h
    exact flows_spawn rfl rfl rfl rfl

/-- Where the updates are that have been made, in a run that has made `made`, queued `queued` and
taken `taken`. -/
structure Accounted (made queued taken : List MessageHeader) (s : Sched) : Prop where
  queue : queued = taken ++ s.manager.updatesQueue
  conserved : made.Perm (queued ++ s.waitingUpdates)
  numbered : made.Pairwise fun out out' => out.sequence < out'.sequence
  last : ∀ out ∈ made, out.sequence ≤ s.manager.sequenceNum

theorem Accounted.step {made queued taken : List MessageHeader} (hs : s.Accounted made queued taken)
    (h : s.step e = some s') : s'.Accounted (made ++ (s.makes e).toList)
      (queued ++ (s.queues e).toList) (taken ++ (s.takes e).toList.flatten) := by
  obtain ⟨hqueue, hwaiting, hseq, hnum⟩ := flows_step h
  refine ⟨?_, ?_, ?_, ?_⟩
  · rw [hs.queue, List.append_assoc, hqueue, List.append_assoc]
  · have hmade : (made ++ (s.makes e).toList).Perm
        (queued ++ (s.waitingUpdates ++ (s.makes e).toList)) := by
      rw [← List.append_assoc]
      exact hs.conserved.append_right _
    refine hmade.trans ?_
    rw [List.append_assoc]
    exact (hwaiting.symm.trans List.perm_append_comm).append_left queued
  · refine List.pairwise_append.2 ⟨hs.numbered, ?_, ?_⟩
    · cases s.makes e <;> simp
    · intro out hout out' hout'
      have hlast := hs.last out hout
      have hnew := hnum out' (Option.mem_toList.1 hout')
      omega
  · intro out hout
    rcases List.mem_append.1 hout with hout | hout
    · exact (hs.last out hout).trans hseq
    · exact (hnum out (Option.mem_toList.1 hout)).2

theorem accounted_run {config : MembershipConfig} {localPeer : Ref} {heap : Ref → Peer}
    {events : List MembershipEvent} (h : run step (.init config localPeer heap) events = some s) :
    s.Accounted (observe step makes (.init config localPeer heap) events)
      (observe step queues (.init config localPeer heap) events)
      (observe step takes (.init config localPeer heap) events).flatten := by
  refine run_induction (motive := fun events s => s.Accounted
    (observe step makes (.init config localPeer heap) events)
    (observe step queues (.init config localPeer heap) events)
    (observe step takes (.init config localPeer heap) events).flatten) ?_ ?_ .unconditional h
  · exact ⟨rfl, .refl _, .nil, fun out hout => by cases hout⟩
  · rintro es s e s' hrun hs - hstep
    rw [observe_concat hrun, observe_concat hrun, observe_concat hrun, List.flatten_append]
    exact hs.step hstep

end Sched

/-- `get_pending_updates` hands out the queued updates in their order, each once at most, and none is
lost: what has been made has been handed out, lies in the queue, or waits for it. -/
theorem updates_handed_out_once {config : MembershipConfig} {localPeer : Ref} {heap : Ref → Peer}
    {events : List MembershipEvent} {s : Sched}
    (hrun : run Sched.step (.init config localPeer heap) events = some s) :
    let made := observe Sched.step Sched.makes (.init config localPeer heap) events
    let queued := observe Sched.step Sched.queues (.init config localPeer heap) events
    let taken := (observe Sched.step Sched.takes (.init config localPeer heap) events).flatten
    queued = taken ++ s.manager.updatesQueue ∧ made.Perm (queued ++ s.waitingUpdates) ∧
      (made.map (·.sequence)).Nodup ∧ taken.Nodup := by
  intro made queued taken
  obtain ⟨hqueue, hmade, hnumbered, -⟩ := Sched.accounted_run hrun
  have hnodup : (made.map (·.sequence)).Nodup := by
    rw [List.nodup_iff_pairwise_ne, List.pairwise_map]
    exact hnumbered.imp fun h => h.ne
  have htaken : taken.Sublist (queued ++ s.waitingUpdates) := by
    show taken.Sublist (queued ++ _)
    rw [show queued = _ from hqueue, List.append_assoc]
    exact List.sublist_append_left ..
  exact ⟨hqueue, hmade, hnodup, (hmade.nodup_iff.1 (hnodup.of_map _)).sublist htaken⟩

section Example

/-- Two refutations, the second of which is queued first; a batch of one update. -/
def refutedTwice : List MembershipEvent :=
  [.receive (suspectA 5), .receive (suspectA 7), .resume 1 0 [], .resume 0 0 [], .getUpdates 1,
    .resume 2 0 []]

theorem updates_handed_out_once_refuted : ∃ s,
    run Sched.step (.init {} 0 soleA) refutedTwice = some s ∧
    s.manager.updatesQueue.length = 1 ∧
    ((observe Sched.step Sched.takes (.init {} 0 soleA) refutedTwice).flatten).Nodup ∧
    observe Sched.step Sched.queues (.init {} 0 soleA) refutedTwice =
      (observe Sched.step Sched.takes (.init {} 0 soleA) refutedTwice).flatten ++
        s.manager.updatesQueue := by
  refine ⟨_, rfl, by decide, ?_, ?_⟩
  · exact (@updates_handed_out_once {} 0 soleA refutedTwice _ rfl).2.2.2
  · exact (@updates_handed_out_once {} 0 soleA refutedTwice _ rfl).1

end Example

end GossipRl
