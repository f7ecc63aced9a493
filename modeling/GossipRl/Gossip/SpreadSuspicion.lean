import GossipRl.Gossip.PackedUpdates
import GossipRl.Gossip.Suspicion

/-!
# The incarnation that a suspicion spreads

`_suspect_peer` marks the object that is stored for the id of the probed one, and spreads the
incarnation of the latter. The two differ where `add_peer` has replaced the entry since the peer was
picked. What is spread is what is stored as long as no probe marks an entry with another incarnation
(`Sched.MarksProbed`), for `probe_lock` and `peer_lock` are held up to the queue. In the code the
message is queued at once, since `updates_lock` is never waited for; where another step comes in
between here, it is not to raise the incarnation of the suspected entry, which only a refutation
could (`Sched.NotRefuted`).
-/

namespace GossipRl
open Support

namespace MembershipManager

/-- The stored incarnation of `id` is `i`. -/
def StoredIncarnation (m : MembershipManager) (id : String) (i : Int) : Prop :=
  ∃ r, m.peers.get? id = some r ∧ (m.heap r).incarnation = i

variable {m m' : MembershipManager} {out : MessageHeader} {id : String} {i : Int}

theorem StoredIncarnation.congr (h : m.StoredIncarnation id i) (hp : m'.peers = m.peers)
    (hh : ∀ r, m.peers.get? id = some r → (m'.heap r).incarnation = (m.heap r).incarnation) :
    m'.StoredIncarnation id i := by
  obtain ⟨r, hr, hi⟩ := h
  exact ⟨r, hp ▸ hr, (hh r hr).trans hi⟩

theorem suspectPeer_eq_some {target : Ref} (h : m.suspectPeer target = (some out, m')) :
    out.type = .SUSPECT ∧ out.targetId = some (m.heap target).id ∧
      out.incarnation = (m.heap target).incarnation ∧
      ∃ r, m.peers.get? (m.heap target).id = some r ∧ (m.heap r).state = .ALIVE := by
  have hu := updates_suspectPeer (P := fun p p' => p'.incarnation = p.incarnation) (m := m)
    (r := target) (fun _ => rfl) fun p => p.incarnation_markSuspect none
  rw [h] at hu
  unfold suspectPeer at h
  dsimp only at h
  split at h
  · cases h
  · rename_i r hr
    rcases (m.heap r).state_markSuspect_cases none with ⟨hc, hal, -⟩ | ⟨hc, -⟩
    · rw [if_pos hc] at h
      obtain ⟨hout, rfl⟩ := Prod.mk.inj h
      obtain rfl := Option.some.inj hout
      exact ⟨rfl, rfl, hu.heap target, r, hr, hal⟩
    · rw [hc] at h
      cases h

end MembershipManager

namespace Pc
open MembershipManager
variable {pc pc' : Pc} {now : ℚ} {picks : List Ref} {m m' : MembershipManager}

/-- The entries are written under `peer_lock`, which `_confirm_dead` waits for when it has dropped
its timer. -/
theorem waits_peer_of_writesTable (hw : pc.writesTable = true)
    (hpc : ∀ id τ, pc ≠ .confirmStart id τ) : pc.waits = some .peer := by
  cases pc with
  | confirmStart id τ => exact absurd rfl (hpc id τ)
  | ping | ackPeer | alive | suspect | dead | addPeer | removePeer | confirm | suspectPeer => rfl
  | _ => cases hw

theorem sameEntries_advance (h : pc.advance now picks m = some (pc', m'))
    (hpc : pc.waits ≠ some .peer) : m'.peers = m.peers ∧ m'.heap = m.heap := by
  cases hw : pc.writesTable with
  | false =>
    have hsame := sameTable_advance h hw
    exact ⟨hsame.peers, hsame.heap⟩
  | true =>
    by_cases hstart : ∃ id τ, pc = .confirmStart id τ
    · obtain ⟨id, τ, rfl⟩ := hstart
      obtain ⟨-, rfl⟩ := Prod.mk.inj (Option.some.inj h)
      exact ⟨rfl, rfl⟩
    · exact absurd (waits_peer_of_writesTable hw fun id τ heq => hstart ⟨id, τ, heq⟩) hpc

end Pc

namespace Sched
open MembershipManager
variable {s s' : Sched} {e : MembershipEvent}

/-- An `ALIVE` entry that the step marks for an unanswered probe has the incarnation of the probed
object. -/
def MarksProbed (s : Sched) (e : MembershipEvent) : Prop :=
  ∀ t now picks target drop r, e = .resume t now picks → s.tasks[t]? = some (.suspectPeer target drop) →
    s.manager.peers.get? (s.manager.heap target).id = some r → (s.manager.heap r).state = .ALIVE →
    (s.manager.heap r).incarnation = (s.manager.heap target).incarnation

/-- The step does not refute a suspicion of the local peer while one is about to be queued. -/
def NotRefuted (s : Sched) (e : MembershipEvent) : Prop :=
  ∀ msg out drop id, e = .receive msg → .suspectQueue out drop ∈ s.tasks → out.targetId = some id →
    s.manager.peers.get? id = some s.manager.localPeer →
    (Pc.ofMessage msg s.manager).1.outgoing = none

/-- Suspicions that are about to be queued have the stored incarnation. -/
def SpreadsStored (s : Sched) : Prop :=
  ∀ out drop, .suspectQueue out drop ∈ s.tasks → out.type = .SUSPECT ∧
    ∃ id, out.targetId = some id ∧ s.manager.StoredIncarnation id out.incarnation

theorem SpreadsStored.resume {t : Nat} {now : ℚ} {picks : List Ref} (hs : s.SpreadsStored)
    (hmarks : s.MarksProbed (.resume t now picks)) (h : s.step (.resume t now picks) = some s') :
    s'.SpreadsStored := by
  obtain ⟨pc, pc', m, ht, hfree, hadv, rfl⟩ := step_resume_iff.1 h
  intro out drop hmem
  rcases List.mem_or_eq_of_mem_set hmem with hmem | rfl
  · -- the other task holds `peer_lock`
    have hwaits : pc.waits ≠ some .peer := fun hw => hfree .peer hw _ hmem (by simp [Pc.holds])
    obtain ⟨hp, hh⟩ := Pc.sameEntries_advance hadv hwaits
    obtain ⟨htype, id, hid, hstored⟩ := hs out drop hmem
    exact ⟨htype, id, hid, hstored.congr hp fun r _ => by rw [hh]⟩
  · have hout : (Pc.suspectQueue out drop).outgoing = some out := rfl
    obtain ⟨target, drop', rfl, hsus⟩ := Pc.outgoing_advance hadv hout
    obtain ⟨htype, hid, hinc, r, hr, hal⟩ := suspectPeer_eq_some hsus
    have hu := updates_suspectPeer (P := fun p p' => p'.incarnation = p.incarnation)
      (m := s.manager) (r := target) (fun _ => rfl) fun p => p.incarnation_markSuspect none
    rw [hsus] at hu
    refine ⟨htype, _, hid, r, hu.peers ▸ hr, ?_⟩
    rw [hu.heap r, hinc]
    exact hmarks t now picks target drop' r rfl ht hr hal

theorem SpreadsStored.receive {msg : MessageHeader} (hs : s.SpreadsStored)
    (hno : s.NotRefuted (.receive msg)) (h : s.step (.receive msg) = some s') :
    s'.SpreadsStored := by
  rw [step_receive] at h
  obtain rfl := Option.some.inj h
  intro out drop hmem
  have hold : .suspectQueue out drop ∈ s.tasks := by
    rcases List.mem_append.1 hmem with hmem | hmem
    · exact hmem
    · have hquiet : ∀ pc, pc = (Pc.ofMessage msg s.manager).1 →
          pc ≠ .suspectQueue out drop := by
        rintro _ rfl
        unfold Pc.ofMessage
        repeat' split
        all_goals simp
      exact absurd (List.mem_singleton.1 hmem).symm (hquiet _ rfl)
  obtain ⟨htype, id, hid, hstored⟩ := hs out drop hold
  refine ⟨htype, id, hid, ?_⟩
  cases hself : (Pc.ofMessage msg s.manager).1.outgoing with
  | none =>
    rw [Pc.ofMessage_of_outgoing_none hself]
    exact hstored
  | some refuted =>
    obtain ⟨-, -, hof, -⟩ := Pc.outgoing_ofMessage hself
    rw [hof]
    refine hstored.congr rfl fun r hr => congrArg Peer.incarnation (heap_setPeer_of_ne ?_)
    rintro rfl
    cases hself.symm.trans (hno msg out drop id rfl hold hid hr)

theorem SpreadsStored.step (hs : s.SpreadsStored) (hmarks : s.MarksProbed e) (hno : s.NotRefuted e)
    (h : s.step e = some s') : s'.SpreadsStored := by
  cases e with
  | resume t now picks => exact hs.resume hmarks h
  | receive msg => exact hs.receive hno h
  | fire τ =>
    obtain ⟨timer, -, -, rfl⟩ := step_fire_iff.1 h
    intro out drop hmem
    exact hs out drop (by simpa using hmem)
  | addPeer | removePeer | readPeers | getUpdates | start =>
    obtain rfl := Option.some.inj h
    intro out drop hmem
    exact hs out drop (by simpa [spawn] using hmem)

end Sched

namespace Pc
open MembershipManager

/-- The object that the task is probing. -/
def target : Pc → Option Ref
  | .probeRegister target _ | .probeWait target _ | .probeCheck target _ | .indirectSelect target _
  | .indirectRegister target _ _ | .indirectWait target _ | .indirectCheck target _
  | .suspectPeer target _ => some target
  | _ => none

variable {pc pc' : Pc} {now : ℚ} {picks : List Ref} {m m' : MembershipManager} {r : Ref}

theorem target_advance (h : pc.advance now picks m = some (pc', m')) (hr : pc'.target = some r) :
    pc.target = some r ∨ pc = .probePick ∧ r ∈ m.getAlivePeers := by
  cases pc with
  | probePick =>
    simp only [advance] at h
    repeat' split at h
    all_goals first
      | (rename_i hmem
         obtain rfl := (Prod.mk.inj (Option.some.inj h)).1
         obtain rfl := Option.some.inj hr
         exact .inr ⟨rfl, hmem⟩)
      | (obtain rfl := (Prod.mk.inj (Option.some.inj h)).1; cases hr)
      | cases h
  | ack | probeCheck | indirectSelect | indirectCheck | suspectPeer =>
    simp only [advance] at h
    repeat' split at h
    all_goals first
      | (obtain rfl := (Prod.mk.inj (Option.some.inj h)).1; exact .inl hr)
      | (obtain rfl := (Prod.mk.inj (Option.some.inj h)).1; cases hr)
      | cases h
  | done => cases h
  | _ =>
    obtain rfl := (Prod.mk.inj (Option.some.inj h)).1
    exact .inl hr

theorem target_ofMessage (msg : MessageHeader) (m : MembershipManager) :
    (ofMessage msg m).1.target = none := by
  unfold ofMessage
  repeat' split
  all_goals rfl

end Pc

namespace Sched
open MembershipManager
variable {s s' : Sched} {e : MembershipEvent}

/-- The step does not enter another object for a peer that is being probed. -/
def EntersNoOther (s : Sched) (e : MembershipEvent) : Prop :=
  ∀ t now picks r, e = .resume t now picks → s.tasks[t]? = some (.addPeer r) → s.manager.Accepts r →
    ∀ pc ∈ s.tasks, ∀ target, pc.target = some target →
      (s.manager.heap target).id = (s.manager.heap r).id → r = target

/-- A peer that is being probed is not stored, or stored as the probed object. -/
def StoredTargets (s : Sched) : Prop :=
  ∀ pc ∈ s.tasks, ∀ target, pc.target = some target → ∀ r,
    s.manager.peers.get? (s.manager.heap target).id = some r → r = target

theorem StoredTargets.step (hs : s.StoredTargets) (hkeyed : s.manager.Keyed)
    (hno : s.EntersNoOther e) (h : s.step e = some s') : s'.StoredTargets := by
  by_cases he : ∃ t now picks, e = .resume t now picks
  · obtain ⟨t, now, picks, rfl⟩ := he
    obtain ⟨pc, pc', m, ht, -, hadv, rfl⟩ := step_resume_iff.1 h
    have hmem := List.mem_of_getElem? ht
    -- what holds of the targets before the step holds of the new task, too
    have hold : ∀ pc₁ ∈ s.tasks.set t pc', ∀ target, pc₁.target = some target → ∀ r,
        s.manager.peers.get? (s.manager.heap target).id = some r → r = target := by
      refine forall_mem_set hs ?_
      intro target htarget r hr
      rcases Pc.target_advance hadv htarget with htarget | ⟨-, halive⟩
      · exact hs pc hmem target htarget r hr
      · obtain ⟨id, hid⟩ := Dict.mem_values_iff.1 (List.mem_filter.1 halive).1
        rw [hkeyed id target hid, hid] at hr
        exact (Option.some.inj hr).symm
    cases hpc : pc.changesPeers with
    | false =>
      have hu := Pc.updates_id_advance hadv hpc
      intro pc₁ hmem₁ target htarget r hr
      rw [hu.peers, hu.heap target] at hr
      exact hold pc₁ hmem₁ target htarget r hr
    | true =>
      intro pc₁ hmem₁ target htarget r hr
      change m.peers.get? (m.heap target).id = some r at hr
      rw [Pc.heap_advance hadv hpc] at hr
      rcases Pc.advance_changesPeers hadv hpc with ⟨r₀, rfl, rfl⟩ | ⟨id, rfl, rfl⟩
      · rcases addPeer_cases r₀ s.manager with ⟨hacc, heq⟩ | heq
        · rw [heq] at hr
          rcases Dict.get?_set_eq_some_iff.1 hr with ⟨hid, rfl⟩ | ⟨-, hr⟩
          · rcases List.mem_or_eq_of_mem_set hmem₁ with hmem₁ | rfl
            · exact hno t now picks r₀ rfl ht hacc pc₁ hmem₁ target htarget hid
            · obtain ⟨rfl, -⟩ := Prod.mk.inj (Option.some.inj hadv)
              cases htarget
          · exact hold pc₁ hmem₁ target htarget r hr
        · rw [heq] at hr
          exact hold pc₁ hmem₁ target htarget r hr
      · rw [removePeer_snd] at hr
        exact hold pc₁ hmem₁ target htarget r (Dict.get?_erase_eq_some_iff.1 hr).2
  · have hu := updates_step (P := fun p p' => p'.id = p.id) h (fun _ => rfl) (fun _ _ => rfl)
      fun t now picks heq => he ⟨t, now, picks, heq⟩
    intro pc hmem target htarget r hr
    rw [hu.peers, hu.heap target] at hr
    rcases mem_tasks_step h hmem with hmem | ⟨t, now, picks, _, _, heq, -⟩ | ⟨msg, -, rfl⟩ |
      ⟨_, -, rfl⟩ | ⟨_, -, rfl⟩ | rfl | ⟨_, rfl⟩ | rfl | ⟨_, _, -, -, -, rfl⟩
    · exact hs pc hmem target htarget r hr
    · exact absurd ⟨t, now, picks, heq⟩ he
    · cases (Pc.target_ofMessage msg s.manager).symm.trans htarget
    all_goals cases htarget

/-- As long as no other object is entered for a peer that is being probed, the probed object is the
one that is marked. -/
theorem marksProbed_of_entersNoOther {config : MembershipConfig} {localPeer : Ref}
    {heap : Ref → Peer} {events : List MembershipEvent}
    (hno : Along step EntersNoOther (.init config localPeer heap) events) :
    Along step MarksProbed (.init config localPeer heap) events := by
  rintro es₁ e es₂ s rfl hs t now picks target drop r rfl ht hr -
  have hboth : s.manager.Keyed ∧ s.StoredTargets := by
    refine run_induction (motive := fun _ s => MembershipManager.Keyed s.manager ∧ StoredTargets s)
      ⟨?_, ?_⟩ (fun _ s e s' _ hs hcond hstep => ⟨keyed_step hstep hs.1, hs.2.step hs.1 hcond hstep⟩)
      hno.of_append hs
    · intro id r hr
      cases hr
    · intro pc hmem
      cases hmem
  rw [hboth.2 _ (List.mem_of_getElem? ht) target rfl r hr]

end Sched

/-- In a run in which every entry that is marked for a probe has the incarnation of the probed object,
a suspicion that a probe puts on the queue has the incarnation that is stored for its peer. -/
theorem suspicion_spreads_stored {config : MembershipConfig} {localPeer : Ref} {heap : Ref → Peer}
    {events : List MembershipEvent} {s s' : Sched} {t : Nat} {now : ℚ} {picks : List Ref}
    {out : MessageHeader} {drop : Option Int}
    (hmarks : Along Sched.step Sched.MarksProbed (.init config localPeer heap) events)
    (hno : Along Sched.step Sched.NotRefuted (.init config localPeer heap) events)
    (hrun : run Sched.step (.init config localPeer heap) events = some s)
    (ht : s.tasks[t]? = some (.suspectQueue out drop))
    (hstep : s.step (.resume t now picks) = some s') :
    s'.manager.updatesQueue = s.manager.updatesQueue ++ [out] ∧ out.type = .SUSPECT ∧
      ∃ id, out.targetId = some id ∧ s.manager.StoredIncarnation id out.incarnation ∧
        s'.manager.StoredIncarnation id out.incarnation := by
  have hspreads : s.SpreadsStored := by
    refine run_induction (motive := fun _ s => Sched.SpreadsStored s) ?_
      (fun _ _ _ _ _ hs hcond hstep => hs.step hcond.1 hcond.2 hstep) (hmarks.and hno) hrun
    intro out drop hmem
    cases hmem
  obtain ⟨htype, id, hid, hstored⟩ := hspreads out drop (List.mem_of_getElem? ht)
  obtain ⟨pc, pc', m, ht', -, hadv, rfl⟩ := Sched.step_resume_iff.1 hstep
  obtain rfl := Option.some.inj (ht.symm.trans ht')
  have hentries := Pc.sameEntries_advance hadv (by simp [Pc.waits])
  refine ⟨?_, htype, id, hid, hstored, hstored.congr hentries.1 fun r _ => by rw [hentries.2]⟩
  cases drop <;> (obtain ⟨-, rfl⟩ := Prod.mk.inj (Option.some.inj hadv); rfl)

section Example

/-- `b` is added, probed and suspected, and the suspicion is to be queued. -/
def suspectedB : List MembershipEvent :=
  [.addPeer 1, .resume 0 0 [], .start, .resume 1 0 [1], .resume 1 0 [], .resume 1 0 [],
    .resume 1 0 [], .resume 1 0 [], .resume 1 0 []]

theorem suspicion_spreads_stored_once : ∃ s s' : Sched, ∃ out,
    run Sched.step (.init {} 0 namedB) suspectedB = some s ∧
    s.step (.resume 1 0 []) = some s' ∧ s'.manager.updatesQueue = s.manager.updatesQueue ++ [out] ∧
    ∃ id, out.targetId = some id ∧ s'.manager.StoredIncarnation id out.incarnation := by
  have calm : ∀ {s : Sched} {t now picks} (pc), s.tasks[t]? = some pc → (∀ r, pc ≠ .addPeer r) →
      s.EntersNoOther (.resume t now picks) := by
    rintro s t now picks pc ht hpc _ _ _ r ⟨rfl, rfl, rfl⟩ ht'
    exact absurd (Option.some.inj (ht.symm.trans ht')) (hpc r)
  have hno : Along Sched.step Sched.EntersNoOther (.init {} 0 namedB) suspectedB := by
    refine Along.cons_iff.2 ⟨by rintro _ _ _ _ ⟨⟩, ?_⟩
    rintro _ ⟨⟩
    refine Along.cons_iff.2 ⟨?_, ?_⟩
    · rintro _ _ _ r ⟨rfl, rfl, rfl⟩ - - pc hmem target htarget
      obtain rfl := List.mem_singleton.1 hmem
      cases htarget
    rintro _ ⟨⟩
    refine Along.cons_iff.2 ⟨by rintro _ _ _ _ ⟨⟩, ?_⟩
    rintro _ ⟨⟩
    refine Along.cons_iff.2 ⟨calm .probePick rfl (by simp), ?_⟩
    rintro _ ⟨⟩
    refine Along.cons_iff.2 ⟨calm (.probeRegister _ _) rfl (by simp), ?_⟩
    rintro _ ⟨⟩
    refine Along.cons_iff.2 ⟨calm (.probeWait _ _) rfl (by simp), ?_⟩
    rintro _ ⟨⟩
    refine Along.cons_iff.2 ⟨calm (.probeCheck _ _) rfl (by simp), ?_⟩
    rintro _ ⟨⟩
    refine Along.cons_iff.2 ⟨calm (.indirectSelect _ _) rfl (by simp), ?_⟩
    rintro _ ⟨⟩
    exact Along.cons_iff.2 ⟨calm (.suspectPeer _ _) rfl (by simp), fun _ _ => Along.nil⟩
  have hrefuted : Along Sched.step Sched.NotRefuted (.init {} 0 namedB) suspectedB := by
    rintro es₁ e es₂ s heq - msg out drop id rfl
    have hmem : .receive msg ∈ suspectedB := heq ▸ by simp
    simp [suspectedB] at hmem
  obtain ⟨s, s', out, drop, hs, ht, hstep⟩ : ∃ s s' : Sched, ∃ out drop,
      run Sched.step (.init {} 0 namedB) suspectedB = some s ∧
      s.tasks[1]? = some (.suspectQueue out drop) ∧ s.step (.resume 1 0 []) = some s' :=
    ⟨_, _, _, _, rfl, rfl, rfl⟩
  obtain ⟨hqueue, -, id, hid, -, hstored⟩ :=
    suspicion_spreads_stored (Sched.marksProbed_of_entersNoOther hno) hrefuted hs ht hstep
  exact ⟨s, s', out, hs, hstep, hqueue, id, hid, hstored⟩

/-- The local peer `a` and objects for `b`, the second with a higher incarnation. -/
def twoBs : Ref → Peer
  | 0 => { id := "a" }
  | 1 => { id := "b" }
  | _ => { id := "b", incarnation := 5 }

/-- While the first object for `b` is being probed, the second replaces it. -/
def replacedB : List MembershipEvent :=
  [.addPeer 1, .resume 0 0 [], .start, .resume 1 0 [1], .resume 1 0 [], .addPeer 2, .resume 2 0 [],
    .resume 1 0 [], .resume 1 0 [], .resume 1 0 [], .resume 1 0 []]

/-- The suspicion of `b` that is queued has incarnation 0, where 5 is stored. -/
theorem replaced_suspicion_is_stale : ∃ s s' : Sched, ∃ out,
    run Sched.step (.init {} 0 twoBs) replacedB = some s ∧
    s.tasks[1]? = some (.suspectQueue out none) ∧ s.step (.resume 1 0 []) = some s' ∧
    s'.manager.updatesQueue = [out] ∧ out.type = .SUSPECT ∧ out.targetId = some "b" ∧
    out.incarnation = 0 ∧ s'.manager.StoredIncarnation "b" 5 ∧
    ¬ s'.manager.StoredIncarnation "b" out.incarnation := by
  refine ⟨_, _, _, rfl, rfl, rfl, rfl, rfl, rfl, rfl, ⟨2, rfl, rfl⟩, ?_⟩
  rintro ⟨r, hr, hinc⟩
  obtain rfl := Option.some.inj hr
  cases hinc

end Example

end GossipRl
