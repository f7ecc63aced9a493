import GossipRl.Gossip.ClusterInvariants
import GossipRl.Gossip.SuspectedProbes

/-!
# Whose answer a probe gets

`_handle_ack` looks at the number of an `ACK` and at nothing else, and each manager numbers its probes
from 1. If `PING` and `ACK` are delivered where they are addressed (`Cluster.Addressed`), the numbers
are enough: a manager sends one `PING` for each number (`Cluster.ping_unique`), the peer that it is
addressed to answers it (`Answers`), and the answer is taken for that of the same probe.
-/

namespace GossipRl
open Support

namespace Pc
open MembershipManager
variable {pc pc' : Pc} {now : ℚ} {picks : List Ref} {m m' : MembershipManager}

theorem targetId_advance {target : Ref} {probe : ProbeState}
    (h : pc.advance now picks m = some (.probeRegister target probe, m')) :
    probe.targetId = (m.heap target).id := by
  cases pc with
  | probePick =>
    simp only [advance] at h
    repeat' split at h
    case h_2.isTrue =>
      obtain ⟨hpc, -⟩ := Prod.mk.inj (Option.some.inj h)
      obtain ⟨rfl, rfl⟩ := Pc.probeRegister.inj hpc
      rfl
    all_goals cases h
  | _ =>
    simp only [advance] at h
    repeat' split at h
    all_goals cases h

end Pc

namespace Sched
open MembershipManager
variable {n n' : Sched} {e : MembershipEvent} {out : MessageHeader}

/-- The queue has rumours only, and the tasks are at places for their messages. -/
structure RumoursQueued (n : Sched) : Prop where
  named : ∀ pc ∈ n.tasks, pc.Named
  queue : ∀ out ∈ n.manager.updatesQueue, out.IsRumour

theorem RumoursQueued.step (hn : n.RumoursQueued) (h : n.step e = some n') : n'.RumoursQueued where
  named := named_step h hn.named
  queue out hout := by
    have hflow : out ∈ n.manager.updatesQueue ++ (n.queues e).toList := by
      rw [(flows_step h).queue]
      exact List.mem_append_right _ hout
    rcases List.mem_append.1 hflow with hold | hnew
    · exact hn.queue out hold
    · cases e with
      | resume t now picks =>
        obtain ⟨pc, ht, hpc⟩ := Option.bind_eq_some_iff.1 (Option.mem_toList.1 hnew)
        have hnamed := hn.named pc (List.mem_of_getElem? ht)
        cases pc with
        | broadcast out' =>
          obtain rfl := Option.some.inj hpc
          exact .inl hnamed
        | suspectQueue out' drop =>
          obtain rfl := Option.some.inj hpc
          exact .inr (.inl hnamed)
        | _ => cases hpc
      | _ => cases hnew

/-- The kinds of messages that a step sends. -/
inductive Sends (n : Sched) (e : MembershipEvent) (out : MessageHeader) : Prop
  | ack (t : Nat) (now : ℚ) (picks : List Ref) (msg : MessageHeader) (event : e = .resume t now picks)
      (task : n.tasks[t]? = some (.ping msg))
      (built : out = .createAck n.self.id msg.sequence msg.senderId)
  | ping (t : Nat) (now : ℚ) (picks : List Ref) (target : Ref) (probe : ProbeState)
      (event : e = .resume t now picks) (task : n.tasks[t]? = some (.probeRegister target probe))
      (built : out = .createPing n.self.id probe.sequence (n.manager.heap target).id)
  | other (notPing : out.type ≠ .PING) (notAck : out.type ≠ .ACK)

theorem sends_of_mem (hn : n.RumoursQueued) (h : out ∈ n.sends e) : n.Sends e out := by
  cases e with
  | resume t now picks =>
    cases ht : n.tasks[t]? with
    | none => simp [sends, ht] at h
    | some pc =>
      simp only [sends, ht] at h
      cases pc with
      | ping msg =>
        refine .ack t now picks msg rfl ht ?_
        rw [List.mem_singleton.1 h]
        have hadv : (Pc.ping msg).advance now [] n.manager =
            some (.done, n.manager.handlePing now msg) := rfl
        rw [ackFor, (Pc.sameSetup_advance hadv).localPeer,
          (Pc.updates_id_advance hadv rfl).heap n.manager.localPeer]
        rfl
      | probeRegister target probe => exact .ping t now picks target probe rfl ht (List.mem_singleton.1 h)
      | indirectRegister target sequence probes =>
        obtain ⟨r, -, rfl⟩ := List.mem_map.1 h
        exact .other (by simp) (by simp)
      | getUpdates k =>
        have hrumour := hn.queue out (List.mem_of_mem_take h)
        refine .other (fun htype => ?_) fun htype => ?_
        · rcases hrumour with h | h | h <;> cases htype.symm.trans h
        · rcases hrumour with h | h | h <;> cases htype.symm.trans h
      | _ => cases h
  | _ => cases h

/-- What a manager whose peer has the id `id` knows of probes, once the messages `sent` have been
sent. -/
structure Aimed (id : String) (sent : Set MessageHeader) (n : Sched) : Prop where
  register : ∀ target probe, .probeRegister target probe ∈ n.tasks →
    probe.targetId = (n.manager.heap target).id
  pending : ∀ q probe, n.manager.pendingProbes.get? q = some probe →
    .createPing id q probe.targetId ∈ sent
  arrived : ∀ pc ∈ n.tasks, ∀ msg, pc.incoming = some msg →
    msg ∈ sent ∧ (msg.type = .PING ∨ msg.type = .ACK → msg.targetId = some id)
  answers : ∀ msg targetId l, .ackPeer msg targetId l ∈ n.tasks →
    .createPing id msg.sequence targetId ∈ sent

theorem Aimed.mono {id : String} {sent sent' : Set MessageHeader} (hn : n.Aimed id sent)
    (h : sent ⊆ sent') : n.Aimed id sent' where
  register := hn.register
  pending q probe hq := h (hn.pending q probe hq)
  arrived pc hpc msg hmsg := (hn.arrived pc hpc msg hmsg).imp_left fun hmem => h hmem
  answers msg targetId l hmem := h (hn.answers msg targetId l hmem)

theorem Aimed.resume {id : String} {sent : Set MessageHeader} {t : Nat} {now : ℚ} {picks : List Ref}
    (hn : n.Aimed id sent) (hok : n.ProbesOk) (hid : n.self.id = id)
    (hsends : ∀ out ∈ n.sends (.resume t now picks), out ∈ sent)
    (h : n.step (.resume t now picks) = some n') : n'.Aimed id sent := by
  have hheap := id_heap_step h
  obtain ⟨pc, pc', m, ht, -, hadv, hstr, rfl⟩ := stretch_of_step hok.past h
  have hmem := List.mem_of_getElem? ht
  refine ⟨fun target probe hprobe => ?_, fun q probe hq => ?_, ?_, fun msg targetId l hack => ?_⟩
  · rw [hheap target]
    rcases List.mem_or_eq_of_mem_set hprobe with hprobe | rfl
    · exact hn.register target probe hprobe
    · exact Pc.targetId_advance hadv
  · rcases hstr.pending_cases with ⟨hp, -, -⟩ | ⟨target, probe', rfl, -, hp⟩ |
      ⟨msg, probe', l, rfl, -, hprobe, hp⟩ | ⟨msg, id', l, rfl, -, hp⟩
    · exact hn.pending q probe (hp ▸ hq)
    · rw [hp, Dict.get?_set] at hq
      split at hq
      · rename_i heq
        obtain rfl := Option.some.inj hq
        have hnew : .createPing n.self.id probe'.sequence (n.manager.heap target).id ∈ sent := by
          refine hsends _ ?_
          simp only [sends, ht, Pc.sends]
          exact List.mem_singleton_self _
        rwa [hid, ← hn.register target probe' hmem, ← heq] at hnew
      · exact hn.pending q probe hq
    · rw [hp, Dict.get?_set] at hq
      split at hq
      · rename_i heq
        obtain rfl := Option.some.inj hq
        rw [heq]
        exact hn.pending msg.sequence probe' hprobe
      · exact hn.pending q probe hq
    · rw [hp] at hq
      exact hn.pending q probe (Dict.get?_erase_eq_some_iff.1 hq).2
  · exact forall_mem_set hn.arrived fun msg hmsg =>
      hn.arrived pc hmem msg (Pc.incoming_advance hadv hmsg)
  · rcases List.mem_or_eq_of_mem_set hack with hack | rfl
    · exact hn.answers msg targetId l hack
    · cases hstr with
      | acked msg probe l hprobe => exact hn.pending msg.sequence probe hprobe
      | other _ _ _ hpc' => cases hpc'

theorem Aimed.step {id : String} {sent : Set MessageHeader} (hn : n.Aimed id sent) (hok : n.ProbesOk)
    (hid : n.self.id = id) (hsends : ∀ out ∈ n.sends e, out ∈ sent)
    (hmsg : ∀ msg, e = .receive msg →
      msg ∈ sent ∧ (msg.type = .PING ∨ msg.type = .ACK → msg.targetId = some id))
    (h : n.step e = some n') : n'.Aimed id sent := by
  by_cases he : ∃ t now picks, e = .resume t now picks
  · obtain ⟨t, now, picks, rfl⟩ := he
    exact hn.resume hok hid hsends h
  have hne : ∀ t now picks, e ≠ .resume t now picks := fun t now picks heq => he ⟨t, now, picks, heq⟩
  obtain ⟨pc, hpc, htasks, hp⟩ := step_spawns h hne
  have old : ∀ pc' ∈ n'.tasks, pc'.quiet = false → pc' ∈ n.tasks := by
    intro pc' hmem hquiet
    rw [htasks] at hmem
    rcases List.mem_append.1 hmem with hmem | hmem
    · exact hmem
    · obtain rfl := List.mem_singleton.1 hmem
      cases hpc.symm.trans hquiet
  refine ⟨fun target probe hprobe => ?_, fun q probe hq => ?_, fun pc' hmem msg hin => ?_,
    fun msg targetId l hack => ?_⟩
  · rw [id_heap_step h target]
    exact hn.register target probe (old _ hprobe rfl)
  · exact hn.pending q probe (hp ▸ hq)
  · rcases mem_tasks_step h hmem with hmem | ⟨t, now, picks, _, _, rfl, -⟩ | ⟨msg', rfl, heq⟩ |
      ⟨r, rfl, heq⟩ | ⟨id', rfl, heq⟩ | heq | ⟨k, heq⟩ | heq | ⟨τ, timer, rfl, -, -, heq⟩
    · exact hn.arrived pc' hmem msg hin
    · exact absurd rfl (hne t now picks)
    · rw [heq] at hin
      obtain rfl := Pc.incoming_ofMessage hin
      exact hmsg msg' rfl
    all_goals
      rw [heq] at hin
      cases hin
  · exact hn.answers msg targetId l (old _ hack rfl)

end Sched

/-- An `ACK` answers a `PING` that has been sent, and a `PING` has no fields but those that it is built
with. -/
structure MessageHeader.Answers (sent : Set MessageHeader) (out : MessageHeader) : Prop where
  ack : out.type = .ACK → ∃ asker, out.targetId = some asker ∧
    .createPing asker out.sequence out.senderId ∈ sent
  ping : out.type = .PING → ∃ target, out = .createPing out.senderId out.sequence target

namespace Cluster
variable {ι : Type*} [DecidableEq ι] {config : ι → MembershipConfig} {localPeer : ι → Ref}
  {heap : ι → Ref → Peer} {events : List (ι × MembershipEvent)} {s : Cluster ι} {i : ι}

/-- A `PING` or an `ACK` that is received in the step has the right address. -/
def Addressed (s : Cluster ι) (p : ι × MembershipEvent) : Prop :=
  match p.2 with
  | .receive msg => msg.type = .PING ∨ msg.type = .ACK → msg.targetId = some (s.state p.1).self.id
  | _ => True

instance (s : Cluster ι) (p : ι × MembershipEvent) : Decidable (Addressed s p) := by
  unfold Addressed; split <;> infer_instance

/-- What holds at each manager. -/
structure Probing (id : String) (sent : Set MessageHeader) (n : Sched) : Prop where
  self : n.self.id = id
  rumours : n.RumoursQueued
  ok : n.ProbesOk
  aimed : n.Aimed id sent

theorem probing_run
    (haddressed : Along (Parties.step Sched.member) Addressed (start config localPeer heap) events)
    (hrun : run (Parties.step Sched.member) (start config localPeer heap) events = some s) :
    Parties.Holds (fun sent i n => Probing (heap i (localPeer i)).id sent n)
      (fun sent out => out.Answers sent) {out | out ∈ s.sent} s := by
  refine Parties.Holds.run (fun _ s => {out | out ∈ s.sent}) ⟨?_, ?_⟩ ?_ ⟨?_, ?_⟩ haddressed hrun
  · exact fun hle hn => ⟨hn.self, hn.rumours, hn.ok, hn.aimed.mono hle⟩
  · rintro c c' out hle ⟨hack, hping⟩
    refine ⟨fun htype => ?_, hping⟩
    obtain ⟨asker, htarget, hmem⟩ := hack htype
    exact ⟨asker, htarget, hle hmem⟩
  · rintro es s i e s' - - hs haddr hstep
    obtain ⟨hself, hrumours, hok, haimed⟩ := hs.states i
    have hle : {out | out ∈ s.sent} ⊆ {out | out ∈ s'.sent} := (Parties.sent_step hstep).subset
    obtain ⟨hadmits, n, hn, rfl⟩ := Parties.step_iff.1 hstep
    have hnew : ∀ out ∈ (s.state i).sends e, out ∈ s.sent ++ (s.state i).sends e :=
      fun out hout => List.mem_append_right _ hout
    refine ⟨hle, ?_, fun out hout => ?_⟩
    · show Probing _ _ (Function.update s.state i n i)
      rw [Function.update_self]
      refine ⟨(Sched.id_self_step hn).trans hself, hrumours.step hn, hok.step hn, ?_⟩
      refine (haimed.mono hle).step hok hself hnew ?_ hn
      rintro msg rfl
      exact ⟨hle (Sched.mem_sent_of_admits hadmits), fun htype => (haddr htype).trans (by rw [hself])⟩
    · cases Sched.sends_of_mem hrumours hout with
      | ack t now picks msg he ht hbuilt =>
        subst hbuilt
        have hmem := List.mem_of_getElem? ht
        have htype : msg.type = .PING := hrumours.named _ hmem
        obtain ⟨hsent, haddr⟩ := haimed.arrived _ hmem msg rfl
        obtain ⟨target, hping⟩ := (hs.sent msg hsent).ping htype
        -- the `PING` is addressed to this manager
        have htarget : target = (s.state i).self.id := by
          have hid := haddr (.inl htype)
          rw [hping, ← hself] at hid
          exact Option.some.inj hid
        refine ⟨fun _ => ⟨msg.senderId, rfl, ?_⟩, fun h => by cases h⟩
        show MessageHeader.createPing msg.senderId msg.sequence (s.state i).self.id ∈ _
        rw [← htarget, ← hping]
        exact hle hsent
      | ping t now picks target probe he ht hbuilt =>
        subst hbuilt
        refine ⟨fun hack => ?_, fun _ => ⟨_, rfl⟩⟩
        cases hack
      | other hping hack => exact ⟨fun htype => absurd htype hack, fun htype => absurd htype hping⟩
  · intro i
    refine ⟨rfl, ⟨?_, ?_⟩, Sched.probesOk_init .., ?_, ?_, ?_, ?_⟩
    · exact fun _ h => by cases h
    · exact fun _ h => by cases h
    · exact fun _ _ h => by cases h
    · exact fun _ _ h => by cases h
    · exact fun _ h => by cases h
    · exact fun _ _ _ h => by cases h
  · exact fun _ h => by cases h

theorem ping_unique (hids : Function.Injective fun i => (heap i (localPeer i)).id)
    (haddressed : Along (Parties.step Sched.member) Addressed (start config localPeer heap) events)
    (hrun : run (Parties.step Sched.member) (start config localPeer heap) events = some s)
    {q : Int} {a b : String} (ha : .createPing (heap i (localPeer i)).id q a ∈ s.sent)
    (hb : .createPing (heap i (localPeer i)).id q b ∈ s.sent) : a = b := by
  have hall : Along (Parties.step Sched.member) Addressed (start config localPeer heap) events ∧
      ∀ i q a, .createPing (heap i (localPeer i)).id q a ∈ s.sent → (s.state i).Used q ∧
        ∀ b, .createPing (heap i (localPeer i)).id q b ∈ s.sent → a = b := by
    refine run_induction (motive := fun es (s : Cluster ι) =>
      Along (Parties.step Sched.member) Addressed (start config localPeer heap) es ∧
      ∀ i q a, .createPing (heap i (localPeer i)).id q a ∈ s.sent → (s.state i).Used q ∧
        ∀ b, .createPing (heap i (localPeer i)).id q b ∈ s.sent → a = b) ⟨.nil, ?_⟩ ?_ haddressed hrun
    · intro i q a h
      cases h
    · rintro es s ⟨j, e⟩ s' hes ⟨halong, ih⟩ haddr hstep
      refine ⟨Along.concat_iff.2 ⟨halong, fun s₁ hs₁ => ?_⟩, ?_⟩
      · obtain rfl := Option.some.inj (hes.symm.trans hs₁)
        exact haddr
      obtain ⟨hself, hrumours, hok, -⟩ := (probing_run halong hes).states j
      obtain ⟨-, n, hn, rfl⟩ := Parties.step_iff.1 hstep
      -- a new `PING` is the one that a task of manager `j` registers in this step
      have fresh : ∀ {i q a}, .createPing (heap i (localPeer i)).id q a ∈ (s.state j).sends e →
          i = j ∧ ∃ t now picks target probe, e = .resume t now picks ∧
            (s.state j).tasks[t]? = some (.probeRegister target probe) ∧ q = probe.sequence ∧
            a = ((s.state j).manager.heap target).id := by
        intro i q a h
        cases Sched.sends_of_mem hrumours h with
        | ack _ _ _ _ _ _ hbuilt => cases congrArg MessageHeader.type hbuilt
        | ping t now picks target probe he ht hbuilt =>
          have hid := (congrArg MessageHeader.senderId hbuilt).trans hself
          exact ⟨hids hid, t, now, picks, target, probe, he, ht,
            congrArg MessageHeader.sequence hbuilt,
            Option.some.inj (congrArg MessageHeader.targetId hbuilt)⟩
        | other hping => exact absurd rfl hping
      have clash : ∀ {i q a b}, .createPing (heap i (localPeer i)).id q a ∈ s.sent →
          .createPing (heap i (localPeer i)).id q b ∉ (s.state j).sends e := by
        intro i q a b hold hnew
        obtain ⟨rfl, t, now, picks, target, probe, -, ht, rfl, -⟩ := fresh hnew
        exact (ih i probe.sequence a hold).1.none_left target probe (List.mem_of_getElem? ht) rfl
      intro i q a ha
      show (Function.update s.state j n i).Used q ∧
        ∀ b, .createPing (heap i (localPeer i)).id q b ∈ s.sent ++ (s.state j).sends e → a = b
      rcases List.mem_append.1 ha with ha | ha
      · obtain ⟨hused, huniq⟩ := ih i q a ha
        constructor
        · by_cases hij : i = j
          · subst hij
            rw [Function.update_self]
            exact hused.step hok hn
          · rwa [Function.update_of_ne hij]
        · intro b hb
          rcases List.mem_append.1 hb with hb | hb
          · exact huniq b hb
          · exact absurd hb (clash ha)
      · obtain ⟨rfl, t, now, picks, target, probe, rfl, ht, rfl, rfl⟩ := fresh ha
        rw [Function.update_self]
        refine ⟨(Sched.probeRun_of_registers hok ht hn).used, fun b hb => ?_⟩
        rcases List.mem_append.1 hb with hb | hb
        · exact absurd ha (clash hb)
        · obtain ⟨-, t', now', picks', target', probe', he, ht', -, rfl⟩ := fresh hb
          obtain ⟨rfl, -, -⟩ := MembershipEvent.resume.inj he
          obtain ⟨rfl, -⟩ := Pc.probeRegister.inj (Option.some.inj (ht.symm.trans ht'))
          rfl
  exact (hall.2 i q a ha).2 b hb

end Cluster

open Cluster

/-- Where `PING` and `ACK` are delivered to the peers that they are addressed to, every `ACK` that a
probe accepts is the answer of the probed peer to the `PING` of this probe. -/
theorem probes_answered_by_target {ι : Type*} [DecidableEq ι] {config : ι → MembershipConfig}
    {localPeer : ι → Ref} {heap : ι → Ref → Peer} {events : List (ι × MembershipEvent)}
    {s : Cluster ι} {i : ι} {msg : MessageHeader} {targetId : String} {latencyMs : ℚ}
    (hids : Function.Injective fun i => (heap i (localPeer i)).id)
    (haddressed : Along (Parties.step Sched.member) Addressed (Cluster.start config localPeer heap)
      events)
    (hrun : run (Parties.step Sched.member) (Cluster.start config localPeer heap) events = some s)
    (htask : .ackPeer msg targetId latencyMs ∈ (s.state i).tasks) :
    msg.senderId = targetId ∧ msg ∈ s.sent ∧
      .createPing (heap i (localPeer i)).id msg.sequence targetId ∈ s.sent := by
  have hall := probing_run haddressed hrun
  obtain ⟨-, hrumours, -, haimed⟩ := hall.states i
  obtain ⟨hsent, haddr⟩ := haimed.arrived _ htask msg rfl
  have htype : msg.type = .ACK := hrumours.named _ htask
  have hping := haimed.answers msg targetId latencyMs htask
  obtain ⟨asker, htarget, hasked⟩ := (hall.sent msg hsent).ack htype
  obtain rfl := Option.some.inj (htarget.symm.trans (haddr (.inr htype)))
  exact ⟨ping_unique hids haddressed hrun hasked hping, hsent, hping⟩

section Example

theorem probes_answered_by_target_pair : ∃ s,
    run (Parties.step Sched.member) (Cluster.start (fun _ => {}) (fun _ => 0) pairHeap)
      (answeredProbe.take 9) = some s ∧
    (∃ l, .ackPeer (.createAck "b" 1 "a") "b" l ∈ (s.state true).tasks) ∧
    (MessageHeader.createAck "b" 1 "a").senderId = "b" := by
  have hids : Function.Injective fun i : Bool => (pairHeap i 0).id := by
    intro i j h
    cases i <;> cases j <;> first | rfl | (revert h; decide)
  have haddressed : Along (Parties.step Sched.member) Addressed
      (Cluster.start (fun _ => {}) (fun _ => 0) pairHeap) (answeredProbe.take 9) := by decide
  obtain ⟨s, hs, l, htask⟩ : ∃ s,
      run (Parties.step Sched.member) (Cluster.start (fun _ => {}) (fun _ => 0) pairHeap)
        (answeredProbe.take 9) = some s ∧
      ∃ l, .ackPeer (.createAck "b" 1 "a") "b" l ∈ (s.state true).tasks :=
    ⟨_, rfl, _, List.mem_of_getElem? (i := 2) rfl⟩
  exact ⟨s, hs, ⟨l, htask⟩, (probes_answered_by_target hids haddressed hs htask).1⟩

end Example

end GossipRl
