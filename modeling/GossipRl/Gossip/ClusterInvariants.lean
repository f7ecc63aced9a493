import GossipRl.Gossip.Cluster

/-!
# What holds of every peer object and every message

`Sched.Everywhere A M`: `A` holds of all peer objects of a manager, and `M` of the messages that it
handles, is about to queue or has queued. Handling a message changes objects by `Pc.effect`, so
`Closed A M` does not look at the steps of a manager at all; what a manager says of its own accord,
refutations and suspicions, is left to `Sched.Makes`. `Cluster.everywhere_run` carries both through
all managers and all messages that are sent.
-/

namespace GossipRl
open Support

/-- Messages that satisfy `M` leave objects that satisfy `A` such, and those that are no rumours
satisfy `M`. -/
structure Closed (A : Peer → Prop) (M : MessageHeader → Prop) : Prop where
  plain : ∀ out : MessageHeader, out.incarnation = 0 → ¬ out.IsRumour → M out
  effect : ∀ (pc : Pc) now m p, pc.Named → (∀ msg, pc.incoming = some msg → M msg) →
    (∀ target drop, pc ≠ .suspectPeer target drop) → A p → A (pc.effect now m p.id p)

namespace Pc
open MembershipManager
variable {pc pc' : Pc} {now : ℚ} {picks : List Ref} {m m' : MembershipManager}

@[simp] theorem id_effect (now : ℚ) (m : MembershipManager) (id : String) (pc : Pc) (p : Peer) :
    (pc.effect now m id p).id = p.id := by
  cases pc <;> simp only [effect]
  all_goals repeat' split
  all_goals simp [Peer.updateLatency]

theorem heap_advance_effect (h : pc.advance now picks m = some (pc', m')) (hm : m.Keyed) (r : Ref) :
    m'.heap r = m.heap r ∨ m'.heap r = pc.effect now m (m.heap r).id (m.heap r) := by
  cases hpc : pc.changesPeers with
  | true => exact .inl (congrFun (heap_advance h hpc) r)
  | false =>
    by_cases hr : ∃ id, m.peers.get? id = some r
    · obtain ⟨id, hid⟩ := hr
      have hid' : m'.peers.get? id = some r := by
        rw [(updates_id_advance h hpc).peers]
        exact hid
      have hp : m'.storedPeer id = (m.storedPeer id).map (pc.effect now m id) :=
        storedPeer_advance h hm hpc
      rw [storedPeer_of_get? hid', storedPeer_of_get? hid, Option.map_some] at hp
      rw [hm id r hid]
      exact .inr (Option.some.inj hp)
    · exact .inl (heap_advance_of_unstored h fun id hid => hr ⟨id, hid⟩)

end Pc

namespace Sched
open MembershipManager
variable {A A' : Peer → Prop} {M M' : MessageHeader → Prop} {s s' : Sched} {e : MembershipEvent}

structure Everywhere (A : Peer → Prop) (M : MessageHeader → Prop) (s : Sched) : Prop where
  keyed : s.manager.Keyed
  named : ∀ pc ∈ s.tasks, pc.Named
  objects : ∀ r, A (s.manager.heap r)
  incoming : ∀ pc ∈ s.tasks, ∀ msg, pc.incoming = some msg → M msg
  outgoing : ∀ pc ∈ s.tasks, ∀ out, pc.outgoing = some out → M out
  queue : ∀ out ∈ s.manager.updatesQueue, M out

theorem everywhere_init {config : MembershipConfig} {localPeer : Ref} {heap : Ref → Peer}
    (h : ∀ r, A (heap r)) : (init config localPeer heap).Everywhere A M where
  keyed _ _ h := by cases h
  named _ hpc := by cases hpc
  objects := h
  incoming _ hpc := by cases hpc
  outgoing _ hpc := by cases hpc
  queue _ hout := by cases hout

theorem Everywhere.mono (hs : s.Everywhere A M) (hA : ∀ p, A p → A' p) (hM : ∀ msg, M msg → M' msg) :
    s.Everywhere A' M' where
  keyed := hs.keyed
  named := hs.named
  objects r := hA _ (hs.objects r)
  incoming pc hpc msg hmsg := hM msg (hs.incoming pc hpc msg hmsg)
  outgoing pc hpc out hout := hM out (hs.outgoing pc hpc out hout)
  queue out hout := hM out (hs.queue out hout)

/-- What the manager says of its own accord in the step, and what it does to the objects then. -/
structure Makes (A : Peer → Prop) (M : MessageHeader → Prop) (s : Sched) (e : MembershipEvent) :
    Prop where
  refute : ∀ out, s.refutes e = some out → A { s.self with incarnation := out.incarnation } ∧ M out
  suspect : ∀ t now picks target drop, e = .resume t now picks →
    s.tasks[t]? = some (.suspectPeer target drop) →
    (∀ p, p.id = (s.manager.heap target).id → A p → A (p.markSuspect none).2) ∧
      ∀ out, (s.manager.suspectPeer target).1 = some out → M out

theorem Everywhere.spawn {pc : Pc} (hs : s.Everywhere A M) (hpc : pc.Named)
    (hin : ∀ msg, pc.incoming = some msg → M msg) (hout : ∀ out, pc.outgoing = some out → M out) :
    (s.spawn pc).Everywhere A M := by
  have spawned : ∀ {Q : Pc → Prop}, (∀ pc ∈ s.tasks, Q pc) → Q pc → ∀ pc' ∈ s.tasks ++ [pc], Q pc' := by
    intro Q hall hnew pc' hmem
    rcases List.mem_append.1 hmem with hmem | hmem
    · exact hall pc' hmem
    · exact List.mem_singleton.1 hmem ▸ hnew
  exact ⟨hs.keyed, spawned hs.named hpc, hs.objects, spawned hs.incoming hin,
    spawned hs.outgoing hout, hs.queue⟩

theorem Everywhere.resume {t : Nat} {now : ℚ} {picks : List Ref} (hclosed : Closed A M)
    (hs : s.Everywhere A M) (hmakes : s.Makes A M (.resume t now picks))
    (h : s.step (.resume t now picks) = some s') : s'.Everywhere A M := by
  have hkeyed := keyed_step h hs.keyed
  have hnamed := named_step h hs.named
  obtain ⟨pc, pc', m, ht, -, hadv, rfl⟩ := step_resume_iff.1 h
  have hmem := List.mem_of_getElem? ht
  refine ⟨hkeyed, hnamed, fun r => ?_, ?_, ?_, fun out hout => ?_⟩
  · rcases Pc.heap_advance_effect hadv hs.keyed r with heq | heq
    · exact heq ▸ hs.objects r
    · show A (m.heap r)
      rw [heq]
      by_cases hsuspect : ∃ target drop, pc = .suspectPeer target drop
      · obtain ⟨target, drop, rfl⟩ := hsuspect
        simp only [Pc.effect]
        split
        · rename_i hid
          exact (hmakes.suspect t now picks target drop rfl ht).1 _ hid.symm (hs.objects r)
        · exact hs.objects r
      · exact hclosed.effect pc now s.manager _ (hs.named pc hmem) (hs.incoming pc hmem)
          (fun target drop heq => hsuspect ⟨target, drop, heq⟩) (hs.objects r)
  · exact forall_mem_set hs.incoming fun msg hmsg =>
      hs.incoming pc hmem msg (Pc.incoming_advance hadv hmsg)
  · refine forall_mem_set hs.outgoing fun out hout => ?_
    obtain ⟨target, drop, rfl, hsus⟩ := Pc.outgoing_advance hadv hout
    exact (hmakes.suspect t now picks target drop rfl ht).2 out (by rw [hsus])
  · rcases Pc.mem_updatesQueue_advance hadv hout with hout | hout
    · exact hs.queue out hout
    · exact hs.outgoing pc hmem out hout

theorem Everywhere.receive {msg : MessageHeader} (hs : s.Everywhere A M) (hmsg : M msg)
    (hmakes : s.Makes A M (.receive msg)) (h : s.step (.receive msg) = some s') :
    s'.Everywhere A M := by
  have hkeyed := keyed_step h hs.keyed
  have hnamed := named_step h hs.named
  rw [step_receive] at h
  obtain rfl := Option.some.inj h
  have hspawn := hs.spawn (Pc.named_ofMessage msg s.manager)
    (fun msg' hin => Pc.incoming_ofMessage hin ▸ hmsg) fun out hout => (hmakes.refute out hout).2
  refine ⟨hkeyed, hnamed, fun r => ?_, hspawn.incoming, hspawn.outgoing, ?_⟩
  · cases hout : (Pc.ofMessage msg s.manager).1.outgoing with
    | none =>
      rw [Pc.ofMessage_of_outgoing_none hout]
      exact hs.objects r
    | some out =>
      obtain ⟨-, -, hof, rfl⟩ := Pc.outgoing_ofMessage hout
      rw [hof]
      by_cases hr : r = s.manager.localPeer
      · subst hr
        show A (Function.update s.manager.heap s.manager.localPeer _ s.manager.localPeer)
        rw [Function.update_self]
        exact (hmakes.refute _ hout).1
      · show A (Function.update s.manager.heap s.manager.localPeer _ r)
        rw [Function.update_of_ne hr]
        exact hs.objects r
  · rw [(Pc.sameQueue_ofMessage msg s.manager).queue]
    exact hs.queue

theorem Everywhere.step (hclosed : Closed A M) (hs : s.Everywhere A M)
    (hmsg : ∀ msg, e = .receive msg → M msg) (hmakes : s.Makes A M e) (h : s.step e = some s') :
    s'.Everywhere A M := by
  cases e with
  | resume t now picks => exact hs.resume hclosed hmakes h
  | receive msg => exact hs.receive (hmsg msg rfl) hmakes h
  | fire τ =>
    obtain ⟨timer, -, -, rfl⟩ := step_fire_iff.1 h
    have hspawn : (s.spawn (.confirmStart timer.peerId τ)).Everywhere A M :=
      hs.spawn trivial (fun _ h => by cases h) fun _ h => by cases h
    exact ⟨hs.keyed, hspawn.named, hs.objects, hspawn.incoming, hspawn.outgoing, hs.queue⟩
  | addPeer | removePeer | readPeers | getUpdates | start =>
    obtain rfl := Option.some.inj h
    exact hs.spawn trivial (fun _ h => by cases h) fun _ h => by cases h

theorem Everywhere.sends (hclosed : Closed A M) (hs : s.Everywhere A M) : ∀ out ∈ s.sends e, M out := by
  intro out hout
  rcases sends_cases hout with ⟨hzero, hno⟩ | ⟨hqueue, -⟩
  · exact hclosed.plain out hzero hno
  · exact hs.queue out hqueue

end Sched

namespace Cluster
variable {ι κ : Type*} [DecidableEq ι] [Preorder κ]

/-- `A` holds of all peer objects and `M` of all messages, at the managers and between them. -/
abbrev Everywhere (A : κ → Peer → Prop) (M : κ → MessageHeader → Prop) : κ → Cluster ι → Prop :=
  Parties.Holds (fun c _ n => n.Everywhere (A c) (M c)) M

theorem everywhere_run {A : κ → Peer → Prop} {M : κ → MessageHeader → Prop}
    {C : Cluster ι → ι × MembershipEvent → Prop}
    (context : List (ι × MembershipEvent) → Cluster ι → κ) {config : ι → MembershipConfig}
    {localPeer : ι → Ref} {heap : ι → Ref → Peer} {events : List (ι × MembershipEvent)}
    {s : Cluster ι} (hA : ∀ {c c' p}, c ≤ c' → A c p → A c' p)
    (hM : ∀ {c c' msg}, c ≤ c' → M c msg → M c' msg)
    (closed : ∀ c, context [] (start config localPeer heap) ≤ c → Closed (A c) (M c))
    (keep : ∀ es s i e s',
      run (Parties.step Sched.member) (start config localPeer heap) es = some s →
      Everywhere A M (context es s) s → C s (i, e) →
      Parties.step Sched.member s (i, e) = some s' →
      context es s ≤ context (es ++ [(i, e)]) s' ∧ (s.state i).Makes
        (A (context (es ++ [(i, e)]) s')) (M (context (es ++ [(i, e)]) s')) e)
    (hobjects : ∀ i r, A (context [] (start config localPeer heap)) (heap i r))
    (hc : Along (Parties.step Sched.member) C (start config localPeer heap) events)
    (hrun : run (Parties.step Sched.member) (start config localPeer heap) events = some s) :
    Everywhere A M (context events s) s := by
  refine Parties.Holds.run context ⟨?_, hM⟩ ?_ ⟨?_, ?_⟩ hc hrun
  · exact fun hle hn => hn.mono (fun _ => hA hle) fun _ => hM hle
  · intro es s i e s' hes hle₀ hs hC hstep
    obtain ⟨hle, hmakes⟩ := keep es s i e s' hes hs hC hstep
    have hclosed := closed _ (hle₀.trans hle)
    have hnow : (s.state i).Everywhere (A (context (es ++ [(i, e)]) s'))
        (M (context (es ++ [(i, e)]) s')) :=
      (hs.states i).mono (fun _ => hA hle) fun _ => hM hle
    have hmsg : ∀ msg, e = .receive msg → M (context (es ++ [(i, e)]) s') msg := by
      rintro msg rfl
      exact hM hle (hs.sent msg (Sched.mem_sent_of_admits (Parties.step_iff.1 hstep).1))
    obtain ⟨-, n, hn, rfl⟩ := Parties.step_iff.1 hstep
    refine ⟨hle, ?_, hnow.sends hclosed⟩
    show Sched.Everywhere _ _ (Function.update s.state i n i)
    rw [Function.update_self]
    exact hnow.step hclosed hmsg hmakes hn
  · exact fun i => Sched.everywhere_init (hobjects i)
  · intro msg hmsg
    cases hmsg

end Cluster

end GossipRl
