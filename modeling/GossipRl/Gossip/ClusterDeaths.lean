import GossipRl.Gossip.ClusterInvariants
import GossipRl.Gossip.Suspicion

/-!
# Where suspicions and deaths come from

A peer that no manager's own probes find unresponsive (`Cluster.Responsive`) is suspected by none: all
its objects stay `ALIVE`, and no message or callback says otherwise. Deaths are not spread at all, so
a manager takes a peer for dead only by a suspicion timer of its own.
-/

namespace GossipRl
open Support

/-- The message says that `id` is suspected or dead. -/
def MessageHeader.Accuses (id : String) (msg : MessageHeader) : Prop :=
  msg.targetId = some id ∧ (msg.type = .SUSPECT ∨ msg.type = .DEAD)

namespace Peer

theorem markAlive_of_alive {p : Peer} {now : ℚ} {i : Option Int} (h : p.state = .ALIVE) :
    (p.markAlive now i).2.state = .ALIVE := by
  unfold markAlive
  split
  · exact h
  · rfl

end Peer

namespace Pc
variable {pc : Pc} {now : ℚ} {m : MembershipManager} {id : String} {p : Peer}

/-- Without an accusation a peer that is alive stays so, unless the task suspects it itself. -/
theorem alive_effect (hnamed : pc.Named) (hin : ∀ msg, pc.incoming = some msg → ¬ msg.Accuses id)
    (hpc : ∀ target drop, pc ≠ .suspectPeer target drop) (hp : p.state = .ALIVE) :
    (pc.effect now m id p).state = .ALIVE := by
  cases pc with
  | ping msg =>
    simp only [effect]
    split <;> exact hp
  | ackPeer msg targetId l =>
    simp only [effect]
    split
    · exact Peer.markAlive_of_alive hp
    · exact hp
  | alive id' msg =>
    simp only [effect]
    split
    · exact Peer.markAlive_of_alive hp
    · exact hp
  | suspect id' msg =>
    simp only [effect]
    split
    · rename_i hid
      exact absurd ⟨hid ▸ hnamed.2, .inl hnamed.1⟩ (hin msg rfl)
    · exact hp
  | dead id' msg =>
    simp only [effect]
    split
    · rename_i hid
      exact absurd ⟨hid ▸ hnamed.2, .inr hnamed.1⟩ (hin msg rfl)
    · exact hp
  | confirm id' τ =>
    simp only [effect]
    split
    · rw [if_neg (by simp [hp])]
      exact hp
    · exact hp
  | suspectPeer target drop => exact absurd rfl (hpc target drop)
  | _ => exact hp

/-- Without a `DEAD` message only a suspicion that is confirmed ends in death. -/
theorem confirm_of_dead_effect (hnamed : pc.Named)
    (hin : ∀ msg, pc.incoming = some msg → msg.type ≠ .DEAD) (hp : p.state ≠ .DEAD)
    (h : (pc.effect now m id p).state = .DEAD) : p.state = .SUSPECT ∧ ∃ τ, pc = .confirm id τ := by
  have revived : ∀ {q : Peer} {i : Option Int}, q.state = p.state →
      (q.markAlive now i).2.state ≠ .DEAD := by
    intro q i hq
    unfold Peer.markAlive
    split
    · rwa [hq]
    · exact fun h => by cases h
  have suspected : ∀ {i : Option Int}, (p.markSuspect i).2.state ≠ .DEAD := by
    intro i
    unfold Peer.markSuspect
    repeat' split
    · exact hp
    · exact fun h => by cases h
    · exact hp
  cases pc with
  | confirm id' τ =>
    simp only [effect] at h
    split at h
    · rename_i hid
      split at h
      · rename_i hst
        exact ⟨hst, τ, by rw [hid]⟩
      · exact absurd h hp
    · exact absurd h hp
  | dead id' msg => exact absurd hnamed.1 (hin msg rfl)
  | ping | ackPeer | alive | suspect | suspectPeer =>
    simp only [effect] at h
    split at h
    · first
        | exact absurd h hp
        | exact absurd h (revived rfl)
        | exact absurd h suspected
    · exact absurd h hp
  | _ => exact absurd h hp

end Pc

/-- The peer that a probe finds unresponsive in the step. -/
def Sched.suspecting (s : Sched) : MembershipEvent → Option String
  | .resume t _ _ =>
    match s.tasks[t]? with
    | some (.suspectPeer target _) => some (s.manager.heap target).id
    | _ => none
  | _ => none

namespace Cluster
open MembershipManager
variable {ι : Type*} [DecidableEq ι] {config : ι → MembershipConfig} {localPeer : ι → Ref}
  {heap : ι → Ref → Peer} {events : List (ι × MembershipEvent)} {s s' : Cluster ι} {i : ι}
  {e : MembershipEvent} {id : String}

/-! ### Suspicions -/

/-- No probe finds `id` unresponsive in this step. -/
def Responsive (id : String) (s : Cluster ι) (p : ι × MembershipEvent) : Prop :=
  (s.state p.1).suspecting p.2 ≠ some id

instance (id : String) (s : Cluster ι) (p : ι × MembershipEvent) : Decidable (Responsive id s p) := by
  unfold Responsive; infer_instance

theorem closed_alive (id : String) :
    Closed (fun p => p.id = id → p.state = .ALIVE) fun msg => ¬ msg.Accuses id where
  plain out _ hno := fun ⟨_, htype⟩ => hno (htype.elim (.inr ∘ .inl) (.inr ∘ .inr))
  effect pc now m p hnamed hin hpc hp hid := by
    rw [Pc.id_effect] at hid
    subst hid
    exact Pc.alive_effect hnamed hin hpc (hp rfl)

theorem everywhere_alive (hstart : ∀ i r, (heap i r).id = id → (heap i r).state = .ALIVE)
    (hresponsive : Along (Parties.step Sched.member) (Responsive id) (start config localPeer heap) events)
    (hrun : run (Parties.step Sched.member) (start config localPeer heap) events = some s) :
    Everywhere (fun (_ : Unit) p => p.id = id → p.state = .ALIVE) (fun _ msg => ¬ msg.Accuses id) () s := by
  refine everywhere_run (fun _ _ => ()) (fun _ h => h) (fun _ h => h) (fun _ _ => closed_alive id) ?_
    hstart hresponsive hrun
  rintro es s i e s' - hs hresponsive hstep
  refine ⟨le_rfl, fun out hout => ?_, fun t now picks target drop he ht => ?_⟩
  · refine ⟨(hs.states i).objects _, ?_⟩
    cases e with
    | receive msg =>
      obtain ⟨-, -, -, rfl⟩ := Pc.outgoing_ofMessage hout
      rintro ⟨-, htype | htype⟩ <;> cases htype
    | _ => cases hout
  · subst he
    have hne : ((s.state i).manager.heap target).id ≠ id := by
      intro hid
      refine hresponsive ?_
      simp only [Sched.suspecting, ht, hid]
    refine ⟨fun p hp _ hid => ?_, fun out hout hacc => ?_⟩
    · rw [Peer.id_markSuspect] at hid
      exact absurd (hp.symm.trans hid) hne
    · have hsus : (s.state i).manager.suspectPeer target =
          (some out, ((s.state i).manager.suspectPeer target).2) := Prod.ext hout rfl
      obtain ⟨-, htarget, -⟩ := suspectPeer_eq_some hsus
      exact hne (Option.some.inj (htarget.symm.trans hacc.1))

/-- The callback announces that `id` is suspected or dead. -/
def Announces (id : String) (n : Notice) : Prop := n = .suspect id ∨ n = .dead id

theorem not_announces_step {n n' : Sched} (h : n.step e = some n') (hkeyed : n.manager.Keyed)
    (halive : ∀ r, (n'.manager.heap r).id = id → (n'.manager.heap r).state = .ALIVE)
    (hkeyed' : n'.manager.Keyed) (hn : ∀ x ∈ n.manager.notified, ¬ Announces id x) :
    ∀ x ∈ n'.manager.notified, ¬ Announces id x := by
  -- nothing is stored as suspected or dead after the step
  have hstored : ∀ {st}, n'.manager.storedState id = some st → st = .ALIVE := by
    intro st hst
    obtain ⟨r, hr, rfl⟩ := Option.map_eq_some_iff.1 hst
    exact halive r (hkeyed' id r hr)
  have announced : ∀ {given : Bool} {x : Notice}, n'.manager.notified =
      (n.manager.notify given x).notified → ¬ Announces id x →
      ∀ y ∈ n'.manager.notified, ¬ Announces id y := by
    intro given x heq hx y hy
    rw [heq] at hy
    unfold notify at hy
    split at hy
    · rcases List.mem_append.1 hy with hy | hy
      · exact hn y hy
      · exact List.mem_singleton.1 hy ▸ hx
    · exact hn y hy
  have updated : ∀ {id' : String} {st : PeerState}, st ≠ .ALIVE →
      n'.manager.storedState = Function.update n.manager.storedState id' (some st) → id' ≠ id := by
    rintro id' st hst heq rfl
    exact hst (hstored (by rw [heq, Function.update_self]))
  rcases Sched.stateChange_step h hkeyed with ⟨t, now, picks, pc, pc', -, -, -, -, hch⟩ |
    ⟨-, -, -, -, heq⟩
  · cases hch with
    | same _ _ heq | drop id' τ _ _ heq | enter r _ _ _ heq | remove id' _ _ heq => rwa [heq]
    | revive id' st _ _ hs _ heq => exact announced heq (by rintro (h | h) <;> cases h)
    | suspect id' _ hs _ heq =>
      have hne := updated (by decide) hs
      refine announced heq ?_
      rintro (h | h)
      · exact hne (Notice.suspect.inj h)
      · cases h
    | dead id' st _ _ hs _ heq | confirm id' τ _ hs _ heq =>
      have hne := updated (by decide) hs
      refine announced heq ?_
      rintro (h | h)
      · cases h
      · exact hne (Notice.dead.inj h)
  · rwa [heq]

/-! ### Deaths -/

theorem closed_no_death : Closed (fun _ => True) fun msg => msg.type ≠ .DEAD where
  plain _ _ hno := fun htype => hno (.inr (.inr htype))
  effect _ _ _ _ _ _ _ _ := trivial

theorem everywhere_no_death
    (hrun : run (Parties.step Sched.member) (start config localPeer heap) events = some s) :
    Everywhere (fun (_ : Unit) _ => True) (fun _ msg => msg.type ≠ .DEAD) () s := by
  refine everywhere_run (C := fun _ _ => True) (fun _ _ => ()) (fun _ h => h) (fun _ h => h)
    (fun _ _ => closed_no_death) ?_ (fun _ _ => trivial) .unconditional hrun
  rintro es s i e s' - hs - hstep
  refine ⟨le_rfl, fun out hout => ⟨trivial, ?_⟩, fun t now picks target drop he ht => ?_⟩
  · cases e with
    | receive msg =>
      obtain ⟨-, -, -, rfl⟩ := Pc.outgoing_ofMessage hout
      exact fun htype => by cases htype
    | _ => cases hout
  · refine ⟨fun _ _ _ => trivial, fun out hout htype => ?_⟩
    have hsus : (s.state i).manager.suspectPeer target =
        (some out, ((s.state i).manager.suspectPeer target).2) := Prod.ext hout rfl
    cases htype.symm.trans (suspectPeer_eq_some hsus).1

theorem timersOk_run
    (hrun : run (Parties.step Sched.member) (start config localPeer heap) events = some s) (i : ι) :
    (s.state i).TimersOk :=
  run_invariant (P := Sched.TimersOk) (Sched.timersOk_init ..) (fun _ _ _ hn hstep => hn.step hstep)
    (Parties.run_state hrun i)

/-- The step goes on with a task for `id` that the suspicion timer `τ` of the manager has scheduled. -/
def Confirms (id : String) (n : Sched) (e : MembershipEvent) : Prop :=
  ∃ t now picks τ timer, e = .resume t now picks ∧ n.tasks[t]? = some (.confirm id τ) ∧
    n.manager.timers[τ]? = some timer ∧ timer.peerId = id ∧
    n.manager.storedState id = some .SUSPECT

/-- The step enters an object for `id` that is dead already. -/
def EntersDead (id : String) (n : Sched) (e : MembershipEvent) : Prop :=
  ∃ t now picks r, e = .resume t now picks ∧ n.tasks[t]? = some (.addPeer r) ∧
    (n.manager.heap r).id = id ∧ (n.manager.heap r).state = .DEAD

theorem confirms_of_dead {n n' : Sched} (h : n.step e = some n') (hs : n.TimersOk)
    (hnamed : ∀ pc ∈ n.tasks, pc.Named)
    (hno : ∀ pc ∈ n.tasks, ∀ msg, pc.incoming = some msg → msg.type ≠ .DEAD)
    (hold : n.manager.storedState id ≠ some .DEAD)
    (hnew : n'.manager.storedState id = some .DEAD) : Confirms id n e ∨ EntersDead id n e := by
  by_cases he : ∃ t now picks, e = .resume t now picks
  · obtain ⟨t, now, picks, rfl⟩ := he
    obtain ⟨pc, pc', m, ht, -, hadv, rfl⟩ := Sched.step_resume_iff.1 h
    have hmem := List.mem_of_getElem? ht
    cases hpc : pc.changesPeers with
    | false =>
      rw [storedState_eq_map, Pc.storedPeer_advance hadv hs.keyed hpc] at hnew
      rw [storedState_eq_map] at hold
      cases hp : n.manager.storedPeer id with
      | none =>
        rw [hp] at hnew
        cases hnew
      | some p =>
        rw [hp, Option.map_some] at hold
        rw [hp, Option.map_some, Option.map_some] at hnew
        obtain ⟨hst, τ, rfl⟩ := Pc.confirm_of_dead_effect (hnamed pc hmem) (hno pc hmem)
          (fun hdead => hold (congrArg some hdead)) (Option.some.inj hnew)
        obtain ⟨timer, hτ, hid⟩ := hs.scheduled id τ (.inr hmem)
        refine .inl ⟨t, now, picks, τ, timer, rfl, ht, hτ, hid, ?_⟩
        rw [storedState_eq_map, hp, Option.map_some, hst]
    | true =>
      rcases Pc.advance_changesPeers hadv hpc with ⟨r, rfl, rfl⟩ | ⟨id', rfl, rfl⟩
      · rcases addPeer_cases r n.manager with ⟨-, heq⟩ | heq
        · by_cases hid : (n.manager.heap r).id = id
          · refine .inr ⟨t, now, picks, r, rfl, ht, hid, ?_⟩
            rw [heq, storedState_of_get? (r := r) (by rw [← hid]; exact Dict.get?_set_self ..)] at hnew
            exact Option.some.inj hnew
          · refine absurd ?_ hold
            rw [heq] at hnew
            rw [← hnew]
            show _ = ((n.manager.peers.set _ r).get? id).map _
            rw [Dict.get?_set_of_ne (Ne.symm hid)]
            rfl
        · rw [heq] at hnew
          exact absurd hnew hold
      · rw [storedState_removePeer] at hnew
        by_cases hid : id = id'
        · rw [hid, Function.update_self] at hnew
          cases hnew
        · rw [Function.update_of_ne hid] at hnew
          exact absurd hnew hold
  · have hu := Sched.updates_step (P := fun p p' => p'.state = p.state) h (fun _ => rfl)
      (fun _ _ => rfl) fun t now picks heq => he ⟨t, now, picks, heq⟩
    rw [storedState_of_updates hu] at hnew
    exact absurd hnew hold

end Cluster

open Cluster

/-- As long as no manager finds a peer unresponsive itself, no manager has it as suspected or dead,
says so, or has announced it. -/
theorem unsuspected_peer_stays_alive {ι : Type*} [DecidableEq ι] {config : ι → MembershipConfig}
    {localPeer : ι → Ref} {heap : ι → Ref → Peer} {events : List (ι × MembershipEvent)}
    {s : Cluster ι} {id : String}
    (hstart : ∀ i r, (heap i r).id = id → (heap i r).state = .ALIVE)
    (hresponsive : Along (Parties.step Sched.member) (Responsive id) (Cluster.start config localPeer heap)
      events)
    (hrun : run (Parties.step Sched.member) (Cluster.start config localPeer heap) events = some s) :
    (∀ i st, (s.state i).manager.storedState id = some st → st = .ALIVE) ∧
      (∀ out, out ∈ s.sent ∨ (∃ i, out ∈ (s.state i).manager.updatesQueue) → ¬ out.Accuses id) ∧
      ∀ i, ∀ x ∈ (s.state i).manager.notified, ¬ Announces id x := by
  have hall := everywhere_alive hstart hresponsive hrun
  refine ⟨fun i st hst => ?_, ?_, fun i => ?_⟩
  · obtain ⟨r, hr, rfl⟩ := Option.map_eq_some_iff.1 hst
    exact (hall.states i).objects r ((hall.states i).keyed id r hr)
  · rintro out (hout | ⟨i, hout⟩)
    · exact hall.sent out hout
    · exact (hall.states i).queue out hout
  · have hnotified : Along (Parties.step Sched.member) (Responsive id)
          (start config localPeer heap) events ∧
        ∀ x ∈ (s.state i).manager.notified, ¬ Announces id x := by
      refine run_induction (motive := fun es (s : Cluster ι) => Along (Parties.step Sched.member)
        (Responsive id) (start config localPeer heap) es ∧
        ∀ x ∈ (s.state i).manager.notified, ¬ Announces id x) ⟨.nil, ?_⟩ ?_ hresponsive hrun
      · intro x hx
        cases hx
      · rintro es s ⟨j, e⟩ s' hes ⟨halong, hn⟩ hp hstep
        have halong' := Along.concat_iff.2 ⟨halong, fun s₁ hs₁ => by
          obtain rfl := Option.some.inj (hes.symm.trans hs₁)
          exact hp⟩
        have hs := everywhere_alive hstart halong hes
        have hs' := everywhere_alive hstart halong' (run_concat_eq_some.2 ⟨s, hes, hstep⟩)
        refine ⟨halong', ?_⟩
        obtain ⟨-, n, hn', rfl⟩ := Parties.step_iff.1 hstep
        by_cases hij : j = i
        · subst hij
          have hi := hs'.states j
          simp only [Function.update_self] at hi ⊢
          exact not_announces_step hn' (hs.states j).keyed hi.objects hi.keyed hn
        · simpa only [Function.update_of_ne (Ne.symm hij)] using hn
    exact hnotified.2

section Example

theorem unsuspected_peer_stays_alive_answered : ∃ s,
    run (Parties.step Sched.member) (Cluster.start (fun _ => {}) (fun _ => 0) pairHeap)
      answeredProbe = some s ∧
    s.sent.length = 2 ∧ (s.state true).manager.storedState "b" = some .ALIVE ∧
    ∀ out ∈ s.sent, ¬ out.Accuses "b" := by
  have hresponsive : Along (Parties.step Sched.member) (Responsive "b")
      (Cluster.start (fun _ => {}) (fun _ => 0) pairHeap) answeredProbe := by decide
  refine ⟨_, rfl, rfl, rfl, fun out hout => ?_⟩
  exact (unsuspected_peer_stays_alive (fun _ _ _ => rfl) hresponsive rfl).2.1 out (.inl hout)

end Example

/-- No manager sends `DEAD`. One that has a peer for dead, and had not before the step, has confirmed
a suspicion of its own, or its application has entered an object that is dead. -/
theorem deaths_are_found_alone {ι : Type*} [DecidableEq ι] {config : ι → MembershipConfig}
    {localPeer : ι → Ref} {heap : ι → Ref → Peer} {events : List (ι × MembershipEvent)}
    {s s' : Cluster ι} {i : ι} {e : MembershipEvent} {id : String}
    (hrun : run (Parties.step Sched.member) (Cluster.start config localPeer heap) events = some s)
    (hstep : Parties.step Sched.member s (i, e) = some s')
    (hold : (s.state i).manager.storedState id ≠ some .DEAD)
    (hnew : (s'.state i).manager.storedState id = some .DEAD) :
    (Confirms id (s.state i) e ∨ EntersDead id (s.state i) e) ∧ ∀ out ∈ s'.sent, out.type ≠ .DEAD := by
  have hs := everywhere_no_death hrun
  have hs' := everywhere_no_death (run_concat_eq_some.2 ⟨s, hrun, hstep⟩)
  refine ⟨?_, hs'.sent⟩
  obtain ⟨-, n, hn, rfl⟩ := Parties.step_iff.1 hstep
  simp only [Function.update_self] at hnew
  exact confirms_of_dead hn (timersOk_run hrun i) (hs.states i).named (hs.states i).incoming hold hnew

section Example

theorem deaths_are_found_alone_timer : ∃ s s' : Cluster Bool,
    run (Parties.step Sched.member) (Cluster.start (fun _ => {}) (fun _ => 0) pairHeap)
      (spreadByA ++ [(true, .fire 0), (true, .resume 3 0 [])]) = some s ∧
    Parties.step Sched.member s (true, .resume 3 0 []) = some s' ∧
    (s'.state true).manager.storedState "b" = some .DEAD ∧
    (Confirms "b" (s.state true) (.resume 3 0 []) ∨ EntersDead "b" (s.state true) (.resume 3 0 [])) := by
  obtain ⟨s, s', hrun, hstep, hold, hnew⟩ : ∃ s s' : Cluster Bool,
      run (Parties.step Sched.member) (Cluster.start (fun _ => {}) (fun _ => 0) pairHeap)
        (spreadByA ++ [(true, .fire 0), (true, .resume 3 0 [])]) = some s ∧
      Parties.step Sched.member s (true, .resume 3 0 []) = some s' ∧
      (s.state true).manager.storedState "b" ≠ some .DEAD ∧
      (s'.state true).manager.storedState "b" = some .DEAD := ⟨_, _, rfl, rfl, by decide, rfl⟩
  exact ⟨s, s', hrun, hstep, hnew, (deaths_are_found_alone hrun hstep hold hnew).1⟩

end Example

end GossipRl
