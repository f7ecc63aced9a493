import GossipRl.Gossip.ClusterInvariants
import Mathlib.Data.Set.Basic

/-!
# Who makes incarnations

Only a manager's own refutations make incarnations of its local peer: nothing that is stored, queued
or on its way about the peer is newer than the peer itself (`MessageHeader.UpTo`, an instance of
`Cluster.everywhere_run`). So a suspicion that comes back is at most as new as the peer, each
refutation goes up by one exactly, and no two of them have the same incarnation.
-/

namespace GossipRl
open Support

namespace MessageHeader

/-- A message that is about `id`, or that brings a sign of life of its sender, has an incarnation of
at most `c`. -/
def UpTo (id : String) (c : Int) (msg : MessageHeader) : Prop :=
  (msg.IsRumour → msg.targetId = some id) → msg.incarnation ≤ c

theorem UpTo.of_not_isRumour {id : String} {c : Int} {msg : MessageHeader} (h : msg.UpTo id c)
    (hno : ¬ msg.IsRumour) : msg.incarnation ≤ c := h fun hr => absurd hr hno

end MessageHeader

namespace Pc

theorem revivesUpTo_of_named {pc : Pc} {id : String} {c : Int} {m : MembershipManager}
    (hnamed : pc.Named) (h : ∀ msg, pc.incoming = some msg → msg.UpTo id c) :
    pc.RevivesUpTo id c m := by
  have plain : ∀ {msg : MessageHeader}, msg.UpTo id c → msg.type = .PING ∨ msg.type = .ACK →
      msg.incarnation ≤ c := by
    intro msg hmsg htype
    refine hmsg.of_not_isRumour ?_
    rintro (h | h | h) <;> rcases htype with htype | htype <;> cases htype.symm.trans h
  cases pc with
  | ping msg => exact fun _ => plain (h msg rfl) (.inl hnamed)
  | ackPeer msg targetId l => exact fun _ => plain (h msg rfl) (.inr hnamed)
  | alive id' msg =>
    intro hid
    exact h msg rfl fun _ => hid ▸ hnamed.2
  | _ => trivial

end Pc

namespace Cluster
variable {ι : Type*} [DecidableEq ι] {config : ι → MembershipConfig} {localPeer : ι → Ref}
  {heap : ι → Ref → Peer} {events : List (ι × MembershipEvent)} {s : Cluster ι} {j : ι}

/-- The answer of manager `j` to a suspicion. -/
def refutes (j : ι) (s : Cluster ι) (p : ι × MembershipEvent) : Option MessageHeader :=
  if p.1 = j then (s.state j).refutes p.2 else none

/-- The answers of manager `j` to suspicions. -/
def refutations (j : ι) (s₀ : Cluster ι) (events : List (ι × MembershipEvent)) :
    List MessageHeader :=
  observe (Parties.step Sched.member) (refutes j) s₀ events

theorem localAway_run (haway : (j, .addPeer (localPeer j)) ∉ events)
    (hrun : run (Parties.step Sched.member) (start config localPeer heap) events = some s) :
    (s.state j).LocalAway := by
  have hne : Along Sched.step (fun _ e => e ≠ .addPeer (localPeer j))
      ((start config localPeer heap).state j) (Parties.eventsOf j events) := by
    rintro es₁ e es₂ s₁ heq - rfl
    exact haway (Parties.mem_eventsOf.1 (heq ▸ List.mem_append_right _ (List.mem_cons_self ..)))
  have hboth : (s.state j).manager.localPeer = localPeer j ∧ (s.state j).LocalAway := by
    refine run_induction (motive := fun _ (n : Sched) =>
      n.manager.localPeer = localPeer j ∧ n.LocalAway) ⟨rfl, Sched.localAway_init ..⟩ ?_ hne
      (Parties.run_state hrun j)
    rintro es n e n' - ⟨hlocal, haway⟩ he hstep
    exact ⟨(Sched.sameSetup_step hstep).localPeer.trans hlocal,
      haway.step (by rwa [hlocal]) hstep⟩
  exact hboth.2

/-- Ids are distinct, and the managers start with peer objects no newer than the peers are. -/
structure Starts (j : ι) (localPeer : ι → Ref) (heap : ι → Ref → Peer) : Prop where
  ids : ∀ i, i ≠ j → (heap i (localPeer i)).id ≠ (heap j (localPeer j)).id
  objects : ∀ i r, (heap i r).id = (heap j (localPeer j)).id →
    (heap i r).incarnation ≤ (heap j (localPeer j)).incarnation
  nonneg : 0 ≤ (heap j (localPeer j)).incarnation

/-- No object of `id` is newer than `c`. -/
abbrev ObjectUpTo (id : String) (c : Int × Set MessageHeader) (p : Peer) : Prop :=
  p.id = id → p.incarnation ≤ c.1

/-- No message is newer than `c`, and those that say that `id` is alive are known. -/
abbrev MessageUpTo (id : String) (c : Int × Set MessageHeader) (msg : MessageHeader) : Prop :=
  msg.UpTo id c.1 ∧ (msg.type = .ALIVE → msg.targetId = some id → msg ∈ c.2)

theorem closed_upTo {id : String} {c : Int × Set MessageHeader} (hc : 0 ≤ c.1) :
    Closed (ObjectUpTo id c) (MessageUpTo id c) where
  plain out hzero hno := ⟨fun _ => hzero ▸ hc, fun halive => absurd (.inl halive) hno⟩
  effect pc now m p hnamed hin _ hp hid := by
    rw [Pc.id_effect] at hid
    subst hid
    exact Pc.incarnation_effect_le
      (Pc.revivesUpTo_of_named hnamed fun msg hmsg => (hin msg hmsg).1) (hp rfl)

/-- The incarnation of manager `j`'s own peer, and its answers so far. -/
def standing (j : ι) (s₀ : Cluster ι) (events : List (ι × MembershipEvent)) (s : Cluster ι) :
    Int × Set MessageHeader :=
  ((s.state j).self.incarnation, {out | out ∈ refutations j s₀ events})

theorem standing_step {s₀ s' : Cluster ι} {es : List (ι × MembershipEvent)} {i : ι}
    {e : MembershipEvent} (hes : run (Parties.step Sched.member) s₀ es = some s)
    (haway : (s.state j).LocalAway) (h : Parties.step Sched.member s (i, e) = some s') :
    standing j s₀ es s ≤ standing j s₀ (es ++ [(i, e)]) s' := by
  constructor
  · obtain ⟨-, n, hn, rfl⟩ := Parties.step_iff.1 h
    show _ ≤ (Function.update s.state i n j).self.incarnation
    by_cases hij : i = j
    · subst hij
      rw [Function.update_self]
      rcases Sched.self_step hn haway with ⟨-, heq⟩ | ⟨msg, out, -, -, -, -, -, -, hinc, heq⟩
      · exact heq ▸ le_rfl
      · rw [heq]
        show (s.state i).self.incarnation ≤ out.incarnation
        omega
    · rw [Function.update_of_ne (Ne.symm hij)]
      exact le_rfl
  · intro out hout
    show out ∈ refutations j s₀ (es ++ [(i, e)])
    rw [refutations, observe_concat hes]
    exact List.mem_append_left _ hout

/-- Nothing about a manager's peer is newer than the peer, and only the manager says that it is
alive. -/
theorem everywhere_upTo (hstart : Starts j localPeer heap)
    (haway : (j, .addPeer (localPeer j)) ∉ events)
    (hrun : run (Parties.step Sched.member) (start config localPeer heap) events = some s) :
    Everywhere (ObjectUpTo (heap j (localPeer j)).id) (MessageUpTo (heap j (localPeer j)).id)
      (standing j (start config localPeer heap) events s) s := by
  have hlocal : Along (Parties.step Sched.member) (fun s _ => (s.state j).LocalAway)
      (start config localPeer heap) events := by
    rintro es₁ e es₂ s₁ rfl hs₁
    exact localAway_run (fun hmem => haway (List.mem_append_left _ hmem)) hs₁
  refine everywhere_run (standing j (start config localPeer heap)) ?_ ?_ ?_ ?_ hstart.objects hlocal
    hrun
  · exact fun hle hp hid => (hp hid).trans hle.1
  · exact fun hle hmsg => ⟨fun hr => (hmsg.1 hr).trans hle.1, fun h₁ h₂ => hle.2 (hmsg.2 h₁ h₂)⟩
  · exact fun c hc => closed_upTo (hstart.nonneg.trans hc.1)
  · intro es s i e s' hes hs haway hstep
    have hle := standing_step hes haway hstep
    refine ⟨hle, ?_, ?_⟩
    · intro out hout
      have hself := id_self_run hes i
      obtain ⟨-, n, hn, rfl⟩ := Parties.step_iff.1 hstep
      have hmsg : ∃ msg, e = .receive msg := by
        cases e with
        | receive msg => exact ⟨msg, rfl⟩
        | _ => cases hout
      obtain ⟨msg, rfl⟩ := hmsg
      obtain ⟨-, -, -, hrefute⟩ := Pc.outgoing_ofMessage hout
      have htarget : out.targetId = some (s.state i).self.id := hrefute ▸ rfl
      by_cases hij : i = j
      · subst hij
        have hinc : out.incarnation ≤ (Function.update s.state i n i).self.incarnation := by
          rw [Function.update_self]
          have hn' : (s.state i).step (.receive msg) = some n := hn
          rcases Sched.self_step hn' haway with ⟨hnone, -⟩ | ⟨_, out', -, hout', -, -, -, -, -, heq⟩
          · cases hnone.symm.trans hout
          · obtain rfl := Option.some.inj (hout.symm.trans hout')
            rw [heq]
        refine ⟨fun _ => hinc, fun _ => hinc, fun _ _ => ?_⟩
        show out ∈ refutations i _ (es ++ [(i, .receive msg)])
        rw [refutations, observe_concat hes]
        refine List.mem_append_right _ (Option.mem_toList.2 ?_)
        rw [refutes, if_pos rfl]
        exact hout
      · have hne : (s.state i).self.id ≠ (heap j (localPeer j)).id := hself ▸ hstart.ids i hij
        have halive : out.IsRumour := .inl (hrefute ▸ rfl)
        refine ⟨fun hid => absurd hid hne, fun hr => ?_, fun _ htarget' => ?_⟩
        · exact absurd (Option.some.inj (htarget.symm.trans (hr halive))) hne
        · exact absurd (Option.some.inj (htarget.symm.trans htarget')) hne
    · intro t now picks target drop he ht
      constructor
      · intro p _ hp hid
        rw [p.id_markSuspect] at hid
        rw [p.incarnation_markSuspect]
        exact hp hid
      · intro out hout
        have hsus : (s.state i).manager.suspectPeer target =
            (some out, ((s.state i).manager.suspectPeer target).2) := Prod.ext hout rfl
        obtain ⟨htype, htarget, hinc, -⟩ := MembershipManager.suspectPeer_eq_some hsus
        refine ⟨fun hr => ?_, fun halive => by cases htype.symm.trans halive⟩
        have hid := Option.some.inj (htarget.symm.trans (hr (.inr (.inl htype))))
        rw [hinc]
        exact ((hs.states i).objects target hid).trans hle.1

/-- The answers have consecutive incarnations, from `own + 1` to `now`. -/
def Numbered (own : Int) (answers : List MessageHeader) (now : Int) : Prop :=
  answers.map (·.incarnation) = (List.range answers.length).map (fun n : Nat => own + 1 + (n : Int)) ∧
    now = own + answers.length

theorem Numbered.concat {own now : Int} {answers : List MessageHeader} {out : MessageHeader}
    (h : Numbered own answers now) (hout : out.incarnation = now + 1) :
    Numbered own (answers ++ [out]) out.incarnation := by
  obtain ⟨hmap, hnow⟩ := h
  have hlast : out.incarnation = own + 1 + (answers.length : Int) := by omega
  constructor
  · rw [List.map_append, hmap, List.length_append, List.length_singleton, List.range_succ,
      List.map_append, List.map_singleton, List.map_singleton, hlast]
  · rw [List.length_append, List.length_singleton, hlast]
    push_cast
    ring

theorem numbered_run (hstart : Starts j localPeer heap)
    (haway : (j, .addPeer (localPeer j)) ∉ events)
    (hrun : run (Parties.step Sched.member) (start config localPeer heap) events = some s) :
    Numbered (heap j (localPeer j)).incarnation (refutations j (start config localPeer heap) events)
      (s.state j).self.incarnation := by
  have hne : Along (Parties.step Sched.member) (fun _ p => p ≠ (j, .addPeer (localPeer j)))
      (start config localPeer heap) events := by
    rintro es₁ p es₂ s₁ rfl - rfl
    exact haway (by simp)
  have hall : (j, .addPeer (localPeer j)) ∉ events ∧ Numbered (heap j (localPeer j)).incarnation
      (refutations j (start config localPeer heap) events) (s.state j).self.incarnation := by
    refine run_induction (motive := fun es (s : Cluster ι) => (j, .addPeer (localPeer j)) ∉ es ∧
      Numbered (heap j (localPeer j)).incarnation
        (refutations j (start config localPeer heap) es) (s.state j).self.incarnation) ?_ ?_ hne hrun
    · exact ⟨List.not_mem_nil, rfl, (add_zero _).symm⟩
    · rintro es s ⟨i, e⟩ s' hes ⟨hnot, hnumbered⟩ hp hstep
      refine ⟨fun hmem => ?_, ?_⟩
      · rcases List.mem_append.1 hmem with hmem | hmem
        · exact hnot hmem
        · exact hp (List.mem_singleton.1 hmem).symm
      have hupTo := everywhere_upTo hstart hnot hes
      have haway := localAway_run hnot hes
      obtain ⟨hadmits, n, hn, rfl⟩ := Parties.step_iff.1 hstep
      rw [refutations, observe_concat hes, ← refutations]
      show Numbered _ _ (Function.update s.state i n j).self.incarnation
      by_cases hij : i = j
      · subst hij
        rw [refutes, if_pos rfl, Function.update_self]
        rcases Sched.self_step hn haway with ⟨hnone, heq⟩ |
          ⟨msg, out, rfl, hout, -, htarget, -, -, hinc, heq⟩
        · rw [hnone, heq, Option.toList_none, List.append_nil]
          exact hnumbered
        · -- the suspicion is not newer than the peer
          have hle : msg.incarnation ≤ (s.state i).self.incarnation :=
            (hupTo.sent msg (Sched.mem_sent_of_admits hadmits)).1 fun _ =>
              htarget.trans (congrArg some (id_self_run hes i))
          rw [hout, heq]
          exact hnumbered.concat (by rw [hinc, max_eq_left hle])
      · rw [refutes, if_neg hij, Function.update_of_ne (Ne.symm hij), Option.toList_none,
          List.append_nil]
        exact hnumbered
  exact hall.2

end Cluster

/-- The answers of a manager to suspicions have consecutive incarnations, of which the last one is
its own; nothing in the cluster about the manager's peer is newer, and whatever says that the peer
is alive is one of the answers. -/
theorem refutations_are_consecutive {ι : Type*} [DecidableEq ι] {config : ι → MembershipConfig}
    {localPeer : ι → Ref} {heap : ι → Ref → Peer} {events : List (ι × MembershipEvent)}
    {s : Cluster ι} {j : ι} (hstart : Cluster.Starts j localPeer heap)
    (haway : (j, .addPeer (localPeer j)) ∉ events)
    (hrun : run (Parties.step Sched.member) (Cluster.start config localPeer heap) events = some s) :
    let id := (heap j (localPeer j)).id
    let now := (s.state j).self.incarnation
    let answers := Cluster.refutations j (Cluster.start config localPeer heap) events
    Cluster.Numbered (heap j (localPeer j)).incarnation answers now ∧
      (∀ i r, ((s.state i).manager.heap r).id = id → ((s.state i).manager.heap r).incarnation ≤ now) ∧
      ∀ out, out ∈ s.sent ∨ (∃ i, out ∈ (s.state i).manager.updatesQueue) →
        out.UpTo id now ∧ (out.type = .ALIVE → out.targetId = some id → out ∈ answers) := by
  intro id now answers
  have hall := Cluster.everywhere_upTo hstart haway hrun
  refine ⟨Cluster.numbered_run hstart haway hrun, fun i r => (hall.states i).objects r, ?_⟩
  rintro out (hout | ⟨i, hout⟩)
  · exact hall.sent out hout
  · exact (hall.states i).queue out hout

section Example

/-- `b` hears of it, and answers. -/
def answeredByB : List (Bool × MembershipEvent) :=
  [(false, .receive { type := .SUSPECT, senderId := "a", sequence := 2, targetId := "b" }),
    (false, .resume 0 0 []), (false, .getUpdates 1), (false, .resume 1 0 [])]

theorem starts_pairHeap : Cluster.Starts false (fun _ => 0) pairHeap where
  ids i h := by
    cases i
    · exact absurd rfl h
    · decide
  objects i r _ := le_rfl
  nonneg := le_rfl

theorem refutations_are_consecutive_pair : ∃ s,
    run (Parties.step Sched.member) (Cluster.start (fun _ => {}) (fun _ => 0) pairHeap)
      (spreadByA ++ answeredByB) = some s ∧
    s.sent.length = 3 ∧ (s.state false).self.incarnation = 1 ∧
    ∀ out ∈ s.sent, out.UpTo "b" 1 := by
  have haway : (false, MembershipEvent.addPeer 0) ∉ spreadByA ++ answeredByB := by decide
  obtain ⟨s, hs, hsent, hinc⟩ : ∃ s,
      run (Parties.step Sched.member) (Cluster.start (fun _ => {}) (fun _ => 0) pairHeap)
        (spreadByA ++ answeredByB) = some s ∧ s.sent.length = 3 ∧
      (s.state false).self.incarnation = 1 := ⟨_, rfl, rfl, rfl⟩
  refine ⟨s, hs, hsent, hinc, fun out hout => ?_⟩
  have hall := (refutations_are_consecutive starts_pairHeap haway hs).2.2 out (.inl hout)
  rw [hinc] at hall
  exact hall.1

end Example

end GossipRl
