import GossipRl.Gossip.MembershipTasks
import GossipRl.Support.Run
import GossipRl.Support.WaitFor

/-!
# Locks of the membership manager

All tasks take `probe_lock`, `peer_lock` and `updates_lock` in this order, except at one place:
`_indirect_probe` runs under the `probe_lock` of `_probe_peer` and takes it again once it has found
a helper. A task that gets there waits for itself. Where no helper is ever found the order rules
deadlocks out.
-/

namespace GossipRl
open Support

/-- The order in which tasks take locks. -/
def Lock.rank : Lock → Nat
  | .probe => 0
  | .peer => 1
  | .updates => 2

namespace Pc

/-- The part of `_indirect_probe` after a helper was found. -/
def reacquires : Pc → Bool
  | .indirectRegister .. | .indirectWait .. | .indirectCheck .. => true
  | _ => false

theorem rank_lt_of_holds {pc : Pc} {l l' : Lock} (hpc : pc.reacquires = false)
    (hw : pc.waits = some l) (hh : l' ∈ pc.holds) : l'.rank < l.rank := by
  cases pc <;> simp_all [waits, holds, reacquires]
  all_goals first
    | (subst hw; decide)
    | (subst hw; rcases hh with rfl | rfl <;> decide)

end Pc

namespace MembershipManager

/-- Peers that can be asked to probe `target` in turn. -/
def helpers (target : Ref) (m : MembershipManager) : List Ref :=
  m.candidates [(m.heap target).id, (m.heap m.localPeer).id]

/-- An indirect probe of `target` asks nobody. -/
def NoHelper (target : Ref) (m : MembershipManager) : Prop :=
  m.config.indirectProbes ≤ 0 ∨ m.helpers target = []

theorem Selects.eq_nil_iff {n : Int} {exclude : List String} {picks : List Ref}
    {m : MembershipManager} (h : m.Selects n exclude picks) (hn : 0 ≤ n) :
    picks = [] ↔ n ≤ 0 ∨ m.candidates exclude = [] := by
  unfold Selects at h
  split at h
  · subst h
    constructor
    · exact .inr
    · rintro (h0 | h)
      · rename_i hle
        exact List.length_eq_zero_iff.1 (by omega)
      · exact h
  · rename_i hlt
    obtain ⟨-, -, hlen, -⟩ := h
    constructor
    · rintro rfl
      exact .inl (by simp at hlen; omega)
    · rintro (h0 | h)
      · exact List.length_eq_zero_iff.1 (by omega)
      · simp [h] at hlt; omega

end MembershipManager

/-- Only the selection of a helper leads to the second acquisition. -/
theorem Pc.reacquires_advance {pc pc' : Pc} {now : ℚ} {picks : List Ref} {m m' : MembershipManager}
    (h : pc.advance now picks m = some (pc', m')) (hpc : pc.reacquires = false)
    (hpc' : pc'.reacquires = true) :
    ∃ target sequence, pc = .indirectSelect target sequence ∧ ¬ m.NoHelper target := by
  cases pc with
  | indirectSelect target sequence =>
    refine ⟨target, sequence, rfl, fun hno => ?_⟩
    simp only [advance] at h
    split at h
    · obtain ⟨rfl, -⟩ : Pc.probeSleep = pc' ∧ m = m' := by simpa using h
      cases hpc'
    · rename_i hneg
      split at h
      · rename_i hsel
        rw [if_pos ((hsel.eq_nil_iff (Int.not_lt.1 hneg)).2 hno)] at h
        obtain ⟨rfl, -⟩ : Pc.suspectPeer target none = pc' ∧ m = m' := by simpa using h
        cases hpc'
      · cases h
  | indirectRegister | indirectWait | indirectCheck => cases hpc
  | ack msg =>
    simp only [advance] at h
    split at h <;> · obtain rfl := (Prod.mk.inj (Option.some.inj h)).1; cases hpc'
  | probePick =>
    simp only [advance] at h
    repeat' split at h
    all_goals first
      | (obtain rfl := (Prod.mk.inj (Option.some.inj h)).1; cases hpc')
      | cases h
  | probeCheck target sequence =>
    simp only [advance] at h
    split at h <;> · obtain rfl := (Prod.mk.inj (Option.some.inj h)).1; cases hpc'
  | suspectPeer target drop =>
    simp only [advance] at h
    split at h <;> · obtain rfl := (Prod.mk.inj (Option.some.inj h)).1; cases hpc'
  | done => cases h
  | _ => obtain rfl := (Prod.mk.inj (Option.some.inj h)).1; cases hpc'

theorem Pc.reacquires_ofMessage (msg : MessageHeader) (m : MembershipManager) :
    (Pc.ofMessage msg m).1.reacquires = false := by
  unfold Pc.ofMessage
  repeat' split
  all_goals rfl

theorem Pc.advance_indirectSelect {target : Ref} {sequence : Int} {pc' : Pc} {now : ℚ}
    {picks : List Ref} {m m' : MembershipManager}
    (h : (Pc.indirectSelect target sequence).advance now picks m = some (pc', m'))
    (hhelper : ¬ m.NoHelper target) : pc' = .indirectRegister target sequence picks := by
  have hpos : ¬ m.config.indirectProbes < 0 := fun hneg => hhelper (.inl hneg.le)
  simp only [advance, if_neg hpos] at h
  split at h
  · rename_i hsel
    have hne : picks ≠ [] := fun he => hhelper ((hsel.eq_nil_iff (Int.not_lt.1 hpos)).1 he)
    rw [if_neg hne] at h
    exact (Prod.mk.inj (Option.some.inj h)).1.symm
  · cases h

namespace Sched

def Holds (s : Sched) (t : Nat) (l : Lock) : Prop := ∃ pc, s.tasks[t]? = some pc ∧ l ∈ pc.holds

def Waits (s : Sched) (t : Nat) (l : Lock) : Prop := ∃ pc, s.tasks[t]? = some pc ∧ pc.waits = some l

/-- Some task waits for a lock it holds, or some tasks wait for each other in a cycle. -/
def Deadlocked (s : Sched) : Prop := Support.Deadlocked s.Holds s.Waits

/-- If the step is the choice of helpers of an indirect probe, there is none to be chosen. -/
def AsksNobody (s : Sched) (e : MembershipEvent) : Prop :=
  ∀ t now picks target sequence, e = .resume t now picks →
    s.tasks[t]? = some (.indirectSelect target sequence) → s.manager.NoHelper target

variable {s s' : Sched}

theorem not_deadlocked (h : ∀ pc ∈ s.tasks, pc.reacquires = false) : ¬ s.Deadlocked := by
  refine not_deadlocked_of_order Lock.rank ?_
  rintro t l l' ⟨pc, hpc, hw⟩ ⟨pc', hpc', hh⟩
  obtain rfl := Option.some.inj (hpc.symm.trans hpc')
  exact pc.rank_lt_of_holds (h _ (List.mem_of_getElem? hpc)) hw hh

theorem reacquires_step {e : MembershipEvent} (h : ∀ pc ∈ s.tasks, pc.reacquires = false)
    (hasks : s.AsksNobody e) (hs : s.step e = some s') : ∀ pc ∈ s'.tasks, pc.reacquires = false := by
  intro pc' hpc'
  rcases mem_tasks_step hs hpc' with hmem | ⟨t, now, picks, pc, m, rfl, ht, hadv⟩ | ⟨msg, -, rfl⟩ |
    ⟨r, -, rfl⟩ | ⟨id, -, rfl⟩ | rfl | ⟨n, rfl⟩ | rfl | ⟨τ, timer, -, -, -, rfl⟩
  · exact h pc' hmem
  · by_contra hre
    obtain ⟨target, sequence, rfl, hno⟩ :=
      Pc.reacquires_advance hadv (h pc (List.mem_of_getElem? ht)) (by simpa using hre)
    exact hno (hasks t now picks target sequence rfl ht)
  · exact Pc.reacquires_ofMessage msg s.manager
  all_goals rfl

end Sched

/-- No reachable state is deadlocked exactly if no indirect probe of the run finds a helper. -/
theorem never_deadlocked_iff {config : MembershipConfig} {localPeer : Ref} {heap : Ref → Peer}
    {events : List MembershipEvent} {s : Sched}
    (hrun : run Sched.step (.init config localPeer heap) events = some s) :
    (∀ es₁ es₂ s₁, events = es₁ ++ es₂ →
      run Sched.step (.init config localPeer heap) es₁ = some s₁ → ¬ s₁.Deadlocked) ↔
    Along Sched.step Sched.AsksNobody (.init config localPeer heap) events := by
  constructor
  · rintro h es₁ e es₂ s₁ rfl hs₁ t now picks target sequence rfl ht
    by_contra hno
    obtain ⟨s₂, hs₂⟩ := step_of_run hrun hs₁
    obtain ⟨pc, pc', m, ht', -, hadv, rfl⟩ := Sched.step_resume_iff.1 hs₂
    obtain rfl := Option.some.inj (ht.symm.trans ht')
    obtain rfl := Pc.advance_indirectSelect hadv hno
    have hlt : t < s₁.tasks.length := (List.getElem?_eq_some_iff.1 ht).1
    refine h (es₁ ++ [.resume t now picks]) es₂ _ (by simp)
      (run_concat_eq_some.2 ⟨s₁, hs₁, hs₂⟩) (deadlocked_of_self (t := t) (l := .probe) ?_ ?_)
    · exact ⟨_, List.getElem?_set_self hlt, rfl⟩
    · exact ⟨_, List.getElem?_set_self hlt, by simp [Pc.holds]⟩
  · rintro hasks es₁ es₂ s₁ rfl hs₁
    refine Sched.not_deadlocked ?_
    exact run_induction (motive := fun _ s => ∀ pc ∈ s.tasks, pc.reacquires = false)
      (by simp [Sched.init])
      (fun _ s e s' _ hs hcond hstep => Sched.reacquires_step hs hcond hstep) hasks.of_append hs₁

section Example

/-- Peers `a`, `b` and `c`, of which `a` is the local one. -/
def threePeers : Ref → Peer
  | 0 => { id := "a" }
  | 1 => { id := "b" }
  | r => { id := String.ofList (List.replicate r 'c') }

/-- `b` and `c` are added and `b` is probed without an answer. -/
def unansweredProbe : List MembershipEvent :=
  [.addPeer 1, .resume 0 0 [], .addPeer 2, .resume 1 0 [], .start, .resume 2 0 [1], .resume 2 0 [],
    .resume 2 1 [], .resume 2 1 [], .resume 2 1 [2]]

theorem never_deadlocked_iff_start :
    ∃ s, run Sched.step (.init {} 0 threePeers) [.start, .resume 0 0 []] = some s ∧
      ((∀ es₁ es₂ s₁, [.start, .resume 0 0 []] = es₁ ++ es₂ →
          run Sched.step (.init {} 0 threePeers) es₁ = some s₁ → ¬ s₁.Deadlocked) ↔
        Along Sched.step Sched.AsksNobody (.init {} 0 threePeers) [.start, .resume 0 0 []]) := by
  obtain ⟨s, hs⟩ : ∃ s, run Sched.step (.init {} 0 threePeers) [.start, .resume 0 0 []] = some s :=
    ⟨_, rfl⟩
  exact ⟨s, hs, never_deadlocked_iff hs⟩

/-- The probe of `b` finds the helper `c` and waits for the lock it holds. -/
theorem unanswered_probe_deadlocks : ∃ s,
    run Sched.step (.init {} 0 threePeers) unansweredProbe = some s ∧
    s.tasks[2]? = some (.indirectRegister 1 1 [2]) ∧ s.Waits 2 .probe ∧ s.Holds 2 .probe ∧
    s.Deadlocked := by
  refine ⟨_, rfl, rfl, ⟨_, rfl, rfl⟩, ⟨_, rfl, by decide⟩, ?_⟩
  exact deadlocked_of_self (t := 2) (l := .probe) ⟨_, rfl, rfl⟩ ⟨_, rfl, by decide⟩

end Example

end GossipRl
