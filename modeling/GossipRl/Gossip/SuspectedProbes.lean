import GossipRl.Gossip.Probes
import GossipRl.Gossip.Suspicion

/-!
# No suspicion after an answer

From the check that finds its probe unanswered to the end of `_suspect_peer` a task holds
`probe_lock`, and `ACK`s are handled under that lock. So none with the number of the probe is handled
in between, and one that has been handled since the probe was registered makes the check fail.
-/

namespace GossipRl
open Support

namespace Pc

/-- Where a task can be that has registered the probe `q` of `target`, and none since: past the
check only if the probe has not been `answered`. -/
def After (target : Ref) (q : Int) (answered : Prop) : Pc → Prop
  | .probeWait target' q' | .probeCheck target' q' => target' = target ∧ q' = q
  | .indirectSelect target' q' | .indirectRegister target' q' _ =>
    target' = target ∧ q' = q ∧ ¬ answered
  | .suspectPeer target' _ => target' = target ∧ ¬ answered
  | .suspectQueue .. => ¬ answered
  | .probeSleep | .probePick | .probeRegister .. => True
  | _ => False

variable {pc pc' : Pc} {target : Ref} {q : Int} {answered answered' : Prop}
  {m m' : MembershipManager}

theorem After.acks (h : pc.After target q answered) : pc.acks = none := by
  cases pc <;> first | rfl | cases h

theorem After.of_not_holds (h : pc.After target q answered) (hl : .probe ∉ pc.holds) :
    pc.After target q answered' := by
  cases pc with
  | indirectSelect | indirectRegister | suspectPeer | suspectQueue => simp [holds] at hl
  | _ => exact h

theorem Stretch.after (h : Stretch m m' pc pc') (hpc : pc.After target q answered)
    (hreg : ∀ target' probe, pc ≠ .probeRegister target' probe)
    (hanswered : answered → m.unanswered q = false) : pc'.After target q answered := by
  cases h with
  | pick | answered | raised | unmarked | queued => trivial
  | register target' probe => exact absurd rfl (hreg target' probe)
  | wake => exact hpc
  | unanswered target' sequence hyes =>
    obtain ⟨rfl, rfl⟩ := hpc
    refine ⟨rfl, rfl, fun ha => ?_⟩
    cases hyes.symm.trans (hanswered ha)
  | helped => exact hpc
  | alone => exact ⟨hpc.1, hpc.2.2⟩
  | marked => exact hpc.2
  | acked | handled => cases hpc
  | other _ _ hquiet _ hloop =>
    -- only the probe loop is left, and it goes on
    have hpc' : pc'.betweenProbes = true := by
      rw [hloop]
      cases pc <;> simp_all [quiet, inProbe, After, betweenProbes]
    cases pc' <;> trivial

end Pc

namespace MembershipManager
variable {m m' : MembershipManager} {pc pc' : Pc} {q : Int}

theorem unanswered_eq_false_iff : m.unanswered q = false ↔
    ∀ probe, m.pendingProbes.get? q = some probe → probe.acked = true := by
  unfold unanswered
  cases m.pendingProbes.get? q <;> simp

theorem answered_stretch (h : Pc.Stretch m m' pc pc') (hq : m.unanswered q = false)
    (hreg : ∀ target probe, pc = .probeRegister target probe → probe.sequence ≠ q) :
    m'.unanswered q = false := by
  rw [unanswered_eq_false_iff] at hq ⊢
  intro probe hprobe
  rcases h.pending_cases with ⟨hp, -, -⟩ | ⟨target, probe', rfl, -, hp⟩ |
    ⟨msg, probe', _, -, -, -, hp⟩ | ⟨msg, _, _, -, -, hp⟩
  · rw [hp] at hprobe
    exact hq probe hprobe
  · rw [hp, Dict.get?_set_of_ne (hreg target probe' rfl).symm] at hprobe
    exact hq probe hprobe
  · rw [hp] at hprobe
    rcases Dict.get?_set_eq_some_iff.1 hprobe with ⟨-, rfl⟩ | ⟨-, hprobe⟩
    · rfl
    · exact hq probe hprobe
  · rw [hp] at hprobe
    exact hq probe (Dict.get?_erase_eq_some_iff.1 hprobe).2

/-- However far an `ACK` is handled, its probe is answered. -/
theorem answered_of_acks {now : ℚ} {picks : List Ref} (hpc : pc.acks = some q)
    (h : pc.advance now picks m = some (pc', m')) : m'.unanswered q = false := by
  rw [unanswered_eq_false_iff]
  intro probe hprobe
  cases pc with
  | ack msg =>
    obtain rfl := Option.some.inj hpc
    simp only [Pc.advance] at h
    split at h
    · rename_i hnone
      obtain ⟨-, rfl⟩ := Prod.mk.inj (Option.some.inj h)
      cases hnone.symm.trans hprobe
    · obtain ⟨-, rfl⟩ := Prod.mk.inj (Option.some.inj h)
      rcases Dict.get?_set_eq_some_iff.1 hprobe with ⟨-, rfl⟩ | ⟨hne, -⟩
      · rfl
      · exact absurd rfl hne
  | ackPeer msg id l =>
    obtain rfl := Option.some.inj hpc
    obtain ⟨-, rfl⟩ := Prod.mk.inj (Option.some.inj h)
    rw [pendingProbes_ackPeer, Dict.get?_erase, if_pos rfl] at hprobe
    cases hprobe
  | _ => cases hpc

end MembershipManager

namespace Sched
open MembershipManager
variable {s s' : Sched} {e : MembershipEvent} {t : Nat} {q : Int}

/-- No probe with the number `q` is going to be registered. -/
structure Used (q : Int) (s : Sched) : Prop where
  bound : q ≤ s.manager.sequenceNum
  none_left : ∀ target probe, .probeRegister target probe ∈ s.tasks → probe.sequence ≠ q

theorem Used.step (hq : s.Used q) (hs : s.ProbesOk) (h : s.step e = some s') : s'.Used q := by
  refine ⟨hq.bound.trans (sameSetup_step h).sequence, fun target probe hmem => ?_⟩
  by_cases he : ∃ t now picks, e = .resume t now picks
  · obtain ⟨t, now, picks, rfl⟩ := he
    obtain ⟨pc, pc', m, ht, -, -, hstr, rfl⟩ := stretch_of_step hs.past h
    rcases List.mem_or_eq_of_mem_set hmem with hmem | rfl
    · exact hq.none_left target probe hmem
    · cases hstr with
      | pick _ _ _ hnew =>
        have := hq.bound
        omega
      | other _ _ _ hpc' => cases hpc'
  · obtain ⟨pc, hpc, htasks, -⟩ := step_spawns h fun t now picks heq => he ⟨t, now, picks, heq⟩
    rw [htasks] at hmem
    rcases List.mem_append.1 hmem with hmem | hmem
    · exact hq.none_left target probe hmem
    · obtain rfl := List.mem_singleton.1 hmem
      cases hpc

theorem answered_step (hs : s.ProbesOk) (hq : s.Used q) (h : s.step e = some s')
    (hans : s.manager.unanswered q = false ∨ HandlesAck q s e) :
    s'.manager.unanswered q = false := by
  by_cases he : ∃ t now picks, e = .resume t now picks
  · obtain ⟨t, now, picks, rfl⟩ := he
    obtain ⟨pc, pc', m, ht, -, hadv, hstr, rfl⟩ := stretch_of_step hs.past h
    rcases hans with hans | ⟨t', now', picks', pc₁, heq, ht', hacks⟩
    · refine answered_stretch hstr hans ?_
      rintro target probe rfl
      exact hq.none_left target probe (List.mem_of_getElem? ht)
    · obtain ⟨rfl, -, -⟩ := MembershipEvent.resume.inj heq
      obtain rfl := Option.some.inj (ht.symm.trans ht')
      exact answered_of_acks hacks hadv
  · obtain ⟨-, -, -, hp⟩ := step_spawns h fun t now picks heq => he ⟨t, now, picks, heq⟩
    rcases hans with hans | ⟨t, now, picks, -, heq, -⟩
    · unfold unanswered at hans ⊢
      rwa [hp]
    · exact absurd ⟨t, now, picks, heq⟩ he

theorem not_holds_of_handlesAck {pc : Pc} (hs : s.ProbesOk) (h : s.step e = some s')
    (hack : HandlesAck q s e) (ht : s.tasks[t]? = some pc) (hpc : pc.acks = none) :
    .probe ∉ pc.holds := by
  intro hl
  obtain ⟨t', now, picks, pc', rfl, ht', hacks⟩ := hack
  obtain ⟨pc₁, _, _, ht₁, hfree, -, -⟩ := step_resume_iff.1 h
  obtain rfl := Option.some.inj (ht'.symm.trans ht₁)
  cases pc' with
  | ack msg => exact hfree .probe rfl pc (List.mem_of_getElem? ht) hl
  | ackPeer msg id l =>
    obtain rfl := hs.exclusive t t' ⟨pc, ht, hl⟩ ⟨_, ht', by simp [Pc.holds]⟩
    obtain rfl := Option.some.inj (ht.symm.trans ht')
    cases hpc
  | _ => cases hacks

theorem after_step {target : Ref} {answered : Prop} {pc : Pc} (hs : s.ProbesOk)
    (h : s.step e = some s') (hreg : ¬ Registers t s e) (ht : s.tasks[t]? = some pc)
    (hpc : pc.After target q answered) (hanswered : answered → s.manager.unanswered q = false) :
    ∃ pc', s'.tasks[t]? = some pc' ∧ pc'.After target q (answered ∨ HandlesAck q s e) := by
  have hpc' : pc.After target q (answered ∨ HandlesAck q s e) := by
    by_cases hack : HandlesAck q s e
    · exact hpc.of_not_holds (not_holds_of_handlesAck hs h hack ht hpc.acks)
    · rwa [or_iff_left hack]
  by_cases he : ∃ t now picks, e = .resume t now picks
  · obtain ⟨t', now, picks, rfl⟩ := he
    obtain ⟨pc₁, pc₁', m, ht', -, -, hstr, rfl⟩ := stretch_of_step hs.past h
    rcases eq_or_ne t' t with rfl | hne
    · obtain rfl := Option.some.inj (ht.symm.trans ht')
      refine ⟨pc₁', List.getElem?_set_self (List.getElem?_eq_some_iff.1 ht).1, ?_⟩
      refine hstr.after hpc' ?_ ?_
      · rintro target' probe rfl
        exact hreg ⟨now, picks, target', probe, rfl, ht⟩
      · rintro (hans | ⟨t₂, now₂, picks₂, pc₂, heq, ht₂, hacks⟩)
        · exact hanswered hans
        · obtain ⟨rfl, -, -⟩ := MembershipEvent.resume.inj heq
          obtain rfl := Option.some.inj (ht.symm.trans ht₂)
          cases hpc.acks.symm.trans hacks
    · exact ⟨pc, by rw [List.getElem?_set_ne hne, ht], hpc'⟩
  · obtain ⟨pc₁, -, htasks, -⟩ := step_spawns h fun t now picks heq => he ⟨t, now, picks, heq⟩
    refine ⟨pc, ?_, hpc'⟩
    rw [htasks, List.getElem?_append_left (List.getElem?_eq_some_iff.1 ht).1, ht]

/-- What holds of task `t` and its probe `q` as long as it registers no other. -/
structure ProbeRun (t : Nat) (target : Ref) (q : Int) (answered : Prop) (s : Sched) : Prop where
  ok : s.ProbesOk
  used : s.Used q
  settled : answered → s.manager.unanswered q = false
  after : ∃ pc, s.tasks[t]? = some pc ∧ pc.After target q answered

theorem ProbeRun.step {target : Ref} {answered : Prop} (hr : s.ProbeRun t target q answered)
    (h : s.step e = some s') (hreg : ¬ Registers t s e) :
    s'.ProbeRun t target q (answered ∨ HandlesAck q s e) := by
  obtain ⟨hs, hq, hans, pc, ht, hpc⟩ := hr
  refine ⟨hs.step h, hq.step hs h, fun ha => ?_, after_step hs h hreg ht hpc hans⟩
  exact answered_step hs hq h (ha.imp_left hans)

theorem probeRun_of_registers {s : Sched} {now : ℚ} {picks : List Ref} {target : Ref}
    {probe : ProbeState} (hs : s.ProbesOk) (ht : s.tasks[t]? = some (.probeRegister target probe))
    (h : s.step (.resume t now picks) = some s') :
    s'.ProbeRun t target probe.sequence False := by
  have hok := hs.step h
  obtain ⟨pc, pc', m, ht', -, hadv, rfl⟩ := step_resume_iff.1 h
  obtain rfl := Option.some.inj (ht.symm.trans ht')
  obtain ⟨rfl, -⟩ := Prod.mk.inj (Option.some.inj hadv)
  have hlt := (List.getElem?_eq_some_iff.1 ht).1
  have hself : (s.tasks.set t (.probeWait target probe.sequence))[t]? =
      some (.probeWait target probe.sequence) := List.getElem?_set_self hlt
  refine ⟨hok, ⟨hok.bound t _ ⟨_, hself, rfl⟩, ?_⟩, False.elim, _, hself, rfl, rfl⟩
  intro target' probe' hmem heq
  obtain ⟨t', ht'⟩ := List.mem_iff_getElem?.1 hmem
  obtain rfl := hok.numbers t t' probe.sequence ⟨_, hself, rfl⟩ ⟨_, ht', congrArg some heq⟩
  cases hself.symm.trans ht'

end Sched

/-- From the registration of a probe by task `t` to its call of `_suspect_peer`, and to the point
where that marks the target, no `ACK` with the number of the probe has been handled. -/
theorem no_suspicion_after_answer {config : MembershipConfig} {localPeer : Ref} {heap : Ref → Peer}
    {es₁ es₂ : List MembershipEvent} {s₁ s₂ s₃ : Sched} {t : Nat} {now : ℚ} {picks : List Ref}
    {target target' : Ref} {probe : ProbeState} {drop : Option Int}
    (h₁ : run Sched.step (.init config localPeer heap) es₁ = some s₁)
    (hprobe : s₁.tasks[t]? = some (.probeRegister target probe))
    (hreg : s₁.step (.resume t now picks) = some s₂) (h₂ : run Sched.step s₂ es₂ = some s₃)
    (hsame : Along Sched.step (fun s e => ¬ Sched.Registers t s e) s₂ es₂)
    (hsus : s₃.tasks[t]? = some (.suspectPeer target' drop)) :
    target' = target ∧
      Along Sched.step (fun s e => ¬ Sched.HandlesAck probe.sequence s e) s₂ es₂ := by
  have hrun : s₃.ProbeRun t target probe.sequence
      (Since Sched.step (Sched.HandlesAck probe.sequence) (fun _ => False) s₂ es₂) := by
    refine run_induction (motive := fun es s => s.ProbeRun t target probe.sequence
      (Since Sched.step (Sched.HandlesAck probe.sequence) (fun _ => False) s₂ es)) ?_ ?_ hsame h₂
    · have hnone : ¬ Since Sched.step (Sched.HandlesAck probe.sequence) (fun _ => False) s₂ [] :=
        Since.not_nil
      rw [iff_false_intro hnone]
      exact Sched.probeRun_of_registers (Sched.probesOk_of_run h₁) hprobe hreg
    · intro es s e s' hes hr hno hstep
      rw [Since.concat_iff hes, or_comm, and_iff_right not_false]
      exact hr.step hstep hno
  obtain ⟨pc, hpc, hafter⟩ := hrun.after
  obtain rfl := Option.some.inj (hsus.symm.trans hpc)
  obtain ⟨rfl, hnone⟩ := hafter
  refine ⟨rfl, fun es e es' s heq hs hack => hnone ⟨es, e, es', s, heq, hs, hack, ?_⟩⟩
  exact fun _ _ => not_false

section Example

/-- `b` is added to the table of `a` and picked for a probe. -/
def pickedB : List MembershipEvent :=
  [.addPeer 1, .resume 0 0 [], .start, .resume 1 0 [1]]

/-- The probe waits, finds no answer, though another one has come, and no helper. -/
def unansweredB : List MembershipEvent :=
  [.receive (.createAck "b" 7 "a"), .resume 1 1 [], .resume 2 1 [], .resume 1 1 [], .resume 1 1 []]

theorem no_suspicion_after_answer_once : ∃ s₁ s₂ s₃ : Sched,
    run Sched.step (.init {} 0 namedB) pickedB = some s₁ ∧ s₁.step (.resume 1 0 []) = some s₂ ∧
    run Sched.step s₂ unansweredB = some s₃ ∧ s₃.tasks[1]? = some (.suspectPeer 1 none) ∧
    Along Sched.step (fun s e => ¬ Sched.HandlesAck 1 s e) s₂ unansweredB := by
  have calm : ∀ {s : Sched} {e} (pc), s.tasks[1]? = some pc → pc.toRegister = none →
      ¬ Sched.Registers 1 s e := by
    rintro s e pc ht hpc ⟨now, picks, target, probe, -, ht'⟩
    obtain rfl := Option.some.inj (ht.symm.trans ht')
    cases hpc
  obtain ⟨s₁, s₂, s₃, h₁, hprobe, hreg, h₂, hsus, hsame⟩ : ∃ s₁ s₂ s₃ : Sched,
      run Sched.step (.init {} 0 namedB) pickedB = some s₁ ∧
      s₁.tasks[1]? = some (.probeRegister 1 { targetId := "b", sequence := 1, startTime := 0 }) ∧
      s₁.step (.resume 1 0 []) = some s₂ ∧ run Sched.step s₂ unansweredB = some s₃ ∧
      s₃.tasks[1]? = some (.suspectPeer 1 none) ∧
      Along Sched.step (fun s e => ¬ Sched.Registers 1 s e) s₂ unansweredB := by
    refine ⟨_, _, _, rfl, rfl, rfl, rfl, rfl, ?_⟩
    refine .cons (calm (.probeWait 1 1) rfl rfl) rfl ?_
    refine .cons (calm (.probeWait 1 1) rfl rfl) rfl ?_
    refine .cons (calm (.probeCheck 1 1) rfl rfl) rfl ?_
    refine .cons (calm (.probeCheck 1 1) rfl rfl) rfl ?_
    exact .singleton (calm (.indirectSelect 1 1) rfl rfl)
  exact ⟨s₁, s₂, s₃, h₁, hreg, h₂, hsus, (no_suspicion_after_answer h₁ hprobe hreg h₂ hsame hsus).2⟩

end Example

end GossipRl
