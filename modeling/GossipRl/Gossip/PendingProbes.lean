import GossipRl.Gossip.SuspectedProbes

/-!
# Pending probes

A probe that is answered is taken from the table by the `ACK`, and one that finds helpers is never
done, since it waits for the lock that it holds. But `_indirect_probe` returns without a helper and
leaves its probe registered. As long as every indirect probe of a run finds a helper
(`Sched.FindsHelper`), pending probes are those of running tasks (`Sched.PendingRun`).
-/

namespace GossipRl
open Support

/-- The task is in `_suspect_peer`. -/
def Pc.suspecting : Pc → Bool
  | .suspectPeer .. | .suspectQueue .. => true
  | _ => false

namespace Sched
variable {s s' : Sched} {e : MembershipEvent} {t : Nat} {q : Int}

/-- If the step is the choice of helpers of an indirect probe, there is one to be chosen. -/
def FindsHelper (s : Sched) (e : MembershipEvent) : Prop :=
  ∀ t now picks target sequence, e = .resume t now picks →
    s.tasks[t]? = some (.indirectSelect target sequence) → ¬ s.manager.NoHelper target

/-- The probe that the step registers, with its task. -/
def registration (s : Sched) : MembershipEvent → Option (Nat × Int)
  | .resume t _ _ => (s.tasks[t]?.bind Pc.toRegister).map fun q => (t, q)
  | _ => none

/-- Task `t` has registered the probe `q` and has returned from `_probe_peer` since. -/
def Returned (s₀ : Sched) (es : List MembershipEvent) (t : Nat) (q : Int) : Prop :=
  ∃ es₁ s₁ pc, es₁ <+: es ∧ run step s₀ es₁ = some s₁ ∧ (t, q) ∈ observe step registration s₀ es₁ ∧
    s₁.tasks[t]? = some pc ∧ pc.inProbe = false

/-- The probe `q` is over. -/
structure Gone (q : Int) (s : Sched) : Prop where
  bound : q ≤ s.manager.sequenceNum
  none_left : ∀ t, ¬ s.OnProbe t q

/-- What the registrations `regs` of a run say of the tasks. -/
def Registered (regs : List (Nat × Int)) (s : Sched) : Prop :=
  ∀ t q, (t, q) ∈ regs → s.Used q ∧ ∀ t', s.OnProbe t' q → t' = t

theorem onProbe_step (hs : s.ProbesOk) (h : s.step e = some s') (hq : s'.OnProbe t q) :
    s.OnProbe t q ∨ q = s.manager.sequenceNum + 1 := by
  by_cases he : ∃ t now picks, e = .resume t now picks
  · obtain ⟨t', now, picks, rfl⟩ := he
    obtain ⟨pc, pc', m, ht, -, -, hstr, rfl⟩ := stretch_of_step hs.past h
    exact (onProbe_set ht hstr hq).imp_right fun hnew => hnew.2.1
  · obtain ⟨pc, hpc, htasks, -⟩ := step_spawns h fun t now picks heq => he ⟨t, now, picks, heq⟩
    obtain ⟨pc₁, ht, hseq⟩ := hq
    rw [htasks, List.getElem?_append] at ht
    split at ht
    · exact .inl ⟨pc₁, ht, hseq⟩
    · obtain rfl := List.mem_singleton.1 (List.mem_of_getElem? ht)
      cases (Pc.sequence?_of_quiet hpc).symm.trans hseq

theorem Gone.step (hq : s.Gone q) (hs : s.ProbesOk) (h : s.step e = some s') : s'.Gone q := by
  refine ⟨hq.bound.trans (sameSetup_step h).sequence, fun t ht => ?_⟩
  rcases onProbe_step hs h ht with ht | heq
  · exact hq.none_left t ht
  · have := hq.bound
    omega

theorem registration_eq_some (h : registration s e = some (t, q)) :
    ∃ now picks target probe, e = .resume t now picks ∧
      s.tasks[t]? = some (.probeRegister target probe) ∧ probe.sequence = q := by
  cases e with
  | resume t' now picks =>
    simp only [registration, Option.map_eq_some_iff, Option.bind_eq_some_iff, Prod.mk.injEq] at h
    obtain ⟨q', ⟨pc, ht, hpc⟩, rfl, rfl⟩ := h
    cases pc with
    | probeRegister target probe => exact ⟨now, picks, target, probe, rfl, ht, Option.some.inj hpc⟩
    | _ => cases hpc
  | _ => cases h

theorem Registered.step {regs : List (Nat × Int)} (hr : s.Registered regs) (hs : s.ProbesOk)
    (h : s.step e = some s') : s'.Registered (regs ++ (registration s e).toList) := by
  intro t q hmem
  rcases List.mem_append.1 hmem with hmem | hmem
  · obtain ⟨hused, huniq⟩ := hr t q hmem
    refine ⟨hused.step hs h, fun t' ht' => ?_⟩
    rcases onProbe_step hs h ht' with ht' | heq
    · exact huniq t' ht'
    · have := hused.bound
      omega
  · obtain ⟨now, picks, target, probe, rfl, ht, rfl⟩ :=
      registration_eq_some (Option.mem_toList.1 hmem)
    have hrun := probeRun_of_registers hs ht h
    refine ⟨hrun.used, fun t' ht' => hrun.ok.numbers t' t _ ht' ?_⟩
    obtain ⟨pc, pc', m, ht₁, -, hadv, rfl⟩ := step_resume_iff.1 h
    obtain rfl := Option.some.inj (ht.symm.trans ht₁)
    obtain ⟨rfl, -⟩ := Prod.mk.inj (Option.some.inj hadv)
    exact ⟨_, List.getElem?_set_self (List.getElem?_eq_some_iff.1 ht).1, rfl⟩

/-- A task that has returned is not at its probe any more, and no other task ever was. -/
theorem Registered.gone {regs : List (Nat × Int)} {pc : Pc} (hr : s.Registered regs)
    (hmem : (t, q) ∈ regs) (ht : s.tasks[t]? = some pc) (hpc : pc.inProbe = false) : s.Gone q := by
  obtain ⟨hused, huniq⟩ := hr t q hmem
  refine ⟨hused.bound, fun t' ht' => ?_⟩
  obtain rfl := huniq t' ht'
  obtain ⟨pc', ht', hseq⟩ := ht'
  obtain rfl := Option.some.inj (ht.symm.trans ht')
  cases pc with
  | probeRegister target probe =>
    exact hused.none_left target probe (List.mem_of_getElem? ht) (Option.some.inj hseq)
  | probeWait | probeCheck | indirectSelect | indirectRegister | indirectWait | indirectCheck =>
    cases hpc
  | _ => cases hseq

/-- What holds as long as every indirect probe finds a helper. -/
structure PendingRun (s : Sched) : Prop where
  ok : s.ProbesOk
  calm : ∀ pc ∈ s.tasks, pc.suspecting = false
  pending : ∀ q probe, s.manager.pendingProbes.get? q = some probe →
    ∃ pc ∈ s.tasks, pc.registered = some q

theorem PendingRun.resume {now : ℚ} {picks : List Ref} (hs : s.PendingRun)
    (hhelp : s.FindsHelper (.resume t now picks)) (h : s.step (.resume t now picks) = some s') :
    s'.PendingRun := by
  have hok := hs.ok.step h
  obtain ⟨pc, pc', m, ht, hfree, -, hstr, rfl⟩ := stretch_of_step hs.ok.past h
  have hmem := List.mem_of_getElem? ht
  have hself : pc' ∈ s.tasks.set t pc' :=
    List.mem_of_getElem? (List.getElem?_set_self (List.getElem?_eq_some_iff.1 ht).1)
  have kept : ∀ q probe, s.manager.pendingProbes.get? q = some probe → pc.registered ≠ some q →
      ∃ pc₁ ∈ s.tasks.set t pc', pc₁.registered = some q := by
    intro q probe hq hne
    obtain ⟨pc₁, hmem₁, hreg⟩ := hs.pending q probe hq
    refine ⟨pc₁, mem_set_of_ne hmem₁ ht ?_, hreg⟩
    rintro rfl
    exact hne hreg
  have goesOn : ∀ q probe, s.manager.pendingProbes.get? q = some probe →
      pc'.registered = pc.registered → ∃ pc₁ ∈ s.tasks.set t pc', pc₁.registered = some q := by
    intro q probe hq hsame
    by_cases hreg : pc.registered = some q
    · exact ⟨pc', hself, hsame.trans hreg⟩
    · exact kept q probe hq hreg
  refine ⟨hok, forall_mem_set hs.calm ?_, ?_⟩
  · cases hstr with
    | alone target sequence hno => exact absurd hno (hhelp t now picks target sequence rfl ht)
    | marked => cases hs.calm _ hmem
    | other _ _ _ hpc' => cases pc' <;> first | rfl | cases hpc'
    | _ => rfl
  · intro q probe hq
    cases hstr with
    | alone target sequence hno => exact absurd hno (hhelp t now picks target sequence rfl ht)
    | raised target sequence hno => exact absurd hno (hhelp t now picks target sequence rfl ht)
    | marked | unmarked | queued => cases hs.calm _ hmem
    | wake _ _ hp | unanswered _ _ _ hp | helped _ _ _ hp =>
      rw [hp] at hq
      exact goesOn q probe hq rfl
    | register target probe' hp =>
      rw [hp] at hq
      rcases Dict.get?_set_eq_some_iff.1 hq with ⟨rfl, -⟩ | ⟨-, hq⟩
      · exact ⟨_, hself, rfl⟩
      · exact kept q probe hq (by simp [Pc.registered])
    | answered target sequence hno hp =>
      rw [hp] at hq
      refine kept q probe hq ?_
      rintro ⟨⟩
      -- acknowledged, it would still be in the hands of a task that holds `probe_lock`
      have hacked := MembershipManager.unanswered_eq_false_iff.1 hno probe hq
      obtain ⟨msg, id, l, hack, -⟩ := hs.ok.acked q probe hq hacked
      exact hfree .probe rfl _ hack (by simp [Pc.holds])
    | acked msg probe' l hprobe hp =>
      rw [hp] at hq
      rcases Dict.get?_set_eq_some_iff.1 hq with ⟨rfl, -⟩ | ⟨-, hq⟩
      · exact kept msg.sequence probe' hprobe (by simp [Pc.registered])
      · exact kept q probe hq (by simp [Pc.registered])
    | handled msg id l hp =>
      rw [hp] at hq
      exact kept q probe (Dict.get?_erase_eq_some_iff.1 hq).2 (by simp [Pc.registered])
    | pick _ _ _ _ _ hp =>
      rw [hp] at hq
      exact kept q probe hq (by simp [Pc.registered])
    | other _ _ hpc _ _ hp =>
      rw [hp] at hq
      exact kept q probe hq (by simp [Pc.registered_of_quiet hpc])

theorem PendingRun.step (hs : s.PendingRun) (hhelp : s.FindsHelper e) (h : s.step e = some s') :
    s'.PendingRun := by
  by_cases he : ∃ t now picks, e = .resume t now picks
  · obtain ⟨t, now, picks, rfl⟩ := he
    exact hs.resume hhelp h
  · have hok := hs.ok.step h
    obtain ⟨pc, hpc, htasks, hp⟩ := step_spawns h fun t now picks heq => he ⟨t, now, picks, heq⟩
    refine ⟨hok, fun pc' hmem => ?_, fun q probe hq => ?_⟩
    · rw [htasks] at hmem
      rcases List.mem_append.1 hmem with hmem | hmem
      · exact hs.calm pc' hmem
      · obtain rfl := List.mem_singleton.1 hmem
        cases pc' <;> first | rfl | cases hpc
    · rw [hp] at hq
      obtain ⟨pc', hmem, hreg⟩ := hs.pending q probe hq
      exact ⟨pc', htasks ▸ List.mem_append_left _ hmem, hreg⟩

theorem PendingRun.not_pending (hs : s.PendingRun) (hq : s.Gone q) :
    s.manager.pendingProbes.get? q = none := by
  refine Option.eq_none_iff_forall_not_mem.2 fun probe hprobe => ?_
  obtain ⟨pc, hmem, hreg⟩ := hs.pending q probe hprobe
  obtain ⟨t, ht⟩ := List.mem_iff_getElem?.1 hmem
  refine hq.none_left t ⟨pc, ht, ?_⟩
  cases pc with
  | probeRegister => cases hreg
  | _ => exact hreg

theorem PendingRun.size_le (hs : s.PendingRun) :
    s.manager.pendingProbes.size ≤ (s.tasks.filter Pc.inProbe).length := by
  have hsub : s.manager.pendingProbes.entries.map Prod.fst ⊆ s.tasks.filterMap Pc.registered := by
    intro q hmem
    obtain ⟨⟨q', probe⟩, hentry, rfl⟩ := List.mem_map.1 hmem
    obtain ⟨pc, hpc, hreg⟩ := hs.pending q' probe (Dict.get?_eq_some_iff.2 hentry)
    exact List.mem_filterMap.2 ⟨pc, hpc, hreg⟩
  calc s.manager.pendingProbes.size
      = (s.manager.pendingProbes.entries.map Prod.fst).length := (List.length_map ..).symm
    _ ≤ (s.tasks.filterMap Pc.registered).length :=
        (List.subperm_of_subset s.manager.pendingProbes.nodup hsub).length_le
    _ = s.tasks.countP fun pc => (pc.registered).isSome := List.length_filterMap_eq_countP
    _ ≤ s.tasks.countP Pc.inProbe := by
        refine List.countP_mono_left fun pc _ hsome => ?_
        cases pc <;> first | rfl | cases hsome
    _ = (s.tasks.filter Pc.inProbe).length := List.countP_eq_length_filter

theorem ProbesOk.late_ack (hs : s.ProbesOk) (hq : s.manager.pendingProbes.get? q = none)
    (hack : HandlesAck q s e) (h : s.step e = some s') : s'.manager = s.manager := by
  obtain ⟨t, now, picks, pc, rfl, ht, hacks⟩ := hack
  obtain ⟨pc₁, pc', m, ht₁, -, hadv, rfl⟩ := step_resume_iff.1 h
  obtain rfl := Option.some.inj (ht.symm.trans ht₁)
  cases pc with
  | ack msg =>
    obtain rfl := Option.some.inj hacks
    simp only [Pc.advance, hq] at hadv
    exact (Prod.mk.inj (Option.some.inj hadv)).2.symm
  | ackPeer msg id l =>
    obtain rfl := Option.some.inj hacks
    obtain ⟨probe, hprobe⟩ := hs.taken msg id l (List.mem_of_getElem? ht)
    cases hq.symm.trans hprobe
  | _ => cases hacks

end Sched

/-- In a run in which every indirect probe finds a helper, the number of a probe that has returned is
not pending, so an `ACK` for it changes nothing, and there are no more pending probes than probes
that run. -/
theorem returned_probe_not_pending {config : MembershipConfig} {localPeer : Ref}
    {heap : Ref → Peer} {events : List MembershipEvent} {s : Sched}
    (hhelp : Along Sched.step Sched.FindsHelper (.init config localPeer heap) events)
    (hrun : run Sched.step (.init config localPeer heap) events = some s) :
    (∀ t q, Sched.Returned (.init config localPeer heap) events t q →
      s.manager.pendingProbes.get? q = none ∧
      ∀ e s', Sched.HandlesAck q s e → s.step e = some s' → s'.manager = s.manager) ∧
    s.manager.pendingProbes.size ≤ (s.tasks.filter Pc.inProbe).length := by
  have hpending : s.PendingRun := by
    refine run_induction (motive := fun _ s => Sched.PendingRun s) ⟨Sched.probesOk_init .., ?_, ?_⟩
      (fun _ _ _ _ _ hs hcond hstep => hs.step hcond hstep) hhelp hrun
    · intro pc hpc
      cases hpc
    · intro q probe hq
      cases hq
  refine ⟨fun t q hret => ?_, hpending.size_le⟩
  obtain ⟨es₁, s₁, pc, ⟨es₂, rfl⟩, h₁, hmem, ht, hpc⟩ := hret
  have hregs : s₁.Registered (observe Sched.step Sched.registration (.init config localPeer heap) es₁) := by
    refine run_induction (motive := fun es s => Sched.Registered (observe Sched.step
      Sched.registration (.init config localPeer heap) es) s) ?_ ?_ .unconditional h₁
    · intro t q hmem
      cases hmem
    · intro es s e s' hes hs _ hstep
      rw [observe_concat hes]
      exact hs.step (Sched.probesOk_of_run hes) hstep
  have hgone : s.Gone q := by
    have hboth : s.ProbesOk ∧ s.Gone q := by
      refine run_invariant (P := fun s => Sched.ProbesOk s ∧ Sched.Gone q s)
        ⟨Sched.probesOk_of_run h₁, hregs.gone hmem ht hpc⟩
        (fun s e s' hs hstep => ⟨hs.1.step hstep, hs.2.step hs.1 hstep⟩) (run_of_append hrun h₁)
    exact hboth.2
  have hnone := hpending.not_pending hgone
  exact ⟨hnone, fun e s' hack hstep => hpending.ok.late_ack hnone hack hstep⟩

section Example

/-- The probe of `b` is answered. -/
def answeredB : List MembershipEvent :=
  pickedB ++ [.resume 1 0 [], .receive (.createAck "b" 1 "a"), .resume 2 1 [], .resume 2 1 [],
    .resume 1 1 [], .resume 1 1 []]

theorem returned_probe_not_pending_once : ∃ s : Sched,
    run Sched.step (.init {} 0 namedB) answeredB = some s ∧
    Sched.Returned (.init {} 0 namedB) answeredB 1 1 ∧
    s.manager.pendingProbes.get? 1 = none ∧
    s.manager.pendingProbes.size ≤ (s.tasks.filter Pc.inProbe).length := by
  have other : ∀ {s : Sched} {e}, (∀ t now picks, e ≠ .resume t now picks) → s.FindsHelper e :=
    fun he t now picks _ _ heq => absurd heq (he t now picks)
  have calm : ∀ {s : Sched} {t now picks} (pc), s.tasks[t]? = some pc →
      (∀ target sequence, pc ≠ .indirectSelect target sequence) →
      s.FindsHelper (.resume t now picks) := by
    rintro s t now picks pc ht hpc _ _ _ target sequence ⟨rfl, rfl, rfl⟩ ht'
    exact absurd (Option.some.inj (ht.symm.trans ht')) (hpc target sequence)
  have hhelp : Along Sched.step Sched.FindsHelper (.init {} 0 namedB) answeredB := by
    refine .cons (other (by simp)) rfl ?_
    refine .cons (calm (.addPeer 1) rfl (by simp)) rfl ?_
    refine .cons (other (by simp)) rfl ?_
    refine .cons (calm .probePick rfl (by simp)) rfl ?_
    refine .cons
      (calm (.probeRegister 1 { targetId := "b", sequence := 1, startTime := 0 }) rfl (by simp))
      rfl ?_
    refine .cons (other (by simp)) rfl ?_
    refine .cons (calm (.ack (.createAck "b" 1 "a")) rfl (by simp)) rfl ?_
    refine .cons (calm (.ackPeer _ _ _) rfl (by simp)) rfl ?_
    refine .cons (calm (.probeWait 1 1) rfl (by simp)) rfl ?_
    exact .singleton (calm (.probeCheck 1 1) rfl (by simp))
  have hret : Sched.Returned (.init {} 0 namedB) answeredB 1 1 :=
    ⟨answeredB, _, .probeSleep, List.prefix_rfl, rfl, by decide, rfl, rfl⟩
  obtain ⟨s, hs⟩ : ∃ s, run Sched.step (.init {} 0 namedB) answeredB = some s := ⟨_, rfl⟩
  obtain ⟨hnone, hsize⟩ := returned_probe_not_pending hhelp hs
  exact ⟨s, hs, hret, (hnone 1 1 hret).1, hsize⟩

/-- The probe of `b` finds no helper, and `b` is suspected. -/
def aloneB : List MembershipEvent :=
  pickedB ++ [.resume 1 0 [], .resume 1 0 [], .resume 1 0 [], .resume 1 0 [], .resume 1 0 [],
    .resume 1 0 []]

/-- It returns with its number still pending, and an `ACK` that comes later is taken for its answer. -/
theorem alone_probe_stays_pending : ∃ s s' : Sched,
    run Sched.step (.init {} 0 namedB) aloneB = some s ∧
    Sched.Returned (.init {} 0 namedB) aloneB 1 1 ∧ s.tasks[1]? = some .probeSleep ∧
    s.manager.pendingProbes.get? 1 ≠ none ∧
    ¬ s.manager.pendingProbes.size ≤ (s.tasks.filter Pc.inProbe).length ∧
    run Sched.step s [.receive (.createAck "b" 1 "a"), .resume 2 3 [], .resume 2 3 []] = some s' ∧
    (s'.manager.heap 1).latencyMs ≠ (s.manager.heap 1).latencyMs := by
  refine ⟨_, _, rfl, ⟨aloneB, _, .probeSleep, List.prefix_rfl, rfl, by decide, rfl, rfl⟩, rfl, ?_, ?_,
    rfl, ?_⟩
  · rintro ⟨⟩
  · decide
  · rintro ⟨⟩

end Example

end GossipRl
