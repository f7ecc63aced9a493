import GossipRl.Gossip.Deadlock
import GossipRl.Gossip.StoredState

/-!
# Probes in flight

`_probe_peer` registers a probe, sleeps, and goes on under `probe_lock` if it finds the probe
unanswered. `Pc.Stretch` lists what tasks do to the pending probes on the way. The second
acquisition of `probe_lock` is never passed, so nobody is behind it (`Pc.pastReacquire`).
`Sched.ProbesOk` holds in every state that a run reaches: `probe_lock` has one holder, the probes
have numbers of their own, and a probe is acknowledged only while the task that does it is at work.
-/

namespace GossipRl
open Support

namespace Pc

/-- `_probe_peer` has registered its probe and has not returned. -/
def inProbe : Pc → Bool
  | .probeWait .. | .probeCheck .. | .indirectSelect .. | .indirectRegister .. | .indirectWait ..
  | .indirectCheck .. | .suspectPeer .. | .suspectQueue .. => true
  | _ => false

/-- Neither at a probe nor in the middle of an `ACK`. -/
def quiet : Pc → Bool
  | .ackPeer .. | .probeRegister .. => false
  | pc => !pc.inProbe

/-- The probe loop between two probes. -/
def betweenProbes : Pc → Bool
  | .probeSleep | .probePick => true
  | _ => false

/-- The number of the probe that the task is about to register. -/
def toRegister : Pc → Option Int
  | .probeRegister _ probe => some probe.sequence
  | _ => none

/-- The number of the probe that the task has registered, while it knows it. -/
def registered : Pc → Option Int
  | .probeWait _ sequence | .probeCheck _ sequence | .indirectSelect _ sequence
  | .indirectRegister _ sequence _ | .indirectWait _ sequence | .indirectCheck _ sequence =>
    some sequence
  | _ => none

def sequence? (pc : Pc) : Option Int := pc.toRegister.or pc.registered

/-- The number of the `ACK` that the task is handling. -/
def acks : Pc → Option Int
  | .ack msg | .ackPeer msg _ _ => some msg.sequence
  | _ => none

/-- Behind the second acquisition of `probe_lock`. -/
def pastReacquire : Pc → Bool
  | .indirectWait .. | .indirectCheck .. | .suspectPeer _ (some _) | .suspectQueue _ (some _) => true
  | _ => false

/-- What a stretch of a task does to the pending probes. -/
inductive Stretch (m m' : MembershipManager) : Pc → Pc → Prop
  | pick (target : Ref) (probe : ProbeState) (hacked : probe.acked = false)
      (hnew : probe.sequence = m.sequenceNum + 1) (hnum : m'.sequenceNum = m.sequenceNum + 1)
      (hp : m'.pendingProbes = m.pendingProbes) :
      Stretch m m' .probePick (.probeRegister target probe)
  | register (target : Ref) (probe : ProbeState)
      (hp : m'.pendingProbes = m.pendingProbes.set probe.sequence probe) :
      Stretch m m' (.probeRegister target probe) (.probeWait target probe.sequence)
  | wake (target : Ref) (sequence : Int) (hp : m'.pendingProbes = m.pendingProbes) :
      Stretch m m' (.probeWait target sequence) (.probeCheck target sequence)
  | answered (target : Ref) (sequence : Int) (hno : m.unanswered sequence = false)
      (hp : m'.pendingProbes = m.pendingProbes) :
      Stretch m m' (.probeCheck target sequence) .probeSleep
  | unanswered (target : Ref) (sequence : Int) (hyes : m.unanswered sequence = true)
      (hp : m'.pendingProbes = m.pendingProbes) :
      Stretch m m' (.probeCheck target sequence) (.indirectSelect target sequence)
  | helped (target : Ref) (sequence : Int) (probes : List Ref)
      (hp : m'.pendingProbes = m.pendingProbes) :
      Stretch m m' (.indirectSelect target sequence) (.indirectRegister target sequence probes)
  | alone (target : Ref) (sequence : Int) (hno : m.NoHelper target)
      (hp : m'.pendingProbes = m.pendingProbes) :
      Stretch m m' (.indirectSelect target sequence) (.suspectPeer target none)
  | raised (target : Ref) (sequence : Int) (hno : m.NoHelper target)
      (hp : m'.pendingProbes = m.pendingProbes) :
      Stretch m m' (.indirectSelect target sequence) .probeSleep
  | marked (target : Ref) (out : MessageHeader) (hp : m'.pendingProbes = m.pendingProbes) :
      Stretch m m' (.suspectPeer target none) (.suspectQueue out none)
  | unmarked (target : Ref) (hp : m'.pendingProbes = m.pendingProbes) :
      Stretch m m' (.suspectPeer target none) .probeSleep
  | queued (out : MessageHeader) (hp : m'.pendingProbes = m.pendingProbes) :
      Stretch m m' (.suspectQueue out none) .probeSleep
  | acked (msg : MessageHeader) (probe : ProbeState) (latencyMs : ℚ)
      (hprobe : m.pendingProbes.get? msg.sequence = some probe)
      (hp : m'.pendingProbes = m.pendingProbes.set msg.sequence { probe with acked := true }) :
      Stretch m m' (.ack msg) (.ackPeer msg probe.targetId latencyMs)
  | handled (msg : MessageHeader) (targetId : String) (latencyMs : ℚ)
      (hp : m'.pendingProbes = m.pendingProbes.erase msg.sequence) :
      Stretch m m' (.ackPeer msg targetId latencyMs) .done
  | other (pc pc' : Pc) (hpc : pc.quiet = true) (hpc' : pc'.quiet = true)
      (hloop : pc'.betweenProbes = pc.betweenProbes)
      (hp : m'.pendingProbes = m.pendingProbes) : Stretch m m' pc pc'

end Pc

namespace MembershipManager
variable {m m' : MembershipManager} {id : String} {r : Ref} {now : ℚ} {msg : MessageHeader}

theorem pendingProbes_onEntry {f : Ref → MembershipManager → MembershipManager}
    (h : ∀ r, (f r m).pendingProbes = m.pendingProbes) :
    (m.onEntry id f).pendingProbes = m.pendingProbes := by
  cases hr : m.peers.get? id with
  | none => rw [onEntry_of_none hr]
  | some r => rw [onEntry_of_some hr, h]

@[simp] theorem pendingProbes_reviveEntry {i : Int} :
    (m.reviveEntry now id i r).pendingProbes = m.pendingProbes := by
  unfold reviveEntry
  dsimp only
  split <;> rfl

@[simp] theorem pendingProbes_startSuspicionTimer :
    (m.startSuspicionTimer id).pendingProbes = m.pendingProbes := by
  unfold startSuspicionTimer
  split <;> rfl

theorem pendingProbes_ackPeer {l : ℚ} :
    (m.ackPeer now msg id l).pendingProbes = m.pendingProbes.erase msg.sequence := by
  have hu : (m.onEntry id fun r m => (m.setPeer r ((m.heap r).updateLatency l)).reviveEntry now id
      msg.incarnation r).pendingProbes = m.pendingProbes :=
    pendingProbes_onEntry fun r => pendingProbes_reviveEntry
  exact congrArg (Dict.erase · msg.sequence) hu

theorem pendingProbes_handleSuspect :
    (m.handleSuspect id msg).pendingProbes = m.pendingProbes := by
  refine pendingProbes_onEntry ?_
  intro r
  dsimp only
  split
  · rw [pendingProbes_startSuspicionTimer]; rfl
  · rfl

theorem pendingProbes_handleDead : (m.handleDead id msg).pendingProbes = m.pendingProbes := by
  refine pendingProbes_onEntry ?_
  intro r
  dsimp only
  split <;> rfl

theorem pendingProbes_confirmDead : (m.confirmDead id).pendingProbes = m.pendingProbes := by
  refine pendingProbes_onEntry ?_
  intro r
  split <;> rfl

theorem pendingProbes_suspectPeer (target : Ref) :
    (m.suspectPeer target).2.pendingProbes = m.pendingProbes := by
  unfold suspectPeer
  dsimp only
  split
  · rfl
  · split
    · exact pendingProbes_startSuspicionTimer
    · rfl

theorem pendingProbes_addPeer (r : Ref) : (m.addPeer r).2.pendingProbes = m.pendingProbes := by
  rcases addPeer_cases r m with ⟨-, heq⟩ | heq <;> rw [heq]

theorem pendingProbes_removePeer (id : String) :
    (m.removePeer id).2.pendingProbes = m.pendingProbes := by rw [removePeer_snd]

end MembershipManager

namespace Pc
open MembershipManager
variable {pc pc' : Pc} {now : ℚ} {picks : List Ref} {m m' : MembershipManager}

@[elab_as_elim]
theorem both_of_advance {motive : Pc → MembershipManager → Prop} {pc₁ : Pc} {m₁ : MembershipManager}
    (h : some (pc₁, m₁) = some (pc', m')) (hm : motive pc₁ m₁) : motive pc' m' := by
  obtain ⟨rfl, rfl⟩ := Prod.mk.inj (Option.some.inj h)
  exact hm

theorem stretch_advance (h : pc.advance now picks m = some (pc', m'))
    (hpast : pc.pastReacquire = false) (hpc : ∀ target q probes, pc ≠ .indirectRegister target q probes) :
    Stretch m m' pc pc' := by
  cases pc with
  | ping msg =>
    exact both_of_advance h (.other _ _ rfl rfl rfl (pendingProbes_onEntry fun _ => rfl))
  | alive id msg =>
    exact both_of_advance h
      (.other _ _ rfl rfl rfl (pendingProbes_onEntry fun _ => pendingProbes_reviveEntry))
  | suspect id msg => exact both_of_advance h (.other _ _ rfl rfl rfl pendingProbes_handleSuspect)
  | dead id msg => exact both_of_advance h (.other _ _ rfl rfl rfl pendingProbes_handleDead)
  | confirm id τ => exact both_of_advance h (.other _ _ rfl rfl rfl pendingProbes_confirmDead)
  | addPeer r => exact both_of_advance h (.other _ _ rfl rfl rfl (pendingProbes_addPeer r))
  | removePeer id => exact both_of_advance h (.other _ _ rfl rfl rfl (pendingProbes_removePeer id))
  | ackPeer msg id l => exact both_of_advance h (.handled msg id l pendingProbes_ackPeer)
  | ack msg =>
    simp only [advance] at h
    split at h
    · exact both_of_advance h (.other _ _ rfl rfl rfl rfl)
    · rename_i probe hprobe
      exact both_of_advance h (.acked msg probe _ hprobe rfl)
  | probePick =>
    simp only [advance] at h
    repeat' split at h
    all_goals first
      | exact both_of_advance h (.other _ _ rfl rfl rfl rfl)
      | exact both_of_advance h (.pick _ _ rfl rfl rfl rfl)
      | cases h
  | probeRegister target probe => exact both_of_advance h (.register target probe rfl)
  | probeWait target q => exact both_of_advance h (.wake target q rfl)
  | probeCheck target q =>
    simp only [advance] at h
    split at h
    · rename_i hyes
      exact both_of_advance h (.unanswered target q hyes rfl)
    · rename_i hno
      exact both_of_advance h (.answered target q (by simpa using hno) rfl)
  | indirectSelect target q =>
    simp only [advance] at h
    split at h
    · rename_i hneg
      exact both_of_advance h (.raised target q (.inl hneg.le) rfl)
    · rename_i hneg
      split at h
      · rename_i hsel
        split at h
        · rename_i hnil
          exact both_of_advance h
            (.alone target q ((hsel.eq_nil_iff (Int.not_lt.1 hneg)).1 hnil) rfl)
        · exact both_of_advance h (.helped target q picks rfl)
      · cases h
  | indirectRegister target q probes => exact absurd rfl (hpc target q probes)
  | indirectWait | indirectCheck => cases hpast
  | suspectPeer target drop =>
    cases drop with
    | some q => cases hpast
    | none =>
      have hp := pendingProbes_suspectPeer (m := m) target
      simp only [advance] at h
      split at h
      · rename_i m₁ heq
        rw [heq] at hp
        exact both_of_advance h (.unmarked target hp)
      · rename_i out m₁ heq
        rw [heq] at hp
        exact both_of_advance h (.marked target out hp)
  | suspectQueue out drop =>
    cases drop with
    | some q => cases hpast
    | none => exact both_of_advance h (.queued out rfl)
  | done => cases h
  | _ => exact both_of_advance h (.other _ _ rfl rfl rfl rfl)

theorem holds_of_quiet (h : pc.quiet = true) : pc.holds = [] := by
  cases pc <;> first | rfl | cases h

theorem sequence?_of_quiet (h : pc.quiet = true) : pc.sequence? = none := by
  cases pc <;> first | rfl | cases h

theorem registered_of_quiet (h : pc.quiet = true) : pc.registered = none := by
  cases pc <;> first | rfl | cases h

theorem quiet_ofMessage (msg : MessageHeader) (m : MembershipManager) :
    (ofMessage msg m).1.quiet = true := by
  unfold ofMessage
  repeat' split
  all_goals rfl

theorem pendingProbes_ofMessage (msg : MessageHeader) (m : MembershipManager) :
    (ofMessage msg m).2.pendingProbes = m.pendingProbes := by
  unfold ofMessage
  repeat' split
  all_goals rfl

namespace Stretch

theorem pastReacquire (h : Stretch m m' pc pc') : pc'.pastReacquire = false := by
  cases h with
  | other _ _ _ hpc' => cases pc' <;> first | rfl | cases hpc'
  | _ => rfl

theorem holds_probe (h : Stretch m m' pc pc') (hl : .probe ∈ pc'.holds) :
    .probe ∈ pc.holds ∨ pc.waits = some .probe := by
  cases h with
  | other _ _ _ hpc' => simp [holds_of_quiet hpc'] at hl
  | _ => simp_all [holds, waits]

theorem acked_probeRegister {target : Ref} {probe : ProbeState}
    (h : Stretch m m' pc (.probeRegister target probe)) : probe.acked = false := by
  cases h with
  | pick _ _ hacked => exact hacked
  | other _ _ _ hpc' => cases hpc'

theorem sequence? (h : Stretch m m' pc pc') :
    pc'.sequence? = none ∨ pc'.sequence? = pc.sequence? ∨
      pc.sequence? = none ∧ pc'.sequence? = some (m.sequenceNum + 1) ∧
        m'.sequenceNum = m.sequenceNum + 1 := by
  cases h with
  | pick target probe hacked hnew hnum =>
    exact .inr (.inr ⟨rfl, congrArg some hnew, hnum⟩)
  | other _ _ _ hpc' => exact .inl (sequence?_of_quiet hpc')
  | register | wake | unanswered | helped => exact .inr (.inl rfl)
  | _ => exact .inl rfl

/-- The pending probes change where a probe is registered, where it is acknowledged, and where the
acknowledged probe is dropped. -/
theorem pending_cases (h : Stretch m m' pc pc') :
    m'.pendingProbes = m.pendingProbes ∧ (∀ msg id l, pc ≠ .ackPeer msg id l) ∧
        (∀ msg id l, pc' ≠ .ackPeer msg id l) ∨
      (∃ target probe, pc = .probeRegister target probe ∧
        pc' = .probeWait target probe.sequence ∧
        m'.pendingProbes = m.pendingProbes.set probe.sequence probe) ∨
      (∃ msg probe l, pc = .ack msg ∧ pc' = .ackPeer msg probe.targetId l ∧
        m.pendingProbes.get? msg.sequence = some probe ∧
        m'.pendingProbes = m.pendingProbes.set msg.sequence { probe with acked := true }) ∨
      ∃ msg id l, pc = .ackPeer msg id l ∧ pc' = .done ∧
        m'.pendingProbes = m.pendingProbes.erase msg.sequence := by
  cases h with
  | register target probe hp => exact .inr (.inl ⟨target, probe, rfl, rfl, hp⟩)
  | acked msg probe l hprobe hp =>
    exact .inr (.inr (.inl ⟨msg, probe, l, rfl, rfl, hprobe, hp⟩))
  | handled msg id l hp => exact .inr (.inr (.inr ⟨msg, id, l, rfl, rfl, hp⟩))
  | other _ _ hpc hpc' _ hp =>
    refine .inl ⟨hp, ?_, ?_⟩
    · rintro msg id l rfl
      cases hpc
    · rintro msg id l rfl
      cases hpc'
  | pick _ _ _ _ _ hp | wake _ _ hp | answered _ _ _ hp | unanswered _ _ _ hp | helped _ _ _ hp
  | alone _ _ _ hp | raised _ _ _ hp | marked _ _ hp | unmarked _ hp | queued _ hp =>
    exact .inl ⟨hp, by simp, by simp⟩

end Stretch

end Pc

namespace Sched
variable {s s' : Sched} {e : MembershipEvent} {t : Nat} {now : ℚ} {picks : List Ref}

theorem step_spawns (h : s.step e = some s') (he : ∀ t now picks, e ≠ .resume t now picks) :
    ∃ pc, pc.quiet = true ∧ s'.tasks = s.tasks ++ [pc] ∧
      s'.manager.pendingProbes = s.manager.pendingProbes := by
  cases e with
  | resume t now picks => exact absurd rfl (he t now picks)
  | fire τ =>
    obtain ⟨timer, -, -, rfl⟩ := step_fire_iff.1 h
    exact ⟨_, rfl, rfl, rfl⟩
  | receive msg =>
    rw [step_receive] at h
    obtain rfl := Option.some.inj h
    exact ⟨_, Pc.quiet_ofMessage .., rfl, Pc.pendingProbes_ofMessage ..⟩
  | addPeer | removePeer | readPeers | getUpdates | start =>
    obtain rfl := Option.some.inj h
    exact ⟨_, rfl, rfl, rfl⟩

/-- A task that resumes does a stretch, for the second acquisition is never passed. -/
theorem stretch_of_step (hpast : ∀ pc ∈ s.tasks, pc.pastReacquire = false)
    (h : s.step (.resume t now picks) = some s') : ∃ pc pc' m,
      s.tasks[t]? = some pc ∧ s.Free pc.waits ∧ pc.advance now picks s.manager = some (pc', m) ∧
      Pc.Stretch s.manager m pc pc' ∧ s' = ⟨m, s.tasks.set t pc'⟩ := by
  obtain ⟨pc, pc', m, ht, hfree, hadv, rfl⟩ := step_resume_iff.1 h
  have hmem := List.mem_of_getElem? ht
  refine ⟨pc, pc', m, ht, hfree, hadv, Pc.stretch_advance hadv (hpast pc hmem) ?_, rfl⟩
  rintro target q probes rfl
  exact hfree .probe rfl _ hmem (by simp [Pc.holds])

/-- Task `t` is at the probe `q`, and knows its number. -/
def OnProbe (s : Sched) (t : Nat) (q : Int) : Prop :=
  ∃ pc, s.tasks[t]? = some pc ∧ pc.sequence? = some q

/-- The step is part of handling an `ACK` with the number `q`. -/
def HandlesAck (q : Int) (s : Sched) (e : MembershipEvent) : Prop :=
  ∃ t now picks pc, e = .resume t now picks ∧ s.tasks[t]? = some pc ∧ pc.acks = some q

/-- The step is the registration of a probe by task `t`. -/
def Registers (t : Nat) (s : Sched) (e : MembershipEvent) : Prop :=
  ∃ now picks target probe, e = .resume t now picks ∧
    s.tasks[t]? = some (.probeRegister target probe)

/-- The probes in a state that a run has reached. -/
structure ProbesOk (s : Sched) : Prop where
  past : ∀ pc ∈ s.tasks, pc.pastReacquire = false
  unacked : ∀ target probe, .probeRegister target probe ∈ s.tasks → probe.acked = false
  numbers : ∀ t t' q, s.OnProbe t q → s.OnProbe t' q → t = t'
  bound : ∀ t q, s.OnProbe t q → q ≤ s.manager.sequenceNum
  exclusive : ∀ t t', s.Holds t .probe → s.Holds t' .probe → t = t'
  acked : ∀ q probe, s.manager.pendingProbes.get? q = some probe → probe.acked = true →
    ∃ msg id l, .ackPeer msg id l ∈ s.tasks ∧ msg.sequence = q
  taken : ∀ msg id l, .ackPeer msg id l ∈ s.tasks →
    ∃ probe, s.manager.pendingProbes.get? msg.sequence = some probe

theorem ProbesOk.spawn {pc : Pc} (hs : s.ProbesOk) (hpc : pc.quiet = true)
    (htasks : s'.tasks = s.tasks ++ [pc])
    (hp : s'.manager.pendingProbes = s.manager.pendingProbes)
    (hnum : s.manager.sequenceNum ≤ s'.manager.sequenceNum) : s'.ProbesOk := by
  have old_at : ∀ (t : Nat) (pc' : Pc), s'.tasks[t]? = some pc' →
      pc'.quiet = true ∨ s.tasks[t]? = some pc' := by
    intro t pc' ht
    rw [htasks] at ht
    by_cases hlt : t < s.tasks.length
    · rw [List.getElem?_append_left hlt] at ht
      exact .inr ht
    · rw [List.getElem?_append_right (Nat.le_of_not_lt hlt)] at ht
      obtain rfl := List.mem_singleton.1 (List.mem_of_getElem? ht)
      exact .inl hpc
  have old : ∀ pc' ∈ s'.tasks, pc'.quiet = true ∨ pc' ∈ s.tasks := by
    intro pc' hmem
    obtain ⟨t, ht⟩ := List.mem_iff_getElem?.1 hmem
    exact (old_at t pc' ht).imp_right List.mem_of_getElem?
  have held : ∀ t, s'.Holds t .probe → s.Holds t .probe := by
    rintro t ⟨pc', ht, hl⟩
    rcases old_at t pc' ht with hq | ht
    · rw [Pc.holds_of_quiet hq] at hl
      cases hl
    · exact ⟨pc', ht, hl⟩
  have numbered : ∀ t q, s'.OnProbe t q → s.OnProbe t q := by
    rintro t q ⟨pc', ht, hq⟩
    rcases old_at t pc' ht with hquiet | ht
    · cases (Pc.sequence?_of_quiet hquiet).symm.trans hq
    · exact ⟨pc', ht, hq⟩
  constructor
  · intro pc' hmem
    rcases old pc' hmem with hq | hmem
    · cases pc' <;> first | rfl | cases hq
    · exact hs.past pc' hmem
  · intro target probe hmem
    rcases old _ hmem with hq | hmem
    · cases hq
    · exact hs.unacked target probe hmem
  · exact fun t t' q ht ht' => hs.numbers t t' q (numbered t q ht) (numbered t' q ht')
  · exact fun t q ht => (hs.bound t q (numbered t q ht)).trans hnum
  · exact fun t t' ht ht' => hs.exclusive t t' (held t ht) (held t' ht')
  · intro q probe hq hack
    rw [hp] at hq
    obtain ⟨msg, id, l, hmem, hseq⟩ := hs.acked q probe hq hack
    exact ⟨msg, id, l, htasks ▸ List.mem_append_left _ hmem, hseq⟩
  · intro msg id l hmem
    rcases old _ hmem with hq | hmem
    · cases hq
    · rw [hp]
      exact hs.taken msg id l hmem

/-- The tasks that hold `probe_lock` after a stretch are those before it, and the one that got it. -/
theorem holds_probe_set {pc pc' : Pc} {m : MembershipManager} {t' : Nat}
    (ht : s.tasks[t]? = some pc) (hstr : Pc.Stretch s.manager m pc pc')
    (h : Holds ⟨m, s.tasks.set t pc'⟩ t' .probe) :
    s.Holds t' .probe ∨ t' = t ∧ pc.waits = some .probe := by
  obtain ⟨pc₁, ht', hl⟩ := h
  rcases eq_or_ne t t' with rfl | hne
  · rw [List.getElem?_set_self (List.getElem?_eq_some_iff.1 ht).1] at ht'
    obtain rfl := Option.some.inj ht'
    exact (hstr.holds_probe hl).imp (fun hl => ⟨pc, ht, hl⟩) fun hw => ⟨rfl, hw⟩
  · rw [List.getElem?_set_ne hne] at ht'
    exact .inl ⟨pc₁, ht', hl⟩

/-- After a stretch a task is at a probe it was at before, or has just numbered one. -/
theorem onProbe_set {pc pc' : Pc} {m : MembershipManager} {t' : Nat} {q : Int}
    (ht : s.tasks[t]? = some pc) (hstr : Pc.Stretch s.manager m pc pc')
    (h : OnProbe ⟨m, s.tasks.set t pc'⟩ t' q) : s.OnProbe t' q ∨
      t' = t ∧ q = s.manager.sequenceNum + 1 ∧ m.sequenceNum = s.manager.sequenceNum + 1 := by
  obtain ⟨pc₁, ht', hq⟩ := h
  rcases eq_or_ne t t' with rfl | hne
  · rw [List.getElem?_set_self (List.getElem?_eq_some_iff.1 ht).1] at ht'
    obtain rfl := Option.some.inj ht'
    rcases hstr.sequence? with hnone | hsame | ⟨-, hnew, hnum⟩
    · cases hnone.symm.trans hq
    · exact .inl ⟨pc, ht, hsame ▸ hq⟩
    · exact .inr ⟨rfl, (Option.some.inj (hnew.symm.trans hq)).symm, hnum⟩
  · rw [List.getElem?_set_ne hne] at ht'
    exact .inl ⟨pc₁, ht', hq⟩

namespace ProbesOk
variable {pc pc' : Pc} {m : MembershipManager}

theorem numbers_set (hs : s.ProbesOk) (ht : s.tasks[t]? = some pc)
    (hstr : Pc.Stretch s.manager m pc pc') {t₁ t₂ : Nat} {q : Int}
    (h₁ : OnProbe ⟨m, s.tasks.set t pc'⟩ t₁ q) (h₂ : OnProbe ⟨m, s.tasks.set t pc'⟩ t₂ q) :
    t₁ = t₂ := by
  rcases onProbe_set ht hstr h₁, onProbe_set ht hstr h₂ with
    ⟨h₁' | ⟨heq₁, hq₁, -⟩, h₂' | ⟨heq₂, hq₂, -⟩⟩
  · exact hs.numbers t₁ t₂ q h₁' h₂'
  · have hle := hs.bound t₁ q h₁'
    omega
  · have hle := hs.bound t₂ q h₂'
    omega
  · exact heq₁.trans heq₂.symm

/-- The lock is taken only while nobody holds it. -/
theorem exclusive_set (hs : s.ProbesOk) (ht : s.tasks[t]? = some pc) (hfree : s.Free pc.waits)
    (hstr : Pc.Stretch s.manager m pc pc') {t₁ t₂ : Nat}
    (h₁ : Holds ⟨m, s.tasks.set t pc'⟩ t₁ .probe) (h₂ : Holds ⟨m, s.tasks.set t pc'⟩ t₂ .probe) :
    t₁ = t₂ := by
  have none_held : pc.waits = some .probe → ∀ t', ¬ s.Holds t' .probe := by
    rintro hw t' ⟨pc₁, ht', hl⟩
    exact hfree .probe hw pc₁ (List.mem_of_getElem? ht') hl
  rcases holds_probe_set ht hstr h₁, holds_probe_set ht hstr h₂ with
    ⟨h₁' | ⟨heq₁, hw₁⟩, h₂' | ⟨heq₂, hw₂⟩⟩
  · exact hs.exclusive t₁ t₂ h₁' h₂'
  · exact absurd h₁' (none_held hw₂ t₁)
  · exact absurd h₂' (none_held hw₁ t₂)
  · exact heq₁.trans heq₂.symm

/-- An acknowledged probe is in the hands of the task that has just acknowledged it, or of the one that
had it before. -/
theorem acked_set (hs : s.ProbesOk) (ht : s.tasks[t]? = some pc)
    (hstr : Pc.Stretch s.manager m pc pc') {q : Int} {probe : ProbeState}
    (hq : m.pendingProbes.get? q = some probe) (hack : probe.acked = true) :
    ∃ msg id l, .ackPeer msg id l ∈ s.tasks.set t pc' ∧ msg.sequence = q := by
  have old : s.manager.pendingProbes.get? q = some probe → (∀ msg id l, msg.sequence = q →
      pc ≠ .ackPeer msg id l) → ∃ msg id l, .ackPeer msg id l ∈ s.tasks.set t pc' ∧
        msg.sequence = q := by
    intro hq hne
    obtain ⟨msg, id, l, hmem, hseq⟩ := hs.acked q probe hq hack
    exact ⟨msg, id, l, mem_set_of_ne hmem ht (hne msg id l hseq).symm, hseq⟩
  rcases hstr.pending_cases with ⟨hp, hpc, -⟩ | ⟨target, probe₀, rfl, rfl, hp⟩ |
    ⟨msg, probe₀, l, rfl, rfl, -, hp⟩ | ⟨msg, id, l, rfl, rfl, hp⟩
  · exact old (hp ▸ hq) fun msg id l _ => hpc msg id l
  · rw [hp] at hq
    rcases Dict.get?_set_eq_some_iff.1 hq with ⟨rfl, rfl⟩ | ⟨-, hq⟩
    · cases hack.symm.trans (hs.unacked target probe₀ (List.mem_of_getElem? ht))
    · exact old hq (by simp)
  · rw [hp] at hq
    rcases Dict.get?_set_eq_some_iff.1 hq with ⟨rfl, -⟩ | ⟨-, hq⟩
    · have hlt := (List.getElem?_eq_some_iff.1 ht).1
      exact ⟨msg, probe₀.targetId, l, List.mem_of_getElem? (List.getElem?_set_self hlt), rfl⟩
    · exact old hq (by simp)
  · rw [hp] at hq
    obtain ⟨hne, hq⟩ := Dict.get?_erase_eq_some_iff.1 hq
    refine old hq ?_
    rintro msg' id' l' rfl heq
    exact hne (congrArg MessageHeader.sequence (Pc.ackPeer.inj heq).1).symm

/-- The probe of an `ACK` that is being handled is dropped by nobody else: that would need
`probe_lock`, too. -/
theorem taken_set (hs : s.ProbesOk) (ht : s.tasks[t]? = some pc)
    (hstr : Pc.Stretch s.manager m pc pc') {msg : MessageHeader} {id : String} {l : ℚ}
    (hmem : .ackPeer msg id l ∈ s.tasks.set t pc') :
    ∃ probe, m.pendingProbes.get? msg.sequence = some probe := by
  have stays : ∀ {q : Int} {probe₀ : ProbeState}, m.pendingProbes =
      s.manager.pendingProbes.set q probe₀ → (∃ probe, s.manager.pendingProbes.get? msg.sequence =
        some probe) → ∃ probe, m.pendingProbes.get? msg.sequence = some probe := by
    rintro q probe₀ hp ⟨probe, hq⟩
    rw [hp, Dict.get?_set]
    split
    · exact ⟨probe₀, rfl⟩
    · exact ⟨probe, hq⟩
  have hlt := (List.getElem?_eq_some_iff.1 ht).1
  obtain ⟨t', ht'⟩ := List.mem_iff_getElem?.1 hmem
  rcases eq_or_ne t t' with rfl | hne
  · rw [List.getElem?_set_self hlt] at ht'
    obtain rfl := Option.some.inj ht'
    rcases hstr.pending_cases with ⟨-, -, hpc'⟩ | ⟨_, _, -, hpc', -⟩ |
      ⟨msg', probe₀, l', rfl, heq, hprobe, hp⟩ | ⟨_, _, _, -, hpc', -⟩
    · exact absurd rfl (hpc' msg id l)
    · cases hpc'
    · obtain ⟨rfl, -, -⟩ := Pc.ackPeer.inj heq
      exact stays hp ⟨probe₀, hprobe⟩
    · cases hpc'
  · rw [List.getElem?_set_ne hne] at ht'
    have hq := hs.taken msg id l (List.mem_of_getElem? ht')
    rcases hstr.pending_cases with ⟨hp, -, -⟩ | ⟨_, _, -, -, hp⟩ | ⟨_, _, _, -, -, -, hp⟩ |
      ⟨msg', id', l', rfl, -, -⟩
    · rwa [hp]
    · exact stays hp hq
    · exact stays hp hq
    · exact absurd (hs.exclusive t t' ⟨_, ht, by simp [Pc.holds]⟩ ⟨_, ht', by simp [Pc.holds]⟩) hne

theorem resume (hs : s.ProbesOk) (h : s.step (.resume t now picks) = some s') : s'.ProbesOk := by
  obtain ⟨pc, pc', m, ht, hfree, hadv, hstr, rfl⟩ := stretch_of_step hs.past h
  refine ⟨forall_mem_set hs.past hstr.pastReacquire, ?_, fun _ _ _ => hs.numbers_set ht hstr, ?_,
    fun _ _ => hs.exclusive_set ht hfree hstr, fun _ _ => hs.acked_set ht hstr,
    fun _ _ _ => hs.taken_set ht hstr⟩
  · intro target probe hmem
    rcases List.mem_or_eq_of_mem_set hmem with hmem | rfl
    · exact hs.unacked target probe hmem
    · exact hstr.acked_probeRegister
  · intro t' q hq
    rcases onProbe_set ht hstr hq with hq' | ⟨-, rfl, hnew⟩
    · exact (hs.bound t' q hq').trans (Pc.sameSetup_advance hadv).sequence
    · exact hnew.ge

end ProbesOk

theorem ProbesOk.step (hs : s.ProbesOk) (h : s.step e = some s') : s'.ProbesOk := by
  by_cases he : ∃ t now picks, e = .resume t now picks
  · obtain ⟨t, now, picks, rfl⟩ := he
    exact hs.resume h
  · obtain ⟨pc, hpc, htasks, hp⟩ := step_spawns h fun t now picks heq => he ⟨t, now, picks, heq⟩
    exact hs.spawn hpc htasks hp (sameSetup_step h).sequence

theorem probesOk_init (config : MembershipConfig) (localPeer : Ref) (heap : Ref → Peer) :
    (init config localPeer heap).ProbesOk where
  past _ hpc := by cases hpc
  unacked _ _ hpc := by cases hpc
  numbers := by
    rintro t t' q ⟨pc, ht, -⟩
    cases ht
  bound := by
    rintro t q ⟨pc, ht, -⟩
    cases ht
  exclusive := by
    rintro t t' ⟨pc, ht, -⟩
    cases ht
  acked _ _ hq := by cases hq
  taken _ _ _ hpc := by cases hpc

theorem probesOk_of_run {config : MembershipConfig} {localPeer : Ref} {heap : Ref → Peer}
    {events : List MembershipEvent} (h : run Sched.step (.init config localPeer heap) events = some s) :
    s.ProbesOk :=
  run_invariant (P := ProbesOk) (probesOk_init ..) (fun _ _ _ hs hstep => hs.step hstep) h

end Sched

end GossipRl
