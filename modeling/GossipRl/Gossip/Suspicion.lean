import GossipRl.Gossip.SuspicionTimers
import GossipRl.Support.Run

/-!
# Suspicion timers

A timer is live while it is pending, or has fired and the `_confirm_dead` task it scheduled is not
over (`Sched.LiveTimer`). Only that task ends a live timer for good: `remove_peer` and `add_peer`
leave it running, and `cancel` comes too late once it has fired. If an entry only ever becomes
suspect while no timer of its id is live (`Sched.FreshSuspicion`), then an entry that is suspect
while a timer of its id is live has been suspect since that timer was started (`Sched.Watched`).
-/

namespace GossipRl
open Support

namespace Sched
open MembershipManager

/-- The timer `τ` of `id` is pending, or the task it has scheduled is not over. -/
def LiveTimer (id : String) (τ : TimerId) (s : Sched) : Prop :=
  (∃ timer, s.manager.timers[τ]? = some timer ∧ timer.peerId = id ∧ timer.state = .pending) ∨
    .confirmStart id τ ∈ s.tasks ∨ .confirm id τ ∈ s.tasks

/-- The step does not make an entry suspect while a timer of its id is live. -/
def FreshSuspicion (s : Sched) (e : MembershipEvent) : Prop :=
  ∀ t now picks pc id, e = .resume t now picks → s.tasks[t]? = some pc → pc.Suspects s.manager id →
    ∀ τ, ¬ s.LiveTimer id τ

variable {s s' : Sched} {e : MembershipEvent} {id : String} {τ : TimerId} {r : Ref}

theorem timersLe_step (h : s.step e = some s') : s.manager.TimersLe s'.manager := by
  cases e with
  | resume t now picks =>
    obtain ⟨pc, pc', m, -, -, hadv, rfl⟩ := step_resume_iff.1 h
    by_cases hpc : ∃ id τ, pc = .confirmStart id τ
    · obtain ⟨id, τ, rfl⟩ := hpc
      obtain ⟨-, rfl⟩ := Prod.mk.inj (Option.some.inj hadv)
      exact .of_eq rfl
    · exact (Pc.timersChange_advance hadv fun id τ heq => hpc ⟨id, τ, heq⟩).timersLe
  | fire τ =>
    obtain ⟨timer, -, -, rfl⟩ := step_fire_iff.1 h
    refine .of_modify (f := fun timer => { timer with state := .fired }) (fun _ => rfl) ?_ τ rfl
    rintro _ ⟨⟩
  | receive msg =>
    obtain rfl := Option.some.inj h
    exact .of_eq (Pc.timersEq_ofMessage msg s.manager).1
  | addPeer | removePeer | readPeers | getUpdates | start =>
    obtain rfl := Option.some.inj h
    exact .of_eq rfl

theorem confirmStart_mem_step (h : s.step e = some s') (hmem : .confirmStart id τ ∈ s'.tasks) :
    .confirmStart id τ ∈ s.tasks ∨ ∃ timer, s.manager.timers[τ]? = some timer ∧
      timer.peerId = id ∧ timer.state = .pending := by
  rcases mem_tasks_step h hmem with hmem | ⟨t, now, picks, pc, m, -, -, hadv⟩ | ⟨msg, -, heq⟩ |
    ⟨r, -, heq⟩ | ⟨id', -, heq⟩ | heq | ⟨n, heq⟩ | heq | ⟨τ', timer, -, hτ, hp, heq⟩
  · exact .inl hmem
  · exact absurd rfl (Pc.advance_ne_confirmStart hadv id τ)
  · exact absurd heq.symm (Pc.ofMessage_not_confirm msg s.manager id τ).1
  · cases heq
  · cases heq
  · cases heq
  · cases heq
  · cases heq
  · obtain ⟨rfl, rfl⟩ := Pc.confirmStart.inj heq
    exact .inr ⟨timer, hτ, rfl, hp⟩

theorem confirm_mem_step (h : s.step e = some s') (hmem : .confirm id τ ∈ s'.tasks) :
    .confirm id τ ∈ s.tasks ∨ .confirmStart id τ ∈ s.tasks := by
  rcases mem_tasks_step h hmem with hmem | ⟨t, now, picks, pc, m, -, ht, hadv⟩ | ⟨msg, -, heq⟩ |
    ⟨r, -, heq⟩ | ⟨id', -, heq⟩ | heq | ⟨n, heq⟩ | heq | ⟨τ', timer, -, hτ, hp, heq⟩
  · exact .inl hmem
  · obtain rfl := Pc.eq_confirmStart_of_advance hadv
    exact .inr (List.mem_of_getElem? ht)
  · exact absurd heq.symm (Pc.ofMessage_not_confirm msg s.manager id τ).2
  all_goals cases heq

theorem liveTimer_of_step (h : s.step e = some s') (hlive : s'.LiveTimer id τ)
    (hτ : τ < s.manager.timers.length) : s.LiveTimer id τ := by
  rcases hlive with ⟨timer', hτ', hid, hp⟩ | hmem | hmem
  · obtain ⟨timer'', hτ'', hid'', hp''⟩ := timersLe_step h τ _ (List.getElem?_eq_getElem hτ)
    obtain rfl := Option.some.inj (hτ'.symm.trans hτ'')
    exact .inl ⟨_, List.getElem?_eq_getElem hτ, hid''.symm.trans hid, hp'' hp⟩
  · rcases confirmStart_mem_step h hmem with hmem | hpending
    · exact .inr (.inl hmem)
    · exact .inl hpending
  · exact .inr ((confirm_mem_step h hmem).symm)

/-- The timers of a state that a run has reached. -/
structure TimersOk (s : Sched) : Prop where
  keyed : s.manager.Keyed
  entered : s.manager.Entered fun id τ => .confirmStart id τ ∈ s.tasks
  scheduled : ∀ id τ, .confirmStart id τ ∈ s.tasks ∨ .confirm id τ ∈ s.tasks →
    ∃ timer, s.manager.timers[τ]? = some timer ∧ timer.peerId = id

theorem timersOk_init (config : MembershipConfig) (localPeer : Ref) (heap : Ref → Peer) :
    (init config localPeer heap).TimersOk where
  keyed _ _ h := by cases h
  entered _ _ h := by cases h
  scheduled _ _ h := by simp [init] at h

theorem keyed_step (h : s.step e = some s') (hs : s.manager.Keyed) : s'.manager.Keyed := by
  by_cases he : ∃ t now picks, e = .resume t now picks
  · obtain ⟨t, now, picks, rfl⟩ := he
    obtain ⟨pc, pc', m, -, -, hadv, rfl⟩ := step_resume_iff.1 h
    exact Pc.keyed_advance hadv hs
  · exact hs.updates (updates_step h (fun _ => rfl) (fun _ _ => rfl)
      fun t now picks heq => he ⟨t, now, picks, heq⟩)

theorem entered_step (h : s.step e = some s')
    (hs : s.manager.Entered fun id τ => .confirmStart id τ ∈ s.tasks) :
    s'.manager.Entered fun id τ => .confirmStart id τ ∈ s'.tasks := by
  cases e with
  | resume t now picks =>
    obtain ⟨pc, pc', m, ht, -, hadv, rfl⟩ := step_resume_iff.1 h
    by_cases hpc : ∃ id τ, pc = .confirmStart id τ
    · obtain ⟨id₀, τ₀, rfl⟩ := hpc
      obtain ⟨-, rfl⟩ := Prod.mk.inj (Option.some.inj hadv)
      intro id τ hτ
      obtain ⟨hne, hτ⟩ := Dict.get?_erase_eq_some_iff.1 hτ
      obtain ⟨timer, htimer, hid, hlive⟩ := hs id τ hτ
      exact ⟨timer, htimer, hid, hlive.imp_right fun hmem => mem_set_of_ne hmem ht (by simp [hne])⟩
    · refine (hs.change (Pc.timersChange_advance hadv fun id τ heq => hpc ⟨id, τ, heq⟩)).mono ?_
      exact fun id τ hmem => mem_set_of_ne hmem ht fun heq => hpc ⟨id, τ, heq.symm⟩
  | fire τ₀ =>
    obtain ⟨timer₀, hτ₀, -, rfl⟩ := step_fire_iff.1 h
    intro id τ hτ
    obtain ⟨timer, htimer, hid, hlive⟩ := hs id τ hτ
    by_cases heq : τ₀ = τ
    · subst heq
      obtain rfl := Option.some.inj (hτ₀.symm.trans htimer)
      exact ⟨{ timer₀ with state := .fired }, by simp [hτ₀], hid, .inr (by simp [hid])⟩
    · exact ⟨timer, by simp [heq, htimer], hid, hlive.imp_right (List.mem_append_left _)⟩
  | receive msg =>
    obtain rfl := Option.some.inj h
    exact (hs.of_eq (Pc.timersEq_ofMessage msg s.manager)).mono fun _ _ => List.mem_append_left _
  | addPeer | removePeer | readPeers | getUpdates | start =>
    obtain rfl := Option.some.inj h
    exact hs.mono fun _ _ => List.mem_append_left _

theorem TimersOk.step (hs : s.TimersOk) (h : s.step e = some s') : s'.TimersOk where
  keyed := keyed_step h hs.keyed
  entered := entered_step h hs.entered
  scheduled id τ hmem := by
    have hold : ∃ timer, s.manager.timers[τ]? = some timer ∧ timer.peerId = id := by
      rcases hmem with hmem | hmem
      · rcases confirmStart_mem_step h hmem with hmem | ⟨timer, hτ, hid, -⟩
        · exact hs.scheduled id τ (.inl hmem)
        · exact ⟨timer, hτ, hid⟩
      · exact hs.scheduled id τ (confirm_mem_step h hmem).symm
    obtain ⟨timer, hτ, hid⟩ := hold
    obtain ⟨timer', hτ', hid', -⟩ := timersLe_step h τ timer hτ
    exact ⟨timer', hτ', hid'.trans hid⟩

theorem suspectEntry_step (h : s.step e = some s') (hs : s.manager.Keyed)
    (hsus : s'.manager.SuspectEntry id r) : s.manager.SuspectEntry id r ∨
      ∃ t now picks pc, e = .resume t now picks ∧ s.tasks[t]? = some pc ∧
        pc.Suspects s.manager id := by
  by_cases he : ∃ t now picks, e = .resume t now picks
  · obtain ⟨t, now, picks, rfl⟩ := he
    obtain ⟨pc, pc', m, ht, -, hadv, rfl⟩ := step_resume_iff.1 h
    exact (Pc.suspectEntry_advance hadv hs hsus).imp_right fun hpc => ⟨t, now, picks, pc, rfl, ht, hpc⟩
  · have hu := updates_step (P := fun p p' => p'.state = .SUSPECT → p.state = .SUSPECT) h
      (fun _ h => h) (fun _ _ h => h) fun t now picks heq => he ⟨t, now, picks, heq⟩
    exact .inl ⟨by rw [← hu.peers]; exact hsus.1, hu.heap r hsus.2⟩

/-- Since the timer `τ` was started, the entry of `id` has been `r`, and suspect. -/
def SuspectSince (s₀ : Sched) (events : List MembershipEvent) (id : String) (τ : TimerId) (r : Ref) :
    Prop :=
  ∀ es₁ es₂ s₁, events = es₁ ++ es₂ → run step s₀ es₁ = some s₁ → τ < s₁.manager.timers.length →
    s₁.manager.SuspectEntry id r

/-- Entries that are suspect while a timer of their id is live have been so since it started. -/
def Watched (s₀ : Sched) (events : List MembershipEvent) (s : Sched) : Prop :=
  ∀ id τ r, s.LiveTimer id τ → s.manager.SuspectEntry id r → SuspectSince s₀ events id τ r

theorem Watched.step {s₀ : Sched} {events : List MembershipEvent} (hw : Watched s₀ events s)
    (hrun : run Sched.step s₀ events = some s) (hs : s.TimersOk) (hf : s.FreshSuspicion e)
    (h : s.step e = some s') : Watched s₀ (events ++ [e]) s' := by
  rintro id τ r hlive hsus es₁ es₂ s₁ heq hs₁ hτ
  rcases List.eq_nil_or_concat es₂ with rfl | ⟨es₃, e', rfl⟩
  · have hrun' : run Sched.step s₀ (events ++ [e]) = some s' := run_concat_eq_some.2 ⟨s, hrun, h⟩
    rw [heq, List.append_nil, hs₁] at hrun'
    exact Option.some.inj hrun' ▸ hsus
  · rw [List.concat_eq_append, ← List.append_assoc] at heq
    obtain rfl := (List.append_inj' heq rfl).1
    have hrest := run_of_append hrun hs₁
    have hle : s₁.manager.TimersLe s.manager :=
      run_rel (R := fun s s' : Sched => s.manager.TimersLe s'.manager) (fun _ => .of_eq rfl)
        (fun _ _ _ => .trans) (fun _ _ _ _ hstep => timersLe_step hstep)
        .unconditional hrest
    have hlive' : s.LiveTimer id τ := liveTimer_of_step h hlive (hle.lt_length hτ)
    rcases suspectEntry_step h hs.keyed hsus with hsus' | ⟨t, now, picks, pc, rfl, ht, hpc⟩
    · exact hw id τ r hlive' hsus' es₁ es₃ s₁ rfl hs₁ hτ
    · exact absurd hlive' (hf t now picks pc id rfl ht hpc τ)

/-- The step is `_confirm_dead` of the timer `τ`, and sets the entry `r` of `id` to `DEAD`. -/
def DeclaresDead (s : Sched) (e : MembershipEvent) (s' : Sched) (id : String) (τ : TimerId)
    (r : Ref) : Prop :=
  ∃ t now picks, e = .resume t now picks ∧ s.tasks[t]? = some (.confirm id τ) ∧
    s.manager.peers.get? id = some r ∧ (s.manager.heap r).state ≠ .DEAD ∧
    (s'.manager.heap r).state = .DEAD

/-- The step makes the entry of `id` suspect. -/
def BecomesSuspect (s s' : Sched) (id : String) : Prop :=
  ∃ r, s.manager.peers.get? id = some r ∧ (s.manager.heap r).state ≠ .SUSPECT ∧
    s'.manager.SuspectEntry id r

/-- `_confirm_dead` declares dead what has been suspect ever since its timer was started, and each
suspicion starts a timer of its own. -/
def SuspicionsTimed (s₀ : Sched) (events : List MembershipEvent) : Prop :=
  ∀ es₁ e es₂ s s', events = es₁ ++ e :: es₂ → run step s₀ es₁ = some s → s.step e = some s' →
    (∀ id τ r, DeclaresDead s e s' id τ r →
      (∃ timer, s.manager.timers[τ]? = some timer ∧ timer.peerId = id) ∧
        SuspectSince s₀ es₁ id τ r) ∧
    ∀ id, BecomesSuspect s s' id →
      s'.manager.timers =
        s.manager.timers ++ [{ peerId := id, timeout := s.manager.suspicionTimeout }] ∧
      s'.manager.suspicionTimers.get? id = some s.manager.timers.length

theorem suspectEntry_of_declaresDead (h : s.step e = some s') (hd : DeclaresDead s e s' id τ r) :
    s.manager.SuspectEntry id r := by
  obtain ⟨t, now, picks, rfl, ht, hr, hne, hdead⟩ := hd
  obtain ⟨pc, pc', m, ht', -, hadv, rfl⟩ := step_resume_iff.1 h
  obtain rfl := Option.some.inj (ht.symm.trans ht')
  obtain ⟨-, rfl⟩ := Prod.mk.inj (Option.some.inj hadv)
  refine ⟨hr, by_contra fun hsus => hne ?_⟩
  simpa [confirmDead, onEntry_of_some hr, hsus] using hdead

theorem starts_timer_of_becomesSuspect (h : s.step e = some s') (hs : s.TimersOk)
    (hf : s.FreshSuspicion e) (hb : BecomesSuspect s s' id) :
    s'.manager.timers =
        s.manager.timers ++ [{ peerId := id, timeout := s.manager.suspicionTimeout }] ∧
      s'.manager.suspicionTimers.get? id = some s.manager.timers.length := by
  obtain ⟨r, hr, hne, hsus⟩ := hb
  rcases suspectEntry_step h hs.keyed hsus with hsus' | ⟨t, now, picks, pc, rfl, ht, hpc⟩
  · exact absurd hsus'.2 hne
  · have hnone : s.manager.suspicionTimers.get? id = none := by
      refine Option.eq_none_iff_forall_not_mem.2 fun τ hτ => hf t now picks pc id rfl ht hpc τ ?_
      obtain ⟨timer, htimer, hid, hp | hmem⟩ := hs.entered id τ hτ
      · exact .inl ⟨timer, htimer, hid, hp⟩
      · exact .inr (.inl hmem)
    obtain ⟨pc, pc', m, ht', -, hadv, rfl⟩ := step_resume_iff.1 h
    obtain rfl := Option.some.inj (ht.symm.trans ht')
    cases hmark : pc.marksSuspect with
    | true =>
      obtain ⟨htimers, hentry⟩ := Pc.timersEq_advance_of_suspects hadv hmark hpc
      rw [htimers, hentry]
      simp [startSuspicionTimer, hnone]
    | false =>
      -- `add_peer` changes no object
      cases pc with
      | addPeer r₀ =>
        obtain ⟨-, rfl⟩ := Prod.mk.inj (Option.some.inj hadv)
        refine absurd ?_ hne
        rw [← heap_addPeer r₀]
        exact hsus.2
      | suspect | suspectPeer => cases hmark
      | _ => cases hpc

end Sched

/-- In a run in which no task makes an entry suspect while a timer of its id is live,
`_confirm_dead` only declares dead an entry that has been suspect since the timer behind it was
started, and each suspicion gets a full timeout of its own. -/
theorem suspicions_timed_of_fresh {config : MembershipConfig} {localPeer : Ref} {heap : Ref → Peer}
    {events : List MembershipEvent}
    (hfresh : Along Sched.step Sched.FreshSuspicion (.init config localPeer heap) events) :
    Sched.SuspicionsTimed (.init config localPeer heap) events := by
  rintro es₁ e es₂ s s' rfl hrun hstep
  have hf : s.FreshSuspicion e := hfresh es₁ e es₂ s rfl hrun
  obtain ⟨hok, hw⟩ : s.TimersOk ∧ Sched.Watched (.init config localPeer heap) es₁ s := by
    refine run_induction
      (motive := fun es s => s.TimersOk ∧ Sched.Watched (.init config localPeer heap) es s)
      ⟨Sched.timersOk_init .., ?_⟩ (fun es s e s' hes hs hc hstep => ?_) hfresh.of_append hrun
    · rintro id τ r - ⟨hr, -⟩
      cases hr
    · exact ⟨hs.1.step hstep, hs.2.step hes hs.1 hc hstep⟩
  refine ⟨fun id τ r hd => ?_, fun id => Sched.starts_timer_of_becomesSuspect hstep hok hf⟩
  have hsus := Sched.suspectEntry_of_declaresDead hstep hd
  obtain ⟨t, now, picks, rfl, ht, -⟩ := hd
  have hmem : .confirm id τ ∈ s.tasks := List.mem_of_getElem? ht
  exact ⟨hok.scheduled id τ (.inr hmem), hw id τ r (.inr (.inr hmem)) hsus⟩

section Example

/-- The local peer `a` and objects for a peer `b`. -/
def namedB : Ref → Peer
  | 0 => { id := "a" }
  | _ => { id := "b" }

def suspectB : MessageHeader := { type := .SUSPECT, senderId := "c", sequence := 1, targetId := "b" }

/-- One suspicion, whose timer fires. -/
def suspicionRun : List MembershipEvent :=
  [.addPeer 1, .resume 0 0 [], .receive suspectB, .resume 1 0 [], .fire 0, .resume 2 0 [],
    .resume 2 0 []]

theorem suspicions_timed_of_fresh_once : Sched.SuspicionsTimed (.init {} 0 namedB) suspicionRun := by
  have other : ∀ {s : Sched} {e}, (∀ t now picks, e ≠ .resume t now picks) → s.FreshSuspicion e :=
    fun he t now picks _ _ heq => absurd heq (he t now picks)
  have calm : ∀ {s : Sched} {t} (pc), s.tasks[t]? = some pc → (∀ id, ¬ pc.Suspects s.manager id) →
      s.FreshSuspicion (.resume t 0 []) := by
    rintro s t pc ht hpc _ _ _ pc' id ⟨rfl, rfl, rfl⟩ ht' hsus
    obtain rfl := Option.some.inj (ht.symm.trans ht')
    exact absurd hsus (hpc id)
  refine suspicions_timed_of_fresh ?_
  refine Along.cons_iff.2 ⟨other (by simp), ?_⟩
  rintro _ ⟨⟩
  refine Along.cons_iff.2 ⟨calm (.addPeer 1) rfl ?_, ?_⟩
  · rintro id ⟨-, hst, -⟩
    cases hst
  rintro _ ⟨⟩
  refine Along.cons_iff.2 ⟨other (by simp), ?_⟩
  rintro _ ⟨⟩
  refine Along.cons_iff.2 ⟨?_, ?_⟩
  · -- no timer has been started yet
    rintro t now picks pc id - - - τ (⟨timer, hτ, -⟩ | hmem | hmem)
    · cases hτ
    · simp [Sched.spawn, Sched.init] at hmem
    · simp [Sched.spawn, Sched.init] at hmem
  rintro _ ⟨⟩
  refine Along.cons_iff.2 ⟨other (by simp), ?_⟩
  rintro _ ⟨⟩
  refine Along.cons_iff.2 ⟨calm (.confirmStart "b" 0) rfl fun id => not_false, ?_⟩
  rintro _ ⟨⟩
  refine Along.cons_iff.2 ⟨calm (.confirm "b" 0) rfl fun id => not_false, ?_⟩
  exact fun _ _ => Along.nil

/-- `b` is suspected, removed, entered again and suspected again. -/
def staleTimerRun : List MembershipEvent :=
  [.addPeer 1, .resume 0 0 [], .receive suspectB, .resume 1 0 [], .removePeer "b", .resume 2 0 [],
    .addPeer 2, .resume 3 0 [], .receive suspectB, .resume 4 0 [], .fire 0, .resume 5 0 []]

/-- The timer of the first suspicion declares dead the peer that was entered after it had started,
and the second suspicion has no timer. -/
theorem stale_timer_declares_dead : ∃ s₁ s s',
    run Sched.step (.init {} 0 namedB) (staleTimerRun.take 8) = some s₁ ∧
    s₁.manager.timers.length = 1 ∧ s₁.manager.peers.get? "b" = some 2 ∧
    (s₁.manager.heap 2).state = .ALIVE ∧
    run Sched.step (.init {} 0 namedB) staleTimerRun = some s ∧ s.manager.timers.length = 1 ∧
    s.step (.resume 5 0 []) = some s' ∧ s.DeclaresDead (.resume 5 0 []) s' "b" 0 2 ∧
    ¬ Sched.SuspicionsTimed (.init {} 0 namedB) (staleTimerRun ++ [.resume 5 0 []]) := by
  refine ⟨_, _, _, rfl, rfl, rfl, rfl, rfl, rfl, rfl, ?_, fun h => ?_⟩
  · exact ⟨5, 0, [], rfl, rfl, rfl, by decide, rfl⟩
  · obtain ⟨hdead, -⟩ := h staleTimerRun (.resume 5 0 []) [] _ _ rfl rfl rfl
    obtain ⟨-, hsince⟩ := hdead "b" 0 2 ⟨5, 0, [], rfl, rfl, rfl, by decide, rfl⟩
    obtain ⟨-, hst⟩ := hsince (staleTimerRun.take 8) (staleTimerRun.drop 8) _ rfl rfl (by decide)
    cases hst

end Example

end GossipRl
