import GossipRl.Gossip.StoredPeer
import GossipRl.Gossip.Suspicion

/-!
# Refutations

A suspect answers with its own incarnation and that of the suspicion, whichever is larger, plus one.
An observer stores at most the former, and neither `SUSPECT` nor `DEAD` changes what it stores, so
the answer revives the peer there whenever it comes (`Sched.storedPeer_step` and
`Pc.incarnation_effect_le`), and leaves it with an incarnation that refuses the old rumours until a
`PING` of the peer lowers it (`Pc.le_incarnation_effect`). At an observer no peer that is `ALIVE` has
an entered timer (`Sched.Observes`).
-/

namespace GossipRl
open Support

namespace Peer
variable (p : Peer) (now : ℚ) (i : Int)

theorem incarnation_markAlive :
    (p.markAlive now (some i)).2.incarnation = max p.incarnation i := by
  unfold markAlive
  by_cases h : i ≤ p.incarnation
  · simp [h]
  · simp only [Option.any_some, decide_eq_true_eq, h, if_false, Option.getD_some]
    omega

theorem markAlive_of_lt {p : Peer} {now : ℚ} {i : Int} (h : p.incarnation < i) :
    (p.markAlive now (some i)).2.state = .ALIVE := by
  simp [markAlive, h.not_ge]

theorem markSuspect_of_lt {p : Peer} {i : Int} (h : i < p.incarnation) :
    (p.markSuspect (some i)).2 = p := by simp [markSuspect, h]

theorem markDead_of_lt {p : Peer} {i : Int} (h : i < p.incarnation) :
    (p.markDead (some i)).2 = p := by simp [markDead, h]

end Peer

namespace Pc
open MembershipManager

/-- The task neither removes the entry of `id` nor replaces it. -/
def KeepsEntry (id : String) (pc : Pc) (m : MembershipManager) : Prop :=
  (pc = .removePeer id → m.storedPeer id = none) ∧
    ∀ r, pc = .addPeer r → (m.heap r).id = id → m.Accepts r → m.storedPeer id = none

/-- A sign of life of `id` that the task brings is no newer than `c`. -/
def RevivesUpTo (id : String) (c : Int) (pc : Pc) (_ : MembershipManager) : Prop :=
  match pc with
  | .ping msg => msg.senderId = id → msg.incarnation ≤ c
  | .ackPeer msg targetId _ => targetId = id → msg.incarnation ≤ c
  | .alive id' msg => id' = id → msg.incarnation ≤ c
  | _ => True

/-- The task is not the handling of a `PING` from `id`. -/
def NotPingFrom (id : String) (pc : Pc) (_ : MembershipManager) : Prop :=
  ∀ msg, pc = .ping msg → msg.senderId ≠ id

variable {pc : Pc} {now : ℚ} {m : MembershipManager} {id : String} {c : Int} {p : Peer}

theorem incarnation_effect_le (hpc : pc.RevivesUpTo id c m) (h : p.incarnation ≤ c) :
    (pc.effect now m id p).incarnation ≤ c := by
  cases pc with
  | ping msg =>
    simp only [effect]
    split
    · rename_i hid
      exact hpc hid
    · exact h
  | ackPeer msg targetId l =>
    simp only [effect]
    split
    · rename_i hid
      rw [Peer.incarnation_markAlive]
      exact max_le h (hpc hid)
    · exact h
  | alive id' msg =>
    simp only [effect]
    split
    · rename_i hid
      rw [Peer.incarnation_markAlive]
      exact max_le h (hpc hid)
    · exact h
  | suspect id' msg | dead id' msg | suspectPeer target drop | confirm id' τ =>
    simp only [effect]
    repeat' split
    all_goals simpa using h
  | _ => exact h

theorem le_incarnation_effect (hpc : pc.NotPingFrom id m) :
    p.incarnation ≤ (pc.effect now m id p).incarnation := by
  cases pc with
  | ping msg =>
    simp only [effect]
    rw [if_neg (hpc msg rfl)]
  | ackPeer msg targetId l =>
    simp only [effect]
    split
    · exact Peer.le_incarnation_markAlive _ now _
    · exact le_rfl
  | alive id' msg =>
    simp only [effect]
    split
    · exact p.le_incarnation_markAlive now _
    · exact le_rfl
  | suspect id' msg | dead id' msg | suspectPeer target drop | confirm id' τ =>
    simp only [effect]
    repeat' split
    all_goals simp
  | _ => exact le_rfl

end Pc

namespace Sched
open MembershipManager
variable {s s' : Sched} {e : MembershipEvent} {id : String} {p : Peer}

theorem id_heap_step (h : s.step e = some s') (r : Ref) :
    (s'.manager.heap r).id = (s.manager.heap r).id := by
  by_cases he : ∃ t now picks, e = .resume t now picks
  · obtain ⟨t, now, picks, rfl⟩ := he
    obtain ⟨pc, pc', m, -, -, hadv, rfl⟩ := step_resume_iff.1 h
    cases hpc : pc.changesPeers with
    | true => exact congrArg (fun heap => (heap r).id) (Pc.heap_advance hadv hpc)
    | false => exact (Pc.updates_id_advance hadv hpc).heap r
  · have hu := updates_step (P := fun p p' => p'.id = p.id) h (fun _ => rfl) (fun _ _ => rfl)
      fun t now picks heq => he ⟨t, now, picks, heq⟩
    exact hu.heap r

/-- What holds at an observer of `id`, whose own id is another one. -/
structure Observes (id : String) (s : Sched) : Prop where
  keyed : s.manager.Keyed
  away : (s.manager.heap s.manager.localPeer).id ≠ id
  entry : ∀ τ, s.manager.suspicionTimers.get? id = some τ →
    ∃ st, s.manager.storedState id = some st ∧ st ≠ .ALIVE

theorem observes_init {config : MembershipConfig} {localPeer : Ref} {heap : Ref → Peer}
    (h : (heap localPeer).id ≠ id) : (init config localPeer heap).Observes id where
  keyed _ _ h := by cases h
  away := h
  entry _ h := by cases h

theorem entry_step (h : s.step e = some s') (hs : s.Observes id)
    (he : OnResume (Pc.KeepsEntry id) s e) {τ : TimerId}
    (hτ : s'.manager.suspicionTimers.get? id = some τ) :
    ∃ st, s'.manager.storedState id = some st ∧ st ≠ .ALIVE := by
  have other : ∀ {id₀ : String} {st : Option PeerState}, id ≠ id₀ →
      s'.manager.storedState = Function.update s.manager.storedState id₀ st →
      s.manager.suspicionTimers.get? id = some τ →
      ∃ st, s'.manager.storedState id = some st ∧ st ≠ .ALIVE := by
    intro id₀ st hne hst hτ₀
    rw [hst, Function.update_of_ne hne]
    exact hs.entry τ hτ₀
  rcases stateChange_step h hs.keyed with ⟨t, now, picks, pc, pc', rfl, ht, -, -, hch⟩ |
    ⟨-, -, hst, htimers, -⟩
  · obtain ⟨hremove, hadd⟩ := he pc ht
    have known : ∀ {τ}, s.manager.suspicionTimers.get? id = some τ →
        s.manager.storedPeer id ≠ none := by
      intro τ hτ₀ hnone
      obtain ⟨st, hst, -⟩ := hs.entry τ hτ₀
      rw [storedState_eq_map, hnone] at hst
      cases hst
    cases hch with
    | same hst htimers hn =>
      rw [hst]
      exact hs.entry τ (htimers ▸ hτ)
    | revive id₀ st hold hne hst htimers hn | dead id₀ st hold hne hst htimers hn =>
      rw [htimers] at hτ
      obtain ⟨hid, hτ⟩ := Dict.get?_erase_eq_some_iff.1 hτ
      exact other hid hst hτ
    | drop id₀ τ₀ hst htimers hn =>
      rw [htimers] at hτ
      rw [hst]
      exact hs.entry τ (Dict.get?_erase_eq_some_iff.1 hτ).2
    | suspect id₀ hold hst htimers hn =>
      by_cases hid : id = id₀
      · rw [hst, hid, Function.update_self]
        exact ⟨_, rfl, by simp⟩
      · rw [htimers] at hτ
        rw [get?_startSuspicionTimer_of_ne hid] at hτ
        exact other hid hst hτ
    | confirm id₀ τ₀ hold hst htimers hn =>
      by_cases hid : id = id₀
      · rw [hst, hid, Function.update_self]
        exact ⟨_, rfl, by simp⟩
      · exact other hid hst (htimers ▸ hτ)
    | enter r hacc hst htimers hn =>
      rw [htimers] at hτ
      refine other (fun hid => ?_) hst hτ
      exact known hτ (hadd r rfl hid.symm hacc)
    | remove id₀ hst htimers hn =>
      rw [htimers] at hτ
      refine other (fun hid => ?_) hst hτ
      exact known hτ (hremove (by rw [hid]))
  · rw [hst]
    exact hs.entry τ (htimers ▸ hτ)

theorem Observes.step (hs : s.Observes id) (h : s.step e = some s')
    (he : OnResume (Pc.KeepsEntry id) s e) : s'.Observes id where
  keyed := keyed_step h hs.keyed
  away := by
    rw [(sameSetup_step h).localPeer, id_heap_step h]
    exact hs.away
  entry _ hτ := entry_step h hs he hτ

theorem storedPeer_changesPeers {pc pc' : Pc} {now : ℚ} {picks : List Ref} {m m' : MembershipManager}
    (h : pc.advance now picks m = some (pc', m')) (hpc : pc.changesPeers = true)
    (hkeeps : pc.KeepsEntry id m) (hp : m.storedPeer id = some p) : m'.storedPeer id = some p := by
  obtain ⟨hremove, hadd⟩ := hkeeps
  rcases Pc.advance_changesPeers h hpc with ⟨r, rfl, rfl⟩ | ⟨id₀, rfl, rfl⟩
  · rcases addPeer_cases r m with ⟨hacc, heq⟩ | heq
    · have hne : id ≠ (m.heap r).id := by
        intro hid
        cases hp.symm.trans (hadd r rfl hid.symm hacc)
      rw [heq]
      show ((m.peers.set _ r).get? id).map _ = _
      rw [Dict.get?_set_of_ne hne]
      exact hp
    · rw [heq]
      exact hp
  · have hne : id ≠ id₀ := by
      rintro rfl
      cases hp.symm.trans (hremove rfl)
    rw [removePeer_snd]
    show ((m.peers.erase id₀).get? id).map _ = _
    rw [Dict.get?_erase, if_neg hne]
    exact hp

theorem storedPeer_ofMessage {m : MembershipManager} (msg : MessageHeader) (hkeyed : m.Keyed)
    (haway : (m.heap m.localPeer).id ≠ id) (hp : m.storedPeer id = some p) :
    (Pc.ofMessage msg m).2.storedPeer id = some p := by
  obtain ⟨r, hr, rfl⟩ := Option.map_eq_some_iff.1 hp
  have hne : r ≠ m.localPeer := by
    rintro rfl
    exact haway (hkeyed id _ hr)
  unfold Pc.ofMessage
  repeat' split
  all_goals first
    | exact hp
    | (rw [MembershipManager.refute]
       show (m.peers.get? id).map (Function.update _ _ _) = _
       rw [hr, Option.map_some, Function.update_of_ne hne])

theorem storedPeer_step (h : s.step e = some s') (hs : s.Observes id)
    (he : OnResume (Pc.KeepsEntry id) s e) (hp : s.manager.storedPeer id = some p) :
    s'.manager.storedPeer id = some p ∨ ∃ t now picks pc, e = .resume t now picks ∧
      s.tasks[t]? = some pc ∧ s'.manager.storedPeer id = some (pc.effect now s.manager id p) := by
  cases e with
  | resume t now picks =>
    obtain ⟨pc, pc', m, ht, -, hadv, rfl⟩ := step_resume_iff.1 h
    cases hpc : pc.changesPeers with
    | false =>
      refine .inr ⟨t, now, picks, pc, rfl, ht, ?_⟩
      rw [Pc.storedPeer_advance hadv hs.keyed hpc, hp, Option.map_some]
    | true => exact .inl (storedPeer_changesPeers hadv hpc (he pc ht) hp)
  | fire τ =>
    obtain ⟨timer, -, -, rfl⟩ := step_fire_iff.1 h
    exact .inl hp
  | receive msg =>
    obtain rfl := Option.some.inj h
    exact .inl (storedPeer_ofMessage msg hs.keyed hs.away hp)
  | addPeer | removePeer | readPeers | getUpdates | start =>
    obtain rfl := Option.some.inj h
    exact .inl hp

theorem observes_run {es : List MembershipEvent} (hs : s.Observes id)
    (hk : Along step (OnResume (Pc.KeepsEntry id)) s es) (h : run step s es = some s') :
    s'.Observes id :=
  run_induction (motive := fun _ s => s.Observes id) hs
    (fun _ _ _ _ _ ih he hstep => ih.step hstep he) hk h

theorem storedPeer_run {Q : Peer → Prop} {C : Pc → MembershipManager → Prop}
    {es : List MembershipEvent}
    (hQ : ∀ pc now m p, C pc m → Q p → Q (pc.effect now m id p)) (hs : s.Observes id)
    (hk : Along step (OnResume (Pc.KeepsEntry id)) s es) (hc : Along step (OnResume C) s es)
    (hp : ∃ p, s.manager.storedPeer id = some p ∧ Q p) (h : run step s es = some s') :
    ∃ p, s'.manager.storedPeer id = some p ∧ Q p := by
  have hinv : s'.Observes id ∧ ∃ p, s'.manager.storedPeer id = some p ∧ Q p := by
    refine run_induction (motive := fun _ s => s.Observes id ∧
      ∃ p, s.manager.storedPeer id = some p ∧ Q p) ⟨hs, hp⟩ ?_ (hk.and hc) h
    rintro es s e s' - ⟨hobs, p, hp, hq⟩ ⟨hkeep, hC⟩ hstep
    refine ⟨hobs.step hstep hkeep, ?_⟩
    rcases storedPeer_step hstep hobs hkeep hp with hp' | ⟨t, now, picks, pc, rfl, ht, hp'⟩
    · exact ⟨p, hp', hq⟩
    · exact ⟨_, hp', hQ pc now s.manager p (hC pc ht) hq⟩
  exact hinv.2

/-- The stored incarnation stays at most `c` while no newer sign of life is heard. -/
theorem storedPeer_run_le {c : Int} {es : List MembershipEvent} (hs : s.Observes id)
    (hk : Along step (OnResume (Pc.KeepsEntry id)) s es)
    (hc : Along step (OnResume (Pc.RevivesUpTo id c)) s es)
    (hp : ∃ p, s.manager.storedPeer id = some p ∧ p.incarnation ≤ c)
    (h : run step s es = some s') :
    ∃ p, s'.manager.storedPeer id = some p ∧ p.incarnation ≤ c :=
  storedPeer_run (Q := (·.incarnation ≤ c))
    (fun _ _ _ _ hrev hle => Pc.incarnation_effect_le hrev hle) hs hk hc hp h

/-- The stored incarnation stays at least `c` while no `PING` of the peer is handled. -/
theorem storedPeer_run_ge {c : Int} {es : List MembershipEvent} (hs : s.Observes id)
    (hk : Along step (OnResume (Pc.KeepsEntry id)) s es)
    (hc : Along step (OnResume (Pc.NotPingFrom id)) s es)
    (hp : ∃ p, s.manager.storedPeer id = some p ∧ c ≤ p.incarnation)
    (h : run step s es = some s') :
    ∃ p, s'.manager.storedPeer id = some p ∧ c ≤ p.incarnation :=
  storedPeer_run (Q := (c ≤ ·.incarnation))
    (fun _ _ _ _ hping hle => hle.trans (Pc.le_incarnation_effect hping)) hs hk hc hp h

/-- `ALIVE` with a higher incarnation than the stored one revives the peer and ends its timer. -/
theorem handles_newer_alive {t : Nat} {now : ℚ} {picks : List Ref} {out : MessageHeader}
    (hs : s.Observes id) (ht : s.tasks[t]? = some (.alive id out))
    (hp : s.manager.storedPeer id = some p) (hlt : p.incarnation < out.incarnation)
    (h : s.step (.resume t now picks) = some s') : s'.Observes id ∧
      s'.manager.storedState id = some .ALIVE ∧ s'.manager.suspicionTimers.get? id = none ∧
      ∃ p', s'.manager.storedPeer id = some p' ∧ out.incarnation ≤ p'.incarnation := by
  have hkeep : OnResume (Pc.KeepsEntry id) s (.resume t now picks) := by
    intro pc hpc
    obtain rfl := Option.some.inj (ht.symm.trans hpc)
    exact ⟨by rintro ⟨⟩, by rintro r ⟨⟩⟩
  have hobs := hs.step h hkeep
  obtain ⟨pc, pc', m, hpc, -, hadv, rfl⟩ := step_resume_iff.1 h
  obtain rfl := Option.some.inj (ht.symm.trans hpc)
  have hp' : m.storedPeer id = some (p.markAlive now (some out.incarnation)).2 := by
    rw [Pc.storedPeer_advance hadv hs.keyed rfl, hp, Option.map_some]
    simp only [Pc.effect, if_true]
  have halive : m.storedState id = some .ALIVE := by
    rw [storedState_eq_map, hp', Option.map_some, Peer.markAlive_of_lt hlt]
  refine ⟨hobs, halive, ?_, _, hp', ?_⟩
  · refine Option.eq_none_iff_forall_not_mem.2 fun τ hτ => ?_
    obtain ⟨st, hst, hne⟩ := hobs.entry τ hτ
    exact hne (Option.some.inj (hst.symm.trans halive))
  · rw [Peer.incarnation_markAlive]
    exact le_max_right ..

/-- `SUSPECT` and `DEAD` that are older than the stored incarnation change nothing. -/
theorem ignores_older_rumour {t : Nat} {now : ℚ} {picks : List Ref} {msg : MessageHeader}
    (hs : s.Observes id)
    (ht : s.tasks[t]? = some (.suspect id msg) ∨ s.tasks[t]? = some (.dead id msg))
    (hp : s.manager.storedPeer id = some p) (hlt : msg.incarnation < p.incarnation)
    (h : s.step (.resume t now picks) = some s') :
    s'.manager.storedState id = s.manager.storedState id := by
  obtain ⟨pc, pc', m, hpc, -, hadv, rfl⟩ := step_resume_iff.1 h
  have hsame : m.storedPeer id = s.manager.storedPeer id := by
    rcases ht with ht | ht
    · obtain rfl := Option.some.inj (ht.symm.trans hpc)
      rw [Pc.storedPeer_advance hadv hs.keyed rfl, hp, Option.map_some]
      simp only [Pc.effect, if_true, Peer.markSuspect_of_lt hlt]
    · obtain rfl := Option.some.inj (ht.symm.trans hpc)
      rw [Pc.storedPeer_advance hadv hs.keyed rfl, hp, Option.map_some]
      simp only [Pc.effect, if_true, Peer.markDead_of_lt hlt]
  rw [storedState_eq_map, storedState_eq_map, hsame]

/-- A run of an observer of `id` up to the moment it has handled `out`: `hist` leads to a state in
which it has stored an incarnation of at most `own`, and in `mid` it hears no newer sign of life. -/
structure Hearing (id : String) (own : Int) (out : MessageHeader) where
  config : MembershipConfig
  localPeer : Ref
  heap : Ref → Peer
  hist : List MembershipEvent
  mid : List MembershipEvent
  before : Sched
  hearing : Sched
  after : Sched
  peer : Peer
  task : Nat
  now : ℚ
  picks : List Ref
  away : (heap localPeer).id ≠ id
  keeps : Along step (OnResume (Pc.KeepsEntry id)) (init config localPeer heap) (hist ++ mid)
  reach : run step (init config localPeer heap) hist = some before
  stored : before.manager.storedPeer id = some peer
  le_own : peer.incarnation ≤ own
  older : Along step (OnResume (Pc.RevivesUpTo id own)) before mid
  wait : run step before mid = some hearing
  handler : hearing.tasks[task]? = some (.alive id out)
  handles : hearing.step (.resume task now picks) = some after

theorem Hearing.revived {own : Int} {out : MessageHeader} (h : Hearing id own out)
    (hlt : own < out.incarnation) : h.after.Observes id ∧
      h.after.manager.storedState id = some .ALIVE ∧
      h.after.manager.suspicionTimers.get? id = none ∧
      ∃ p, h.after.manager.storedPeer id = some p ∧ out.incarnation ≤ p.incarnation := by
  have hbefore : h.before.Observes id :=
    observes_run (observes_init h.away) h.keeps.of_append h.reach
  have hkeeps := h.keeps.of_run h.reach
  obtain ⟨p, hp, hle⟩ :=
    storedPeer_run_le hbefore hkeeps h.older ⟨h.peer, h.stored, h.le_own⟩ h.wait
  have hhearing := observes_run hbefore hkeeps h.wait
  exact handles_newer_alive hhearing h.handler hp (by omega) h.handles

end Sched

/-- The answer of `id` to the suspicion `msg` revives the peer at every observer that handles it
before a newer sign of life, whatever rumours it has heard until then, and after that `SUSPECT` and
`DEAD` as old as `msg` change the state no more until a `PING` of the peer is handled. -/
theorem refutation_reaches {id : String} {msg : MessageHeader} {sp sp₁ sp₂ sp₃ : Sched}
    {esp : List MembershipEvent} {now : ℚ} {picks : List Ref}
    (htype : msg.type = .SUSPECT) (htarget : msg.targetId = some id)
    (hown : (sp.manager.heap sp.manager.localPeer).id = id)
    (hreceive : sp.step (.receive msg) = some sp₁) (hwait : run Sched.step sp₁ esp = some sp₂)
    (hqueue : sp₂.step (.resume sp.tasks.length now picks) = some sp₃) :
    ∃ out, sp₃.manager.updatesQueue = sp₂.manager.updatesQueue ++ [out] ∧
      (∀ m, Pc.ofMessage out m = (.alive id out, m)) ∧
      ∀ h : Sched.Hearing id (sp.manager.heap sp.manager.localPeer).incarnation out,
        h.after.manager.storedState id = some .ALIVE ∧
        h.after.manager.suspicionTimers.get? id = none ∧
        ∀ later s s' t now picks msg',
          Along Sched.step (Sched.OnResume (Pc.KeepsEntry id)) h.after later →
          Along Sched.step (Sched.OnResume (Pc.NotPingFrom id)) h.after later →
          run Sched.step h.after later = some s →
          s.tasks[t]? = some (.suspect id msg') ∨ s.tasks[t]? = some (.dead id msg') →
          msg'.incarnation ≤ msg.incarnation → s.step (.resume t now picks) = some s' →
          s'.manager.storedState id = s.manager.storedState id := by
  have hof : Pc.ofMessage msg sp.manager =
      (.broadcast (sp.manager.refute msg).1, (sp.manager.refute msg).2) := by
    unfold Pc.ofMessage
    rw [htype, htarget]
    exact if_pos hown.symm
  have hsp₁ : sp₁.tasks[sp.tasks.length]? = some (.broadcast (sp.manager.refute msg).1) := by
    rw [Sched.step_receive, hof] at hreceive
    obtain rfl := Option.some.inj hreceive
    exact List.getElem?_concat_length ..
  have hinc : (sp.manager.refute msg).1.incarnation =
      max (sp.manager.heap sp.manager.localPeer).incarnation msg.incarnation + 1 := rfl
  obtain ⟨pc, pc', m, ht, -, hadv, rfl⟩ := Sched.step_resume_iff.1 hqueue
  refine ⟨(sp.manager.refute msg).1, ?_, ?_, fun h => ?_⟩
  · rcases Sched.task_waits (by rintro _ _ _ _ _ ⟨⟩; rfl) hsp₁ hwait with hsp₂ | hsp₂
    · obtain rfl := Option.some.inj (ht.symm.trans hsp₂)
      obtain ⟨-, rfl⟩ := Prod.mk.inj (Option.some.inj hadv)
      rfl
    · obtain rfl := Option.some.inj (ht.symm.trans hsp₂)
      cases hadv
  · intro m'
    rw [← hown]
    rfl
  · obtain ⟨hobs, halive, hnone, p, hp, hge⟩ := h.revived (by omega)
    refine ⟨halive, hnone, ?_⟩
    intro later s s' t now picks msg' hkeeps hping hrun ht' hle hstep
    obtain ⟨p', hp', hge'⟩ := Sched.storedPeer_run_ge hobs hkeeps hping ⟨p, hp, hge⟩ hrun
    exact Sched.ignores_older_rumour (Sched.observes_run hobs hkeeps hrun) ht' hp'
      (by omega) hstep

section Example

/-- The answer of `b` to `suspectB`. -/
def aliveB : MessageHeader :=
  { type := .ALIVE, senderId := "b", sequence := 1, targetId := "b", incarnation := 1 }

/-- `a` has added `b`, hears that it is suspect, and then its answer. -/
def hearingB : Sched.Hearing "b" 0 aliveB where
  config := {}
  localPeer := 0
  heap := namedB
  hist := [.addPeer 1, .resume 0 0 []]
  mid := [.receive suspectB, .resume 1 0 [], .receive aliveB]
  before := _
  hearing := _
  after := _
  peer := { id := "b" }
  task := 2
  now := 0
  picks := []
  away := by simp [namedB]
  keeps := by
    refine Along.cons_iff.2 ⟨trivial, ?_⟩
    rintro _ ⟨⟩
    refine Along.cons_iff.2 ⟨?_, ?_⟩
    · rintro _ ⟨⟩
      exact ⟨by rintro ⟨⟩, fun _ _ _ _ => rfl⟩
    rintro _ ⟨⟩
    refine Along.cons_iff.2 ⟨trivial, ?_⟩
    rintro _ ⟨⟩
    refine Along.cons_iff.2 ⟨?_, ?_⟩
    · rintro _ ⟨⟩
      exact ⟨by rintro ⟨⟩, by rintro r ⟨⟩⟩
    rintro _ ⟨⟩
    exact Along.cons_iff.2 ⟨trivial, fun _ _ => Along.nil⟩
  reach := rfl
  stored := rfl
  le_own := le_rfl
  older := by
    refine Along.cons_iff.2 ⟨trivial, ?_⟩
    rintro _ ⟨⟩
    refine Along.cons_iff.2 ⟨?_, ?_⟩
    · rintro _ ⟨⟩
      trivial
    rintro _ ⟨⟩
    exact Along.cons_iff.2 ⟨trivial, fun _ _ => Along.nil⟩
  wait := rfl
  handler := rfl
  handles := rfl

theorem refutation_reaches_a : hearingB.hearing.manager.storedState "b" = some .SUSPECT ∧
    hearingB.after.manager.storedState "b" = some .ALIVE ∧
    hearingB.after.manager.suspicionTimers.get? "b" = none := by
  obtain ⟨sp₁, sp₃, h₁, h₃, hq₁, hq₃⟩ : ∃ sp₁ sp₃,
      (Sched.init {} 0 fun _ => { id := "b" }).step (.receive suspectB) = some sp₁ ∧
      sp₁.step (.resume 0 0 []) = some sp₃ ∧ sp₁.manager.updatesQueue = [] ∧
      sp₃.manager.updatesQueue = [aliveB] := ⟨_, _, rfl, rfl, rfl, rfl⟩
  obtain ⟨out, hqueue, -, hout⟩ := refutation_reaches rfl rfl rfl h₁ run_nil h₃
  rw [hq₁, hq₃] at hqueue
  obtain rfl : aliveB = out := List.singleton_inj.1 hqueue
  obtain ⟨halive, hnone, -⟩ := hout hearingB
  exact ⟨rfl, halive, hnone⟩

end Example

end GossipRl
