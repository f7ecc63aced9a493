import GossipRl.Gossip.SuspectEntry

/-!
# What a task does to the suspicion timers

A stretch of a task cancels the timer entered for one id, starts one, or leaves the timers alone
(`Pc.timersChange_advance`); only `_confirm_dead` drops an entry without touching its timer. Timers
keep their place, and none becomes pending again (`TimersLe`). An entered timer belongs to its id
(`Entered`).
-/

namespace GossipRl
open Support

namespace MembershipManager
variable {m m' m'' : MembershipManager} {id id' : String} {τ : TimerId}

theorem get?_startSuspicionTimer_self :
    ∃ τ, (m.startSuspicionTimer id).suspicionTimers.get? id = some τ := by
  unfold startSuspicionTimer
  split
  · rename_i h
    exact Option.isSome_iff_exists.1 h
  · exact ⟨_, Dict.get?_set_self⟩

theorem get?_startSuspicionTimer_of_ne (h : id' ≠ id) :
    (m.startSuspicionTimer id).suspicionTimers.get? id' = m.suspicionTimers.get? id' := by
  unfold startSuspicionTimer
  split
  · rfl
  · exact Dict.get?_set_of_ne h

theorem get?_startSuspicionTimer_of_some (h : m.suspicionTimers.get? id' = some τ) :
    (m.startSuspicionTimer id).suspicionTimers.get? id' = some τ := by
  by_cases hid : id' = id
  · subst hid
    simp [startSuspicionTimer, h]
  · rw [get?_startSuspicionTimer_of_ne hid, h]

/-- The timers and the dictionary of their handles are the same. -/
def TimersEq (m m' : MembershipManager) : Prop :=
  m'.timers = m.timers ∧ m'.suspicionTimers = m.suspicionTimers

/-- What one stretch of a task does to the timers, `_confirm_dead` apart. -/
inductive TimersChange (m m' : MembershipManager) : Prop
  | same (h : m.TimersEq m')
  | cancel (id : String) (h : (m.cancelTimer id).TimersEq m')
  | start (id : String) (h : (m.startSuspicionTimer id).TimersEq m')

theorem TimersChange.trans_eq (h : m.TimersChange m') (he : m'.TimersEq m'') :
    m.TimersChange m'' := by
  cases h with
  | same h => exact .same ⟨he.1.trans h.1, he.2.trans h.2⟩
  | cancel id h => exact .cancel id ⟨he.1.trans h.1, he.2.trans h.2⟩
  | start id h => exact .start id ⟨he.1.trans h.1, he.2.trans h.2⟩

theorem timersChange_reviveEntry {now : ℚ} {i : Int} {r : Ref} :
    m.TimersChange (m.reviveEntry now id i r) := by
  unfold reviveEntry
  dsimp only
  split
  · exact .cancel id ⟨rfl, rfl⟩
  · exact .same ⟨rfl, rfl⟩

theorem timersChange_onEntry {f : Ref → MembershipManager → MembershipManager}
    (h : ∀ r, m.TimersChange (f r m)) : m.TimersChange (m.onEntry id f) := by
  cases hr : m.peers.get? id with
  | none => rw [onEntry_of_none hr]; exact .same ⟨rfl, rfl⟩
  | some r => rw [onEntry_of_some hr]; exact h r

theorem timersEq_startSuspicionTimer (hc : m'.config = m.config) (h : m.TimersEq m') :
    (m.startSuspicionTimer id).TimersEq (m'.startSuspicionTimer id) := by
  obtain ⟨ht, hs⟩ := h
  simp only [startSuspicionTimer, hs, ht]
  split
  · exact ⟨ht, hs⟩
  · exact ⟨by simp [suspicionTimeout, hc], rfl⟩

theorem timersChange_handleSuspect {msg : MessageHeader} :
    m.TimersChange (m.handleSuspect id msg) := by
  refine timersChange_onEntry ?_
  intro r
  dsimp only
  split
  · exact .start id (timersEq_startSuspicionTimer rfl ⟨rfl, rfl⟩)
  · exact .same ⟨rfl, rfl⟩

theorem timersChange_handleDead {msg : MessageHeader} : m.TimersChange (m.handleDead id msg) := by
  refine timersChange_onEntry ?_
  intro r
  dsimp only
  split
  · exact .cancel id ⟨rfl, rfl⟩
  · exact .same ⟨rfl, rfl⟩

theorem timersChange_ackPeer {now l : ℚ} {msg : MessageHeader} :
    m.TimersChange (m.ackPeer now msg id l) := by
  have h : m.TimersChange (m.onEntry id fun r m =>
      (m.setPeer r ((m.heap r).updateLatency l)).reviveEntry now id msg.incarnation r) := by
    refine timersChange_onEntry ?_
    intro r
    unfold reviveEntry
    dsimp only
    split
    · exact .cancel id ⟨rfl, rfl⟩
    · exact .same ⟨rfl, rfl⟩
  exact h.trans_eq ⟨rfl, rfl⟩

theorem timersEq_confirmDead : m.TimersEq (m.confirmDead id) := by
  unfold confirmDead onEntry
  split
  · exact ⟨rfl, rfl⟩
  · dsimp only
    split <;> exact ⟨rfl, rfl⟩

theorem timersEq_addPeer (r : Ref) : m.TimersEq (m.addPeer r).2 := by
  rcases addPeer_cases r m with ⟨-, heq⟩ | heq <;> rw [heq] <;> exact ⟨rfl, rfl⟩

theorem timersEq_removePeer (id : String) : m.TimersEq (m.removePeer id).2 := by
  rw [removePeer_snd]
  exact ⟨rfl, rfl⟩

theorem timersChange_suspectPeer (target : Ref) : m.TimersChange (m.suspectPeer target).2 := by
  unfold suspectPeer
  dsimp only
  split
  · exact .same ⟨rfl, rfl⟩
  · split
    · exact .start (m.heap target).id (timersEq_startSuspicionTimer rfl ⟨rfl, rfl⟩)
    · exact .same ⟨rfl, rfl⟩

/-- Timers stay where they are, keep their peer, and do not become pending again. -/
def TimersLe (m m' : MembershipManager) : Prop :=
  ∀ (τ : TimerId) (timer : Timer), m.timers[τ]? = some timer → ∃ timer', m'.timers[τ]? = some timer' ∧
    timer'.peerId = timer.peerId ∧ (timer'.state = .pending → timer.state = .pending)

theorem TimersLe.of_eq (h : m'.timers = m.timers) : m.TimersLe m' :=
  fun _ timer hτ => ⟨timer, h ▸ hτ, rfl, fun hp => hp⟩

theorem TimersLe.trans (h : m.TimersLe m') (h' : m'.TimersLe m'') : m.TimersLe m'' := by
  intro τ timer hτ
  obtain ⟨timer', hτ', hid', hp'⟩ := h τ timer hτ
  obtain ⟨timer'', hτ'', hid'', hp''⟩ := h' τ timer' hτ'
  exact ⟨timer'', hτ'', hid''.trans hid', fun hp => hp' (hp'' hp)⟩

theorem TimersLe.lt_length (h : m.TimersLe m') (hτ : τ < m.timers.length) :
    τ < m'.timers.length := by
  obtain ⟨timer', hτ', -⟩ := h τ _ (List.getElem?_eq_getElem hτ)
  exact (List.getElem?_eq_some_iff.1 hτ').1

theorem TimersLe.of_modify {f : Timer → Timer} (hid : ∀ timer, (f timer).peerId = timer.peerId)
    (hp : ∀ timer, (f timer).state = .pending → timer.state = .pending) (τ : TimerId)
    (h : m'.timers = m.timers.modify τ f) : m.TimersLe m' := by
  intro τ' timer hτ'
  by_cases heq : τ = τ'
  · exact ⟨f timer, by simp [h, heq, hτ'], hid timer, hp timer⟩
  · exact ⟨timer, by simp [h, heq, hτ'], rfl, fun hp => hp⟩

theorem TimersChange.timersLe (h : m.TimersChange m') : m.TimersLe m' := by
  cases h with
  | same h => exact .of_eq h.1
  | cancel id h =>
    refine TimersLe.trans ?_ (.of_eq h.1)
    cases hid : m.suspicionTimers.get? id with
    | none => exact .of_eq (by simp [cancelTimer, hid])
    | some τ =>
      refine .of_modify (f := Timer.cancel) (fun timer => ?_) (fun timer => ?_) τ
        (by simp [cancelTimer, hid])
      · unfold Timer.cancel; split <;> rfl
      · unfold Timer.cancel; split <;> simp_all
  | start id h =>
    refine TimersLe.trans ?_ (.of_eq h.1)
    intro τ timer hτ
    refine ⟨timer, ?_, rfl, fun hp => hp⟩
    unfold startSuspicionTimer
    split
    · exact hτ
    · rw [List.getElem?_append_left (List.getElem?_eq_some_iff.1 hτ).1, hτ]

/-- An entered timer belongs to the id it is entered for, and is pending or in `scheduled`. -/
def Entered (scheduled : String → TimerId → Prop) (m : MembershipManager) : Prop :=
  ∀ id τ, m.suspicionTimers.get? id = some τ → ∃ timer, m.timers[τ]? = some timer ∧
    timer.peerId = id ∧ (timer.state = .pending ∨ scheduled id τ)

variable {scheduled scheduled' : String → TimerId → Prop}

theorem Entered.mono (h : m.Entered scheduled) (hs : ∀ id τ, scheduled id τ → scheduled' id τ) :
    m.Entered scheduled' := by
  intro id τ hτ
  obtain ⟨timer, htimer, hid, hlive⟩ := h id τ hτ
  exact ⟨timer, htimer, hid, hlive.imp_right (hs id τ)⟩

theorem Entered.of_eq (h : m.Entered scheduled) (he : m.TimersEq m') : m'.Entered scheduled := by
  intro id τ hτ
  rw [he.2] at hτ
  rw [he.1]
  exact h id τ hτ

theorem Entered.cancelTimer (h : m.Entered scheduled) (id : String) :
    (m.cancelTimer id).Entered scheduled := by
  intro id' τ hτ
  rw [MembershipManager.cancelTimer] at hτ
  obtain ⟨hne, hτ⟩ := Dict.get?_erase_eq_some_iff.1 hτ
  obtain ⟨timer, htimer, hid, hlive⟩ := h id' τ hτ
  refine ⟨timer, ?_, hid, hlive⟩
  cases hτ₀ : m.suspicionTimers.get? id with
  | none => simp [MembershipManager.cancelTimer, hτ₀, htimer]
  | some τ₀ =>
    -- the cancelled timer is another one: it belongs to `id`
    have hτne : τ₀ ≠ τ := by
      rintro rfl
      obtain ⟨timer₀, htimer₀, hid₀, -⟩ := h id τ₀ hτ₀
      obtain rfl := Option.some.inj (htimer.symm.trans htimer₀)
      exact hne (hid.symm.trans hid₀)
    simp [MembershipManager.cancelTimer, hτ₀, hτne, htimer]

theorem Entered.startSuspicionTimer (h : m.Entered scheduled) (id : String) :
    (m.startSuspicionTimer id).Entered scheduled := by
  unfold MembershipManager.startSuspicionTimer
  split
  · exact h
  · intro id' τ hτ
    rcases Dict.get?_set_eq_some_iff.1 hτ with ⟨hid, rfl⟩ | ⟨-, hτ⟩
    · exact ⟨_, List.getElem?_concat_length .., hid.symm, .inl rfl⟩
    · obtain ⟨timer, htimer, hid, hlive⟩ := h id' τ hτ
      refine ⟨timer, ?_, hid, hlive⟩
      rw [List.getElem?_append_left (List.getElem?_eq_some_iff.1 htimer).1, htimer]

theorem Entered.change (h : m.Entered scheduled) (hc : m.TimersChange m') :
    m'.Entered scheduled := by
  cases hc with
  | same he => exact h.of_eq he
  | cancel id he => exact (h.cancelTimer id).of_eq he
  | start id he => exact (h.startSuspicionTimer id).of_eq he

end MembershipManager

namespace Pc
open MembershipManager
variable {pc pc' : Pc} {now : ℚ} {picks : List Ref} {m m' : MembershipManager} {id : String}

theorem timersChange_advance (h : pc.advance now picks m = some (pc', m'))
    (hpc : ∀ id τ, pc ≠ .confirmStart id τ) : m.TimersChange m' := by
  cases hw : pc.writesTable with
  | false =>
    obtain ⟨-, -, ht, hs⟩ := sameTable_advance h hw
    exact .same ⟨ht, hs⟩
  | true =>
    cases pc with
    | confirmStart id τ => exact absurd rfl (hpc id τ)
    | ping msg => exact of_advance h (timersChange_onEntry fun r => .same ⟨rfl, rfl⟩)
    | ackPeer msg targetId l => exact of_advance h timersChange_ackPeer
    | alive id msg => exact of_advance h (timersChange_onEntry fun r => timersChange_reviveEntry)
    | suspect id msg => exact of_advance h timersChange_handleSuspect
    | dead id msg => exact of_advance h timersChange_handleDead
    | confirm id τ => exact of_advance h (.same timersEq_confirmDead)
    | addPeer r => exact of_advance h (.same (timersEq_addPeer r))
    | removePeer id => exact of_advance h (.same (timersEq_removePeer id))
    | suspectPeer target drop =>
      obtain ⟨-, -, ht, hs⟩ := sameTable_suspectPeer h
      exact (timersChange_suspectPeer target).trans_eq ⟨ht, hs⟩
    | _ => cases hw

theorem advance_ne_confirmStart (h : pc.advance now picks m = some (pc', m')) (id : String)
    (τ : TimerId) : pc' ≠ .confirmStart id τ := by
  rintro rfl
  cases pc <;> simp only [advance] at h
  all_goals first
    | cases h
    | (repeat' split at h) <;> cases h

theorem eq_confirmStart_of_advance {τ : TimerId}
    (h : pc.advance now picks m = some (.confirm id τ, m')) : pc = .confirmStart id τ := by
  cases pc <;> simp only [advance] at h
  case confirmStart => cases h; rfl
  all_goals first
    | cases h
    | (repeat' split at h) <;> cases h

theorem ofMessage_not_confirm (msg : MessageHeader) (m : MembershipManager) (id : String)
    (τ : TimerId) : (ofMessage msg m).1 ≠ .confirmStart id τ ∧ (ofMessage msg m).1 ≠ .confirm id τ := by
  unfold ofMessage
  repeat' split
  all_goals simp

theorem timersEq_advance_of_suspects (h : pc.advance now picks m = some (pc', m'))
    (hpc : pc.marksSuspect = true) (hs : pc.Suspects m id) :
    (m.startSuspicionTimer id).TimersEq m' := by
  cases pc with
  | suspect id' msg =>
    obtain ⟨-, rfl⟩ := Prod.mk.inj (Option.some.inj h)
    obtain ⟨rfl, r, hr, halive, hle⟩ := hs
    have hmark : ((m.heap r).markSuspect (some msg.incarnation)).1 = true := by
      simp [Peer.markSuspect, halive, hle.not_gt]
    rw [handleSuspect, onEntry_of_some hr]
    dsimp only
    rw [if_pos hmark]
    exact timersEq_startSuspicionTimer rfl ⟨rfl, rfl⟩
  | suspectPeer target drop =>
    obtain ⟨-, -, ht, ht'⟩ := sameTable_suspectPeer h
    obtain ⟨rfl, r, hr, halive⟩ := hs
    have hmark : ((m.heap r).markSuspect none).1 = true := by simp [Peer.markSuspect, halive]
    simp only [MembershipManager.suspectPeer, hr, hmark, if_true] at ht ht'
    have he : (m.startSuspicionTimer (m.heap target).id).TimersEq
        (((m.setPeer r ((m.heap r).markSuspect none).2).notify m.config.onPeerSuspect
          (.suspect (m.heap target).id)).startSuspicionTimer (m.heap target).id) :=
      timersEq_startSuspicionTimer rfl ⟨rfl, rfl⟩
    exact ⟨ht.trans he.1, ht'.trans he.2⟩
  | _ => cases hpc

theorem timersEq_ofMessage (msg : MessageHeader) (m : MembershipManager) :
    m.TimersEq (ofMessage msg m).2 := by
  unfold ofMessage
  repeat' split
  all_goals exact ⟨rfl, rfl⟩

end Pc

end GossipRl
