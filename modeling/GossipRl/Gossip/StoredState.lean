import GossipRl.Gossip.SuspicionTimers
import GossipRl.Support.Run
import Mathlib.Logic.Function.Basic

/-!
# Stored states

`storedState` is what the table says of an id. `StateChange` lists all that a stretch of a task does
to the stored states, the entered timers and the callbacks together, so a property that links two of
them is a matter of its cases. Where an entry is replaced, removed or confirmed dead, the timer of
its id is left alone and only the last of these is announced.
-/

namespace GossipRl
open Support

namespace MembershipManager

/-- The state stored for `id`. -/
def storedState (m : MembershipManager) (id : String) : Option PeerState :=
  (m.peers.get? id).map fun r => (m.heap r).state

variable {m m' : MembershipManager} {id : String} {r : Ref} {p : Peer}

theorem storedState_of_get? (h : m.peers.get? id = some r) :
    m.storedState id = some (m.heap r).state := by simp [storedState, h]

theorem storedState_congr (hp : m'.peers = m.peers) (hh : m'.heap = m.heap) :
    m'.storedState = m.storedState := by
  funext id
  simp [storedState, hp, hh]

theorem storedState_eq_suspect_iff :
    m.storedState id = some .SUSPECT ↔ ∃ r, m.SuspectEntry id r := by
  simp [storedState, SuspectEntry, Option.map_eq_some_iff]

theorem storedState_of_updates (hu : Updates (fun p p' => p'.state = p.state) m m') :
    m'.storedState = m.storedState := by
  funext id
  simp [storedState, hu.peers, hu.heap]

theorem storedState_of_set (hm : m.Keyed) (hr : m.peers.get? id = some r) (hp : m'.peers = m.peers)
    (hh : m'.heap = (m.setPeer r p).heap) :
    m'.storedState = Function.update m.storedState id (some p.state) := by
  funext id'
  by_cases hid : id' = id
  · subst hid
    rw [Function.update_self, storedState_of_get? (by rw [hp]; exact hr), hh, heap_setPeer_self]
  · rw [Function.update_of_ne hid]
    cases hr' : m.peers.get? id' with
    | none => simp [storedState, hp, hr']
    | some r' =>
      have hne : r' ≠ r := by
        rintro rfl
        exact hid ((hm id' _ hr').symm.trans (hm id _ hr))
      rw [storedState_of_get? hr', storedState_of_get? (by rw [hp]; exact hr'), hh,
        heap_setPeer_of_ne hne]

theorem storedState_of_set_eq (hm : m.Keyed) (hr : m.peers.get? id = some r)
    (hp : m'.peers = m.peers) (hh : m'.heap = (m.setPeer r p).heap)
    (hst : p.state = (m.heap r).state) : m'.storedState = m.storedState := by
  rw [storedState_of_set hm hr hp hh, hst, ← storedState_of_get? hr, Function.update_eq_self]

/-- What a stretch of a task does to the stored states, the entered timers and the callbacks. -/
inductive StateChange (m m' : MembershipManager) : Pc → Prop
  | same {pc : Pc} (hs : m'.storedState = m.storedState)
      (ht : m'.suspicionTimers = m.suspicionTimers) (hn : m'.notified = m.notified) :
      StateChange m m' pc
  | revive {pc : Pc} (id : String) (st : PeerState) (hold : m.storedState id = some st)
      (hst : st ≠ .ALIVE) (hs : m'.storedState = Function.update m.storedState id (some .ALIVE))
      (ht : m'.suspicionTimers = m.suspicionTimers.erase id)
      (hn : m'.notified = (m.notify m.config.onPeerAlive (.alive id)).notified) :
      StateChange m m' pc
  | suspect {pc : Pc} (id : String) (hold : m.storedState id = some .ALIVE)
      (hs : m'.storedState = Function.update m.storedState id (some .SUSPECT))
      (ht : m'.suspicionTimers = (m.startSuspicionTimer id).suspicionTimers)
      (hn : m'.notified = (m.notify m.config.onPeerSuspect (.suspect id)).notified) :
      StateChange m m' pc
  | dead {pc : Pc} (id : String) (st : PeerState) (hold : m.storedState id = some st)
      (hst : st ≠ .DEAD) (hs : m'.storedState = Function.update m.storedState id (some .DEAD))
      (ht : m'.suspicionTimers = m.suspicionTimers.erase id)
      (hn : m'.notified = (m.notify m.config.onPeerDead (.dead id)).notified) :
      StateChange m m' pc
  | confirm (id : String) (τ : TimerId) (hold : m.storedState id = some .SUSPECT)
      (hs : m'.storedState = Function.update m.storedState id (some .DEAD))
      (ht : m'.suspicionTimers = m.suspicionTimers)
      (hn : m'.notified = (m.notify m.config.onPeerDead (.dead id)).notified) :
      StateChange m m' (.confirm id τ)
  | drop (id : String) (τ : TimerId) (hs : m'.storedState = m.storedState)
      (ht : m'.suspicionTimers = m.suspicionTimers.erase id) (hn : m'.notified = m.notified) :
      StateChange m m' (.confirmStart id τ)
  | enter (r : Ref) (hacc : m.Accepts r)
      (hs : m'.storedState = Function.update m.storedState (m.heap r).id (some (m.heap r).state))
      (ht : m'.suspicionTimers = m.suspicionTimers) (hn : m'.notified = m.notified) :
      StateChange m m' (.addPeer r)
  | remove (id : String) (hs : m'.storedState = Function.update m.storedState id none)
      (ht : m'.suspicionTimers = m.suspicionTimers) (hn : m'.notified = m.notified) :
      StateChange m m' (.removePeer id)

theorem SameTable.stateChange {pc : Pc} (h : m.SameTable m') (hn : m'.notified = m.notified) :
    m.StateChange m' pc :=
  .same (storedState_congr h.peers h.heap) h.suspicionTimers hn

theorem StateChange.congr {m'' : MembershipManager} {pc : Pc} (h : m.StateChange m' pc)
    (hm : m'.SameTable m'') (hn : m''.notified = m'.notified) : m.StateChange m'' pc := by
  have hs := storedState_congr hm.peers hm.heap
  have ht := hm.suspicionTimers
  cases h with
  | same h₁ h₂ h₃ => exact .same (hs.trans h₁) (ht.trans h₂) (hn.trans h₃)
  | revive id st hold hst h₁ h₂ h₃ =>
    exact .revive id st hold hst (hs.trans h₁) (ht.trans h₂) (hn.trans h₃)
  | suspect id hold h₁ h₂ h₃ => exact .suspect id hold (hs.trans h₁) (ht.trans h₂) (hn.trans h₃)
  | dead id st hold hst h₁ h₂ h₃ =>
    exact .dead id st hold hst (hs.trans h₁) (ht.trans h₂) (hn.trans h₃)
  | confirm id τ hold h₁ h₂ h₃ => exact .confirm id τ hold (hs.trans h₁) (ht.trans h₂) (hn.trans h₃)
  | drop id τ h₁ h₂ h₃ => exact .drop id τ (hs.trans h₁) (ht.trans h₂) (hn.trans h₃)
  | enter r hacc h₁ h₂ h₃ => exact .enter r hacc (hs.trans h₁) (ht.trans h₂) (hn.trans h₃)
  | remove id h₁ h₂ h₃ => exact .remove id (hs.trans h₁) (ht.trans h₂) (hn.trans h₃)

theorem stateChange_onEntry {pc : Pc} {f : Ref → MembershipManager → MembershipManager}
    (h : ∀ r, m.peers.get? id = some r → m.StateChange (f r m) pc) :
    m.StateChange (m.onEntry id f) pc := by
  cases hr : m.peers.get? id with
  | none => rw [onEntry_of_none hr]; exact .same rfl rfl rfl
  | some r => rw [onEntry_of_some hr]; exact h r hr

theorem startSuspicionTimer_congr (h : m'.suspicionTimers = m.suspicionTimers)
    (ht : m'.timers = m.timers) :
    (m'.startSuspicionTimer id).suspicionTimers = (m.startSuspicionTimer id).suspicionTimers := by
  simp only [startSuspicionTimer, h, ht]
  split
  · exact h
  · rfl

@[simp] theorem notified_startSuspicionTimer :
    (m.startSuspicionTimer id).notified = m.notified := by
  unfold startSuspicionTimer
  split <;> rfl

end MembershipManager

namespace Peer
variable (p : Peer) (now : ℚ) (i : Option Int)

/-- `mark_alive` leaves another state than `ALIVE` only where it changes nothing. -/
theorem state_markAlive_cases : ((p.markAlive now i).1 = true ∧ p.state ≠ .ALIVE ∧
      (p.markAlive now i).2.state = .ALIVE) ∨
    ((p.markAlive now i).1 = false ∧ (p.markAlive now i).2.state = p.state) := by
  unfold markAlive
  split
  · exact .inr ⟨rfl, rfl⟩
  · by_cases h : p.state = .ALIVE
    · exact .inr ⟨by simp [h], h.symm⟩
    · exact .inl ⟨by simp [h], h, rfl⟩

theorem state_markSuspect_cases : ((p.markSuspect i).1 = true ∧ p.state = .ALIVE ∧
      (p.markSuspect i).2.state = .SUSPECT) ∨
    ((p.markSuspect i).1 = false ∧ (p.markSuspect i).2.state = p.state) := by
  unfold markSuspect
  split
  · exact .inr ⟨rfl, rfl⟩
  · split
    · rename_i h
      exact .inl ⟨rfl, h, rfl⟩
    · exact .inr ⟨rfl, rfl⟩

theorem state_markDead_cases : ((p.markDead i).1 = true ∧ p.state ≠ .DEAD ∧
      (p.markDead i).2.state = .DEAD) ∨
    ((p.markDead i).1 = false ∧ (p.markDead i).2.state = p.state) := by
  unfold markDead
  split
  · exact .inr ⟨rfl, rfl⟩
  · split
    · rename_i h
      exact .inl ⟨rfl, h, rfl⟩
    · exact .inr ⟨rfl, rfl⟩

end Peer

namespace MembershipManager
variable {m m' : MembershipManager} {id : String} {r : Ref} {pc : Pc} {now : ℚ}

theorem setPeer_heap : m.setPeer r (m.heap r) = m := by simp [setPeer]

theorem stateChange_reviveEntry {p : Peer} {i : Int} (hm : m.Keyed) (hr : m.peers.get? id = some r)
    (hst : p.state = (m.heap r).state) :
    m.StateChange ((m.setPeer r p).reviveEntry now id i r) pc := by
  have hheap : ((m.setPeer r p).setPeer r (p.markAlive now (some i)).2).heap =
      (m.setPeer r (p.markAlive now (some i)).2).heap := by
    show Function.update (Function.update _ _ _) _ _ = _
    rw [Function.update_idem]
    rfl
  unfold reviveEntry
  simp only [heap_setPeer_self]
  rcases p.state_markAlive_cases now (some i) with ⟨hc, hne, hal⟩ | ⟨hc, hsame⟩
  · rw [if_pos hc]
    refine .revive id (m.heap r).state (storedState_of_get? hr) (hst ▸ hne) ?_ rfl rfl
    rw [← hal]
    exact storedState_of_set hm hr rfl hheap
  · rw [hc]
    exact .same (storedState_of_set_eq hm hr rfl hheap (hsame.trans hst)) rfl rfl

theorem stateChange_handlePing {msg : MessageHeader} (hm : m.Keyed) :
    m.StateChange (m.handlePing now msg) pc :=
  stateChange_onEntry fun _ hr => .same (storedState_of_set_eq hm hr rfl rfl rfl) rfl rfl

theorem stateChange_handleAlive {msg : MessageHeader} (hm : m.Keyed) :
    m.StateChange (m.handleAlive now id msg) pc := by
  refine stateChange_onEntry ?_
  intro r hr
  have h : m.StateChange ((m.setPeer r (m.heap r)).reviveEntry now id msg.incarnation r) pc :=
    stateChange_reviveEntry hm hr rfl
  rwa [setPeer_heap] at h

theorem stateChange_ackPeer {msg : MessageHeader} {l : ℚ} (hm : m.Keyed) :
    m.StateChange (m.ackPeer now msg id l) pc := by
  have h : m.StateChange (m.onEntry id fun r m =>
      (m.setPeer r ((m.heap r).updateLatency l)).reviveEntry now id msg.incarnation r) pc := by
    refine stateChange_onEntry ?_
    intro r hr
    exact stateChange_reviveEntry hm hr rfl
  exact h.congr ⟨rfl, rfl, rfl, rfl⟩ rfl

theorem stateChange_handleSuspect {msg : MessageHeader} (hm : m.Keyed) :
    m.StateChange (m.handleSuspect id msg) pc := by
  refine stateChange_onEntry ?_
  intro r hr
  dsimp only
  rcases (m.heap r).state_markSuspect_cases (some msg.incarnation) with
    ⟨hc, hal, hsus⟩ | ⟨hc, hsame⟩
  · rw [if_pos hc]
    refine .suspect id (hal ▸ storedState_of_get? hr) ?_ (startSuspicionTimer_congr rfl rfl)
      notified_startSuspicionTimer
    rw [← hsus]
    exact storedState_of_set hm hr (by simp) (by simp)
  · rw [hc]
    exact .same (storedState_of_set_eq hm hr rfl rfl hsame) rfl rfl

theorem stateChange_handleDead {msg : MessageHeader} (hm : m.Keyed) :
    m.StateChange (m.handleDead id msg) pc := by
  refine stateChange_onEntry ?_
  intro r hr
  dsimp only
  rcases (m.heap r).state_markDead_cases (some msg.incarnation) with
    ⟨hc, hne, hdead⟩ | ⟨hc, hsame⟩
  · rw [if_pos hc]
    refine .dead id (m.heap r).state (storedState_of_get? hr) hne ?_ rfl rfl
    rw [← hdead]
    exact storedState_of_set hm hr rfl rfl
  · rw [hc]
    exact .same (storedState_of_set_eq hm hr rfl rfl hsame) rfl rfl

theorem stateChange_confirmDead {τ : TimerId} (hm : m.Keyed) :
    m.StateChange (m.confirmDead id) (.confirm id τ) := by
  refine stateChange_onEntry ?_
  intro r hr
  split
  · rename_i hsus
    refine .confirm id τ (hsus ▸ storedState_of_get? hr) ?_ rfl rfl
    have hdead : ((m.heap r).markDead none).2.state = .DEAD := by simp [Peer.markDead, hsus]
    rw [← hdead]
    exact storedState_of_set hm hr rfl rfl
  · exact .same rfl rfl rfl

theorem stateChange_suspectPeer (target : Ref) (hm : m.Keyed) :
    m.StateChange (m.suspectPeer target).2 pc := by
  unfold suspectPeer
  dsimp only
  split
  · exact .same rfl rfl rfl
  · rename_i r hr
    rcases (m.heap r).state_markSuspect_cases none with ⟨hc, hal, hsus⟩ | ⟨hc, hsame⟩
    · rw [if_pos hc]
      refine .suspect (m.heap target).id (hal ▸ storedState_of_get? hr) ?_
        (startSuspicionTimer_congr rfl rfl) notified_startSuspicionTimer
      rw [← hsus]
      exact storedState_of_set hm hr (by simp [nextSequence]) (by simp [nextSequence])
    · rw [hc]
      exact .same (storedState_of_set_eq hm hr rfl rfl hsame) rfl rfl

theorem storedState_addPeer (h : m.Accepts r) : (m.addPeer r).2.storedState =
    Function.update m.storedState (m.heap r).id (some (m.heap r).state) := by
  rw [addPeer_of_accepts h]
  funext id
  by_cases hid : id = (m.heap r).id
  · subst hid
    rw [Function.update_self]
    simp [storedState]
  · rw [Function.update_of_ne hid]
    simp [storedState, Dict.get?_set_of_ne hid]

theorem stateChange_addPeer (r : Ref) : m.StateChange (m.addPeer r).2 (.addPeer r) := by
  by_cases h : m.Accepts r
  · refine .enter r h (storedState_addPeer h) ?_ ?_
    · rw [addPeer_of_accepts h]
    · rw [addPeer_of_accepts h]
  · rw [addPeer_of_not_accepts h]
    exact .same rfl rfl rfl

theorem storedState_removePeer (id : String) :
    (m.removePeer id).2.storedState = Function.update m.storedState id none := by
  rw [removePeer_snd]
  funext id'
  by_cases hid : id' = id
  · subst hid
    simp [storedState, Dict.get?_erase]
  · rw [Function.update_of_ne hid]
    simp [storedState, Dict.get?_erase, hid]

/-- Callbacks, settings and the local peer are the same, and sequence numbers only grow. -/
structure SameSetup (m m' : MembershipManager) : Prop where
  config : m'.config = m.config
  localPeer : m'.localPeer = m.localPeer
  sequence : m.sequenceNum ≤ m'.sequenceNum

/-- The queue of updates is the same, too. -/
structure SameQueue (m m' : MembershipManager) : Prop extends SameSetup m m' where
  queue : m'.updatesQueue = m.updatesQueue

theorem sameQueue_onEntry {f : Ref → MembershipManager → MembershipManager}
    (h : ∀ r, m.SameQueue (f r m)) : m.SameQueue (m.onEntry id f) := by
  cases hr : m.peers.get? id with
  | none => rw [onEntry_of_none hr]; exact ⟨⟨rfl, rfl, le_rfl⟩, rfl⟩
  | some r => rw [onEntry_of_some hr]; exact h r

theorem SameQueue.reviveEntry {i : Int} (h : m.SameQueue m') (r : Ref) :
    m.SameQueue (m'.reviveEntry now id i r) := by
  unfold MembershipManager.reviveEntry
  dsimp only
  split <;> exact ⟨⟨h.config, h.localPeer, h.sequence⟩, h.queue⟩

theorem config_startSuspicionTimer : (m.startSuspicionTimer id).config = m.config := by
  unfold startSuspicionTimer
  split <;> rfl

theorem sequenceNum_startSuspicionTimer :
    (m.startSuspicionTimer id).sequenceNum = m.sequenceNum := by
  unfold startSuspicionTimer
  split <;> rfl

theorem updatesQueue_startSuspicionTimer :
    (m.startSuspicionTimer id).updatesQueue = m.updatesQueue := by
  unfold startSuspicionTimer
  split <;> rfl

theorem sameQueue_handleSuspect {msg : MessageHeader} : m.SameQueue (m.handleSuspect id msg) := by
  refine sameQueue_onEntry ?_
  intro r
  dsimp only
  split
  · exact ⟨⟨config_startSuspicionTimer, localPeer_startSuspicionTimer,
      sequenceNum_startSuspicionTimer.ge⟩, updatesQueue_startSuspicionTimer⟩
  · exact ⟨⟨rfl, rfl, le_rfl⟩, rfl⟩

theorem sameQueue_handleDead {msg : MessageHeader} : m.SameQueue (m.handleDead id msg) := by
  refine sameQueue_onEntry ?_
  intro r
  dsimp only
  split <;> exact ⟨⟨rfl, rfl, le_rfl⟩, rfl⟩

theorem sameQueue_confirmDead : m.SameQueue (m.confirmDead id) := by
  refine sameQueue_onEntry ?_
  intro r
  split <;> exact ⟨⟨rfl, rfl, le_rfl⟩, rfl⟩

theorem sameQueue_addPeer (r : Ref) : m.SameQueue (m.addPeer r).2 := by
  rcases addPeer_cases r m with ⟨-, heq⟩ | heq <;> rw [heq] <;> exact ⟨⟨rfl, rfl, le_rfl⟩, rfl⟩

theorem sameQueue_removePeer (id : String) : m.SameQueue (m.removePeer id).2 := by
  rw [removePeer_snd]
  exact ⟨⟨rfl, rfl, le_rfl⟩, rfl⟩

theorem sameQueue_suspectPeer (target : Ref) : m.SameQueue (m.suspectPeer target).2 := by
  unfold suspectPeer
  dsimp only
  split
  · exact ⟨⟨rfl, rfl, le_rfl⟩, rfl⟩
  · split
    · refine ⟨⟨config_startSuspicionTimer.trans rfl, localPeer_startSuspicionTimer.trans rfl, ?_⟩,
        updatesQueue_startSuspicionTimer.trans rfl⟩
      simp only [nextSequence, sequenceNum_startSuspicionTimer]
      show m.sequenceNum ≤ m.sequenceNum + 1
      omega
    · exact ⟨⟨rfl, rfl, le_rfl⟩, rfl⟩

theorem stateChange_removePeer (id : String) :
    m.StateChange (m.removePeer id).2 (.removePeer id) := by
  refine .remove id (storedState_removePeer id) ?_ ?_
  · rw [removePeer_snd]
  · rw [removePeer_snd]

end MembershipManager

namespace Pc
open MembershipManager
variable {pc pc' : Pc} {now : ℚ} {picks : List Ref} {m m' : MembershipManager}

theorem notified_advance (h : pc.advance now picks m = some (pc', m'))
    (hpc : pc.writesTable = false) : m'.notified = m.notified := by
  obtain ⟨_, _, _, rfl⟩ := advance_of_not_writesTable h hpc
  rfl

theorem stateChange_advance (h : pc.advance now picks m = some (pc', m')) (hm : m.Keyed) :
    m.StateChange m' pc := by
  cases hw : pc.writesTable with
  | false => exact (sameTable_advance h hw).stateChange (notified_advance h hw)
  | true =>
    cases pc with
    | ping msg => exact of_advance h (stateChange_handlePing hm)
    | ackPeer msg targetId l => exact of_advance h (stateChange_ackPeer hm)
    | alive id msg => exact of_advance h (stateChange_handleAlive hm)
    | suspect id msg => exact of_advance h (stateChange_handleSuspect hm)
    | dead id msg => exact of_advance h (stateChange_handleDead hm)
    | confirmStart id τ => exact of_advance h (.drop id τ rfl rfl rfl)
    | confirm id τ => exact of_advance h (stateChange_confirmDead hm)
    | addPeer r => exact of_advance h (stateChange_addPeer r)
    | removePeer id => exact of_advance h (stateChange_removePeer id)
    | suspectPeer target drop =>
      refine (stateChange_suspectPeer target hm).congr (sameTable_suspectPeer h) ?_
      rcases suspectPeer_advance h with rfl | ⟨sequence, rfl⟩
      · rfl
      · rfl
    | _ => cases hw

/-- The tasks that write to the queue of updates. -/
def writesQueue : Pc → Bool
  | .broadcast .. | .suspectQueue .. | .getUpdates .. => true
  | _ => false

theorem sameQueue_advance (h : pc.advance now picks m = some (pc', m'))
    (hpc : pc.writesQueue = false) : m.SameQueue m' := by
  cases pc with
  | broadcast | suspectQueue | getUpdates => cases hpc
  | ping msg => exact of_advance h (sameQueue_onEntry fun r => ⟨⟨rfl, rfl, le_rfl⟩, rfl⟩)
  | ackPeer msg targetId l =>
    have hs : m.SameQueue (m.onEntry targetId fun r m =>
        (m.setPeer r ((m.heap r).updateLatency l)).reviveEntry now targetId msg.incarnation r) := by
      refine sameQueue_onEntry ?_
      intro r
      have hl : m.SameQueue (m.setPeer r ((m.heap r).updateLatency l)) := ⟨⟨rfl, rfl, le_rfl⟩, rfl⟩
      exact hl.reviveEntry r
    exact of_advance h ⟨⟨hs.config, hs.localPeer, hs.sequence⟩, hs.queue⟩
  | alive id msg =>
    exact of_advance h (sameQueue_onEntry fun r => .reviveEntry ⟨⟨rfl, rfl, le_rfl⟩, rfl⟩ r)
  | suspect id msg => exact of_advance h sameQueue_handleSuspect
  | dead id msg => exact of_advance h sameQueue_handleDead
  | confirm id τ => exact of_advance h sameQueue_confirmDead
  | addPeer r => exact of_advance h (sameQueue_addPeer r)
  | removePeer id => exact of_advance h (sameQueue_removePeer id)
  | suspectPeer target drop =>
    have hs := sameQueue_suspectPeer (m := m) target
    rcases suspectPeer_advance h with rfl | ⟨sequence, rfl⟩
    · exact hs
    · exact ⟨⟨hs.config, hs.localPeer, hs.sequence⟩, hs.queue⟩
  | indirectRegister target sequence probes =>
    refine of_advance h ?_
    unfold setIndirectTargets
    split <;> exact ⟨⟨rfl, rfl, le_rfl⟩, rfl⟩
  | probePick =>
    simp only [advance] at h
    repeat' split at h
    all_goals first
      | exact of_advance h ⟨⟨rfl, rfl, le_rfl⟩, rfl⟩
      | exact of_advance h ⟨⟨rfl, rfl, Int.le_add_one le_rfl⟩, rfl⟩
      | cases h
  | ack | probeCheck | indirectSelect | indirectCheck =>
    simp only [advance] at h
    repeat' split at h
    all_goals first
      | exact of_advance h ⟨⟨rfl, rfl, le_rfl⟩, rfl⟩
      | cases h
  | done => cases h
  | _ => exact of_advance h ⟨⟨rfl, rfl, le_rfl⟩, rfl⟩

theorem sameSetup_advance (h : pc.advance now picks m = some (pc', m')) : m.SameSetup m' := by
  cases hw : pc.writesQueue with
  | false => exact (sameQueue_advance h hw).toSameSetup
  | true =>
    cases pc with
    | broadcast out =>
      obtain ⟨-, rfl⟩ := Prod.mk.inj (Option.some.inj h)
      exact ⟨rfl, rfl, le_rfl⟩
    | suspectQueue out drop =>
      cases drop <;> (obtain ⟨-, rfl⟩ := Prod.mk.inj (Option.some.inj h); exact ⟨rfl, rfl, le_rfl⟩)
    | getUpdates n =>
      obtain ⟨-, rfl⟩ := Prod.mk.inj (Option.some.inj h)
      exact ⟨rfl, rfl, le_rfl⟩
    | _ => cases hw

theorem notified_ofMessage (msg : MessageHeader) (m : MembershipManager) :
    (ofMessage msg m).2.notified = m.notified := by
  unfold ofMessage
  repeat' split
  all_goals rfl

theorem sameQueue_ofMessage (msg : MessageHeader) (m : MembershipManager) :
    m.SameQueue (ofMessage msg m).2 := by
  unfold ofMessage
  repeat' split
  all_goals first
    | exact ⟨⟨rfl, rfl, le_rfl⟩, rfl⟩
    | exact ⟨⟨rfl, rfl, Int.le_add_one le_rfl⟩, rfl⟩

end Pc

namespace Sched

/-- The task that goes on in this step, if one does, satisfies `C` in the state before. -/
def OnResume (C : Pc → MembershipManager → Prop) (s : Sched) : MembershipEvent → Prop
  | .resume t _ _ => ∀ pc, s.tasks[t]? = some pc → C pc s.manager
  | _ => True

variable {s s' : Sched} {e : MembershipEvent}

/-- A step is a stretch of a task, or leaves states, entered timers and callbacks alone. -/
theorem stateChange_step (h : s.step e = some s') (hm : s.manager.Keyed) :
    (∃ t now picks pc pc', e = .resume t now picks ∧ s.tasks[t]? = some pc ∧
      pc.advance now picks s.manager = some (pc', s'.manager) ∧ s'.tasks = s.tasks.set t pc' ∧
      s.manager.StateChange s'.manager pc) ∨
    ((∀ t now picks, e ≠ .resume t now picks) ∧ (∀ pc ∈ s.tasks, pc ∈ s'.tasks) ∧
      s'.manager.storedState = s.manager.storedState ∧
      s'.manager.suspicionTimers = s.manager.suspicionTimers ∧
      s'.manager.notified = s.manager.notified) := by
  by_cases he : ∃ t now picks, e = .resume t now picks
  · obtain ⟨t, now, picks, rfl⟩ := he
    obtain ⟨pc, pc', m, ht, -, hadv, rfl⟩ := step_resume_iff.1 h
    exact .inl ⟨t, now, picks, pc, pc', rfl, ht, hadv, rfl, Pc.stateChange_advance hadv hm⟩
  · have he' : ∀ t now picks, e ≠ .resume t now picks := fun t now picks heq => he ⟨t, now, picks, heq⟩
    have hu := updates_step (P := fun p p' => p'.state = p.state) h (fun _ => rfl) (fun _ _ => rfl) he'
    refine .inr ⟨he', ?_, MembershipManager.storedState_of_updates hu, ?_⟩
    · cases e with
      | resume t now picks => exact absurd rfl (he' t now picks)
      | fire τ =>
        obtain ⟨timer, -, -, rfl⟩ := step_fire_iff.1 h
        exact fun pc => List.mem_append_left _
      | receive | addPeer | removePeer | readPeers | getUpdates | start =>
        obtain rfl := Option.some.inj h
        exact fun pc => List.mem_append_left _
    · cases e with
      | resume t now picks => exact absurd rfl (he' t now picks)
      | fire τ =>
        obtain ⟨timer, -, -, rfl⟩ := step_fire_iff.1 h
        exact ⟨rfl, rfl⟩
      | receive msg =>
        obtain rfl := Option.some.inj h
        exact ⟨(Pc.timersEq_ofMessage msg s.manager).2, Pc.notified_ofMessage msg s.manager⟩
      | addPeer | removePeer | readPeers | getUpdates | start =>
        obtain rfl := Option.some.inj h
        exact ⟨rfl, rfl⟩

theorem sameSetup_step (h : s.step e = some s') : s.manager.SameSetup s'.manager := by
  cases e with
  | resume t now picks =>
    obtain ⟨pc, pc', m, -, -, hadv, rfl⟩ := step_resume_iff.1 h
    exact Pc.sameSetup_advance hadv
  | fire τ =>
    obtain ⟨timer, -, -, rfl⟩ := step_fire_iff.1 h
    exact ⟨rfl, rfl, le_rfl⟩
  | receive msg =>
    obtain rfl := Option.some.inj h
    exact (Pc.sameQueue_ofMessage msg s.manager).toSameSetup
  | addPeer | removePeer | readPeers | getUpdates | start =>
    obtain rfl := Option.some.inj h
    exact ⟨rfl, rfl, le_rfl⟩

theorem step_receive {msg : MessageHeader} : s.step (.receive msg) =
    some ⟨(Pc.ofMessage msg s.manager).2, s.tasks ++ [(Pc.ofMessage msg s.manager).1]⟩ := rfl

/-- A task with one more stretch to go stays as it is until it has done it. -/
theorem task_waits {n : Nat} {pc : Pc} {es : List MembershipEvent}
    (hpc : ∀ now picks m pc' m', pc.advance now picks m = some (pc', m') → pc' = .done)
    (hn : s.tasks[n]? = some pc) (h : run step s es = some s') :
    s'.tasks[n]? = some pc ∨ s'.tasks[n]? = some .done := by
  refine run_invariant (P := fun s => s.tasks[n]? = some pc ∨ s.tasks[n]? = some .done) (.inl hn)
    ?_ h
  intro s e s' hs hstep
  have kept : ∀ pc, (s.tasks ++ [pc])[n]? = s.tasks[n]? := by
    intro pc
    have hlt : n < s.tasks.length := by
      rcases hs with hs | hs <;> exact (List.getElem?_eq_some_iff.1 hs).1
    rw [List.getElem?_append_left hlt]
  cases e with
  | resume t now picks =>
    obtain ⟨pc₀, pc', m, ht, -, hadv, rfl⟩ := step_resume_iff.1 hstep
    by_cases htn : t = n
    · subst htn
      rcases hs with hs | hs
      · obtain rfl := Option.some.inj (ht.symm.trans hs)
        obtain rfl := hpc _ _ _ _ _ hadv
        exact .inr (List.getElem?_set_self (List.getElem?_eq_some_iff.1 ht).1)
      · obtain rfl := Option.some.inj (ht.symm.trans hs)
        cases hadv
    · show (s.tasks.set t pc')[n]? = _ ∨ (s.tasks.set t pc')[n]? = _
      rwa [List.getElem?_set_ne htn]
  | fire τ =>
    obtain ⟨timer, -, -, rfl⟩ := step_fire_iff.1 hstep
    simpa only [kept] using hs
  | receive | addPeer | removePeer | readPeers | getUpdates | start =>
    obtain rfl := Option.some.inj hstep
    simpa only [spawn, kept] using hs

end Sched

end GossipRl
