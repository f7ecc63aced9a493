import GossipRl.Gossip.MembershipTasks

/-!
# What a task does to the table

Apart from `add_peer` and `remove_peer` a task leaves the dictionary `peers` alone and changes
objects by the `mark_*` functions, `update_latency` and, for a `PING`, by overwriting two fields.
`Updates P` says that each object has changed by `P`; `Pc.updates_advance` gives it for every task
whose changes are of that kind. Most of the places where a task can stop are not about the table at
all (`Pc.sameTable_advance`).
-/

namespace GossipRl
open Support

namespace MembershipManager
variable {P : Peer → Peer → Prop} {m m₁ m₂ m₃ : MembershipManager} {r r' : Ref} {p : Peer}
  {id : String}

@[simp] theorem heap_setPeer_self : (m.setPeer r p).heap r = p := Function.update_self ..

theorem heap_setPeer_of_ne (h : r' ≠ r) : (m.setPeer r p).heap r' = m.heap r' :=
  Function.update_of_ne h ..

@[simp] theorem peers_setPeer : (m.setPeer r p).peers = m.peers := rfl
@[simp] theorem peers_notify (g : Bool) (n : Notice) : (m.notify g n).peers = m.peers := rfl
@[simp] theorem heap_notify (g : Bool) (n : Notice) : (m.notify g n).heap = m.heap := rfl
@[simp] theorem heap_cancelTimer : (m.cancelTimer id).heap = m.heap := rfl

@[simp] theorem peers_startSuspicionTimer : (m.startSuspicionTimer id).peers = m.peers := by
  unfold startSuspicionTimer; split <;> rfl

@[simp] theorem heap_startSuspicionTimer : (m.startSuspicionTimer id).heap = m.heap := by
  unfold startSuspicionTimer; split <;> rfl

@[simp] theorem localPeer_startSuspicionTimer :
    (m.startSuspicionTimer id).localPeer = m.localPeer := by
  unfold startSuspicionTimer; split <;> rfl

theorem onEntry_of_none {f : Ref → MembershipManager → MembershipManager}
    (h : m.peers.get? id = none) : m.onEntry id f = m := by simp [onEntry, h]

theorem onEntry_of_some {f : Ref → MembershipManager → MembershipManager}
    (h : m.peers.get? id = some r) : m.onEntry id f = f r m := by simp [onEntry, h]

/-- `add_peer` enters the object: its id is new, or its incarnation higher than the stored one. -/
def Accepts (m : MembershipManager) (r : Ref) : Prop :=
  ∀ r', m.peers.get? (m.heap r).id = some r' → (m.heap r').incarnation < (m.heap r).incarnation

theorem addPeer_of_accepts (h : m.Accepts r) :
    (m.addPeer r).2 = { m with peers := m.peers.set (m.heap r).id r } := by
  unfold addPeer
  dsimp only
  split
  · rename_i existing hex
    rw [if_pos (h existing hex)]
  · rfl

theorem addPeer_of_not_accepts (h : ¬ m.Accepts r) : (m.addPeer r).2 = m := by
  unfold addPeer
  dsimp only
  split
  · rename_i existing hex
    split
    · rename_i hgt
      refine absurd ?_ h
      intro r' hr'
      obtain rfl := Option.some.inj (hex.symm.trans hr')
      exact hgt
    · rfl
  · rename_i hnone
    refine absurd ?_ h
    intro r' hr'
    cases hnone.symm.trans hr'

theorem addPeer_cases (r : Ref) (m : MembershipManager) :
    m.Accepts r ∧ (m.addPeer r).2 = { m with peers := m.peers.set (m.heap r).id r } ∨
      (m.addPeer r).2 = m := by
  by_cases h : m.Accepts r
  · exact .inl ⟨h, addPeer_of_accepts h⟩
  · exact .inr (addPeer_of_not_accepts h)

theorem heap_addPeer (r : Ref) : (m.addPeer r).2.heap = m.heap := by
  rcases addPeer_cases r m with ⟨-, heq⟩ | heq <;> rw [heq]

theorem removePeer_snd (id : String) (m : MembershipManager) :
    (m.removePeer id).2 = { m with peers := m.peers.erase id } := by
  unfold removePeer
  split
  · rfl
  · rename_i hnone
    rw [Dict.erase_of_get?_eq_none hnone]

/-- The dictionary is the same, and each object has changed by `P`. -/
structure Updates (P : Peer → Peer → Prop) (m m' : MembershipManager) : Prop where
  peers : m'.peers = m.peers
  heap : ∀ r, P (m.heap r) (m'.heap r)

theorem Updates.of_eq (refl : ∀ p, P p p) (hp : m₂.peers = m₁.peers) (hh : m₂.heap = m₁.heap) :
    Updates P m₁ m₂ :=
  ⟨hp, fun _ => hh ▸ refl _⟩

theorem Updates.trans (trans : ∀ p q r, P p q → P q r → P p r) (h : Updates P m₁ m₂)
    (h' : Updates P m₂ m₃) : Updates P m₁ m₃ :=
  ⟨h'.peers.trans h.peers, fun r => trans _ _ _ (h.heap r) (h'.heap r)⟩

theorem Updates.of_set (refl : ∀ p, P p p) (h : P (m.heap r) p) (hp : m₂.peers = m.peers)
    (hh : m₂.heap = (m.setPeer r p).heap) : Updates P m m₂ := by
  refine ⟨hp, fun r' => ?_⟩
  rw [hh]
  by_cases hr : r' = r
  · subst hr
    rwa [heap_setPeer_self]
  · rw [heap_setPeer_of_ne hr]
    exact refl _

theorem updates_onEntry {f : Ref → MembershipManager → MembershipManager} (refl : ∀ p, P p p)
    (h : ∀ r, m.peers.get? id = some r → Updates P m (f r m)) : Updates P m (m.onEntry id f) := by
  cases hr : m.peers.get? id with
  | none => rw [onEntry_of_none hr]; exact .of_eq refl rfl rfl
  | some r => rw [onEntry_of_some hr]; exact h r hr

section
variable (refl : ∀ p, P p p)
include refl

theorem updates_reviveEntry {now : ℚ} {i : Int}
    (h : P (m.heap r) ((m.heap r).markAlive now (some i)).2) :
    Updates P m (m.reviveEntry now id i r) := by
  unfold reviveEntry
  dsimp only
  split
  · exact .of_set refl h rfl rfl
  · exact .of_set refl h rfl rfl

theorem updates_handlePing {now : ℚ} {msg : MessageHeader}
    (h : ∀ r, m.peers.get? msg.senderId = some r →
      P (m.heap r) { m.heap r with lastSeen := now, incarnation := msg.incarnation }) :
    Updates P m (m.handlePing now msg) :=
  updates_onEntry refl fun r hr => .of_set refl (h r hr) rfl rfl

theorem updates_ackPeer {now : ℚ} {msg : MessageHeader} {l : ℚ}
    (trans : ∀ p q r, P p q → P q r → P p r) (hl : ∀ p : Peer, P p (p.updateLatency l))
    (h : ∀ p : Peer, P p (p.markAlive now (some msg.incarnation)).2) :
    Updates P m (m.ackPeer now msg id l) := by
  have hu : Updates P m (m.onEntry id fun r m =>
      (m.setPeer r ((m.heap r).updateLatency l)).reviveEntry now id msg.incarnation r) := by
    refine updates_onEntry refl ?_
    intro r _
    have h₁ : Updates P m (m.setPeer r ((m.heap r).updateLatency l)) := .of_set refl (hl _) rfl rfl
    exact h₁.trans trans (updates_reviveEntry refl (h _))
  exact ⟨hu.peers, hu.heap⟩

theorem updates_handleAlive {now : ℚ} {msg : MessageHeader}
    (h : ∀ p : Peer, P p (p.markAlive now (some msg.incarnation)).2) :
    Updates P m (m.handleAlive now id msg) :=
  updates_onEntry refl fun _ _ => updates_reviveEntry refl (h _)

theorem updates_handleSuspect {msg : MessageHeader}
    (h : ∀ p : Peer, P p (p.markSuspect (some msg.incarnation)).2) :
    Updates P m (m.handleSuspect id msg) := by
  refine updates_onEntry refl ?_
  intro r _
  dsimp only
  split
  · exact .of_set (r := r) refl (h _) (by simp) (by simp)
  · exact .of_set refl (h _) rfl rfl

theorem updates_handleDead {msg : MessageHeader}
    (h : ∀ p : Peer, P p (p.markDead (some msg.incarnation)).2) :
    Updates P m (m.handleDead id msg) := by
  refine updates_onEntry refl ?_
  intro r _
  dsimp only
  split
  · exact .of_set refl (h _) rfl rfl
  · exact .of_set refl (h _) rfl rfl

theorem updates_confirmDead (h : ∀ p : Peer, P p (p.markDead none).2) :
    Updates P m (m.confirmDead id) := by
  refine updates_onEntry refl ?_
  intro r _
  split
  · exact .of_set refl (h _) rfl rfl
  · exact .of_eq refl rfl rfl

theorem updates_suspectPeer (h : ∀ p : Peer, P p (p.markSuspect none).2) :
    Updates P m (m.suspectPeer r).2 := by
  unfold suspectPeer
  dsimp only
  split
  · exact .of_eq refl rfl rfl
  · rename_i r' _
    split
    · exact .of_set (r := r') refl (h _) (by simp [nextSequence]) (by simp [nextSequence])
    · exact .of_set refl (h _) rfl rfl

theorem updates_refute {msg : MessageHeader}
    (h : ∀ p : Peer, P p { p with incarnation := max p.incarnation msg.incarnation + 1 }) :
    Updates P m (m.refute msg).2 :=
  .of_set refl (h _) rfl rfl

end

/-- Peers and timers are the same. -/
structure SameTable (m m' : MembershipManager) : Prop where
  peers : m'.peers = m.peers
  heap : m'.heap = m.heap
  timers : m'.timers = m.timers
  suspicionTimers : m'.suspicionTimers = m.suspicionTimers

end MembershipManager

namespace Pc
open MembershipManager

/-- The tasks that call `mark_suspect`. -/
def marksSuspect : Pc → Bool
  | .suspect .. | .suspectPeer .. => true
  | _ => false

/-- The incarnation with which the task calls `mark_alive`. -/
def revivesWith : Pc → Option Int
  | .ackPeer msg _ _ | .alive _ msg => some msg.incarnation
  | _ => none

/-- The tasks that change the dictionary `peers`. -/
def changesPeers : Pc → Bool
  | .addPeer .. | .removePeer .. => true
  | _ => false

/-- The tasks that may write to the table or to the timers. -/
def writesTable : Pc → Bool
  | .ping .. | .ackPeer .. | .alive .. | .suspect .. | .dead .. | .addPeer .. | .removePeer ..
  | .confirmStart .. | .confirm .. | .suspectPeer .. => true
  | _ => false

variable {pc pc' : Pc} {now : ℚ} {picks : List Ref} {m m' : MembershipManager}

@[elab_as_elim]
theorem of_advance {motive : MembershipManager → Prop} {pc₁ : Pc} {m₁ : MembershipManager}
    (h : some (pc₁, m₁) = some (pc', m')) (hm : motive m₁) : motive m' :=
  (Prod.mk.inj (Option.some.inj h)).2 ▸ hm

theorem advance_of_not_writesTable (h : pc.advance now picks m = some (pc', m'))
    (hpc : pc.writesTable = false) : ∃ sequenceNum pendingProbes updatesQueue, m' =
      { m with
        sequenceNum := sequenceNum
        pendingProbes := pendingProbes
        updatesQueue := updatesQueue } := by
  cases pc with
  | ping | ackPeer | alive | suspect | dead | addPeer | removePeer | confirmStart | confirm
  | suspectPeer => cases hpc
  | suspectQueue out drop => cases drop <;> exact of_advance h ⟨_, _, _, rfl⟩
  | indirectRegister target sequence probes =>
    refine of_advance h ?_
    unfold setIndirectTargets
    split <;> exact ⟨_, _, _, rfl⟩
  | ack | probePick | probeCheck | indirectSelect | indirectCheck =>
    simp only [advance] at h
    repeat' split at h
    all_goals first
      | exact of_advance h ⟨_, _, _, rfl⟩
      | cases h
  | done => cases h
  | _ => exact of_advance h ⟨_, _, _, rfl⟩

theorem sameTable_advance (h : pc.advance now picks m = some (pc', m'))
    (hpc : pc.writesTable = false) : m.SameTable m' := by
  obtain ⟨_, _, _, rfl⟩ := advance_of_not_writesTable h hpc
  exact ⟨rfl, rfl, rfl, rfl⟩

/-- The task that is to mark `target` leaves what `suspectPeer` does, less the probe if there was
nothing to mark. -/
theorem suspectPeer_advance {target : Ref} {drop : Option Int}
    (h : (Pc.suspectPeer target drop).advance now picks m = some (pc', m')) :
    m' = (m.suspectPeer target).2 ∨
      ∃ sequence, m' = (m.suspectPeer target).2.dropProbe sequence := by
  simp only [advance] at h
  split at h
  · rename_i m₁ heq
    rw [heq]
    cases drop with
    | none => exact .inl (Prod.mk.inj (Option.some.inj h)).2.symm
    | some sequence => exact .inr ⟨sequence, (Prod.mk.inj (Option.some.inj h)).2.symm⟩
  · rename_i out m₁ heq
    rw [heq]
    exact .inl (Prod.mk.inj (Option.some.inj h)).2.symm

theorem sameTable_suspectPeer {target : Ref} {drop : Option Int}
    (h : (Pc.suspectPeer target drop).advance now picks m = some (pc', m')) :
    (m.suspectPeer target).2.SameTable m' := by
  rcases suspectPeer_advance h with rfl | ⟨sequence, rfl⟩
  · exact ⟨rfl, rfl, rfl, rfl⟩
  · exact ⟨rfl, rfl, rfl, rfl⟩

theorem advance_changesPeers (h : pc.advance now picks m = some (pc', m'))
    (hpc : pc.changesPeers = true) : (∃ r, pc = .addPeer r ∧ m' = (m.addPeer r).2) ∨
      ∃ id, pc = .removePeer id ∧ m' = (m.removePeer id).2 := by
  cases pc with
  | addPeer r => exact .inl ⟨r, rfl, (Prod.mk.inj (Option.some.inj h)).2.symm⟩
  | removePeer id => exact .inr ⟨id, rfl, (Prod.mk.inj (Option.some.inj h)).2.symm⟩
  | _ => cases hpc

theorem heap_advance (h : pc.advance now picks m = some (pc', m')) (hpc : pc.changesPeers = true) :
    m'.heap = m.heap := by
  rcases advance_changesPeers h hpc with ⟨r, -, rfl⟩ | ⟨id, -, rfl⟩
  · exact heap_addPeer r
  · rw [removePeer_snd]

/-- A task that leaves the dictionary alone changes objects by the `mark_*` functions. -/
theorem updates_advance {P : Peer → Peer → Prop} (h : pc.advance now picks m = some (pc', m'))
    (hpc : pc.changesPeers = false) (refl : ∀ p, P p p) (trans : ∀ p q r, P p q → P q r → P p r)
    (hlatency : ∀ (p : Peer) l, P p (p.updateLatency l))
    (halive : ∀ i, pc.revivesWith = some i → ∀ p : Peer, P p (p.markAlive now (some i)).2)
    (hdead : ∀ (p : Peer) i, P p (p.markDead i).2)
    (hsuspect : pc.marksSuspect = true → ∀ (p : Peer) i, P p (p.markSuspect i).2)
    (hping : ∀ msg r, pc = .ping msg → m.peers.get? msg.senderId = some r →
      P (m.heap r) { m.heap r with lastSeen := now, incarnation := msg.incarnation }) :
    Updates P m m' := by
  cases hw : pc.writesTable with
  | false =>
    obtain ⟨hp, hh, -, -⟩ := sameTable_advance h hw
    exact .of_eq refl hp hh
  | true =>
    cases pc with
    | addPeer | removePeer => cases hpc
    | ping msg => exact of_advance h (updates_handlePing refl fun r hr => hping msg r rfl hr)
    | ackPeer msg targetId l =>
      exact of_advance h (updates_ackPeer refl trans (fun p => hlatency p l) (halive _ rfl))
    | alive id msg => exact of_advance h (updates_handleAlive refl (halive _ rfl))
    | suspect id msg => exact of_advance h (updates_handleSuspect refl fun p => hsuspect rfl p _)
    | dead id msg => exact of_advance h (updates_handleDead refl fun p => hdead p _)
    | confirmStart id τ => exact of_advance h (.of_eq refl rfl rfl)
    | confirm id τ => exact of_advance h (updates_confirmDead refl fun p => hdead p _)
    | suspectPeer target drop =>
      obtain ⟨hp, hh, -, -⟩ := sameTable_suspectPeer h
      have hu := updates_suspectPeer (m := m) (r := target) refl fun p => hsuspect rfl p none
      exact hu.trans trans (.of_eq refl hp hh)
    | _ => cases hw

theorem updates_ofMessage {P : Peer → Peer → Prop} (refl : ∀ p, P p p) (msg : MessageHeader)
    (m : MembershipManager)
    (hrefute : ∀ p : Peer, P p { p with incarnation := max p.incarnation msg.incarnation + 1 }) :
    Updates P m (ofMessage msg m).2 := by
  unfold ofMessage
  repeat' split
  all_goals first
    | exact .of_eq refl rfl rfl
    | exact updates_refute refl hrefute

end Pc

/-- Only a task that goes on can do more to the table than a refutation does. -/
theorem Sched.updates_step {P : Peer → Peer → Prop} {s s' : Sched} {e : MembershipEvent}
    (h : s.step e = some s') (refl : ∀ p, P p p)
    (hrefute : ∀ (p : Peer) (i : Int), P p { p with incarnation := max p.incarnation i + 1 })
    (he : ∀ t now picks, e ≠ .resume t now picks) :
    MembershipManager.Updates P s.manager s'.manager := by
  cases e with
  | resume t now picks => exact absurd rfl (he t now picks)
  | fire τ =>
    obtain ⟨timer, -, -, rfl⟩ := step_fire_iff.1 h
    exact .of_eq refl rfl rfl
  | receive msg =>
    obtain rfl := Option.some.inj h
    exact Pc.updates_ofMessage refl msg s.manager fun p => hrefute p _
  | addPeer | removePeer | readPeers | getUpdates | start =>
    obtain rfl := Option.some.inj h
    exact .of_eq refl rfl rfl

end GossipRl
