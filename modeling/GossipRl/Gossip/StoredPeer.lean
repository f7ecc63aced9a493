import GossipRl.Gossip.StoredState

/-!
# The object stored for one id

`Pc.effect` is what a stretch of a task does to the object stored for an id, where it keeps the
dictionary: one call of a `mark_*` function, or of none (`Pc.storedPeer_advance`).
-/

namespace GossipRl
open Support

namespace MembershipManager

/-- The object stored for `id`. -/
def storedPeer (m : MembershipManager) (id : String) : Option Peer := (m.peers.get? id).map m.heap

variable {m m' : MembershipManager} {id id' : String} {r : Ref} {p : Peer}

theorem storedState_eq_map : m.storedState id = (m.storedPeer id).map (·.state) := by
  simp [storedState, storedPeer, Function.comp_def]

theorem storedPeer_of_get? (h : m.peers.get? id = some r) : m.storedPeer id = some (m.heap r) := by
  simp [storedPeer, h]

theorem storedPeer_of_none (h : m.peers.get? id = none) : m.storedPeer id = none := by
  simp [storedPeer, h]

theorem storedPeer_congr (hp : m'.peers = m.peers) (hh : m'.heap = m.heap) :
    m'.storedPeer = m.storedPeer := by
  funext id
  simp [storedPeer, hp, hh]

theorem storedPeer_of_set (hm : m.Keyed) (hr : m.peers.get? id = some r) (hp : m'.peers = m.peers)
    (hh : m'.heap = (m.setPeer r p).heap) :
    m'.storedPeer id' = if id = id' then some p else m.storedPeer id' := by
  by_cases hid : id = id'
  · subst hid
    rw [if_pos rfl, storedPeer_of_get? (by rw [hp]; exact hr), hh, heap_setPeer_self]
  · rw [if_neg hid]
    cases hr' : m.peers.get? id' with
    | none => rw [storedPeer_of_none hr', storedPeer_of_none (by rw [hp]; exact hr')]
    | some r' =>
      have hne : r' ≠ r := by
        rintro rfl
        exact hid ((hm id _ hr).symm.trans (hm id' _ hr'))
      rw [storedPeer_of_get? hr', storedPeer_of_get? (by rw [hp]; exact hr'), hh,
        heap_setPeer_of_ne hne]

theorem storedPeer_onEntry {f : Ref → MembershipManager → MembershipManager} {g : Peer → Peer}
    (hm : m.Keyed) (hp : ∀ r, (f r m).peers = m.peers)
    (hh : ∀ r, (f r m).heap = (m.setPeer r (g (m.heap r))).heap) :
    (m.onEntry id f).storedPeer id' =
      (m.storedPeer id').map fun p => if id = id' then g p else p := by
  cases hr : m.peers.get? id with
  | none =>
    rw [onEntry_of_none hr]
    by_cases hid : id = id'
    · subst hid
      rw [storedPeer_of_none hr, Option.map_none]
    · simp [hid]
  | some r =>
    rw [onEntry_of_some hr, storedPeer_of_set hm hr (hp r) (hh r)]
    by_cases hid : id = id'
    · subst hid
      simp [storedPeer_of_get? hr]
    · simp [hid]

theorem storedPeer_suspectPeer {target : Ref} (hm : m.Keyed) :
    (m.suspectPeer target).2.storedPeer id =
      (m.storedPeer id).map fun p => if (m.heap target).id = id then (p.markSuspect none).2 else p := by
  unfold suspectPeer
  dsimp only
  split
  · rename_i hnone
    by_cases hid : (m.heap target).id = id
    · subst hid
      rw [storedPeer_of_none hnone, Option.map_none]
    · simp [hid]
  · rename_i r hr
    have hset : ∀ m' : MembershipManager, m'.peers = m.peers →
        m'.heap = (m.setPeer r ((m.heap r).markSuspect none).2).heap → m'.storedPeer id =
          (m.storedPeer id).map fun p =>
            if (m.heap target).id = id then (p.markSuspect none).2 else p := by
      intro m' hp hh
      rw [storedPeer_of_set hm hr hp hh]
      by_cases hid : (m.heap target).id = id
      · simp [hid, storedPeer_of_get? (hid ▸ hr)]
      · simp [hid]
    split
    · exact hset _ (by simp [nextSequence]) (by simp [nextSequence])
    · exact hset _ rfl rfl

theorem heap_reviveEntry {now : ℚ} {i : Int} : (m.reviveEntry now id i r).heap =
    (m.setPeer r ((m.heap r).markAlive now (some i)).2).heap := by
  unfold reviveEntry
  dsimp only
  split <;> rfl

theorem peers_reviveEntry {now : ℚ} {i : Int} : (m.reviveEntry now id i r).peers = m.peers := by
  unfold reviveEntry
  dsimp only
  split <;> rfl

end MembershipManager

namespace Pc
open MembershipManager

/-- What the task does next to the object stored for `id`. -/
def effect (now : ℚ) (m : MembershipManager) (id : String) (pc : Pc) (p : Peer) : Peer :=
  match pc with
  | .ping msg =>
    if msg.senderId = id then { p with lastSeen := now, incarnation := msg.incarnation } else p
  | .ackPeer msg targetId latencyMs =>
    if targetId = id then ((p.updateLatency latencyMs).markAlive now (some msg.incarnation)).2 else p
  | .alive id' msg => if id' = id then (p.markAlive now (some msg.incarnation)).2 else p
  | .suspect id' msg => if id' = id then (p.markSuspect (some msg.incarnation)).2 else p
  | .dead id' msg => if id' = id then (p.markDead (some msg.incarnation)).2 else p
  | .confirm id' _ =>
    if id' = id then if p.state = .SUSPECT then (p.markDead none).2 else p else p
  | .suspectPeer target _ => if (m.heap target).id = id then (p.markSuspect none).2 else p
  | _ => p

variable {pc pc' : Pc} {now : ℚ} {picks : List Ref} {m m' : MembershipManager} {id : String}

theorem storedPeer_advance (h : pc.advance now picks m = some (pc', m')) (hm : m.Keyed)
    (hpc : pc.changesPeers = false) :
    m'.storedPeer id = (m.storedPeer id).map (pc.effect now m id) := by
  cases hw : pc.writesTable with
  | false =>
    obtain ⟨hp, hh, -, -⟩ := sameTable_advance h hw
    have hid : pc.effect now m id = fun p => p := by
      cases pc <;> first
        | rfl
        | cases hw
    rw [storedPeer_congr hp hh, hid, Option.map_id']
  | true =>
    cases pc with
    | addPeer | removePeer => cases hpc
    | ping msg => exact of_advance h (storedPeer_onEntry hm (fun r => rfl) fun r => rfl)
    | ackPeer msg targetId l =>
      have hs : (m.onEntry targetId fun r m => (m.setPeer r ((m.heap r).updateLatency l)).reviveEntry
          now targetId msg.incarnation r).storedPeer id = (m.storedPeer id).map fun p =>
            if targetId = id then ((p.updateLatency l).markAlive now (some msg.incarnation)).2
            else p := by
        refine storedPeer_onEntry hm (fun r => peers_reviveEntry) fun r => ?_
        rw [heap_reviveEntry, heap_setPeer_self]
        show Function.update (Function.update _ _ _) _ _ = _
        rw [Function.update_idem]
        rfl
      exact of_advance h hs
    | alive id' msg =>
      exact of_advance h (storedPeer_onEntry hm (fun r => peers_reviveEntry) fun r => heap_reviveEntry)
    | suspect id' msg =>
      refine of_advance h (storedPeer_onEntry hm (fun r => ?_) fun r => ?_)
      · dsimp only
        split <;> simp
      · dsimp only
        split <;> simp
    | dead id' msg =>
      refine of_advance h (storedPeer_onEntry hm (fun r => ?_) fun r => ?_)
      · dsimp only
        split <;> rfl
      · dsimp only
        split <;> rfl
    | confirmStart id' τ =>
      refine of_advance h ?_
      show m.storedPeer id = (m.storedPeer id).map fun p => p
      rw [Option.map_id']
    | confirm id' τ =>
      refine of_advance h (storedPeer_onEntry (g := fun p => if p.state = .SUSPECT then (p.markDead none).2
        else p) hm (fun r => ?_) fun r => ?_)
      · split <;> rfl
      · split
        · rfl
        · rw [setPeer_heap]
    | suspectPeer target drop =>
      obtain ⟨hp, hh, -, -⟩ := sameTable_suspectPeer h
      rw [storedPeer_congr hp hh]
      exact storedPeer_suspectPeer hm
    | _ => cases hw

end Pc

end GossipRl
