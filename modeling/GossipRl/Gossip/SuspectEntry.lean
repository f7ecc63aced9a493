import GossipRl.Gossip.MembershipTable

/-!
# Who makes an entry suspect

An entry is suspect because it already was (`SuspectEntry`), or because a task is about to make it
so: an `ALIVE` entry is marked, or a peer that is already suspect is entered (`Pc.Suspects`). The
latter is read off the state before the task goes on.
-/

namespace GossipRl
open Support

namespace MembershipManager

/-- The objects in the table are stored under their own ids. -/
def Keyed (m : MembershipManager) : Prop := ∀ id r, m.peers.get? id = some r → (m.heap r).id = id

/-- `id` is stored as `r`, and suspect. -/
def SuspectEntry (id : String) (r : Ref) (m : MembershipManager) : Prop :=
  m.peers.get? id = some r ∧ (m.heap r).state = .SUSPECT

variable {m m' : MembershipManager} {id : String} {r : Ref}

theorem Keyed.updates (h : m.Keyed) (hu : Updates (fun p p' => p'.id = p.id) m m') : m'.Keyed := by
  intro id r hr
  rw [hu.heap r]
  exact h id r (by rwa [hu.peers] at hr)

theorem Keyed.addPeer (h : m.Keyed) (r : Ref) : (m.addPeer r).2.Keyed := by
  rcases addPeer_cases r m with ⟨-, heq⟩ | heq
  · rw [heq]
    intro id r' hr'
    rcases Dict.get?_set_eq_some_iff.1 hr' with ⟨hid, rfl⟩ | ⟨-, hr'⟩
    · exact hid.symm
    · exact h id r' hr'
  · rw [heq]
    exact h

theorem Keyed.removePeer (h : m.Keyed) (id : String) : (m.removePeer id).2.Keyed := by
  rw [removePeer_snd]
  intro id' r hr
  exact h id' r (Dict.get?_erase_eq_some_iff.1 hr).2

end MembershipManager

namespace Pc
open MembershipManager

/-- The task is about to make the entry of `id` suspect. -/
def Suspects (m : MembershipManager) (id : String) : Pc → Prop
  | .suspect id' msg =>
    id' = id ∧ ∃ r, m.peers.get? id = some r ∧ (m.heap r).state = .ALIVE ∧
      (m.heap r).incarnation ≤ msg.incarnation
  | .suspectPeer target _ =>
    (m.heap target).id = id ∧ ∃ r, m.peers.get? id = some r ∧ (m.heap r).state = .ALIVE
  | .addPeer r =>
    (m.heap r).id = id ∧ (m.heap r).state = .SUSPECT ∧
      ∀ r', m.peers.get? id = some r' → (m.heap r').incarnation < (m.heap r).incarnation
  | _ => False

variable {pc pc' : Pc} {now : ℚ} {picks : List Ref} {m m' : MembershipManager} {id : String}
  {r : Ref}

theorem updates_id_advance (h : pc.advance now picks m = some (pc', m'))
    (hpc : pc.changesPeers = false) : Updates (fun p p' => p'.id = p.id) m m' := by
  refine updates_advance h hpc (fun _ => rfl) (fun _ _ _ h₁ h₂ => h₂.trans h₁) ?_ ?_ ?_ ?_ ?_
  · exact fun p l => rfl
  · exact fun i _ p => p.id_markAlive now i
  · exact fun p i => p.id_markDead i
  · exact fun _ p i => p.id_markSuspect i
  · exact fun msg r _ _ => rfl

theorem keyed_advance (h : pc.advance now picks m = some (pc', m')) (hm : m.Keyed) : m'.Keyed := by
  cases hpc : pc.changesPeers with
  | true =>
    rcases advance_changesPeers h hpc with ⟨r, -, rfl⟩ | ⟨id, -, rfl⟩
    · exact hm.addPeer r
    · exact hm.removePeer id
  | false => exact hm.updates (updates_id_advance h hpc)

theorem state_markSuspect {p : Peer} {i : Option Int} (h : (p.markSuspect i).2.state = .SUSPECT) :
    p.state = .SUSPECT ∨ p.state = .ALIVE ∧ ∀ j, i = some j → p.incarnation ≤ j := by
  unfold Peer.markSuspect at h
  split at h
  · exact .inl h
  · split at h
    · rename_i h₁ h₂
      exact .inr ⟨h₂, by rintro j rfl; simpa using h₁⟩
    · exact .inl h

theorem state_markAlive {p : Peer} {i : Option Int} (h : (p.markAlive now i).2.state = .SUSPECT) :
    p.state = .SUSPECT := by
  unfold Peer.markAlive at h
  split at h
  · exact h
  · cases h

theorem state_markDead {p : Peer} {i : Option Int} (h : (p.markDead i).2.state = .SUSPECT) :
    p.state = .SUSPECT := by
  unfold Peer.markDead at h
  repeat' split at h
  all_goals first
    | exact h
    | cases h

theorem suspectEntry_of_markSuspect {id' : String} {r' : Ref} {i : Option Int} (hm : m.Keyed)
    (hr' : m.peers.get? id' = some r') (hp : m'.peers = m.peers)
    (hh : m'.heap = (m.setPeer r' ((m.heap r').markSuspect i).2).heap) (hs : m'.SuspectEntry id r) :
    m.SuspectEntry id r ∨ id' = id ∧ (m.heap r').state = .ALIVE ∧
      ∀ j, i = some j → (m.heap r').incarnation ≤ j := by
  obtain ⟨hr, hst⟩ := hs
  rw [hp] at hr
  rw [hh] at hst
  by_cases heq : r = r'
  · subst heq
    rw [heap_setPeer_self] at hst
    have hid : id' = id := (hm id' r hr').symm.trans (hm id r hr)
    exact (state_markSuspect hst).imp (fun h => ⟨hr, h⟩) fun h => ⟨hid, h⟩
  · rw [heap_setPeer_of_ne heq] at hst
    exact .inl ⟨hr, hst⟩

theorem suspectEntry_addPeer {r₀ : Ref} (hs : (m.addPeer r₀).2.SuspectEntry id r) :
    m.SuspectEntry id r ∨ (Pc.addPeer r₀).Suspects m id := by
  rcases addPeer_cases r₀ m with ⟨hacc, heq⟩ | heq
  · rw [heq] at hs
    obtain ⟨hr, hst⟩ := hs
    -- accepted, `r₀` is the entry of its own id and nothing else has changed
    rcases Dict.get?_set_eq_some_iff.1 hr with ⟨hid, rfl⟩ | ⟨-, hr⟩
    · exact .inr ⟨hid.symm, hst, hid ▸ hacc⟩
    · exact .inl ⟨hr, hst⟩
  · rw [heq] at hs
    exact .inl hs

theorem suspectEntry_removePeer {id' : String} (hs : (m.removePeer id').2.SuspectEntry id r) :
    m.SuspectEntry id r := by
  rw [removePeer_snd] at hs
  obtain ⟨hr, hst⟩ := hs
  exact ⟨(Dict.get?_erase_eq_some_iff.1 hr).2, hst⟩

theorem suspectEntry_handleSuspect {id' : String} {msg : MessageHeader} (hm : m.Keyed)
    (hs : (m.handleSuspect id' msg).SuspectEntry id r) :
    m.SuspectEntry id r ∨ (Pc.suspect id' msg).Suspects m id := by
  cases hr' : m.peers.get? id' with
  | none =>
    rw [handleSuspect, onEntry_of_none hr'] at hs
    exact .inl hs
  | some r' =>
    rw [handleSuspect, onEntry_of_some hr'] at hs
    dsimp only at hs
    rcases suspectEntry_of_markSuspect (i := some msg.incarnation) hm hr' (by split <;> simp)
      (by split <;> simp) hs with h | ⟨rfl, halive, hle⟩
    · exact .inl h
    · exact .inr ⟨rfl, r', hr', halive, hle _ rfl⟩

theorem suspectEntry_suspectPeer {target : Ref} {drop : Option Int} (hm : m.Keyed)
    (hs : (m.suspectPeer target).2.SuspectEntry id r) :
    m.SuspectEntry id r ∨ (Pc.suspectPeer target drop).Suspects m id := by
  cases hr' : m.peers.get? (m.heap target).id with
  | none =>
    simp only [MembershipManager.suspectPeer, hr'] at hs
    exact .inl hs
  | some r' =>
    simp only [MembershipManager.suspectPeer, hr'] at hs
    rcases suspectEntry_of_markSuspect (i := none) hm hr' (by split <;> simp [nextSequence])
      (by split <;> simp [nextSequence]) hs with h | ⟨hid, halive, -⟩
    · exact .inl h
    · exact .inr ⟨hid, r', hid ▸ hr', halive⟩

/-- An entry is suspect because it was, or because the task made it so. -/
theorem suspectEntry_advance (h : pc.advance now picks m = some (pc', m')) (hm : m.Keyed)
    (hs : m'.SuspectEntry id r) : m.SuspectEntry id r ∨ pc.Suspects m id := by
  by_cases hpc : pc.changesPeers = false ∧ pc.marksSuspect = false
  · obtain ⟨hpeers, hmark⟩ := hpc
    have hu : Updates (fun p p' => p'.state = .SUSPECT → p.state = .SUSPECT) m m' := by
      refine Pc.updates_advance h hpeers (fun _ h => h) (fun _ _ _ h₁ h₂ h => h₁ (h₂ h))
        ?_ ?_ ?_ ?_ ?_
      · exact fun p l h => h
      · exact fun i _ p => state_markAlive
      · exact fun p i => state_markDead
      · exact fun hsus => absurd hsus (by simp [hmark])
      · exact fun msg r _ _ h => h
    exact .inl ⟨by rw [← hu.peers]; exact hs.1, hu.heap r hs.2⟩
  · cases pc with
    | addPeer r₀ =>
      obtain ⟨-, rfl⟩ := Prod.mk.inj (Option.some.inj h)
      exact suspectEntry_addPeer hs
    | removePeer id' =>
      obtain ⟨-, rfl⟩ := Prod.mk.inj (Option.some.inj h)
      exact .inl (suspectEntry_removePeer hs)
    | suspect id' msg =>
      obtain ⟨-, rfl⟩ := Prod.mk.inj (Option.some.inj h)
      exact suspectEntry_handleSuspect hm hs
    | suspectPeer target drop =>
      obtain ⟨hp, hh, -, -⟩ := sameTable_suspectPeer h
      obtain ⟨hr, hst⟩ := hs
      exact suspectEntry_suspectPeer hm ⟨hp ▸ hr, hh ▸ hst⟩
    | _ => exact absurd ⟨rfl, rfl⟩ hpc

end Pc

end GossipRl
