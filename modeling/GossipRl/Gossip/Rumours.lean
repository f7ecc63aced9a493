import GossipRl.Gossip.MembershipTable
import Mathlib.Data.List.Perm.Basic
import Mathlib.Order.Lattice

/-!
# Order of rumours

What `ALIVE`, `SUSPECT` and `DEAD` messages about a peer leave of it is its `Standing`, a state and
an incarnation; `Standing.hear` is the effect of one message on it. The incarnation in the end is
the largest one of the `ALIVE` messages whatever the order (`incarnation_hearAll_perm`). The state
is not: only `mark_alive` records the incarnation it was given, so a `SUSPECT` or `DEAD` that is at
least as new as every `ALIVE` counts if it comes after the newest of them and is undone if it comes
before.
-/

namespace GossipRl
open Support

/-- One of the three kinds of messages that spread what is known of a peer. -/
def MessageHeader.IsRumour (msg : MessageHeader) : Prop :=
  msg.type = .ALIVE ∨ msg.type = .SUSPECT ∨ msg.type = .DEAD

@[ext] structure Standing where
  state : PeerState
  incarnation : Int
deriving DecidableEq, Repr

def Peer.standing (p : Peer) : Standing := ⟨p.state, p.incarnation⟩

namespace Standing

/-- The effect of a message about the peer. -/
def hear (s : Standing) (msg : MessageHeader) : Standing :=
  match msg.type with
  | .ALIVE => if msg.incarnation ≤ s.incarnation then s else ⟨.ALIVE, msg.incarnation⟩
  | .SUSPECT =>
    if msg.incarnation < s.incarnation then s
    else if s.state = .ALIVE then ⟨.SUSPECT, s.incarnation⟩ else s
  | .DEAD => if msg.incarnation < s.incarnation then s else ⟨.DEAD, s.incarnation⟩
  | _ => s

def hearAll (s : Standing) (msgs : List MessageHeader) : Standing := msgs.foldl hear s

@[simp] theorem hearAll_nil (s : Standing) : s.hearAll [] = s := rfl

@[simp] theorem hearAll_cons (s : Standing) (msg : MessageHeader) (msgs : List MessageHeader) :
    s.hearAll (msg :: msgs) = (s.hear msg).hearAll msgs := rfl

theorem hearAll_append (s : Standing) (msgs msgs' : List MessageHeader) :
    s.hearAll (msgs ++ msgs') = (s.hearAll msgs).hearAll msgs' := List.foldl_append

variable {s : Standing} {msg : MessageHeader} {msgs msgs' : List MessageHeader}

theorem hear_alive (h : msg.type = .ALIVE) :
    s.hear msg = if msg.incarnation ≤ s.incarnation then s else ⟨.ALIVE, msg.incarnation⟩ := by
  simp [hear, h]

theorem hear_suspect (h : msg.type = .SUSPECT) :
    s.hear msg = if msg.incarnation < s.incarnation then s
      else if s.state = .ALIVE then ⟨.SUSPECT, s.incarnation⟩ else s := by
  simp [hear, h]

theorem hear_dead (h : msg.type = .DEAD) :
    s.hear msg = if msg.incarnation < s.incarnation then s else ⟨.DEAD, s.incarnation⟩ := by
  simp [hear, h]

/-! ### The incarnation -/

theorem incarnation_hear (hr : msg.IsRumour) : (s.hear msg).incarnation =
    if msg.type = .ALIVE then max s.incarnation msg.incarnation else s.incarnation := by
  rcases hr with h | h | h
  · rw [hear_alive h, if_pos h]
    split
    · omega
    · show msg.incarnation = _
      omega
  · have hne : msg.type ≠ .ALIVE := by simp [h]
    simp only [hear_suspect h, if_neg hne]
    repeat' split
    all_goals rfl
  · have hne : msg.type ≠ .ALIVE := by simp [h]
    simp only [hear_dead h, if_neg hne]
    split <;> rfl

/-- The incarnation in the end depends on which messages there were, not on their order. -/
theorem incarnation_hearAll (hr : ∀ msg ∈ msgs, msg.IsRumour) :
    (s.hearAll msgs).incarnation =
      msgs.foldl (fun i msg => if msg.type = .ALIVE then max i msg.incarnation else i)
        s.incarnation := by
  induction msgs generalizing s with
  | nil => rfl
  | cons msg msgs ih =>
    rw [hearAll_cons, ih fun msg' h => hr msg' (List.mem_cons_of_mem _ h), List.foldl_cons,
      incarnation_hear (hr msg List.mem_cons_self)]

theorem incarnation_hearAll_perm (hp : msgs.Perm msgs') (hr : ∀ msg ∈ msgs, msg.IsRumour) :
    (s.hearAll msgs).incarnation = (s.hearAll msgs').incarnation := by
  rw [incarnation_hearAll hr, incarnation_hearAll fun msg h => hr msg (hp.mem_iff.2 h)]
  refine hp.foldl_eq' (fun x _ y _ i => ?_) _
  split <;> split <;> omega

theorem le_incarnation_hearAll (hr : ∀ msg ∈ msgs, msg.IsRumour) :
    s.incarnation ≤ (s.hearAll msgs).incarnation ∧
      ∀ a ∈ msgs, a.type = .ALIVE → a.incarnation ≤ (s.hearAll msgs).incarnation := by
  induction msgs generalizing s with
  | nil => exact ⟨le_rfl, by simp⟩
  | cons msg msgs ih =>
    obtain ⟨hle, hall⟩ := ih (s := s.hear msg) fun msg' h => hr msg' (List.mem_cons_of_mem _ h)
    have hinc := incarnation_hear (s := s) (hr msg List.mem_cons_self)
    refine ⟨?_, fun a ha halive => ?_⟩
    · rw [hearAll_cons]
      split at hinc <;> omega
    · rw [hearAll_cons]
      rcases List.mem_cons.1 ha with rfl | ha
      · rw [if_pos halive] at hinc
        omega
      · exact hall a ha halive

theorem incarnation_hearAll_mem (hr : ∀ msg ∈ msgs, msg.IsRumour) :
    (s.hearAll msgs).incarnation = s.incarnation ∨
      ∃ a ∈ msgs, a.type = .ALIVE ∧ a.incarnation = (s.hearAll msgs).incarnation := by
  induction msgs generalizing s with
  | nil => exact .inl rfl
  | cons msg msgs ih =>
    have hinc := incarnation_hear (s := s) (hr msg List.mem_cons_self)
    rw [hearAll_cons]
    rcases ih (s := s.hear msg) fun msg' h => hr msg' (List.mem_cons_of_mem _ h) with h | ⟨a, ha, h⟩
    · by_cases halive : msg.type = .ALIVE
      · rw [if_pos halive] at hinc
        rcases le_total msg.incarnation s.incarnation with hle | hle
        · exact .inl (by omega)
        · exact .inr ⟨msg, List.mem_cons_self, halive, by omega⟩
      · rw [if_neg halive] at hinc
        exact .inl (h.trans hinc)
    · exact .inr ⟨a, List.mem_cons_of_mem _ ha, h⟩

/-! ### The state -/

/-- With no `ALIVE` that is news, a `DEAD` decides, else a `SUSPECT` of a live peer. -/
theorem state_hearAll_of_old (hr : ∀ msg ∈ msgs, msg.IsRumour)
    (hold : ∀ a ∈ msgs, a.type = .ALIVE → a.incarnation ≤ s.incarnation) :
    (s.hearAll msgs).state =
      if ∃ d ∈ msgs, d.type = .DEAD ∧ s.incarnation ≤ d.incarnation then .DEAD
      else if s.state = .ALIVE ∧ ∃ d ∈ msgs, d.type = .SUSPECT ∧ s.incarnation ≤ d.incarnation
        then .SUSPECT
      else s.state := by
  induction msgs generalizing s with
  | nil => simp
  | cons msg msgs ih =>
    have hr' : ∀ msg' ∈ msgs, msg'.IsRumour := fun msg' h => hr msg' (List.mem_cons_of_mem _ h)
    have hold' : ∀ a ∈ msgs, a.type = .ALIVE → a.incarnation ≤ s.incarnation :=
      fun a ha => hold a (List.mem_cons_of_mem _ ha)
    rw [hearAll_cons]
    rcases hr msg List.mem_cons_self with h | h | h
    · have hle := hold msg List.mem_cons_self h
      rw [hear_alive h, if_pos hle, ih hr' hold']
      simp [h]
    · have hinc := incarnation_hear (s := s) (hr msg List.mem_cons_self)
      rw [if_neg (by simp [h])] at hinc
      rw [ih hr' (hinc ▸ hold'), hinc, hear_suspect h]
      by_cases hlt : msg.incarnation < s.incarnation
      · have : ¬ s.incarnation ≤ msg.incarnation := by omega
        simp [h, hlt, this]
      · have : s.incarnation ≤ msg.incarnation := by omega
        by_cases hst : s.state = .ALIVE <;> simp [h, hlt, this, hst]
    · have hinc := incarnation_hear (s := s) (hr msg List.mem_cons_self)
      rw [if_neg (by simp [h])] at hinc
      rw [ih hr' (hinc ▸ hold'), hinc, hear_dead h]
      by_cases hlt : msg.incarnation < s.incarnation
      · have : ¬ s.incarnation ≤ msg.incarnation := by omega
        simp [h, hlt, this]
      · have : s.incarnation ≤ msg.incarnation := by omega
        simp [h, hlt, this]

/-- If an `ALIVE` is news and every `SUSPECT` and `DEAD` is older than some `ALIVE`, the peer is
alive in the end. -/
theorem state_hearAll_of_newer (hr : ∀ msg ∈ msgs, msg.IsRumour) {i : Int}
    (halive : ∀ a ∈ msgs, a.type = .ALIVE → a.incarnation ≤ i)
    (hother : ∀ d ∈ msgs, d.type ≠ .ALIVE → d.incarnation < i)
    (hs : s.incarnation = i → s.state = .ALIVE)
    (hi : (s.hearAll msgs).incarnation = i) : (s.hearAll msgs).state = .ALIVE := by
  induction msgs generalizing s with
  | nil => exact hs hi
  | cons msg msgs ih =>
    refine ih (fun msg' h => hr msg' (List.mem_cons_of_mem _ h))
      (fun a ha => halive a (List.mem_cons_of_mem _ ha))
      (fun d hd => hother d (List.mem_cons_of_mem _ hd)) (fun hinc => ?_) hi
    have hmsg : msg ∈ msg :: msgs := List.mem_cons_self
    rcases hr msg hmsg with h | h | h
    · have hle := halive msg hmsg h
      rw [hear_alive h] at hinc ⊢
      split at hinc
      · rename_i hstale
        rw [if_pos hstale]
        exact hs hinc
      · rename_i hnew
        rw [if_neg hnew]
    · have hlt := hother msg hmsg (by simp [h])
      have hsame := incarnation_hear (s := s) (hr msg hmsg)
      rw [if_neg (by simp [h])] at hsame
      rw [hear_suspect h, if_pos (by omega)]
      exact hs (by omega)
    · have hlt := hother msg hmsg (by simp [h])
      have hsame := incarnation_hear (s := s) (hr msg hmsg)
      rw [if_neg (by simp [h])] at hsame
      rw [hear_dead h, if_pos (by omega)]
      exact hs (by omega)

theorem state_hearAll_alive (h : ∀ a ∈ msgs, a.type = .ALIVE)
    (hlt : s.incarnation < (s.hearAll msgs).incarnation) : (s.hearAll msgs).state = .ALIVE := by
  refine state_hearAll_of_newer (fun a ha => .inl (h a ha)) (i := (s.hearAll msgs).incarnation)
    (fun a ha _ => ?_) (fun d hd hne => absurd (h d hd) hne) (fun heq => ?_) rfl
  · exact (le_incarnation_hearAll fun a ha => .inl (h a ha)).2 a ha (h a ha)
  · omega

/-- A `SUSPECT` or `DEAD` that is not stale leaves the peer not alive, as long as no `ALIVE` comes. -/
theorem state_hearAll_ne_alive (hr : ∀ msg ∈ msgs, msg.IsRumour)
    (h : ∀ d ∈ msgs, d.type ≠ .ALIVE)
    (hd : s.state ≠ .ALIVE ∨ ∃ d ∈ msgs, s.incarnation ≤ d.incarnation) :
    (s.hearAll msgs).state ≠ .ALIVE := by
  have hold : ∀ a ∈ msgs, a.type = .ALIVE → a.incarnation ≤ s.incarnation :=
    fun a ha halive => absurd halive (h a ha)
  rw [state_hearAll_of_old hr hold]
  split
  · decide
  · rename_i hdead
    split
    · decide
    · rename_i hsuspect
      rcases hd with hne | ⟨d, hmem, hle⟩
      · exact hne
      · intro halive
        rcases hr d hmem with htype | htype | htype
        · exact h d hmem htype
        · exact hsuspect ⟨halive, d, hmem, htype, hle⟩
        · exact hdead ⟨d, hmem, htype, hle⟩

/-- No `ALIVE` is news, or some `ALIVE` is newer than every `SUSPECT` and `DEAD`. -/
def OrderFree (s : Standing) (msgs : List MessageHeader) : Prop :=
  (∀ a ∈ msgs, a.type = .ALIVE → a.incarnation ≤ s.incarnation) ∨
    ∀ d ∈ msgs, d.type ≠ .ALIVE → ∃ a ∈ msgs, a.type = .ALIVE ∧ d.incarnation < a.incarnation

theorem OrderFree.hearAll_eq (h : s.OrderFree msgs) (hr : ∀ msg ∈ msgs, msg.IsRumour)
    (hp : msgs'.Perm msgs) : s.hearAll msgs' = s.hearAll msgs := by
  have hr' : ∀ msg ∈ msgs', msg.IsRumour := fun msg hmem => hr msg (hp.mem_iff.1 hmem)
  have hinc := incarnation_hearAll_perm (s := s) hp hr'
  refine Standing.ext ?_ hinc
  by_cases hold : ∀ a ∈ msgs, a.type = .ALIVE → a.incarnation ≤ s.incarnation
  · rw [state_hearAll_of_old hr hold, state_hearAll_of_old hr' fun a ha => hold a (hp.mem_iff.1 ha)]
    simp only [hp.mem_iff]
  · have hother := h.resolve_left hold
    have hle := (le_incarnation_hearAll (s := s) hr).2
    have hlt : ∀ d ∈ msgs, d.type ≠ .ALIVE → d.incarnation < (s.hearAll msgs).incarnation := by
      intro d hd hne
      obtain ⟨a, ha, halive, hda⟩ := hother d hd hne
      exact hda.trans_le (hle a ha halive)
    have hnew : s.incarnation < (s.hearAll msgs).incarnation := by
      by_contra hnot
      exact hold fun a ha halive => (hle a ha halive).trans (not_lt.1 hnot)
    rw [state_hearAll_of_newer hr hle hlt (fun heq => absurd heq hnew.ne) rfl,
      state_hearAll_of_newer hr' (fun a ha => hle a (hp.mem_iff.1 ha))
        (fun d hd => hlt d (hp.mem_iff.1 hd)) (fun heq => absurd heq hnew.ne) hinc]

/-- Heard before all `ALIVE` messages or after them, the others lead to different states. -/
theorem orderFree_of_hearAll_eq (hr : ∀ msg ∈ msgs, msg.IsRumour)
    (h : ∀ l₁ l₂, l₁.Perm msgs → l₂.Perm msgs → s.hearAll l₁ = s.hearAll l₂) : s.OrderFree msgs := by
  by_contra hnot
  obtain ⟨hnew, hlate⟩ := not_or.1 hnot
  push Not at hnew hlate
  obtain ⟨a, ha, halive, hlt⟩ := hnew
  obtain ⟨d, hd, hne, hge⟩ := hlate
  set alives := msgs.filter fun msg => msg.type = .ALIVE with halives
  set others := msgs.filter fun msg => ¬ msg.type = .ALIVE with hothers
  have hp₁ : (alives ++ others).Perm msgs := by
    have := List.filter_append_perm (fun msg : MessageHeader => decide (msg.type = .ALIVE)) msgs
    simpa [halives, hothers] using this
  have hp₂ : (others ++ alives).Perm msgs := List.perm_append_comm.trans hp₁
  have heq := h _ _ hp₁ hp₂
  rw [hearAll_append, hearAll_append] at heq
  have hmem_alives : ∀ msg ∈ alives, msg.type = .ALIVE := by
    intro msg hm
    simpa using (List.mem_filter.1 hm).2
  have hmem_others : ∀ msg ∈ others, msg.type ≠ .ALIVE := by
    intro msg hm
    simpa using (List.mem_filter.1 hm).2
  have hr_alives : ∀ msg ∈ alives, msg.IsRumour := fun msg hm => .inl (hmem_alives msg hm)
  have hr_others : ∀ msg ∈ others, msg.IsRumour := fun msg hm => hr msg (List.mem_filter.1 hm).1
  have ha' : a ∈ alives := List.mem_filter.2 ⟨ha, by simpa using halive⟩
  have hd' : d ∈ others := List.mem_filter.2 ⟨hd, by simpa using hne⟩
  -- the others do not touch the incarnation
  have hinc : ∀ t : Standing, (t.hearAll others).incarnation = t.incarnation := by
    intro t
    rcases incarnation_hearAll_mem (s := t) hr_others with h | ⟨b, hb, hbalive, -⟩
    · exact h
    · exact absurd hbalive (hmem_others b hb)
  have hlast : ((s.hearAll others).hearAll alives).state = .ALIVE := by
    refine state_hearAll_alive hmem_alives ?_
    rw [hinc]
    have := (le_incarnation_hearAll (s := s.hearAll others) hr_alives).2 a ha' halive
    omega
  have hfirst : ((s.hearAll alives).hearAll others).state ≠ .ALIVE := by
    refine state_hearAll_ne_alive hr_others hmem_others (.inr ⟨d, hd', ?_⟩)
    rcases incarnation_hearAll_mem (s := s) hr_alives with h | ⟨b, hb, hbalive, h⟩
    · have := hge a ha halive
      omega
    · have := hge b (List.mem_filter.1 hb).1 hbalive
      omega
  exact hfirst (heq ▸ hlast)

end Standing

namespace MembershipManager

/-- The messages of a list with their times, handled one after the other. -/
def handleAll (m : MembershipManager) (msgs : List (ℚ × MessageHeader)) : MembershipManager :=
  msgs.foldl (fun m e => (m.handleMessage e.1 e.2).2) m

/-- State and incarnation stored for `id`. -/
def standing? (id : String) (m : MembershipManager) : Option Standing :=
  (m.peers.get? id).map fun r => (m.heap r).standing

variable {m : MembershipManager} {id : String} {r : Ref}

theorem standing_markAlive (p : Peer) (now : ℚ) {msg : MessageHeader} (h : msg.type = .ALIVE) :
    (p.markAlive now (some msg.incarnation)).2.standing = p.standing.hear msg := by
  rw [Standing.hear_alive h]
  by_cases hle : msg.incarnation ≤ p.incarnation <;> simp [Peer.markAlive, Peer.standing, hle]

theorem standing_markSuspect (p : Peer) {msg : MessageHeader} (h : msg.type = .SUSPECT) :
    (p.markSuspect (some msg.incarnation)).2.standing = p.standing.hear msg := by
  rw [Standing.hear_suspect h]
  by_cases hlt : msg.incarnation < p.incarnation
  · simp [Peer.markSuspect, Peer.standing, hlt]
  · by_cases hst : p.state = .ALIVE <;> simp [Peer.markSuspect, Peer.standing, hlt, hst]

theorem standing_markDead (p : Peer) {msg : MessageHeader} (h : msg.type = .DEAD) :
    (p.markDead (some msg.incarnation)).2.standing = p.standing.hear msg := by
  rw [Standing.hear_dead h]
  by_cases hlt : msg.incarnation < p.incarnation
  · simp [Peer.markDead, Peer.standing, hlt]
  · by_cases hst : p.state = .DEAD <;> simp [Peer.markDead, Peer.standing, hlt, hst]

/-- A rumour about another peer changes the stored object of that peer only, as `hear` says. -/
theorem handleMessage_rumour (now : ℚ) {msg : MessageHeader} (hr : m.peers.get? id = some r)
    (hlocal : id ≠ (m.heap m.localPeer).id) (htarget : msg.targetId = some id)
    (hmsg : msg.IsRumour) :
    let m' := (m.handleMessage now msg).2
    m'.peers = m.peers ∧ (m'.heap m'.localPeer).id = (m.heap m.localPeer).id ∧
      (m'.heap r).standing = (m.heap r).standing.hear msg := by
  have ids : ∀ {m' : MembershipManager}, Updates (fun p p' => p'.id = p.id) m m' →
      m'.localPeer = m.localPeer → (m'.heap m'.localPeer).id = (m.heap m.localPeer).id :=
    fun hu hl => by rw [hl]; exact hu.heap _
  rcases hmsg with h | h | h
  · have hm' : (m.handleMessage now msg).2 = m.handleAlive now id msg := by
      simp only [handleMessage, h, htarget]
    have hu : Updates (fun p p' => p'.id = p.id) m (m.handleAlive now id msg) :=
      updates_handleAlive (P := fun p p' => p'.id = p.id) (fun _ => rfl) fun p => p.id_markAlive now _
    rw [hm']
    refine ⟨hu.peers, ids hu ?_, ?_⟩
    · rw [handleAlive, onEntry_of_some hr, reviveEntry]
      dsimp only
      split <;> rfl
    · rw [handleAlive, onEntry_of_some hr, reviveEntry, ← standing_markAlive _ now h]
      dsimp only
      split <;> simp
  · have hm' : (m.handleMessage now msg).2 = m.handleSuspect id msg := by
      simp only [handleMessage, h, htarget, if_neg hlocal]
    have hu : Updates (fun p p' => p'.id = p.id) m (m.handleSuspect id msg) :=
      updates_handleSuspect (P := fun p p' => p'.id = p.id) (fun _ => rfl) fun p => p.id_markSuspect _
    rw [hm']
    refine ⟨hu.peers, ids hu ?_, ?_⟩
    · rw [handleSuspect, onEntry_of_some hr]
      dsimp only
      split
      · rw [localPeer_startSuspicionTimer]
        rfl
      · rfl
    · rw [handleSuspect, onEntry_of_some hr, ← standing_markSuspect _ h]
      dsimp only
      split <;> simp
  · have hm' : (m.handleMessage now msg).2 = m.handleDead id msg := by
      simp only [handleMessage, h, htarget]
    have hu : Updates (fun p p' => p'.id = p.id) m (m.handleDead id msg) :=
      updates_handleDead (P := fun p p' => p'.id = p.id) (fun _ => rfl) fun p => p.id_markDead _
    rw [hm']
    refine ⟨hu.peers, ids hu ?_, ?_⟩
    · rw [handleDead, onEntry_of_some hr]
      dsimp only
      split <;> rfl
    · rw [handleDead, onEntry_of_some hr, ← standing_markDead _ h]
      dsimp only
      split <;> simp

theorem standing_handleAll {msgs : List (ℚ × MessageHeader)} (hr : m.peers.get? id = some r)
    (hlocal : id ≠ (m.heap m.localPeer).id)
    (hmsgs : ∀ msg ∈ msgs.map Prod.snd, msg.targetId = some id ∧ msg.IsRumour) :
    (m.handleAll msgs).standing? id = some ((m.heap r).standing.hearAll (msgs.map Prod.snd)) := by
  induction msgs generalizing m with
  | nil => simp [handleAll, standing?, hr]
  | cons e msgs ih =>
    obtain ⟨now, msg⟩ := e
    obtain ⟨htarget, hmsg⟩ := hmsgs msg (by simp)
    obtain ⟨hpeers, hid, hstand⟩ := handleMessage_rumour now hr hlocal htarget hmsg
    have := ih (m := (m.handleMessage now msg).2) (by rw [hpeers]; exact hr) (by rw [hid]; exact hlocal)
      fun msg' hm => hmsgs msg' (List.mem_cons_of_mem _ hm)
    rw [hstand] at this
    exact this

end MembershipManager

/-- Any two orders, at any times, of rumours about a peer leave the same state and incarnation of it
exactly if no `ALIVE` among them is news or some `ALIVE` is newer than every `SUSPECT` and `DEAD`. -/
theorem rumours_order_independent_iff {m : MembershipManager} {id : String} {r : Ref}
    (hr : m.peers.get? id = some r) (hlocal : id ≠ (m.heap m.localPeer).id)
    {msgs : List MessageHeader} (hmsgs : ∀ msg ∈ msgs, msg.targetId = some id ∧ msg.IsRumour) :
    (∀ l₁ l₂ : List (ℚ × MessageHeader), (l₁.map Prod.snd).Perm msgs → (l₂.map Prod.snd).Perm msgs →
      (m.handleAll l₁).standing? id = (m.handleAll l₂).standing? id) ↔
    (m.heap r).standing.OrderFree msgs := by
  have hfinal : ∀ l : List (ℚ × MessageHeader), (l.map Prod.snd).Perm msgs →
      (m.handleAll l).standing? id = some ((m.heap r).standing.hearAll (l.map Prod.snd)) :=
    fun l hl => m.standing_handleAll hr hlocal fun msg hm => hmsgs msg (hl.mem_iff.1 hm)
  have hrumour : ∀ msg ∈ msgs, msg.IsRumour := fun msg hm => (hmsgs msg hm).2
  constructor
  · intro h
    refine Standing.orderFree_of_hearAll_eq hrumour ?_
    intro l₁ l₂ h₁ h₂
    have htimes : ∀ l : List MessageHeader, (l.map fun msg => ((0 : ℚ), msg)).map Prod.snd = l := by
      intro l
      simp
    have heq := h (l₁.map fun msg => (0, msg)) (l₂.map fun msg => (0, msg))
      (by rw [htimes]; exact h₁) (by rw [htimes]; exact h₂)
    rw [hfinal _ (by rw [htimes]; exact h₁), hfinal _ (by rw [htimes]; exact h₂), htimes, htimes] at heq
    exact Option.some.inj heq
  · intro h l₁ l₂ h₁ h₂
    rw [hfinal l₁ h₁, hfinal l₂ h₂, h.hearAll_eq hrumour h₁, h.hearAll_eq hrumour h₂]

section Example

/-- A manager with the local peer `a` that knows the live peer `b`. -/
def knowsB : MembershipManager where
  config := {}
  localPeer := 0
  heap := fun r => if r = 0 then { id := "a" } else { id := "b" }
  peers := Dict.empty.set "b" 1

def aboutB (type : MessageType) (incarnation : Int) : MessageHeader where
  type := type
  senderId := "c"
  sequence := 1
  targetId := some "b"
  incarnation := incarnation

theorem rumours_order_independent_iff_stale :
    (∀ msg ∈ [aboutB .ALIVE 2, aboutB .DEAD 1], msg.targetId = some "b" ∧ msg.IsRumour) ∧
    ((∀ l₁ l₂ : List (ℚ × MessageHeader), (l₁.map Prod.snd).Perm [aboutB .ALIVE 2, aboutB .DEAD 1] →
        (l₂.map Prod.snd).Perm [aboutB .ALIVE 2, aboutB .DEAD 1] →
        (knowsB.handleAll l₁).standing? "b" = (knowsB.handleAll l₂).standing? "b") ↔
      (knowsB.heap 1).standing.OrderFree [aboutB .ALIVE 2, aboutB .DEAD 1]) := by
  have hmsgs : ∀ msg ∈ [aboutB .ALIVE 2, aboutB .DEAD 1], msg.targetId = some "b" ∧ msg.IsRumour := by
    intro msg hm
    rcases List.mem_cons.1 hm with rfl | hm
    · exact ⟨rfl, .inl rfl⟩
    · obtain rfl := List.mem_singleton.1 hm
      exact ⟨rfl, .inr (.inr rfl)⟩
  exact ⟨hmsgs, rumours_order_independent_iff (r := 1) rfl (by decide) hmsgs⟩

/-- A peer that is declared dead at the incarnation of its last `ALIVE` is dead to those who hear it
in this order and alive to the others. -/
theorem rumours_order_matters :
    knowsB.standing? "b" = some ⟨.ALIVE, 0⟩ ∧
    (knowsB.handleAll [(0, aboutB .ALIVE 1), (0, aboutB .DEAD 1)]).standing? "b" =
      some ⟨.DEAD, 1⟩ ∧
    (knowsB.handleAll [(0, aboutB .DEAD 1), (0, aboutB .ALIVE 1)]).standing? "b" =
      some ⟨.ALIVE, 1⟩ :=
  ⟨rfl, rfl, rfl⟩

end Example

end GossipRl
