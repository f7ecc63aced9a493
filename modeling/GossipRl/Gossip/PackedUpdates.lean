import GossipRl.Gossip.StoredState
import GossipRl.Gossip.WireRoundTrip

/-!
# Updates that can be packed

Incarnations are unbounded in the manager and four bytes in a message. What comes in has passed
through four bytes, and what goes out repeats it, but for a refutation, which is one above the local
incarnation and that of the suspicion. So all updates can be packed as long as no refutation starts
from `2 ^ 32 - 1` (`Sched.RefutationFits`), the peer objects of the application fit and the sequence
numbers do.
-/

namespace GossipRl
open Support

/-- The message as `pack` gets it. -/
def MessageHeader.wire (msg : MessageHeader) (timestamp : UInt64) : WireMessage :=
  { toMessageHeader := msg, timestamp := timestamp }

/-- Id and incarnation of the peer fit in their fields. -/
structure Peer.Fits (p : Peer) : Prop where
  id : (utf8Encode p.id).length < 256 ^ 2
  incarnation : 0 ≤ p.incarnation ∧ p.incarnation < 256 ^ 4

theorem Peer.Fits.markAlive {p : Peer} (h : p.Fits) {now : ℚ} {i : Int} (hi : 0 ≤ i ∧ i < 256 ^ 4) :
    (p.markAlive now (some i)).2.Fits := by
  unfold Peer.markAlive
  split
  · exact h
  · exact ⟨h.id, hi⟩

namespace MessageHeader

/-- Every number of the message fits in its field. -/
structure Fits (msg : MessageHeader) : Prop where
  sender : (utf8Encode msg.senderId).length < 256 ^ 2
  sequence : 0 ≤ msg.sequence ∧ msg.sequence < 256 ^ 8
  target : ∀ t, msg.targetId = some t → (utf8Encode t).length < 256 ^ 2
  incarnation : 0 ≤ msg.incarnation ∧ msg.incarnation < 256 ^ 4

variable {msg : MessageHeader}

theorem Fits.pack (h : msg.Fits) (timestamp : UInt64) :
    ∃ bytes, (msg.wire timestamp).pack = some bytes := by
  refine ⟨_, WireMessage.pack_eq_some_iff.2 ⟨⟨h.sender, h.sequence, h.target, ?_, h.incarnation, ?_⟩,
    rfl⟩⟩
  · exact fun hne => absurd rfl hne
  · show (0 : ℕ) < 256 ^ 4
    omega

theorem Fits.unpack (h : msg.Fits) : ∃ data w, unpack data = some w ∧ w.toMessageHeader = msg := by
  obtain ⟨bytes, hbytes⟩ := h.pack 0
  obtain ⟨hpacks, rfl⟩ := WireMessage.pack_eq_some_iff.1 hbytes
  exact ⟨(msg.wire 0).front ++ [], _, WireMessage.unpack_front hpacks rfl, rfl⟩

theorem incarnation_of_unpack {data : List UInt8} {w : WireMessage} (h : unpack data = some w) :
    0 ≤ w.incarnation ∧ w.incarnation < 256 ^ 4 := by
  unfold GossipRl.unpack at h
  -- eight fields come before the incarnation
  obtain ⟨_, -, h⟩ := Option.bind_eq_some_iff.1 h
  obtain ⟨_, -, h⟩ := Option.bind_eq_some_iff.1 h
  obtain ⟨_, -, h⟩ := Option.bind_eq_some_iff.1 h
  obtain ⟨_, -, h⟩ := Option.bind_eq_some_iff.1 h
  obtain ⟨_, -, h⟩ := Option.bind_eq_some_iff.1 h
  obtain ⟨_, -, h⟩ := Option.bind_eq_some_iff.1 h
  obtain ⟨_, -, h⟩ := Option.bind_eq_some_iff.1 h
  obtain ⟨_, -, h⟩ := Option.bind_eq_some_iff.1 h
  obtain ⟨n, hn, h⟩ := Option.bind_eq_some_iff.1 h
  obtain ⟨_, -, h⟩ := Option.bind_eq_some_iff.1 h
  obtain ⟨_, -, h⟩ := Option.bind_eq_some_iff.1 h
  obtain rfl := Option.some.inj h
  have hlt := beRead_lt hn
  show 0 ≤ (n : Int) ∧ (n : Int) < 256 ^ 4
  omega

end MessageHeader

namespace Pc
open MembershipManager

/-- The message the task is handling. -/
def incoming : Pc → Option MessageHeader
  | .ping msg | .pingReq msg | .ack msg | .ackPeer msg .. | .alive _ msg | .suspect _ msg
  | .dead _ msg => some msg
  | _ => none

/-- The message the task is about to queue. -/
def outgoing : Pc → Option MessageHeader
  | .broadcast out | .suspectQueue out _ => some out
  | _ => none

variable {pc pc' : Pc} {now : ℚ} {picks : List Ref} {m m' : MembershipManager}
  {msg out : MessageHeader}

theorem incoming_advance (h : pc.advance now picks m = some (pc', m'))
    (hmsg : pc'.incoming = some msg) : pc.incoming = some msg := by
  cases pc <;> simp only [advance] at h
  case ack msg₀ =>
    split at h
    · obtain ⟨rfl, -⟩ := Prod.mk.inj (Option.some.inj h)
      cases hmsg
    · obtain ⟨rfl, -⟩ := Prod.mk.inj (Option.some.inj h)
      exact hmsg
  all_goals repeat' split at h
  all_goals first
    | (obtain ⟨rfl, -⟩ := Prod.mk.inj (Option.some.inj h); cases hmsg)
    | cases h

theorem outgoing_advance (h : pc.advance now picks m = some (pc', m'))
    (hout : pc'.outgoing = some out) :
    ∃ target drop, pc = .suspectPeer target drop ∧ m.suspectPeer target = (some out, m') := by
  cases pc <;> simp only [advance] at h
  case suspectPeer target drop =>
    split at h
    · obtain ⟨rfl, -⟩ := Prod.mk.inj (Option.some.inj h)
      cases hout
    · rename_i out' m₁ heq
      obtain ⟨rfl, rfl⟩ := Prod.mk.inj (Option.some.inj h)
      obtain rfl := Option.some.inj hout
      exact ⟨target, drop, rfl, heq⟩
  all_goals repeat' split at h
  all_goals first
    | (obtain ⟨rfl, -⟩ := Prod.mk.inj (Option.some.inj h); cases hout)
    | cases h

theorem mem_updatesQueue_advance (h : pc.advance now picks m = some (pc', m'))
    (hout : out ∈ m'.updatesQueue) : out ∈ m.updatesQueue ∨ pc.outgoing = some out := by
  have queued : ∀ out', out ∈ m.updatesQueue ++ [out'] → out ∈ m.updatesQueue ∨ out' = out := by
    intro out' hmem
    exact (List.mem_append.1 hmem).imp_right fun hmem => (List.mem_singleton.1 hmem).symm
  cases hw : pc.writesQueue with
  | false => exact .inl ((sameQueue_advance h hw).queue ▸ hout)
  | true =>
    cases pc with
    | broadcast out' =>
      obtain ⟨-, rfl⟩ := Prod.mk.inj (Option.some.inj h)
      exact (queued out' hout).imp_right (congrArg some)
    | suspectQueue out' drop =>
      have hmem : out ∈ m.updatesQueue ++ [out'] := by
        cases drop <;> (obtain ⟨-, rfl⟩ := Prod.mk.inj (Option.some.inj h); exact hout)
      exact (queued out' hmem).imp_right (congrArg some)
    | getUpdates n =>
      obtain ⟨-, rfl⟩ := Prod.mk.inj (Option.some.inj h)
      exact .inl (List.mem_of_mem_drop hout)
    | _ => cases hw

theorem incoming_ofMessage (hmsg : (ofMessage out m).1.incoming = some msg) : out = msg := by
  unfold ofMessage at hmsg
  repeat' split at hmsg
  all_goals first
    | exact Option.some.inj hmsg
    | cases hmsg

/-- Only a suspicion of the local peer is answered on the queue. -/
theorem outgoing_ofMessage (hout : (ofMessage msg m).1.outgoing = some out) :
    msg.type = .SUSPECT ∧ msg.targetId = some (m.heap m.localPeer).id ∧
      ofMessage msg m = (.broadcast out, (m.refute msg).2) ∧ (m.refute msg).1 = out := by
  unfold ofMessage at hout ⊢
  split at hout
  case h_5 id htype htarget =>
    split at hout
    · rename_i hid
      obtain rfl := Option.some.inj hout
      rw [htype, htarget]
      exact ⟨rfl, by rw [hid], if_pos hid, rfl⟩
    · cases hout
  all_goals cases hout

theorem ofMessage_of_outgoing_none (h : (ofMessage msg m).1.outgoing = none) :
    (ofMessage msg m).2 = m := by
  unfold ofMessage at h ⊢
  split
  case h_5 id htype htarget =>
    rw [htype, htarget] at h
    dsimp only at h
    split
    · rename_i hid
      rw [if_pos hid] at h
      cases h
    · rfl
  all_goals rfl

theorem fits_advance (h : pc.advance now picks m = some (pc', m')) (hfits : ∀ r, (m.heap r).Fits)
    (hmsg : ∀ msg, pc.incoming = some msg → 0 ≤ msg.incarnation ∧ msg.incarnation < 256 ^ 4) (r : Ref) :
    (m'.heap r).Fits := by
  cases hpc : pc.changesPeers with
  | true =>
    rw [heap_advance h hpc]
    exact hfits r
  | false =>
    have hu : Updates (fun p p' => p.Fits → p'.Fits) m m' := by
      refine updates_advance h hpc (fun _ h => h) (fun _ _ _ h₁ h₂ h => h₂ (h₁ h)) ?_ ?_ ?_ ?_ ?_
      · exact fun p l h => ⟨h.id, h.incarnation⟩
      · intro i hi p hp
        refine hp.markAlive ?_
        cases pc with
        | ackPeer msg targetId l | alive id msg =>
          obtain rfl := Option.some.inj hi
          exact hmsg msg rfl
        | _ => cases hi
      · exact fun p i h => ⟨by rw [p.id_markDead]; exact h.id, by rw [p.incarnation_markDead]; exact h.incarnation⟩
      · exact fun _ p i h =>
          ⟨by rw [p.id_markSuspect]; exact h.id, by rw [p.incarnation_markSuspect]; exact h.incarnation⟩
      · rintro msg r rfl - hp
        exact ⟨hp.id, hmsg msg rfl⟩
    exact hu.heap r (hfits r)

/-- The suspicion that `_suspect_peer` spreads repeats the incarnation of the probed object. -/
theorem fits_suspectPeer {target : Ref} (hs : m.suspectPeer target = (some out, m'))
    (hfits : ∀ r, (m.heap r).Fits) (hfits' : ∀ r, (m'.heap r).Fits) (hseq : 0 ≤ m.sequenceNum)
    (hlt : m.sequenceNum + 1 < 256 ^ 8) : out.Fits := by
  unfold MembershipManager.suspectPeer at hs
  dsimp only at hs
  split at hs
  · cases hs
  · rename_i r hr
    split at hs
    · obtain ⟨hout, rfl⟩ := Prod.mk.inj hs
      obtain rfl := Option.some.inj hout
      refine ⟨(hfits' _).id, ?_, ?_, (hfits' _).incarnation⟩
      · simp only [nextSequence, sequenceNum_startSuspicionTimer]
        show 0 ≤ m.sequenceNum + 1 ∧ m.sequenceNum + 1 < 256 ^ 8
        omega
      · rintro t ⟨⟩
        exact (hfits target).id
    · cases hs

theorem fits_refute (hfits : ∀ r, (m.heap r).Fits) (hseq : 0 ≤ m.sequenceNum)
    (hlt : m.sequenceNum + 1 < 256 ^ 8) (hmsg : 0 ≤ msg.incarnation)
    (hinc : max (m.heap m.localPeer).incarnation msg.incarnation + 1 < 256 ^ 4) :
    (m.refute msg).1.Fits ∧ ∀ r, ((m.refute msg).2.heap r).Fits := by
  have hid := (hfits m.localPeer).id
  have hfit : 0 ≤ max (m.heap m.localPeer).incarnation msg.incarnation + 1 ∧
      max (m.heap m.localPeer).incarnation msg.incarnation + 1 < 256 ^ 4 := by omega
  refine ⟨⟨hid, ?_, ?_, hfit⟩, fun r => ?_⟩
  · show 0 ≤ m.sequenceNum + 1 ∧ m.sequenceNum + 1 < 256 ^ 8
    omega
  · rintro t ⟨⟩
    exact hid
  · by_cases hr : r = m.localPeer
    · subst hr
      have hheap : (m.refute msg).2.heap m.localPeer = { m.heap m.localPeer with
          incarnation := max (m.heap m.localPeer).incarnation msg.incarnation + 1 } :=
        heap_setPeer_self
      rw [hheap]
      exact ⟨hid, hfit⟩
    · have hheap : (m.refute msg).2.heap r = m.heap r := heap_setPeer_of_ne hr
      rw [hheap]
      exact hfits r

end Pc

namespace Sched
open MembershipManager
variable {s s' : Sched} {e : MembershipEvent}

/-- What the step is about to send can be numbered, and a refutation is below the largest
incarnation that a message can carry. -/
def RefutationFits (s : Sched) : MembershipEvent → Prop
  | .receive msg =>
    msg.type = .SUSPECT → msg.targetId = some (s.manager.heap s.manager.localPeer).id →
      max (s.manager.heap s.manager.localPeer).incarnation msg.incarnation < 2 ^ 32 - 1 ∧
        s.manager.sequenceNum < 2 ^ 64 - 1
  | .resume t _ _ =>
    ∀ target drop, s.tasks[t]? = some (.suspectPeer target drop) →
      s.manager.sequenceNum < 2 ^ 64 - 1
  | _ => True

/-- A message that comes in has been unpacked. -/
def Unpacked : MembershipEvent → Prop
  | .receive msg => ∃ data w, unpack data = some w ∧ w.toMessageHeader = msg
  | _ => True

/-- Everything that may end up in a message fits. -/
structure AllFit (s : Sched) : Prop where
  peers : ∀ r, (s.manager.heap r).Fits
  sequence : 0 ≤ s.manager.sequenceNum
  incoming : ∀ pc ∈ s.tasks, ∀ msg, pc.incoming = some msg →
    0 ≤ msg.incarnation ∧ msg.incarnation < 256 ^ 4
  outgoing : ∀ pc ∈ s.tasks, ∀ out, pc.outgoing = some out → out.Fits
  queue : ∀ out ∈ s.manager.updatesQueue, out.Fits

theorem AllFit.spawn {pc : Pc} (h : s.AllFit) (hin : pc.incoming = none) (hout : pc.outgoing = none) :
    (s.spawn pc).AllFit where
  peers := h.peers
  sequence := h.sequence
  incoming pc' hpc' msg hmsg := by
    rcases List.mem_append.1 hpc' with hpc' | hpc'
    · exact h.incoming pc' hpc' msg hmsg
    · obtain rfl := List.mem_singleton.1 hpc'
      cases hin.symm.trans hmsg
  outgoing pc' hpc' out hmsg := by
    rcases List.mem_append.1 hpc' with hpc' | hpc'
    · exact h.outgoing pc' hpc' out hmsg
    · obtain rfl := List.mem_singleton.1 hpc'
      cases hout.symm.trans hmsg
  queue := h.queue

theorem AllFit.resume {t : Nat} {now : ℚ} {picks : List Ref} (h : s.AllFit)
    (hfit : s.RefutationFits (.resume t now picks))
    (hstep : s.step (.resume t now picks) = some s') : s'.AllFit := by
  obtain ⟨pc, pc', m, ht, -, hadv, rfl⟩ := step_resume_iff.1 hstep
  have hmem := List.mem_of_getElem? ht
  have hpeers := Pc.fits_advance hadv h.peers (h.incoming pc hmem)
  refine ⟨hpeers, h.sequence.trans (Pc.sameSetup_advance hadv).sequence, ?_, ?_, ?_⟩
  · exact forall_mem_set h.incoming fun msg hmsg => h.incoming pc hmem msg (Pc.incoming_advance hadv hmsg)
  · refine forall_mem_set h.outgoing fun out hout => ?_
    obtain ⟨target, drop, rfl, hs⟩ := Pc.outgoing_advance hadv hout
    have hlt := hfit target drop ht
    exact Pc.fits_suspectPeer hs h.peers hpeers h.sequence (by omega)
  · intro out hout
    rcases Pc.mem_updatesQueue_advance hadv hout with hout | hout
    · exact h.queue out hout
    · exact h.outgoing pc hmem out hout

theorem AllFit.receive {msg : MessageHeader} (h : s.AllFit) (hmsg : Unpacked (.receive msg))
    (hfit : s.RefutationFits (.receive msg)) (hstep : s.step (.receive msg) = some s') :
    s'.AllFit := by
  obtain ⟨data, w, hw, rfl⟩ := hmsg
  have hinc := MessageHeader.incarnation_of_unpack hw
  rw [step_receive] at hstep
  obtain rfl := Option.some.inj hstep
  have hsame := Pc.sameQueue_ofMessage w.toMessageHeader s.manager
  have hin : ∀ pc ∈ s.tasks ++ [(Pc.ofMessage w.toMessageHeader s.manager).1], ∀ msg,
      pc.incoming = some msg → 0 ≤ msg.incarnation ∧ msg.incarnation < 256 ^ 4 := by
    intro pc hpc msg hpcmsg
    rcases List.mem_append.1 hpc with hpc | hpc
    · exact h.incoming pc hpc msg hpcmsg
    · obtain rfl := List.mem_singleton.1 hpc
      obtain rfl := Pc.incoming_ofMessage hpcmsg
      exact hinc
  cases hself : (Pc.ofMessage w.toMessageHeader s.manager).1.outgoing with
  | some out =>
    obtain ⟨htype, htarget, hof, rfl⟩ := Pc.outgoing_ofMessage hself
    obtain ⟨hmax, hlt⟩ := hfit htype htarget
    obtain ⟨hrefute, hpeers⟩ := Pc.fits_refute h.peers h.sequence (by omega) hinc.1 (by omega)
    refine ⟨?_, h.sequence.trans hsame.sequence, hin, ?_, ?_⟩
    · rw [hof]
      exact hpeers
    · intro pc hpc out' hout'
      rcases List.mem_append.1 hpc with hpc | hpc
      · exact h.outgoing pc hpc out' hout'
      · obtain rfl := List.mem_singleton.1 hpc
        obtain rfl := Option.some.inj (hself.symm.trans hout')
        exact hrefute
    · intro out' hout'
      rw [hsame.queue] at hout'
      exact h.queue out' hout'
  | none =>
    rw [Pc.ofMessage_of_outgoing_none hself]
    refine ⟨h.peers, h.sequence, hin, fun pc hpc out hout => ?_, h.queue⟩
    rcases List.mem_append.1 hpc with hpc | hpc
    · exact h.outgoing pc hpc out hout
    · obtain rfl := List.mem_singleton.1 hpc
      cases hself.symm.trans hout

theorem AllFit.step (h : s.AllFit) (he : Unpacked e) (hfit : s.RefutationFits e)
    (hstep : s.step e = some s') : s'.AllFit := by
  cases e with
  | resume t now picks => exact h.resume hfit hstep
  | receive msg => exact h.receive he hfit hstep
  | fire τ =>
    obtain ⟨timer, -, -, rfl⟩ := step_fire_iff.1 hstep
    have hspawn : (s.spawn (.confirmStart timer.peerId τ)).AllFit := h.spawn rfl rfl
    obtain ⟨-, -, hin, hout, -⟩ := hspawn
    exact ⟨h.peers, h.sequence, hin, hout, h.queue⟩
  | addPeer | removePeer | readPeers | getUpdates | start =>
    obtain rfl := Option.some.inj hstep
    exact h.spawn rfl rfl

theorem allFit_init {config : MembershipConfig} {localPeer : Ref} {heap : Ref → Peer}
    (h : ∀ r, (heap r).Fits) : (init config localPeer heap).AllFit where
  peers := h
  sequence := le_rfl
  incoming _ hpc := by cases hpc
  outgoing _ hpc := by cases hpc
  queue _ hout := by cases hout

end Sched

/-- In a run with unpacked messages and peer objects that fit, in which no refutation has to go above
the largest incarnation of a message, every queued update can be packed, and the local incarnation
fits. -/
theorem queued_updates_pack {config : MembershipConfig} {localPeer : Ref} {heap : Ref → Peer}
    {events : List MembershipEvent} {s : Sched} (hheap : ∀ r, (heap r).Fits)
    (hunpacked : ∀ e ∈ events, Sched.Unpacked e)
    (hfit : Along Sched.step Sched.RefutationFits (.init config localPeer heap) events)
    (hrun : run Sched.step (.init config localPeer heap) events = some s) :
    (∀ out ∈ s.manager.updatesQueue, ∀ timestamp,
      ∃ bytes, (out.wire timestamp).pack = some bytes) ∧
    0 ≤ (s.manager.heap s.manager.localPeer).incarnation ∧
    (s.manager.heap s.manager.localPeer).incarnation < 2 ^ 32 := by
  have hboth : Along Sched.step (fun s e => Sched.Unpacked e ∧ s.RefutationFits e)
      (.init config localPeer heap) events := by
    rintro es₁ e es₂ s₁ rfl hs₁
    exact ⟨hunpacked e (by simp), hfit es₁ e es₂ s₁ rfl hs₁⟩
  have hall : s.AllFit := by
    refine run_induction (motive := fun _ (s : Sched) => s.AllFit) (Sched.allFit_init hheap) ?_ hboth hrun
    rintro es s e s' - hs he hstep
    exact hs.step he.1 he.2 hstep
  exact ⟨fun out hout timestamp => (hall.queue out hout).pack timestamp, (hall.peers _).incarnation⟩

section Example

/-- A suspicion of `a`, which hears it itself. -/
def suspectA (incarnation : Int) : MessageHeader :=
  { type := .SUSPECT, senderId := "c", sequence := 1, targetId := "a", incarnation := incarnation }

theorem fits_suspectA {i : Int} (h : 0 ≤ i ∧ i < 256 ^ 4) : (suspectA i).Fits := by
  have hlen : (utf8Encode "c").length < 256 ^ 2 ∧ (utf8Encode "a").length < 256 ^ 2 := by decide
  refine ⟨hlen.1, ⟨Int.one_nonneg, ?_⟩, ?_, h⟩
  · show (1 : Int) < 256 ^ 8
    decide
  · rintro t ⟨⟩
    exact hlen.2

def soleA : Ref → Peer := fun _ => { id := "a" }

theorem queued_updates_pack_once : ∃ s,
    run Sched.step (.init {} 0 soleA) [.receive (suspectA 5), .resume 0 0 []] = some s ∧
    s.manager.updatesQueue ≠ [] ∧ ∀ out ∈ s.manager.updatesQueue, ∀ timestamp,
      ∃ bytes, (out.wire timestamp).pack = some bytes := by
  have hheap : ∀ r, (soleA r).Fits := fun r => (⟨by decide, by decide⟩ : (soleA 0).Fits)
  have hunpacked : ∀ e ∈ [.receive (suspectA 5), .resume 0 0 []], Sched.Unpacked e := by
    intro e he
    rcases List.mem_pair.1 he with rfl | rfl
    · exact (fits_suspectA (by decide)).unpack
    · trivial
  have hfit : Along Sched.step Sched.RefutationFits (.init {} 0 soleA)
      [.receive (suspectA 5), .resume 0 0 []] := by
    refine .cons (fun _ _ => ⟨by decide, by decide⟩) rfl (.singleton ?_)
    rintro target drop ⟨⟩
  exact ⟨_, rfl, by simp [MembershipManager.queueUpdate],
    (queued_updates_pack hheap hunpacked hfit rfl).1⟩

/-- A suspicion with the largest incarnation of a message makes the local incarnation one that no
message can carry. -/
theorem refutation_does_not_pack : ∃ s,
    Sched.Unpacked (.receive (suspectA (2 ^ 32 - 1))) ∧
    run Sched.step (.init {} 0 soleA) [.receive (suspectA (2 ^ 32 - 1)), .resume 0 0 []] = some s ∧
    (s.manager.heap s.manager.localPeer).incarnation = 2 ^ 32 ∧
    ∃ out ∈ s.manager.updatesQueue, ∀ timestamp, (out.wire timestamp).pack = none := by
  refine ⟨_, (fits_suspectA (by decide)).unpack, rfl, rfl, _, List.mem_singleton_self _, ?_⟩
  intro timestamp
  refine Option.eq_none_iff_forall_not_mem.2 fun bytes hbytes => ?_
  have hlt := (WireMessage.pack_eq_some_iff.1 hbytes).1.incarnation.2
  change (2 ^ 32 : Int) < 256 ^ 4 at hlt
  omega

end Example

end GossipRl
