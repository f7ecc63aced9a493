import GossipRl.Gossip.PendingUpdates
import GossipRl.Gossip.PlainMessages
import GossipRl.Gossip.Refutation
import GossipRl.Gossip.Rumours
import GossipRl.Support.Parties

/-!
# Managers that send each other messages

Sending is left to a transport layer in the source. `Cluster` is any number of managers, and one that
may lose, repeat, delay and misdeliver messages, but not make any: what a manager receives is
unpacked from the bytes of a message that was sent (`MessageHeader.carried`). A message counts as
sent once it is built, or returned by `get_pending_updates`.

Which message a task handles can be told from the place where the task is (`Pc.Named`), and the
local peer changes only by refutations if the application does not enter it into the table
(`Sched.LocalAway`, `Sched.self_step`).
-/

namespace GossipRl
open Support

namespace MessageHeader
variable {msg out : MessageHeader}

/-- What the message is unpacked to, if it can be packed. -/
def carried (msg : MessageHeader) : Option MessageHeader :=
  ((msg.wire 0).pack.bind unpack).map (·.toMessageHeader)

/-- A header arrives as it was sent, whatever the timestamp. -/
theorem unpack_wire_eq_some_iff (timestamp : UInt64) :
    ((out.wire timestamp).pack.bind unpack).map (·.toMessageHeader) = some msg ↔
      (out.wire timestamp).Packs ∧ out = msg := by
  constructor
  · intro h
    obtain ⟨w, hw, rfl⟩ := Option.map_eq_some_iff.1 h
    obtain ⟨bytes, hbytes, hunpack⟩ := Option.bind_eq_some_iff.1 hw
    obtain ⟨hpacks, rfl⟩ := WireMessage.pack_eq_some_iff.1 hbytes
    rw [WireMessage.unpack_plain hpacks rfl] at hunpack
    obtain rfl := Option.some.inj hunpack
    exact ⟨hpacks, rfl⟩
  · rintro ⟨hpacks, rfl⟩
    rw [WireMessage.pack_eq_some_iff.2 ⟨hpacks, rfl⟩, Option.bind_some,
      WireMessage.unpack_plain hpacks rfl]
    rfl

theorem eq_of_carried (h : out.carried = some msg) : out = msg :=
  ((unpack_wire_eq_some_iff 0).1 h).2

end MessageHeader

namespace Pc
open MembershipManager

/-- The messages that the task builds on its way to the next place, other than updates, or returns
from `get_pending_updates`. -/
def sends (now : ℚ) (m : MembershipManager) : Pc → List MessageHeader
  | .ping msg => [(m.handlePing now msg).ackFor msg]
  | .probeRegister target probe =>
    [.createPing (m.heap m.localPeer).id probe.sequence (m.heap target).id]
  | .indirectRegister target sequence probes =>
    probes.map fun _ =>
      { type := .PING_REQ
        senderId := (m.heap m.localPeer).id
        sequence := sequence
        targetId := (m.heap target).id }
  | .getUpdates maxUpdates => (m.getPendingUpdates maxUpdates).1
  | _ => []

/-- The place of the task is one for the message that it has. -/
def Named : Pc → Prop
  | .ping msg => msg.type = .PING
  | .pingReq msg => msg.type = .PING_REQ
  | .ack msg | .ackPeer msg .. => msg.type = .ACK
  | .alive id msg => msg.type = .ALIVE ∧ msg.targetId = some id
  | .suspect id msg => msg.type = .SUSPECT ∧ msg.targetId = some id
  | .dead id msg => msg.type = .DEAD ∧ msg.targetId = some id
  | .broadcast out => out.type = .ALIVE
  | .suspectQueue out _ => out.type = .SUSPECT
  | _ => True

variable {pc pc' : Pc} {now : ℚ} {picks : List Ref} {m m' : MembershipManager} {r : Ref}
  {msg out : MessageHeader}

theorem named_advance (h : pc.advance now picks m = some (pc', m')) (hpc : pc.Named) :
    pc'.Named := by
  cases pc <;> simp only [advance] at h
  case ack msg =>
    split at h
    · obtain ⟨rfl, -⟩ := Prod.mk.inj (Option.some.inj h)
      trivial
    · obtain ⟨rfl, -⟩ := Prod.mk.inj (Option.some.inj h)
      exact hpc
  case suspectPeer target drop =>
    split at h
    · obtain ⟨rfl, -⟩ := Prod.mk.inj (Option.some.inj h)
      trivial
    · rename_i hs
      obtain ⟨rfl, -⟩ := Prod.mk.inj (Option.some.inj h)
      exact (suspectPeer_eq_some hs).1
  all_goals repeat' split at h
  all_goals first
    | (obtain ⟨rfl, -⟩ := Prod.mk.inj (Option.some.inj h); trivial)
    | cases h

theorem named_ofMessage (msg : MessageHeader) (m : MembershipManager) :
    (ofMessage msg m).1.Named := by
  unfold ofMessage
  split
  case h_5 id htype htarget =>
    split
    · rfl
    · exact ⟨htype, htarget⟩
  all_goals first
    | assumption
    | exact ⟨‹_›, ‹_›⟩
    | trivial

theorem heap_advance_of_unstored (h : pc.advance now picks m = some (pc', m'))
    (hr : ∀ id, m.peers.get? id ≠ some r) : m'.heap r = m.heap r := by
  have entry : ∀ {f : Ref → MembershipManager → MembershipManager} {id : String},
      (∀ r', r' ≠ r → (f r' m).heap r = m.heap r) → (m.onEntry id f).heap r = m.heap r := by
    intro f id hf
    cases hid : m.peers.get? id with
    | none => rw [onEntry_of_none hid]
    | some r' =>
      rw [onEntry_of_some hid]
      exact hf r' fun heq => hr id (heq ▸ hid)
  have revive : ∀ {m₁ : MembershipManager} {id : String} {i : Int} {r' : Ref}, r' ≠ r →
      m₁.heap r = m.heap r → (m₁.reviveEntry now id i r').heap r = m.heap r := by
    intro m₁ id i r' hne heq
    rw [heap_reviveEntry, heap_setPeer_of_ne hne.symm, heq]
  cases hw : pc.writesTable with
  | false => rw [(sameTable_advance h hw).heap]
  | true =>
    cases pc with
    | ping msg => exact of_advance h (entry fun r' hne => heap_setPeer_of_ne hne.symm)
    | ackPeer msg targetId l =>
      exact of_advance h (entry fun r' hne => revive hne (heap_setPeer_of_ne hne.symm))
    | alive id msg => exact of_advance h (entry fun r' hne => revive hne rfl)
    | suspect id msg =>
      refine of_advance h (entry fun r' hne => ?_)
      dsimp only
      split
      · simpa using heap_setPeer_of_ne hne.symm
      · exact heap_setPeer_of_ne hne.symm
    | dead id msg =>
      refine of_advance h (entry fun r' hne => ?_)
      dsimp only
      split <;> exact heap_setPeer_of_ne hne.symm
    | addPeer | removePeer => rw [heap_advance h rfl]
    | confirmStart id τ => exact of_advance h rfl
    | confirm id τ =>
      refine of_advance h (entry fun r' hne => ?_)
      split
      · exact heap_setPeer_of_ne hne.symm
      · rfl
    | suspectPeer target drop =>
      rw [(sameTable_suspectPeer h).heap]
      unfold MembershipManager.suspectPeer
      dsimp only
      split
      · rfl
      · rename_i r' hr'
        have hne : r ≠ r' := fun heq => hr _ (heq ▸ hr')
        split
        · simpa [nextSequence] using heap_setPeer_of_ne hne
        · exact heap_setPeer_of_ne hne
    | _ => cases hw

end Pc

namespace Sched
open MembershipManager
variable {s s' : Sched} {e : MembershipEvent} {out : MessageHeader}

def sends (s : Sched) : MembershipEvent → List MessageHeader
  | .resume t now _ =>
    match s.tasks[t]? with
    | none => []
    | some pc => pc.sends now s.manager
  | _ => []

/-- Only what has been sent is received. -/
def admits (sent : List MessageHeader) : MembershipEvent → Bool
  | .receive msg => sent.any fun out => out.carried = some msg
  | _ => true

def member : Party Sched MembershipEvent MessageHeader := ⟨step, sends, admits⟩

theorem mem_sent_of_admits {sent : List MessageHeader} {msg : MessageHeader}
    (h : admits sent (.receive msg) = true) : msg ∈ sent := by
  obtain ⟨out, hout, hcarried⟩ := List.any_eq_true.1 h
  exact MessageHeader.eq_of_carried (of_decide_eq_true hcarried) ▸ hout

theorem sends_cases (h : out ∈ s.sends e) :
    out.incarnation = 0 ∧ ¬ out.IsRumour ∨
      out ∈ s.manager.updatesQueue ∧ ∃ batch, s.takes e = some batch ∧ out ∈ batch := by
  cases e with
  | resume t now picks =>
    cases ht : s.tasks[t]? with
    | none => simp [sends, ht] at h
    | some pc =>
      simp only [sends, ht] at h
      cases pc with
      | ping msg | probeRegister target probe =>
        obtain rfl := List.mem_singleton.1 h
        exact .inl ⟨rfl, by rintro (h | h | h) <;> cases h⟩
      | indirectRegister target sequence probes =>
        obtain ⟨r, -, rfl⟩ := List.mem_map.1 h
        exact .inl ⟨rfl, by rintro (h | h | h) <;> cases h⟩
      | getUpdates n => exact .inr ⟨List.mem_of_mem_take h, (s.manager.getPendingUpdates n).1,
          by simp [takes, ht, Pc.takes], h⟩
      | _ => cases h
  | _ => cases h

theorem named_step (h : s.step e = some s') (hs : ∀ pc ∈ s.tasks, pc.Named) :
    ∀ pc ∈ s'.tasks, pc.Named := by
  have spawned : ∀ {pc}, pc.Named → ∀ pc' ∈ s.tasks ++ [pc], pc'.Named := by
    intro pc hpc pc' hmem
    rcases List.mem_append.1 hmem with hmem | hmem
    · exact hs pc' hmem
    · exact List.mem_singleton.1 hmem ▸ hpc
  cases e with
  | resume t now picks =>
    obtain ⟨pc, pc', m, ht, -, hadv, rfl⟩ := step_resume_iff.1 h
    exact forall_mem_set hs (Pc.named_advance hadv (hs pc (List.mem_of_getElem? ht)))
  | fire τ =>
    obtain ⟨timer, -, -, rfl⟩ := step_fire_iff.1 h
    exact spawned trivial
  | receive msg =>
    rw [step_receive] at h
    obtain rfl := Option.some.inj h
    exact spawned (Pc.named_ofMessage msg s.manager)
  | addPeer | removePeer | readPeers | getUpdates | start =>
    obtain rfl := Option.some.inj h
    exact spawned trivial

/-! ### The local peer -/

def self (s : Sched) : Peer := s.manager.heap s.manager.localPeer

theorem id_self_step (h : s.step e = some s') : s'.self.id = s.self.id := by
  rw [self, (sameSetup_step h).localPeer, id_heap_step h]
  rfl

/-- The message with which the local peer answers a suspicion in this step. -/
def refutes (s : Sched) : MembershipEvent → Option MessageHeader
  | .receive msg => (Pc.ofMessage msg s.manager).1.outgoing
  | _ => none

/-- The local peer is not in the table, and no task is about to enter it. -/
structure LocalAway (s : Sched) : Prop where
  table : ∀ id, s.manager.peers.get? id ≠ some s.manager.localPeer
  tasks : .addPeer s.manager.localPeer ∉ s.tasks

theorem localAway_init (config : MembershipConfig) (localPeer : Ref) (heap : Ref → Peer) :
    (init config localPeer heap).LocalAway where
  table _ h := by cases h
  tasks h := by cases h

theorem LocalAway.step (hs : s.LocalAway) (he : e ≠ .addPeer s.manager.localPeer)
    (h : s.step e = some s') : s'.LocalAway := by
  have hlocal := (sameSetup_step h).localPeer
  constructor
  · rw [hlocal]
    by_cases hresume : ∃ t now picks, e = .resume t now picks
    · obtain ⟨t, now, picks, rfl⟩ := hresume
      obtain ⟨pc, pc', m, ht, -, hadv, rfl⟩ := step_resume_iff.1 h
      intro id hid
      cases hpc : pc.changesPeers with
      | false =>
        rw [(Pc.updates_id_advance hadv hpc).peers] at hid
        exact hs.table id hid
      | true =>
        rcases Pc.advance_changesPeers hadv hpc with ⟨r, rfl, rfl⟩ | ⟨id', rfl, rfl⟩
        · rcases addPeer_cases r s.manager with ⟨-, heq⟩ | heq
          · rw [heq] at hid
            change (s.manager.peers.set _ r).get? id = _ at hid
            rw [Dict.get?_set] at hid
            split at hid
            · obtain rfl := Option.some.inj hid
              exact hs.tasks (List.mem_of_getElem? ht)
            · exact hs.table id hid
          · rw [heq] at hid
            exact hs.table id hid
        · rw [removePeer_snd] at hid
          exact hs.table id (Dict.get?_erase_eq_some_iff.1 hid).2
    · have hu := updates_step (P := fun _ _ => True) h (fun _ => trivial) (fun _ _ => trivial)
        fun t now picks heq => hresume ⟨t, now, picks, heq⟩
      rw [hu.peers]
      exact hs.table
  · rw [hlocal]
    intro hmem
    rcases mem_tasks_step h hmem with hmem | ⟨t, now, picks, pc, m, rfl, ht, hadv⟩ |
      ⟨msg, rfl, heq⟩ | ⟨r, rfl, heq⟩ | ⟨id, rfl, heq⟩ | heq | ⟨n, heq⟩ | heq |
      ⟨τ, timer, rfl, -, -, heq⟩
    · exact hs.tasks hmem
    · cases pc <;> simp only [Pc.advance] at hadv
      all_goals repeat' split at hadv
      all_goals cases hadv
    · unfold Pc.ofMessage at heq
      repeat' split at heq
      all_goals cases heq
    · obtain rfl := Pc.addPeer.inj heq
      exact he rfl
    all_goals cases heq

/-- The local peer changes by refutations only, each of which raises its incarnation. -/
theorem self_step (h : s.step e = some s') (hs : s.LocalAway) :
    s.refutes e = none ∧ s'.self = s.self ∨
      ∃ msg out, e = .receive msg ∧ s.refutes e = some out ∧ msg.type = .SUSPECT ∧
        msg.targetId = some s.self.id ∧ out.type = .ALIVE ∧ out.targetId = some s.self.id ∧
        out.incarnation = max s.self.incarnation msg.incarnation + 1 ∧
        s'.self = { s.self with incarnation := out.incarnation } := by
  have hlocal := (sameSetup_step h).localPeer
  cases e with
  | receive msg =>
    rw [step_receive] at h
    obtain rfl := Option.some.inj h
    cases hout : (Pc.ofMessage msg s.manager).1.outgoing with
    | none =>
      refine .inl ⟨hout, ?_⟩
      rw [self, Pc.ofMessage_of_outgoing_none hout]
      rfl
    | some out =>
      obtain ⟨htype, htarget, hof, rfl⟩ := Pc.outgoing_ofMessage hout
      refine .inr ⟨msg, _, rfl, hout, htype, htarget, rfl, rfl, rfl, ?_⟩
      rw [self, hof]
      exact heap_setPeer_self
  | resume t now picks =>
    obtain ⟨pc, pc', m, ht, -, hadv, rfl⟩ := step_resume_iff.1 h
    refine .inl ⟨rfl, ?_⟩
    rw [self, hlocal]
    exact Pc.heap_advance_of_unstored hadv hs.table
  | fire τ =>
    obtain ⟨timer, -, -, rfl⟩ := step_fire_iff.1 h
    exact .inl ⟨rfl, rfl⟩
  | addPeer | removePeer | readPeers | getUpdates | start =>
    obtain rfl := Option.some.inj h
    exact .inl ⟨rfl, rfl⟩

end Sched

abbrev Cluster (ι : Type*) := Parties ι Sched MessageHeader

namespace Cluster
variable {ι : Type*}

/-- New managers, each with its own settings and the peer objects of its application. -/
def start (config : ι → MembershipConfig) (localPeer : ι → Ref) (heap : ι → Ref → Peer) :
    Cluster ι where
  state i := .init (config i) (localPeer i) (heap i)

theorem id_self_run [DecidableEq ι] {s₀ s : Cluster ι} {events : List (ι × MembershipEvent)}
    (h : run (Parties.step Sched.member) s₀ events = some s) (i : ι) :
    (s.state i).self.id = (s₀.state i).self.id :=
  run_invariant (P := fun n : Sched => n.self.id = (s₀.state i).self.id) rfl
    (fun _ _ _ hn hstep => (Sched.id_self_step hstep).trans hn) (Parties.run_state h i)

end Cluster

section Example

/-- Two managers, each with an object for the other. -/
def pairHeap (i : Bool) (r : Ref) : Peer := { id := if (r = 0) = i then "a" else "b" }

/-- `a` probes `b` in vain and spreads the suspicion. -/
def spreadByA : List (Bool × MembershipEvent) :=
  [(true, .addPeer 1), (true, .resume 0 0 []), (true, .start), (true, .resume 1 0 [1]),
    (true, .resume 1 0 []), (true, .resume 1 0 []), (true, .resume 1 0 []), (true, .resume 1 0 []),
    (true, .resume 1 0 []), (true, .resume 1 0 []), (true, .getUpdates 1), (true, .resume 2 0 [])]

/-- `a` probes `b`, which answers before the probe is checked. -/
def answeredProbe : List (Bool × MembershipEvent) :=
  [(true, .addPeer 1), (true, .resume 0 0 []), (true, .start), (true, .resume 1 0 [1]),
    (true, .resume 1 0 []), (false, .receive (.createPing "a" 1 "b")), (false, .resume 0 0 []),
    (true, .receive (.createAck "b" 1 "a")), (true, .resume 2 0 []), (true, .resume 2 0 []),
    (true, .resume 1 0 []), (true, .resume 1 0 [])]

end Example

end GossipRl
