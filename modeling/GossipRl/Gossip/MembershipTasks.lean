import GossipRl.Gossip.Membership

/-!
# The tasks of the membership manager

Coroutines run interleaved: a task is suspended where it waits for a lock, sleeps, or has not
started. `Pc` says where a task is, with the locks it holds there (`Pc.holds`) and the one it is
about to acquire (`Pc.waits`); `Pc.advance` is what it does from there to the next such place. The
locks are not reentrant: a task gets one only while no task holds it, itself included.

A task is also allowed to be overtaken at an acquisition that would not suspend it. `stop` is not
modelled, and callbacks neither raise nor call the manager.
-/

namespace GossipRl
open Support

inductive Lock where
  | probe
  | peer
  | updates
deriving DecidableEq, Repr

inductive Pc where
  | ping (msg : MessageHeader)
  | pingReq (msg : MessageHeader)
  | ack (msg : MessageHeader)
  | ackPeer (msg : MessageHeader) (targetId : String) (latencyMs : ℚ)
  | alive (id : String) (msg : MessageHeader)
  | suspect (id : String) (msg : MessageHeader)
  | dead (id : String) (msg : MessageHeader)
  | broadcast (out : MessageHeader)
  | addPeer (r : Ref)
  | removePeer (id : String)
  | readPeers
  | getUpdates (maxUpdates : Nat)
  /-- `_confirm_dead`, scheduled by the timer `τ`. -/
  | confirmStart (id : String) (τ : TimerId)
  | confirm (id : String) (τ : TimerId)
  /-- The probe loop between two rounds. -/
  | probeSleep
  | probePick
  | probeRegister (target : Ref) (probe : ProbeState)
  | probeWait (target : Ref) (sequence : Int)
  | probeCheck (target : Ref) (sequence : Int)
  | indirectSelect (target : Ref) (sequence : Int)
  | indirectRegister (target : Ref) (sequence : Int) (probes : List Ref)
  | indirectWait (target : Ref) (sequence : Int)
  | indirectCheck (target : Ref) (sequence : Int)
  /-- `_suspect_peer`, after which the pending probe `drop` goes. -/
  | suspectPeer (target : Ref) (drop : Option Int)
  | suspectQueue (out : MessageHeader) (drop : Option Int)
  | done
deriving DecidableEq, Repr

namespace Pc

def holds : Pc → List Lock
  | .ackPeer .. | .indirectSelect .. | .indirectRegister .. | .indirectWait .. | .indirectCheck ..
  | .suspectPeer .. => [.probe]
  | .suspectQueue .. => [.probe, .peer]
  | _ => []

def waits : Pc → Option Lock
  | .ack .. | .probeRegister .. | .probeCheck .. | .indirectRegister .. | .indirectCheck .. =>
    some .probe
  | .ping .. | .pingReq .. | .ackPeer .. | .alive .. | .suspect .. | .dead .. | .addPeer ..
  | .removePeer .. | .readPeers | .confirm .. | .probePick | .indirectSelect .. | .suspectPeer .. =>
    some .peer
  | .broadcast .. | .getUpdates .. | .suspectQueue .. => some .updates
  | .confirmStart .. | .probeSleep | .probeWait .. | .indirectWait .. | .done => none

/-- Where `handle_message` first waits, and what it has done by then. -/
def ofMessage (msg : MessageHeader) (m : MembershipManager) : Pc × MembershipManager :=
  match msg.type, msg.targetId with
  | .PING, _ => (.ping msg, m)
  | .PING_REQ, some _ => (.pingReq msg, m)
  | .ACK, _ => (.ack msg, m)
  | .ALIVE, some id => (.alive id msg, m)
  | .SUSPECT, some id =>
    if id = (m.heap m.localPeer).id then
      let refuted := m.refute msg
      (.broadcast refuted.1, refuted.2)
    else (.suspect id msg, m)
  | .DEAD, some id => (.dead id msg, m)
  | _, _ => (.done, m)

/-- From one place to the next, at time `now`. `picks` is what `random` chooses. -/
def advance (now : ℚ) (picks : List Ref) (m : MembershipManager) : Pc → Option (Pc × MembershipManager)
  | .ping msg => some (.done, m.handlePing now msg)
  | .pingReq _ => some (.done, m)
  | .ack msg =>
    match m.pendingProbes.get? msg.sequence with
    | none => some (.done, m)
    | some probe =>
      some (.ackPeer msg probe.targetId ((now - probe.startTime) * 1000),
        m.ackProbe msg.sequence probe)
  | .ackPeer msg targetId latencyMs => some (.done, m.ackPeer now msg targetId latencyMs)
  | .alive id msg => some (.done, m.handleAlive now id msg)
  | .suspect id msg => some (.done, m.handleSuspect id msg)
  | .dead id msg => some (.done, m.handleDead id msg)
  | .broadcast out => some (.done, m.queueUpdate out)
  | .addPeer r => some (.done, (m.addPeer r).2)
  | .removePeer id => some (.done, (m.removePeer id).2)
  | .readPeers => some (.done, m)
  | .getUpdates maxUpdates => some (.done, (m.getPendingUpdates maxUpdates).2)
  | .confirmStart id τ => some (.confirm id τ, m.dropTimer id)
  | .confirm id _ => some (.done, m.confirmDead id)
  | .probeSleep => some (.probePick, m)
  | .probePick =>
    match picks with
    | [] => if m.getAlivePeers = [] then some (.probeSleep, m) else none
    | [target] =>
      if target ∈ m.getAlivePeers then
        let (probe, m) := m.newProbe now target
        some (.probeRegister target probe, m)
      else none
    | _ => none
  | .probeRegister target probe => some (.probeWait target probe.sequence, m.registerProbe probe)
  | .probeWait target sequence => some (.probeCheck target sequence, m)
  | .probeCheck target sequence =>
    if m.unanswered sequence then some (.indirectSelect target sequence, m)
    else some (.probeSleep, m)
  | .indirectSelect target sequence =>
    -- a negative sample size raises, which ends the round
    if m.config.indirectProbes < 0 then some (.probeSleep, m)
    else if m.Selects m.config.indirectProbes [(m.heap target).id, (m.heap m.localPeer).id] picks then
      if picks = [] then some (.suspectPeer target none, m)
      else some (.indirectRegister target sequence picks, m)
    else none
  | .indirectRegister target sequence probes =>
    some (.indirectWait target sequence, m.setIndirectTargets sequence probes)
  | .indirectWait target sequence => some (.indirectCheck target sequence, m)
  | .indirectCheck target sequence =>
    if m.unanswered sequence then some (.suspectPeer target (some sequence), m)
    else some (.probeSleep, m)
  | .suspectPeer target drop =>
    match m.suspectPeer target with
    | (none, m) => some (.probeSleep, drop.elim m m.dropProbe)
    | (some out, m) => some (.suspectQueue out drop, m)
  | .suspectQueue out drop =>
    let m := m.queueUpdate out
    some (.probeSleep, drop.elim m m.dropProbe)
  | .done => none

end Pc

structure Sched where
  manager : MembershipManager
  tasks : List Pc := []

inductive MembershipEvent where
  | receive (msg : MessageHeader)
  | addPeer (r : Ref)
  | removePeer (id : String)
  | readPeers
  | getUpdates (maxUpdates : Nat)
  /-- `start`: a task for the probe loop. -/
  | start
  /-- The timer `τ` goes off and schedules `_confirm_dead`. -/
  | fire (τ : TimerId)
  /-- Task `t` goes on. -/
  | resume (t : Nat) (now : ℚ) (picks : List Ref)
deriving DecidableEq, Repr

namespace Sched

/-- A new manager. The application's peer objects are in `heap`. -/
def init (config : MembershipConfig) (localPeer : Ref) (heap : Ref → Peer) : Sched :=
  ⟨{ config := config, localPeer := localPeer, heap := heap }, []⟩

/-- No task holds `lock`. -/
def Free (s : Sched) (lock : Option Lock) : Prop :=
  ∀ l, lock = some l → ∀ pc ∈ s.tasks, l ∉ pc.holds

instance (s : Sched) (lock : Option Lock) : Decidable (s.Free lock) :=
  match lock with
  | none => .isTrue fun _ h => by cases h
  | some l =>
    decidable_of_iff (∀ pc ∈ s.tasks, l ∉ pc.holds)
      ⟨fun h l' hl => Option.some.inj hl ▸ h, fun h => h l rfl⟩

def spawn (pc : Pc) (s : Sched) : Sched := { s with tasks := s.tasks ++ [pc] }

def step (s : Sched) : MembershipEvent → Option Sched
  | .receive msg =>
    let (pc, m) := Pc.ofMessage msg s.manager
    some ⟨m, s.tasks ++ [pc]⟩
  | .addPeer r => some (s.spawn (.addPeer r))
  | .removePeer id => some (s.spawn (.removePeer id))
  | .readPeers => some (s.spawn .readPeers)
  | .getUpdates maxUpdates => some (s.spawn (.getUpdates maxUpdates))
  | .start => some (s.spawn .probePick)
  | .fire τ =>
    match s.manager.timers[τ]? with
    | none => none
    | some timer =>
      if timer.state = .pending then
        some ⟨{ s.manager with
            timers := s.manager.timers.modify τ fun timer => { timer with state := .fired } },
          s.tasks ++ [.confirmStart timer.peerId τ]⟩
      else none
  | .resume t now picks =>
    match s.tasks[t]? with
    | none => none
    | some pc =>
      if s.Free pc.waits then
        (pc.advance now picks s.manager).map fun r => ⟨r.2, s.tasks.set t r.1⟩
      else none

variable {s s' : Sched} {t : Nat} {now : ℚ} {picks : List Ref}

theorem step_resume_iff : s.step (.resume t now picks) = some s' ↔
    ∃ pc pc' m, s.tasks[t]? = some pc ∧ s.Free pc.waits ∧
      pc.advance now picks s.manager = some (pc', m) ∧ s' = ⟨m, s.tasks.set t pc'⟩ := by
  cases ht : s.tasks[t]? with
  | none => simp [step, ht]
  | some pc =>
    by_cases hf : s.Free pc.waits
    · simp [step, ht, hf, eq_comm]
    · simp [step, ht, hf]

theorem step_fire_iff {τ : TimerId} : s.step (.fire τ) = some s' ↔
    ∃ timer, s.manager.timers[τ]? = some timer ∧ timer.state = .pending ∧
      s' = ⟨{ s.manager with
          timers := s.manager.timers.modify τ fun timer => { timer with state := .fired } },
        s.tasks ++ [.confirmStart timer.peerId τ]⟩ := by
  cases ht : s.manager.timers[τ]? with
  | none => simp [step, ht]
  | some timer =>
    by_cases hp : timer.state = .pending
    · simp [step, ht, hp, eq_comm]
    · simp [step, ht, hp]

/-- A task of the new state is an old one, the one that went on, or a new one at its first place. -/
theorem mem_tasks_step {e : MembershipEvent} {pc' : Pc} (h : s.step e = some s')
    (hpc : pc' ∈ s'.tasks) :
    pc' ∈ s.tasks ∨
      (∃ t now picks pc m, e = .resume t now picks ∧ s.tasks[t]? = some pc ∧
        pc.advance now picks s.manager = some (pc', m)) ∨
      (∃ msg, e = .receive msg ∧ pc' = (Pc.ofMessage msg s.manager).1) ∨
      (∃ r, e = .addPeer r ∧ pc' = .addPeer r) ∨
      (∃ id, e = .removePeer id ∧ pc' = .removePeer id) ∨
      pc' = .readPeers ∨ (∃ n, pc' = .getUpdates n) ∨ pc' = .probePick ∨
      (∃ τ timer, e = .fire τ ∧ s.manager.timers[τ]? = some timer ∧ timer.state = .pending ∧
        pc' = .confirmStart timer.peerId τ) := by
  have spawned : ∀ {pc : Pc}, pc' ∈ (s.spawn pc).tasks → pc' ∈ s.tasks ∨ pc' = pc := by
    intro pc hmem
    simpa [spawn] using hmem
  cases e with
  | resume t now picks =>
    obtain ⟨pc, pc₁, m, ht, -, hadv, rfl⟩ := step_resume_iff.1 h
    rcases List.mem_or_eq_of_mem_set hpc with hmem | rfl
    · exact .inl hmem
    · exact .inr (.inl ⟨t, now, picks, pc, m, rfl, ht, hadv⟩)
  | fire τ =>
    obtain ⟨timer, hτ, hp, rfl⟩ := step_fire_iff.1 h
    rcases List.mem_append.1 hpc with hmem | hmem
    · exact .inl hmem
    · have := List.mem_singleton.1 hmem
      exact .inr (by simp [hτ, hp, this])
  | receive msg =>
    obtain rfl := Option.some.inj h
    rcases List.mem_append.1 hpc with hmem | hmem
    · exact .inl hmem
    · exact .inr (.inr (.inl ⟨msg, rfl, List.mem_singleton.1 hmem⟩))
  | addPeer r =>
    obtain rfl := Option.some.inj h
    exact (spawned hpc).imp_right fun heq => by simp [heq]
  | removePeer id =>
    obtain rfl := Option.some.inj h
    exact (spawned hpc).imp_right fun heq => by simp [heq]
  | readPeers =>
    obtain rfl := Option.some.inj h
    exact (spawned hpc).imp_right fun heq => by simp [heq]
  | getUpdates n =>
    obtain rfl := Option.some.inj h
    exact (spawned hpc).imp_right fun heq => by simp [heq]
  | start =>
    obtain rfl := Option.some.inj h
    exact (spawned hpc).imp_right fun heq => by simp [heq]

end Sched

end GossipRl
