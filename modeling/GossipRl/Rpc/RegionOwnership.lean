import GossipRl.Rpc.RingSession

/-!
# Regions and rings of shared memory connections (`shm_transport.cpp`)

A ring has a plain pointer into the region that its connection owns. `close` lets the regions go and
leaves the rings: `send` looks at the state first, `poll_recv` does not, and `SharedMemoryTransport`
keeps the connection in the map that its `poll` goes through. Calls are one step each, but other
calls come between the iterations of `poll`. To touch a ring whose region is gone is a fault.
-/

namespace GossipRl
open Support

namespace SharedRingBuffer
variable {T : Type*}

def tryPush (r : SharedRingBuffer T) (value : T) : Bool × SharedRingBuffer T :=
  match r.pushStart with
  | none => (false, r)
  | some write => (true, (r.pushStore write value).pushFinish write)

def tryPop (r : SharedRingBuffer T) : Option T × SharedRingBuffer T :=
  match r.popStart with
  | none => (none, r)
  | some read => (some (r.popLoad read), r.popFinish read)

end SharedRingBuffer

/-- `ShmConnection`, whose pool is the transport's. A region is a number, and so is a ring: that of
the region whose memory it has a pointer to. -/
structure RegionConnection where
  sendRegion : Option Nat
  recvRegion : Option Nat
  sendRing : Option Nat
  recvRing : Option Nat
  state : ConnectionState := .CONNECTED
  stats : ConnectionStats := {}

namespace RegionConnection

/-- The constructor: a ring on each region that there is. -/
def create (sendRegion recvRegion : Option Nat) : RegionConnection where
  sendRegion := sendRegion
  recvRegion := recvRegion
  sendRing := sendRegion
  recvRing := recvRegion

def close (c : RegionConnection) : RegionConnection :=
  if c.state = .CONNECTED then
    { c with state := .CLOSED, sendRegion := none, recvRegion := none }
  else c

end RegionConnection

inductive ShmFault where
  /-- Memory of a region that has been unmapped. -/
  | unmapped
  | other (f : Fault)
deriving DecidableEq, Repr

structure SharedMemoryTransport where
  running : Bool := false
  pool : BufferPool
  /-- What is in the regions; those from `nextRegion` on have not been created. -/
  regions : Nat → SharedRingBuffer RingEntry
  nextRegion : Nat := 0
  /-- Every connection that was made; who called `connect` keeps it. -/
  conns : List RegionConnection := []
  /-- `connections_` -/
  connections : List Nat := []
  /-- What `poll` still has to go through, with the mutex held; it is at the first. -/
  polling : List Nat := []

inductive ShmTransportEvent where
  | listen
  /-- `connect`, and whether the two regions could be created. -/
  | connect (sendCreated recvCreated : Bool)
  | send (conn : Nat) (buffer : Buffer)
  | pollRecv (conn : Nat)
  | close (conn : Nat)
  /-- `poll` takes the mutex; the map has its connections in some order. -/
  | poll (order : List Nat)
  /-- `poll` calls `poll_recv`, and the message callback if there is a message. -/
  | pollStep
  | stop
  /-- The other side changes what is in a region. -/
  | peer (region : Nat) (ring : SharedRingBuffer RingEntry)
  /-- Another user of the pool. -/
  | pool (call : PoolCall)

namespace SharedMemoryTransport

/-- A region that has just been created is all zero. -/
def newRing : SharedRingBuffer RingEntry :=
  .attach ShmLink.ringCapacity { capacity := 0, data := fun _ => ⟨0, []⟩ }

def create (pool : BufferPool) : SharedMemoryTransport :=
  { pool := pool, regions := fun _ => newRing }

/-- What a ring points to, while `region` is what its connection owns. -/
def memory (t : SharedMemoryTransport) (region : Option Nat) (ring : Nat) :
    Except ShmFault (SharedRingBuffer RingEntry) :=
  if region = some ring then .ok (t.regions ring) else .error .unmapped

def setRing (t : SharedMemoryTransport) (ring : Nat) (r : SharedRingBuffer RingEntry) :
    SharedMemoryTransport :=
  { t with regions := Function.update t.regions ring r }

def setConn (t : SharedMemoryTransport) (i : Nat) (c : RegionConnection) : SharedMemoryTransport :=
  { t with conns := t.conns.set i c }

/-- `send` of the connection `c`, which is the `i`-th. -/
def send (t : SharedMemoryTransport) (i : Nat) (c : RegionConnection) (buffer : Buffer) :
    Except ShmFault (Bool × SharedMemoryTransport) :=
  match c.sendRing with
  | none => .ok (false, t)
  | some ring =>
    if c.state ≠ .CONNECTED then .ok (false, t)
    else
      match t.memory c.sendRegion ring with
      | .error f => .error f
      | .ok r =>
        let entry := RingEntry.ofBytes buffer.bytes
        match r.tryPush entry with
        | (false, _) => .ok (false, t)
        | (true, r) =>
          .ok (true, { (t.setRing ring r).setConn i { c with stats := c.stats.pushed entry } with
            pool := t.pool.release (some buffer) })

/-- The end of `poll_recv`: the entry goes into a buffer. -/
def handOut (t : SharedMemoryTransport) (i : Nat) (c : RegionConnection) (entry : RingEntry) :
    Except ShmFault (Option Buffer × SharedMemoryTransport) :=
  match t.pool.acquire with
  | .error f => .error (.other f)
  | .ok (none, pool) => .ok (none, { t with pool := pool })
  | .ok (some buffer, pool) =>
    match entry.writeTo buffer with
    | .error f => .error (.other f)
    | .ok buffer =>
      let stats := c.stats.received entry.size.toNat
      .ok (some buffer, { t.setConn i { c with stats := stats } with pool := pool })

/-- `poll_recv`, which returns false if it has no buffer. -/
def pollRecv (t : SharedMemoryTransport) (i : Nat) (c : RegionConnection) :
    Except ShmFault (Option Buffer × SharedMemoryTransport) :=
  match c.recvRing with
  | none => .ok (none, t)
  | some ring =>
    match t.memory c.recvRegion ring with
    | .error f => .error f
    | .ok r =>
      match r.tryPop with
      | (none, _) => .ok (none, t)
      | (some entry, r) => (t.setRing ring r).handOut i c entry

def connect (t : SharedMemoryTransport) (sendCreated recvCreated : Bool) : SharedMemoryTransport :=
  if sendCreated && recvCreated then
    let send := t.nextRegion
    let recv := t.nextRegion + 1
    { (t.setRing send newRing).setRing recv newRing with
      nextRegion := t.nextRegion + 2
      conns := t.conns ++ [.create (some send) (some recv)]
      connections := t.connections ++ [t.conns.length] }
  else t

def stop (t : SharedMemoryTransport) : SharedMemoryTransport :=
  { t with
    running := false
    conns := t.conns.mapIdx fun i c => if i ∈ t.connections then c.close else c
    connections := [] }

/-- The loop goes on with the same connection as long as it has messages. -/
def pollStep (t : SharedMemoryTransport) (i : Nat) (rest : List Nat) (c : RegionConnection) :
    Except ShmFault SharedMemoryTransport :=
  match t.pollRecv i c with
  | .error f => .error f
  | .ok (some _, t) => .ok t
  | .ok (none, t) => .ok { t with polling := rest }

/-- What comes of an event; none if it cannot happen. -/
def outcome (t : SharedMemoryTransport) :
    ShmTransportEvent → Option (Except ShmFault SharedMemoryTransport)
  | .listen => some (.ok { t with running := true })
  | .connect sendCreated recvCreated =>
    if t.polling.isEmpty then some (.ok (t.connect sendCreated recvCreated)) else none
  | .send i buffer => (t.conns[i]?).map fun c => (t.send i c buffer).map Prod.snd
  | .pollRecv i => (t.conns[i]?).map fun c => (t.pollRecv i c).map Prod.snd
  | .close i => (t.conns[i]?).map fun c => .ok (t.setConn i c.close)
  | .poll order =>
    if t.running then
      if t.polling.isEmpty && order.isPerm t.connections then
        some (.ok { t with polling := order })
      else none
    else some (.ok t)
  | .pollStep =>
    match t.polling with
    | [] => none
    | i :: rest => (t.conns[i]?).map fun c => t.pollStep i rest c
  | .stop => if t.polling.isEmpty then some (.ok t.stop) else none
  | .peer region ring => some (.ok (t.setRing region ring))
  | .pool call => (ShmLink.poolCall t.pool call).map fun pool => .ok { t with pool := pool }

/-- Nothing goes on after a fault. -/
def step (t : SharedMemoryTransport) (e : ShmTransportEvent) : Option SharedMemoryTransport :=
  (t.outcome e).bind Except.toOption

/-! ### What is asked of an event -/

/-- Nothing but rings in regions that their connection owns is touched. -/
def TouchesOwned (t : SharedMemoryTransport) (e : ShmTransportEvent) : Prop :=
  t.outcome e ≠ some (.error .unmapped)

/-- The connection whose `poll_recv` is called. -/
def polled (t : SharedMemoryTransport) : ShmTransportEvent → Option Nat
  | .pollRecv i => some i
  | .pollStep => t.polling.head?
  | _ => none

/-- `send` and `poll_recv` of a closed connection return false, and do nothing. -/
structure SilentWhenClosed (t : SharedMemoryTransport) (e : ShmTransportEvent) : Prop where
  send : ∀ i buffer c, e = .send i buffer → t.conns[i]? = some c → c.state ≠ .CONNECTED →
    t.send i c buffer = .ok (false, t)
  recv : ∀ i c, t.polled e = some i → t.conns[i]? = some c → c.state ≠ .CONNECTED →
    t.pollRecv i c = .ok (none, t)

/-- `poll_recv` is only called on connections that are not closed. -/
def PollsOpen (t : SharedMemoryTransport) (e : ShmTransportEvent) : Prop :=
  ∀ i c, t.polled e = some i → t.conns[i]? = some c → c.state = .CONNECTED

/-- The connection is closed. -/
def Closed (t : SharedMemoryTransport) (i : Nat) : Prop :=
  ∃ c, t.conns[i]? = some c ∧ c.state ≠ .CONNECTED

end SharedMemoryTransport

/-! ### Regions and rings of a connection -/

namespace RegionConnection
variable {c : RegionConnection}

/-- There are two rings, and their regions until the connection is closed. -/
structure Matched (c : RegionConnection) : Prop where
  send : ∃ ring, c.sendRing = some ring ∧ (c.state = .CONNECTED → c.sendRegion = some ring)
  recv : ∃ ring, c.recvRing = some ring ∧ (c.state = .CONNECTED → c.recvRegion = some ring)
  closed : c.state ≠ .CONNECTED → c.sendRegion = none ∧ c.recvRegion = none

theorem matched_create (send recv : Nat) : (create (some send) (some recv)).Matched :=
  ⟨⟨send, rfl, fun _ => rfl⟩, ⟨recv, rfl, fun _ => rfl⟩, fun h => absurd rfl h⟩

theorem Matched.used (h : c.Matched) (stats : ConnectionStats) :
    { c with stats := stats }.Matched := ⟨h.send, h.recv, h.closed⟩

theorem state_close (c : RegionConnection) : c.close.state ≠ .CONNECTED := by
  rw [close]
  split
  · simp
  · assumption

theorem Matched.close (h : c.Matched) : c.close.Matched := by
  rw [RegionConnection.close]
  split
  · obtain ⟨⟨send, hsend, -⟩, ⟨recv, hrecv, -⟩, -⟩ := h
    exact ⟨⟨send, hsend, nofun⟩, ⟨recv, hrecv, nofun⟩, fun _ => ⟨rfl, rfl⟩⟩
  · exact h

end RegionConnection

namespace SharedMemoryTransport
open RegionConnection
variable {t t' : SharedMemoryTransport} {i : Nat} {c : RegionConnection} {e : ShmTransportEvent}

/-- What an event does to the connections. -/
inductive ConnsStep (conns : List RegionConnection) : List RegionConnection → Prop
  | same : ConnsStep conns conns
  | used {i : Nat} {c : RegionConnection} (hi : conns[i]? = some c) (stats : ConnectionStats) :
    ConnsStep conns (conns.set i { c with stats := stats })
  | closed {i : Nat} {c : RegionConnection} (hi : conns[i]? = some c) :
    ConnsStep conns (conns.set i c.close)
  | added (send recv : Nat) : ConnsStep conns (conns ++ [.create (some send) (some recv)])
  | stopped (connections : List Nat) :
    ConnsStep conns (conns.mapIdx fun i c => if i ∈ connections then c.close else c)

namespace ConnsStep
variable {conns conns' : List RegionConnection}

theorem matched (h : ConnsStep conns conns') (hconns : ∀ c ∈ conns, c.Matched) :
    ∀ c ∈ conns', c.Matched := by
  cases h with
  | same => exact hconns
  | used hi stats => exact forall_mem_set hconns ((hconns _ (List.mem_of_getElem? hi)).used stats)
  | closed hi => exact forall_mem_set hconns (hconns _ (List.mem_of_getElem? hi)).close
  | added send recv =>
    intro c hc
    rcases List.mem_append.1 hc with hc | hc
    · exact hconns c hc
    · rw [List.mem_singleton.1 hc]
      exact matched_create send recv
  | stopped connections =>
    intro c hc
    obtain ⟨i, hi, rfl⟩ := List.mem_mapIdx.1 hc
    have hmatched := hconns _ (List.getElem_mem hi)
    split
    · exact hmatched.close
    · exact hmatched

theorem stays_closed (h : ConnsStep conns conns') (hi : conns[i]? = some c)
    (hc : c.state ≠ .CONNECTED) : ∃ c', conns'[i]? = some c' ∧ c'.state ≠ .CONNECTED := by
  obtain ⟨hlt, -⟩ := List.getElem?_eq_some_iff.1 hi
  cases h with
  | same => exact ⟨c, hi, hc⟩
  | @used j d hj stats =>
    rcases eq_or_ne j i with rfl | hne
    · obtain rfl : d = c := Option.some.inj (hj.symm.trans hi)
      exact ⟨_, List.getElem?_set_self hlt, hc⟩
    · exact ⟨c, by rw [List.getElem?_set_ne hne, hi], hc⟩
  | @closed j d hj =>
    rcases eq_or_ne j i with rfl | hne
    · exact ⟨_, List.getElem?_set_self hlt, state_close d⟩
    · exact ⟨c, by rw [List.getElem?_set_ne hne, hi], hc⟩
  | added send recv =>
    exact ⟨c, by rw [List.getElem?_append_left hlt, hi], hc⟩
  | stopped connections =>
    refine ⟨_, by rw [List.getElem?_mapIdx, hi]; rfl, ?_⟩
    split
    · exact state_close c
    · exact hc

end ConnsStep

/-! ### `send` and `poll_recv` -/

theorem send_of_closed (hc : c.state ≠ .CONNECTED) (buffer : Buffer) :
    t.send i c buffer = .ok (false, t) := by
  rw [send]
  split
  · rfl
  · rw [if_pos hc]

theorem send_ne_unmapped (hc : c.Matched) (buffer : Buffer) :
    t.send i c buffer ≠ .error .unmapped := by
  by_cases hstate : c.state = .CONNECTED
  · obtain ⟨ring, hring, hregion⟩ := hc.send
    simp only [send, hring, memory, hregion hstate, hstate, ne_eq, not_true_eq_false, if_false, if_true]
    split <;> simp
  · rw [send_of_closed hstate]
    nofun

theorem conns_send {buffer : Buffer} {sent : Bool} (hi : t.conns[i]? = some c)
    (h : t.send i c buffer = .ok (sent, t')) : ConnsStep t.conns t'.conns := by
  rw [send] at h
  split at h
  · cases h
    exact .same
  · split at h
    · cases h
      exact .same
    · split at h
      · cases h
      · simp only at h
        split at h
        · cases h
          exact .same
        · cases h
          exact .used hi _

theorem conns_handOut {entry : RingEntry} {received : Option Buffer} (hi : t.conns[i]? = some c)
    (h : t.handOut i c entry = .ok (received, t')) : ConnsStep t.conns t'.conns := by
  rw [handOut] at h
  split at h
  · cases h
  · cases h
    exact .same
  · split at h
    · cases h
    · cases h
      exact .used hi _

theorem handOut_ne_unmapped (t : SharedMemoryTransport) (i : Nat) (c : RegionConnection)
    (entry : RingEntry) : t.handOut i c entry ≠ .error .unmapped := by
  rw [handOut]
  split
  · simp
  · simp
  · split <;> simp

theorem pollRecv_of_closed (hc : c.Matched) (hstate : c.state ≠ .CONNECTED) :
    t.pollRecv i c = .error .unmapped := by
  obtain ⟨ring, hring, -⟩ := hc.recv
  simp [pollRecv, hring, memory, (hc.closed hstate).2]

theorem pollRecv_of_open (hc : c.Matched) (hstate : c.state = .CONNECTED) :
    t.pollRecv i c ≠ .error .unmapped := by
  obtain ⟨ring, hring, hregion⟩ := hc.recv
  simp only [pollRecv, hring, memory, hregion hstate, if_true]
  split
  · nofun
  · exact handOut_ne_unmapped _ i c _

theorem conns_pollRecv {received : Option Buffer} (hi : t.conns[i]? = some c)
    (h : t.pollRecv i c = .ok (received, t')) : ConnsStep t.conns t'.conns := by
  rw [pollRecv] at h
  split at h
  · cases h
    exact .same
  · split at h
    · cases h
    · split at h
      · cases h
        exact .same
      · exact conns_handOut (t := t.setRing _ _) hi h

theorem conns_pollStep {rest : List Nat} (hi : t.conns[i]? = some c)
    (h : t.pollStep i rest c = .ok t') : ConnsStep t.conns t'.conns := by
  rw [pollStep] at h
  rcases hrecv : t.pollRecv i c with f | ⟨_ | buffer, t₁⟩
  · simp [hrecv] at h
  · rw [hrecv] at h
    cases h
    have hconns : ConnsStep t.conns t₁.conns := conns_pollRecv hi hrecv
    exact hconns
  · rw [hrecv] at h
    cases h
    exact conns_pollRecv hi hrecv

/-! ### Runs -/

theorem step_eq_some : t.step e = some t' ↔ t.outcome e = some (.ok t') := by
  rw [step]
  rcases t.outcome e with _ | _ | t₁
  · simp
  · simp [Except.toOption]
  · simp [Except.toOption]

theorem conns_step (h : t.step e = some t') : ConnsStep t.conns t'.conns := by
  rw [step_eq_some] at h
  cases e with
  | listen | peer =>
    cases h
    exact .same
  | connect sendCreated recvCreated =>
    simp only [outcome] at h
    split at h
    · cases h
      rw [connect]
      split
      · exact .added ..
      · exact .same
    · cases h
  | send i buffer =>
    simp only [outcome, Option.map_eq_some_iff, map_eq_ok_iff] at h
    obtain ⟨c, hi, ⟨sent, t₁⟩, hsend, rfl⟩ := h
    exact conns_send hi hsend
  | pollRecv i =>
    simp only [outcome, Option.map_eq_some_iff, map_eq_ok_iff] at h
    obtain ⟨c, hi, ⟨received, t₁⟩, hrecv, rfl⟩ := h
    exact conns_pollRecv hi hrecv
  | close i =>
    simp only [outcome, Option.map_eq_some_iff] at h
    obtain ⟨c, hi, heq⟩ := h
    cases heq
    exact .closed hi
  | poll order =>
    simp only [outcome] at h
    split at h
    · split at h
      · cases h
        exact .same
      · cases h
    · cases h
      exact .same
  | pollStep =>
    simp only [outcome] at h
    split at h
    · cases h
    · simp only [Option.map_eq_some_iff] at h
      obtain ⟨c, hi, hstep⟩ := h
      exact conns_pollStep hi hstep
  | stop =>
    simp only [outcome] at h
    split at h
    · cases h
      exact .stopped ..
    · cases h
  | pool call =>
    simp only [outcome, Option.map_eq_some_iff] at h
    obtain ⟨pool, -, heq⟩ := h
    cases heq
    exact .same

theorem matched_run {pool : BufferPool} {es : List ShmTransportEvent}
    (h : run step (create pool) es = some t) : ∀ c ∈ t.conns, c.Matched := by
  refine run_invariant (P := fun t => ∀ c ∈ t.conns, c.Matched) ?_ (fun t e t' ht hstep => ?_) h
  · exact fun c hc => absurd hc (List.not_mem_nil)
  · exact (conns_step hstep).matched ht

theorem closed_run {es : List ShmTransportEvent} (ht : t.Closed i)
    (h : run step t es = some t') : t'.Closed i :=
  run_invariant (P := fun t => t.Closed i) ht
    (fun _ _ _ ⟨_, hi, hc⟩ hstep => (conns_step hstep).stays_closed hi hc) h

theorem closed_of_close (h : t.step (.close i) = some t') : t'.Closed i := by
  rw [step_eq_some] at h
  simp only [outcome, Option.map_eq_some_iff] at h
  obtain ⟨c, hi, heq⟩ := h
  cases heq
  exact ⟨c.close, List.getElem?_set_self (List.getElem?_eq_some_iff.1 hi).1, state_close c⟩

theorem map_eq_error_iff {ε α β : Type*} {f : α → β} {x : Except ε α} {err : ε} :
    x.map f = .error err ↔ x = .error err := by
  cases x <;> simp [Except.map]

theorem touchesOwned_of_open (ht : ∀ c ∈ t.conns, c.Matched) (hopen : t.PollsOpen e) :
    t.TouchesOwned e := by
  have hpoll : ∀ i c, t.polled e = some i → t.conns[i]? = some c →
      t.pollRecv i c ≠ .error .unmapped := fun i c hpolled hi =>
    pollRecv_of_open (ht c (List.mem_of_getElem? hi)) (hopen i c hpolled hi)
  intro h
  cases e with
  | listen | peer => cases h
  | connect | poll | stop =>
    simp only [outcome] at h
    split at h <;> simp at h
  | send i buffer =>
    simp only [outcome, Option.map_eq_some_iff, map_eq_error_iff] at h
    obtain ⟨c, hi, hsend⟩ := h
    exact send_ne_unmapped (ht c (List.mem_of_getElem? hi)) buffer hsend
  | pollRecv i =>
    simp only [outcome, Option.map_eq_some_iff, map_eq_error_iff] at h
    obtain ⟨c, hi, hrecv⟩ := h
    exact hpoll i c rfl hi hrecv
  | close | pool => simp [outcome, Option.map_eq_some_iff] at h
  | pollStep =>
    simp only [outcome] at h
    split at h
    · cases h
    · rename_i i rest hpolling
      simp only [Option.map_eq_some_iff] at h
      obtain ⟨c, hi, hstep⟩ := h
      have hne := hpoll i c (by rw [polled, hpolling]; rfl) hi
      rw [pollStep] at hstep
      split at hstep
      · cases hstep
        exact hne ‹_›
      · cases hstep
      · cases hstep

/-- An event keeps to the rings it may touch exactly if it polls no closed connection. -/
theorem owned_iff (ht : ∀ c ∈ t.conns, c.Matched) :
    t.TouchesOwned e ∧ t.SilentWhenClosed e ↔ t.PollsOpen e := by
  constructor
  · rintro ⟨-, hsilent⟩ i c hpolled hi
    by_contra hc
    have hrecv := hsilent.recv i c hpolled hi hc
    rw [pollRecv_of_closed (ht c (List.mem_of_getElem? hi)) hc] at hrecv
    cases hrecv
  · intro hopen
    exact ⟨touchesOwned_of_open ht hopen, fun i buffer c _ _ hc => send_of_closed hc buffer,
      fun i c hpolled hi hc => absurd (hopen i c hpolled hi) hc⟩

end SharedMemoryTransport

open SharedMemoryTransport

/-- A connection that was closed stays closed; and rings are touched only in regions that their
connections own, and none by the calls of a closed one, exactly if `poll_recv` is not called on
closed connections. -/
theorem region_ownership_iff (pool : BufferPool) (events : List ShmTransportEvent) :
    (∀ before i after t, before ++ .close i :: after <+: events →
        run step (create pool) (before ++ .close i :: after) = some t → t.Closed i) ∧
      (Along step (fun t e => t.TouchesOwned e ∧ t.SilentWhenClosed e) (create pool) events ↔
        Along step PollsOpen (create pool) events) := by
  constructor
  · intro before i after t _ hrun
    obtain ⟨t₁, -, hafter⟩ := run_append_eq_some.1 hrun
    rw [run_cons, Option.bind_eq_some_iff] at hafter
    obtain ⟨t₂, hclose, hrest⟩ := hafter
    exact closed_run (closed_of_close hclose) hrest
  · exact Along.congr fun es e t _ ht => owned_iff (matched_run ht)

section Example

/-- The owner closes the connection, which is still in the map when the transport polls. -/
theorem closed_connection_polled : ∃ t,
    run step (create (.create {})) [.listen, .connect true true, .close 0, .poll [0]] = some t ∧
    t.Closed 0 ∧ t.outcome .pollStep = some (.error .unmapped) ∧ ¬ t.TouchesOwned .pollStep := by
  refine ⟨_, rfl, ⟨_, rfl, by decide⟩, rfl, fun h => h rfl⟩

end Example

end GossipRl
