import GossipRl.Rpc.ClientSession
import GossipRl.Rpc.Listener

/-!
# Connecting a client (`rpc_client.cpp`, `tcp_transport.cpp`)

A client with all the connections its transport has made. `connect` gets the new connection as a
return value; the completion of `connect_async` looks it up by endpoint in `connections_`, which no
connection ever leaves, and installs the message callback only. `connections_` is an
`std::unordered_map`: the order in which a lookup meets its entries comes with the event.
-/

namespace GossipRl
open Support

/-- A connection, and the endpoint it was made to. -/
structure ClientConnection where
  remoteEndpoint : SocketEndpoint
  conn : TcpConnection

/-- `RpcClient` and the `TcpTransport` it owns. A reference to a connection is its index in
`made`. -/
structure TcpClient where
  client : RpcClient := { connected := false }
  pool : BufferPool
  /-- Indices of the buffers that the application and the other users of the pool have. -/
  users : List Nat := []
  remoteEndpoint : SocketEndpoint := ⟨"", 0⟩
  /-- Every connection that was made, closed or not. -/
  made : List ClientConnection := []
  connections : Dict UInt64 Nat := .empty
  nextConnectionId : UInt64 := 0
  messageCallback : Bool := false
  disconnectCallback : Bool := false
  connection : Option Nat := none
  /-- The outstanding connect operations. -/
  connecting : List SocketEndpoint := []

inductive ConnectEvent where
  /-- `connect`; `fd` is the result of `socket`, and `refused` says that `::connect` failed with
  another error than `EINPROGRESS`. -/
  | connect (endpoint : SocketEndpoint) (fd : Int) (refused : Bool)
  | connectAsync (endpoint : SocketEndpoint) (fd : Int)
  /-- The `i`-th outstanding connect operation completes; `order` is the order in which the map
  is iterated. -/
  | connectDone (i : Nat) (result : Int) (order : List (UInt64 × Nat))
  /-- A completion on a connection. -/
  | link (ref : Nat) (event : ChannelEvent SessionOp)
  | user (op : SessionOp)

/-- A `connect` that succeeds. -/
def ConnectEvent.connects : ConnectEvent → Bool
  | .connect _ fd refused => 0 ≤ fd ∧ refused = false
  | _ => false

namespace TcpClient

def start (config : BufferPoolConfig) : TcpClient := { pool := .create config }

/-- The callbacks that are installed at the transport. -/
def installed (s : TcpClient) : Endpoint RpcClient SessionOp :=
  { RpcClient.session with
    onMessage := if s.messageCallback then RpcClient.session.onMessage else fun l _ => .ok l
    onEnd := if s.disconnectCallback then RpcClient.session.onEnd else fun _ c => c }

/-- The connection of a reference; a null pointer does as little as a closed connection. -/
def connOf (s : TcpClient) (ref : Option Nat) : TcpConnection :=
  match ref.bind (s.made[·]?) with
  | some made => made.conn
  | none => { state := .CLOSED }

def channel (s : TcpClient) (ref : Option Nat) : Channel RpcClient :=
  ⟨⟨s.client, s.connOf ref, s.pool⟩, s.users⟩

def setChannel (s : TcpClient) (ref : Option Nat) (c : Channel RpcClient) : TcpClient :=
  { s with
    client := c.link.owner
    pool := c.link.pool
    users := c.users
    made := match ref with
      | none => s.made
      | some ref => s.made.modify ref fun made => { made with conn := c.link.conn } }

/-- `connections_` after one more connection. -/
def nextConnections (s : TcpClient) : Dict UInt64 Nat :=
  s.connections.set s.nextConnectionId s.made.length

/-- A new `TcpConnection` in `connections_`, its first receive armed. -/
def addConnection (endpoint : SocketEndpoint) (s : TcpClient) : Except Fault TcpClient :=
  (Link.startRecv ⟨s.client, {}, s.pool⟩).map fun l =>
    { s with
      pool := l.pool
      made := s.made ++ [⟨endpoint, l.conn⟩]
      connections := s.nextConnections
      nextConnectionId := s.nextConnectionId + 1 }

/-- The endpoint of the connection that an entry of `connections_` points to. -/
def remoteOf (s : TcpClient) (ref : Nat) : Option SocketEndpoint :=
  (s.made[ref]?).map ClientConnection.remoteEndpoint

/-- `get_connection`: the first connection to `endpoint` that the iteration meets. -/
def getConnection (endpoint : SocketEndpoint) (order : List (UInt64 × Nat)) (s : TcpClient) :
    Option Nat :=
  (order.find? fun entry => s.remoteOf entry.2 = some endpoint).map Prod.snd

/-- `RpcClient::connect`. -/
def connect (endpoint : SocketEndpoint) (fd : Int) (refused : Bool) (s : TcpClient) :
    Except Fault TcpClient :=
  if fd < 0 ∨ refused then .ok { s with connection := none }
  else
    (s.addConnection endpoint).map fun s' =>
      { s' with
        connection := some s.made.length
        remoteEndpoint := endpoint
        client := { s'.client with connected := true }
        messageCallback := true
        disconnectCallback := true }

/-- `RpcClient::connect_async`; without a socket only the caller is told. -/
def connectAsync (endpoint : SocketEndpoint) (fd : Int) (s : TcpClient) : TcpClient :=
  if fd < 0 then s else { s with connecting := s.connecting ++ [endpoint] }

/-- The completion of a connect operation, with the client's callback. -/
def connectDone (endpoint : SocketEndpoint) (result : Int) (order : List (UInt64 × Nat))
    (s : TcpClient) : Except Fault TcpClient :=
  if result < 0 then .ok s
  else
    (s.addConnection endpoint).map fun s =>
      { s with
        connection := s.getConnection endpoint order
        remoteEndpoint := endpoint
        client := { s.client with connected := true }
        messageCallback := true }

def step (s : TcpClient) : ConnectEvent → Option TcpClient
  | .connect endpoint fd refused => (s.connect endpoint fd refused).toOption
  | .connectAsync endpoint fd => some (s.connectAsync endpoint fd)
  | .connectDone i result order =>
    match s.connecting[i]? with
    | none => none
    | some endpoint =>
      if order.Perm s.nextConnections.entries then
        (connectDone endpoint result order
          { s with connecting := s.connecting.eraseIdx i }).toOption
      else none
  | .link _ (.late _) => none
  | .link ref event =>
    if ref < s.made.length then
      ((s.channel (some ref)).step s.installed event).map (s.setChannel (some ref))
    else none
  | .user op =>
    ((s.channel s.connection).step s.installed (.late op)).map fun c =>
      let s' := s.setChannel s.connection c
      match op with
      -- `connection_.reset()`
      | .disconnect => if s.client.connected then { s' with connection := none } else s'
      | _ => s'

/-- Every entry of `connections_` points to a connection that was made. -/
def EntriesMade (s : TcpClient) : Prop := ∀ entry ∈ s.connections.entries, entry.2 < s.made.length

/-- Iterating `connections_` after the next connection, `order` meets that connection before any
other to `endpoint`. -/
def MetFirst (s : TcpClient) (endpoint : SocketEndpoint) (order : List (UInt64 × Nat)) : Prop :=
  ∃ before after, order = before ++ (s.nextConnectionId, s.made.length) :: after ∧
    ∀ entry ∈ before, s.remoteOf entry.2 ≠ some endpoint

/-- `s'` is what a successful `connect` to `endpoint` makes of `s`, once the `i`-th connect
operation is no longer outstanding. -/
structure AgreesWithConnect (s s' : TcpClient) (i : Nat) (endpoint : SocketEndpoint) : Prop where
  connect : ∀ fd, 0 ≤ fd →
    step { s with connecting := s.connecting.eraseIdx i } (.connect endpoint fd false) = some s'
  connection : s'.connection = some s.made.length
  connected : s'.client.connected = true
  messageCallback : s'.messageCallback = true
  disconnectCallback : s'.disconnectCallback = true
  closes : ∀ s'', step s' (.link s.made.length (.ended 0)) = some s'' → s''.client.connected = false

variable {s s' : TcpClient} {e : ConnectEvent} {es : List ConnectEvent} {endpoint : SocketEndpoint}
  {order : List (UInt64 × Nat)} {config : BufferPoolConfig}

theorem addConnection_eq_ok (h : s.addConnection endpoint = .ok s') :
    ∃ l : Link RpcClient, s' = { s with
      pool := l.pool
      made := s.made ++ [⟨endpoint, l.conn⟩]
      connections := s.nextConnections
      nextConnectionId := s.nextConnectionId + 1 } := by
  unfold addConnection at h
  obtain ⟨l, -, rfl⟩ := map_eq_ok_iff.1 h
  exact ⟨l, rfl⟩

/-- What `connect` and `connectDone` do to the state in which the connection has been added. -/
theorem of_addConnection {setUp : TcpClient → TcpClient}
    (h : ((s.addConnection endpoint).map setUp).toOption = some s') :
    ∃ s₁, s.addConnection endpoint = .ok s₁ ∧ s' = setUp s₁ := by
  cases hadd : s.addConnection endpoint with
  | error f => simp [hadd, Except.map, Except.toOption] at h
  | ok s₁ =>
    simp only [hadd, Except.map, Except.toOption, Option.some.injEq] at h
    exact ⟨s₁, rfl, h.symm⟩

/-- What a step does to `connections_` and the disconnect callback: only the two ways of
connecting add an entry, and only a `connect` installs the callback. -/
inductive StepCases (s : TcpClient) (e : ConnectEvent) (s' : TcpClient) : Prop where
  | kept (connections : s'.connections = s.connections) (made : s'.made.length = s.made.length)
      (callback : s'.disconnectCallback = s.disconnectCallback) (connects : e.connects = false)
  | added (connections : s'.connections = s.nextConnections)
      (made : s'.made.length = s.made.length + 1)
      (callback : s'.disconnectCallback = (s.disconnectCallback || e.connects))

theorem mem_nextConnections {entry : UInt64 × Nat} (h : entry ∈ s.nextConnections.entries) :
    entry = (s.nextConnectionId, s.made.length) ∨ entry ∈ s.connections.entries := by
  obtain ⟨id, ref⟩ := entry
  have hget : s.nextConnections.get? id = some ref := Dict.get?_eq_some_iff.2 h
  rcases Dict.get?_set_eq_some_iff.1 hget with ⟨rfl, rfl⟩ | ⟨-, hold⟩
  · exact .inl rfl
  · exact .inr (Dict.get?_eq_some_iff.1 hold)

theorem length_made_setChannel (ref : Option Nat) (c : Channel RpcClient) :
    (s.setChannel ref c).made.length = s.made.length := by
  cases ref <;> simp [setChannel]

theorem step_link {ref : Nat} {event : ChannelEvent SessionOp}
    (h : step s (.link ref event) = some s') :
    ∃ c, (s.channel (some ref)).step s.installed event = some c ∧
      s' = s.setChannel (some ref) c := by
  cases event
  case late => cases h
  all_goals
    simp only [step, Option.ite_none_right_eq_some, Option.map_eq_some_iff] at h
    obtain ⟨-, c, hc, rfl⟩ := h
    exact ⟨c, hc, rfl⟩

theorem step_user {op : SessionOp} (h : step s (.user op) = some s') :
    ∃ c connection, s' = { s.setChannel s.connection c with connection := connection } := by
  obtain ⟨c, -, rfl⟩ := Option.map_eq_some_iff.1 h
  cases op
  case disconnect =>
    dsimp only
    split
    · exact ⟨c, none, rfl⟩
    · exact ⟨c, s.connection, rfl⟩
  all_goals exact ⟨c, s.connection, rfl⟩

theorem step_cases (h : step s e = some s') : StepCases s e s' := by
  cases e with
  | connect endpoint fd refused =>
    simp only [step, connect] at h
    split at h
    · rename_i hfail
      obtain rfl := Option.some.inj h
      refine .kept rfl rfl rfl ?_
      rcases hfail with hfd | href
      · simp [ConnectEvent.connects, hfd]
      · simp [ConnectEvent.connects, href]
    · rename_i hok
      obtain ⟨s₁, hadd, rfl⟩ := of_addConnection h
      obtain ⟨l, rfl⟩ := addConnection_eq_ok hadd
      have hconn : (ConnectEvent.connect endpoint fd refused).connects = true := by
        simp only [not_or, not_lt, Bool.not_eq_true] at hok
        simp [ConnectEvent.connects, hok]
      exact .added rfl (by simp) (by simp [hconn])
  | connectAsync endpoint fd =>
    obtain rfl := Option.some.inj h
    unfold connectAsync
    split <;> exact .kept rfl rfl rfl rfl
  | connectDone i result order =>
    simp only [step] at h
    split at h
    · cases h
    · rename_i endpoint hop
      split at h
      · simp only [connectDone] at h
        split at h
        · obtain rfl := Option.some.inj h
          exact .kept rfl rfl rfl rfl
        · obtain ⟨s₁, hadd, rfl⟩ := of_addConnection h
          obtain ⟨l, rfl⟩ := addConnection_eq_ok hadd
          exact .added rfl (by simp) (by simp [ConnectEvent.connects])
      · cases h
  | link ref event =>
    obtain ⟨c, -, rfl⟩ := step_link h
    exact .kept rfl (length_made_setChannel ..) rfl rfl
  | user op =>
    obtain ⟨c, connection, rfl⟩ := step_user h
    exact .kept rfl (length_made_setChannel ..) rfl rfl

theorem EntriesMade.of_step (hs : s.EntriesMade) (h : step s e = some s') :
    s'.EntriesMade := by
  intro entry hentry
  rcases step_cases h with ⟨hconn, hmade, -, -⟩ | ⟨hconn, hmade, -⟩
  · rw [hmade]
    exact hs entry (hconn ▸ hentry)
  · rw [hconn] at hentry
    rw [hmade]
    rcases mem_nextConnections hentry with rfl | hold
    · exact Nat.lt_succ_self _
    · exact Nat.lt_succ_of_lt (hs entry hold)

theorem disconnectCallback_of_run (h : run step (start config) es = some s) :
    s.disconnectCallback = true ↔ ∃ e ∈ es, e.connects = true := by
  refine run_induction (C := fun _ _ => True)
    (motive := fun es s => s.disconnectCallback = true ↔ ∃ e ∈ es, e.connects = true)
    (by simp [start]) (fun es s e s' _ ih _ hstep => ?_) .unconditional h
  rcases step_cases hstep with ⟨-, -, hcb, hconn⟩ | ⟨-, -, hcb⟩
  · rw [hcb, ih]
    simp [or_and_right, exists_or, hconn]
  · rw [hcb, Bool.or_eq_true, ih]
    simp [or_and_right, exists_or]

theorem EntriesMade.of_run (h : run step (start config) es = some s) : s.EntriesMade :=
  run_invariant (P := EntriesMade) (fun _ hentry => by simp [start, Dict.empty] at hentry)
    (fun _ _ _ => EntriesMade.of_step) h

theorem installed_of_disconnectCallback (hcb : s.disconnectCallback = true) :
    s.installed.onEnd = RpcClient.session.onEnd := by simp [installed, hcb]

/-- With the disconnect callback installed, the end of a connection's stream clears `connected_`. -/
theorem closed_by_peer {ref : Nat} (hcb : s.disconnectCallback = true)
    (h : step s (.link ref (.ended 0)) = some s') : s'.client.connected = false := by
  obtain ⟨c, hc, rfl⟩ := step_link h
  obtain ⟨-, rfl⟩ := Channel.step_ended_iff.1 hc
  simp only [setChannel, Link.recvEnd, Link.mapOwner, installed_of_disconnectCallback hcb]
  rfl

/-- The lookup finds the new connection if and only if the iteration meets it first. -/
theorem getConnection_eq_new_iff (hs : s.EntriesMade)
    (horder : order.Perm s.nextConnections.entries)
    (hremote : s'.remoteOf s.made.length = some endpoint)
    (hold : ∀ ref < s.made.length, s'.remoteOf ref = s.remoteOf ref) :
    s'.getConnection endpoint order = some s.made.length ↔ s.MetFirst endpoint order := by
  have hnodup : order.Nodup := horder.nodup_iff.2 (s.nextConnections.nodup.of_map _)
  have hlt : ∀ before after, order = before ++ (s.nextConnectionId, s.made.length) :: after →
      ∀ entry ∈ before, entry.2 < s.made.length := by
    rintro before after rfl entry hentry
    rcases mem_nextConnections (horder.mem_iff.1 (List.mem_append_left _ hentry)) with rfl | hold
    · exact absurd rfl ((List.nodup_append.1 hnodup).2.2 _ hentry _ (List.mem_cons_self ..))
    · exact hs entry hold
  constructor
  · intro h
    obtain ⟨entry, hfind, href⟩ := Option.map_eq_some_iff.1 h
    obtain ⟨-, before, after, heq, hbefore⟩ := List.find?_eq_some_iff_append.1 hfind
    have hentry : entry ∈ s.nextConnections.entries := horder.mem_iff.1 (by simp [heq])
    obtain rfl : entry = (s.nextConnectionId, s.made.length) := by
      rcases mem_nextConnections hentry with hnew | hmem
      · exact hnew
      · have := hs entry hmem
        omega
    refine ⟨before, after, heq, fun e he hendpoint => ?_⟩
    simpa [hold e.2 (hlt before after heq e he), hendpoint] using hbefore e he
  · rintro ⟨before, after, heq, hbefore⟩
    refine Option.map_eq_some_iff.2 ⟨_, List.find?_eq_some_iff_append.2
      ⟨by simpa using hremote, before, after, heq, fun e he => ?_⟩, rfl⟩
    simpa [hold e.2 (hlt before after heq e he)] using hbefore e he

/-- A successful `connect_async` does what a successful `connect` does exactly when some `connect`
has succeeded before and the lookup by endpoint meets the new connection first. -/
theorem agreesWithConnect_iff {i : Nat} {result : Int} (hrun : run step (start config) es = some s)
    (hop : s.connecting[i]? = some endpoint) (hresult : 0 ≤ result)
    (hstep : step s (.connectDone i result order) = some s') :
    s.AgreesWithConnect s' i endpoint ↔
      (∃ e ∈ es, e.connects = true) ∧ s.MetFirst endpoint order := by
  rw [← disconnectCallback_of_run hrun]
  simp only [step, hop, Option.ite_none_right_eq_some] at hstep
  obtain ⟨horder, hdone⟩ := hstep
  rw [connectDone, if_neg (not_lt.2 hresult)] at hdone
  obtain ⟨s₁, hadd, hdone⟩ := of_addConnection hdone
  obtain ⟨l, hs₁⟩ := addConnection_eq_ok hadd
  have hfound : s₁.getConnection endpoint order = some s.made.length ↔
      s.MetFirst endpoint order := by
    refine getConnection_eq_new_iff (.of_run hrun) horder ?_ fun ref href => ?_
    · simp [hs₁, remoteOf]
    · simp [hs₁, remoteOf, List.getElem?_append_left href]
  have hcb : s'.disconnectCallback = s.disconnectCallback := by simp [hdone, hs₁]
  constructor
  · intro h
    have hconnection := h.connection
    rw [hdone] at hconnection
    exact ⟨hcb ▸ h.disconnectCallback, hfound.1 hconnection⟩
  · rintro ⟨hinstalled, hmet⟩
    have hconnection : s₁.getConnection endpoint order = some s.made.length := hfound.2 hmet
    refine ⟨fun fd hfd => ?_, by rw [hdone]; exact hconnection, by simp [hdone],
      by simp [hdone], hcb.trans hinstalled, fun s'' => closed_by_peer (hcb.trans hinstalled)⟩
    have hinstalled₁ : s₁.disconnectCallback = true := by rw [hs₁]; exact hinstalled
    simp only [step, connect, hadd, Except.map, Except.toOption, hdone, hconnection]
    simp [not_lt.2 hfd, hinstalled₁]

/-- A peer. -/
def node : SocketEndpoint := ⟨"10.0.0.2", 9000⟩

theorem agreesWithConnect_iff_again : ∃ s s',
    run step (start .few) [.connect node 0 false, .connectAsync node 1] = some s ∧
    step s (.connectDone 0 0 [(1, 1), (0, 0)]) = some s' ∧ s.AgreesWithConnect s' 0 node := by
  obtain ⟨s, hrun⟩ : ∃ s, run step (start .few) [.connect node 0 false, .connectAsync node 1] =
    some s := ⟨_, rfl⟩
  have hop : s.connecting[0]? = some node := by obtain rfl := Option.some.inj hrun; rfl
  have hids : s.nextConnectionId = 1 ∧ s.made.length = 1 := by
    obtain rfl := Option.some.inj hrun
    exact ⟨rfl, rfl⟩
  obtain ⟨s', hstep⟩ : ∃ s', step s (.connectDone 0 0 [(1, 1), (0, 0)]) = some s' := by
    obtain rfl := Option.some.inj hrun
    exact ⟨_, rfl⟩
  refine ⟨s, s', hrun, hstep, (agreesWithConnect_iff hrun hop le_rfl hstep).2 ⟨?_, ?_⟩⟩
  · exact ⟨_, List.mem_cons_self .., by decide⟩
  · exact ⟨[], [(0, 0)], by rw [hids.1, hids.2]; rfl, by simp⟩

/-- A client that only ever used `connect_async` stays connected when the peer closes the
connection; a client that connects again to an endpoint gets the closed connection back. -/
theorem connect_async_differs :
    (∃ s s' s'', run step (start .few) [.connectAsync node 0] = some s ∧
      step s (.connectDone 0 0 [(0, 0)]) = some s' ∧ s'.disconnectCallback = false ∧
      step s' (.link 0 (.ended 0)) = some s'' ∧ s''.client.connected = true ∧
      ¬ s.AgreesWithConnect s' 0 node) ∧
    ∃ s s', run step (start .few)
        [.connect node 0 false, .link 0 (.ended 0), .connectAsync node 1] = some s ∧
      step s (.connectDone 0 0 [(0, 0), (1, 1)]) = some s' ∧ s'.connection = some 0 ∧
      (s'.connOf s'.connection).state = .CLOSED ∧ ¬ s.AgreesWithConnect s' 0 node := by
  constructor
  · refine ⟨_, _, _, rfl, rfl, rfl, rfl, rfl, fun h => ?_⟩
    cases h.disconnectCallback
  · refine ⟨_, _, rfl, rfl, rfl, rfl, fun h => ?_⟩
    cases h.connection

end TcpClient

end GossipRl
