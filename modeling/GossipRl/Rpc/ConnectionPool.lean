import GossipRl.Rpc.Listener
import GossipRl.Support.Run

/-!
# The connection pool of clients (`rpc_client.cpp`)

`get_client` hands out a connected client of the endpoint's pool, or makes one if the pool has room.
A client whose connection is lost keeps its place: only `health_check_loop`, a thread that runs if
the configuration asks for it, takes it out. So a pool has at most one connected client, and it
serves as long as fewer than `max_connections_per_endpoint` of its clients are lost.
-/

namespace GossipRl
open Support

/-- `Endpoint::to_string`. -/
def SocketEndpoint.toKey (e : SocketEndpoint) : String := e.host ++ ":" ++ toString e.port.toNat

/-- What `is_connected` reads of a client; `connection` is null or the state of the connection. -/
structure PooledClient where
  connected : Bool := false
  connection : Option ConnectionState := none
deriving DecidableEq, Repr

namespace PooledClient

def isConnected (c : PooledClient) : Bool := c.connected && c.connection == some .CONNECTED

/-- `connect`, which succeeds if the endpoint can be reached. -/
def connect (reachable : Bool) (c : PooledClient) : Bool × PooledClient :=
  if reachable then (true, { c with connected := true, connection := some .CONNECTED })
  else (false, { c with connection := none })

/-- The transport closes the connection and calls `on_disconnect`. -/
def onDisconnect (c : PooledClient) : PooledClient :=
  { connected := false, connection := c.connection.map fun _ => .CLOSED }

def disconnect (c : PooledClient) : PooledClient :=
  if c.connected then { connected := false, connection := none } else c

end PooledClient

structure RpcConnectionPoolConfig where
  maxConnectionsPerEndpoint : Nat := 4
  enableHealthCheck : Bool := true
deriving DecidableEq, Repr

structure RpcConnectionPool where
  config : RpcConnectionPoolConfig
  pools : Dict String (List Nat) := .empty
  /-- Every client that was handed out; the pools have references to them. -/
  clients : List PooledClient := []

inductive ConnectionPoolEvent where
  /-- `reachable` says whether connecting would succeed. -/
  | getClient (endpoint : SocketEndpoint) (reachable : Bool)
  | release (client : Nat)
  | closeEndpoint (endpoint : SocketEndpoint)
  | closeAll
  /-- The remote side of a client's connection goes away. -/
  | disconnected (client : Nat)
  /-- A round of `health_check_loop`. -/
  | healthCheck
deriving DecidableEq, Repr

namespace RpcConnectionPool

def isConnected (p : RpcConnectionPool) (client : Nat) : Bool :=
  match p.clients[client]? with
  | some c => c.isConnected
  | none => false

/-- `pools_[key]`. -/
def poolOf (p : RpcConnectionPool) (key : String) : List Nat := (p.pools.get? key).getD []

def setPool (key : String) (pool : List Nat) (p : RpcConnectionPool) : RpcConnectionPool :=
  { p with pools := p.pools.set key pool }

def addClient (client : PooledClient) (p : RpcConnectionPool) : RpcConnectionPool :=
  { p with clients := p.clients ++ [client] }

def getClient (endpoint : SocketEndpoint) (reachable : Bool) (p : RpcConnectionPool) :
    Option Nat × RpcConnectionPool :=
  let key := endpoint.toKey
  let pool := p.poolOf key
  let p := p.setPool key pool
  match pool.find? p.isConnected with
  | some client => (some client, p)
  | none =>
    if pool.length < p.config.maxConnectionsPerEndpoint then
      let (success, client) := PooledClient.connect reachable {}
      if success then
        (some p.clients.length,
          (p.addClient client).setPool key (pool ++ [p.clients.length]))
      else (none, p)
    else (none, p)

/-- `disconnect` on the clients of a pool. -/
def disconnectAll (pool : List Nat) (p : RpcConnectionPool) : RpcConnectionPool :=
  { p with clients := pool.foldl (fun cs client => cs.modify client (·.disconnect)) p.clients }

def closeEndpoint (endpoint : SocketEndpoint) (p : RpcConnectionPool) : RpcConnectionPool :=
  match p.pools.get? endpoint.toKey with
  | none => p
  | some pool => { p.disconnectAll pool with pools := p.pools.erase endpoint.toKey }

def closeAll (p : RpcConnectionPool) : RpcConnectionPool :=
  { p.disconnectAll p.pools.values.flatten with pools := .empty }

def healthCheck (p : RpcConnectionPool) : RpcConnectionPool :=
  { p with pools := p.pools.mapValues fun pool => pool.filter p.isConnected }

def step (p : RpcConnectionPool) : ConnectionPoolEvent → Option RpcConnectionPool
  | .getClient endpoint reachable => some (p.getClient endpoint reachable).2
  | .release _ => some p
  | .closeEndpoint endpoint => some (p.closeEndpoint endpoint)
  | .closeAll => some p.closeAll
  | .disconnected client => some { p with clients := p.clients.modify client (·.onDisconnect) }
  | .healthCheck => if p.config.enableHealthCheck then some p.healthCheck else none

/-- `get_client` returns a connected client if connecting would succeed. -/
def Serves (p : RpcConnectionPool) : ConnectionPoolEvent → Prop
  | .getClient endpoint reachable => reachable = true →
    ∃ client p', p.getClient endpoint reachable = (some client, p') ∧ p'.isConnected client = true
  | _ => True

/-- The clients of an endpoint's pool whose connection is lost. -/
def lost (p : RpcConnectionPool) (endpoint : SocketEndpoint) : List Nat :=
  (p.poolOf endpoint.toKey).filter (!p.isConnected ·)

/-- The lost clients leave room when connecting would succeed. -/
def HasRoom (p : RpcConnectionPool) : ConnectionPoolEvent → Prop
  | .getClient endpoint reachable => reachable = true →
    (p.lost endpoint).length < p.config.maxConnectionsPerEndpoint
  | _ => True

/-- What holds of each pool. -/
structure PoolOk (config : RpcConnectionPoolConfig) (p : RpcConnectionPool) (pool : List Nat) :
    Prop where
  made : ∀ client ∈ pool, client < p.clients.length
  bound : pool.length ≤ config.maxConnectionsPerEndpoint
  oneConnected : (pool.filter p.isConnected).length ≤ 1

structure Inv (config : RpcConnectionPoolConfig) (p : RpcConnectionPool) : Prop where
  config_eq : p.config = config
  pools : ∀ key pool, p.pools.get? key = some pool → PoolOk config p pool

variable {config : RpcConnectionPoolConfig} {p p' : RpcConnectionPool} {pool : List Nat}
  {endpoint : SocketEndpoint} {e : ConnectionPoolEvent}

theorem PoolOk.nil : PoolOk config p [] := ⟨by simp, Nat.zero_le _, Nat.zero_le _⟩

theorem Inv.poolOf (h : p.Inv config) (key : String) : PoolOk config p (p.poolOf key) := by
  rw [RpcConnectionPool.poolOf]
  cases hget : p.pools.get? key with
  | none => exact .nil
  | some pool => exact h.pools key pool hget

theorem PoolOk.of_fewer (h : PoolOk config p pool) (hmade : p.clients.length ≤ p'.clients.length)
    (hfewer : ∀ client ∈ pool, p'.isConnected client = true → p.isConnected client = true) :
    PoolOk config p' pool := by
  refine ⟨fun client hc => (h.made client hc).trans_le hmade, h.bound, le_trans ?_ h.oneConnected⟩
  rw [← List.countP_eq_length_filter, ← List.countP_eq_length_filter]
  exact List.countP_mono_left hfewer

theorem PoolOk.filter (h : PoolOk config p pool) (f : Nat → Bool) :
    PoolOk config p (pool.filter f) where
  made := fun client hc => h.made client (List.mem_of_mem_filter hc)
  bound := (List.length_filter_le ..).trans h.bound
  oneConnected := (List.filter_sublist.filter _).length_le.trans h.oneConnected

/-- Only the connections of the clients differ, and none of the others comes back. -/
theorem Inv.of_fewer (h : p.Inv config) (hconfig : p'.config = p.config)
    (hpools : ∀ key pool, p'.pools.get? key = some pool → p.pools.get? key = some pool)
    (hmade : p.clients.length ≤ p'.clients.length)
    (hfewer : ∀ client, p'.isConnected client = true → p.isConnected client = true) :
    p'.Inv config :=
  ⟨hconfig.trans h.config_eq, fun key pool hget =>
    (h.pools key pool (hpools key pool hget)).of_fewer hmade fun client _ => hfewer client⟩

/-! ### What happens to the clients -/

theorem isConnected_modify {f : PooledClient → PooledClient}
    (hf : ∀ c, (f c).isConnected = true → c.isConnected = true) (clients : List PooledClient)
    (i client : Nat)
    (h : isConnected { p with clients := clients.modify i f } client = true) :
    isConnected { p with clients := clients } client = true := by
  simp only [isConnected, List.getElem?_modify] at h ⊢
  by_cases hi : i = client
  · cases hget : clients[client]? with
    | none => simp [hi, hget] at h
    | some c =>
      simp only [hi, hget, if_true] at h
      exact hf c h
  · simpa [hi] using h

theorem isConnected_onDisconnect (c : PooledClient) : c.onDisconnect.isConnected = false := by
  simp [PooledClient.onDisconnect, PooledClient.isConnected]

theorem isConnected_disconnect (c : PooledClient) : c.disconnect.isConnected = false := by
  rw [PooledClient.disconnect]
  split
  · simp [PooledClient.isConnected]
  · rename_i hc
    simp [PooledClient.isConnected, hc]

theorem disconnectAll_spec (pool : List Nat) (clients : List PooledClient) :
    let clients' := pool.foldl (fun cs client => cs.modify client (·.disconnect)) clients
    clients'.length = clients.length ∧ ∀ client,
      isConnected { p with clients := clients' } client = true →
        isConnected { p with clients := clients } client = true := by
  induction pool generalizing clients with
  | nil => exact ⟨rfl, fun _ h => h⟩
  | cons i pool ih =>
    obtain ⟨hlen, hfewer⟩ := ih (clients.modify i (·.disconnect))
    refine ⟨by rw [List.foldl_cons, hlen, List.length_modify], fun client hc => ?_⟩
    refine isConnected_modify (fun c hc => ?_) clients i client (hfewer client hc)
    rw [isConnected_disconnect] at hc
    cases hc

theorem isConnected_addClient {client : Nat} (h : client < p.clients.length) (c : PooledClient) :
    (p.addClient c).isConnected client = p.isConnected client := by
  simp only [isConnected, addClient, List.getElem?_append_left h]

/-- What `get_client` does once it has made sure that there is a pool for the endpoint. -/
inductive GetClientCases (p : RpcConnectionPool) (key : String) (reachable : Bool) :
    Option Nat × RpcConnectionPool → Prop
  | found (client : Nat) (mem : client ∈ p.poolOf key) (connected : p.isConnected client = true) :
      GetClientCases p key reachable (some client, p.setPool key (p.poolOf key))
  | made (lost : ∀ client ∈ p.poolOf key, p.isConnected client = false)
      (room : (p.poolOf key).length < p.config.maxConnectionsPerEndpoint)
      (reached : reachable = true) :
      GetClientCases p key reachable
        (some p.clients.length,
          ((p.setPool key (p.poolOf key)).addClient ⟨true, some .CONNECTED⟩).setPool key
            (p.poolOf key ++ [p.clients.length]))
  | refused (lost : ∀ client ∈ p.poolOf key, p.isConnected client = false)
      (refused : p.config.maxConnectionsPerEndpoint ≤ (p.poolOf key).length ∨ reachable = false) :
      GetClientCases p key reachable (none, p.setPool key (p.poolOf key))

theorem getClient_cases (p : RpcConnectionPool) (endpoint : SocketEndpoint) (reachable : Bool) :
    GetClientCases p endpoint.toKey reachable (p.getClient endpoint reachable) := by
  rw [getClient]
  dsimp only
  split
  · rename_i client hfind
    exact .found client (List.mem_of_find?_eq_some hfind) (List.find?_some hfind)
  · rename_i hfind
    have hlost : ∀ client ∈ p.poolOf endpoint.toKey, p.isConnected client = false := by
      intro client hc
      exact Bool.eq_false_of_not_eq_true (List.find?_eq_none.1 hfind client hc)
    split
    · rename_i hroom
      cases reachable with
      | true => exact .made hlost hroom rfl
      | false => exact .refused hlost (.inr rfl)
    · rename_i hfull
      exact .refused hlost (.inl (Nat.le_of_not_lt hfull))

/-! ### The invariant -/

theorem Inv.start (config : RpcConnectionPoolConfig) : Inv config { config := config } := by
  refine ⟨rfl, ?_⟩
  intro key pool hget
  cases hget

theorem Inv.setPool (h : p.Inv config) (key : String) (hpool : PoolOk config p pool) :
    (p.setPool key pool).Inv config := by
  refine ⟨h.config_eq, fun key' pool' hget => ?_⟩
  rcases Dict.get?_set_eq_some_iff.1 hget with ⟨-, rfl⟩ | ⟨-, hget⟩
  · exact hpool.of_fewer le_rfl fun _ _ hc => hc
  · exact (h.pools key' pool' hget).of_fewer le_rfl fun _ _ hc => hc

theorem Inv.addClient (h : p.Inv config) (c : PooledClient) : (p.addClient c).Inv config := by
  refine ⟨h.config_eq, fun key pool hget => ?_⟩
  have hpool := h.pools key pool hget
  refine hpool.of_fewer (by simp [RpcConnectionPool.addClient]) fun client hc hconnected => ?_
  rwa [isConnected_addClient (hpool.made client hc)] at hconnected

theorem PoolOk.concat (h : PoolOk config p pool) (c : PooledClient)
    (hlost : ∀ client ∈ pool, p.isConnected client = false)
    (hroom : pool.length < config.maxConnectionsPerEndpoint) :
    PoolOk config (p.addClient c) (pool ++ [p.clients.length]) where
  made := by
    intro client hc
    rw [addClient, List.length_append, List.length_singleton]
    rcases List.mem_append.1 hc with hc | hc
    · have := h.made client hc
      omega
    · have := List.mem_singleton.1 hc
      omega
  bound := by
    rw [List.length_append, List.length_singleton]
    exact hroom
  oneConnected := by
    have hold : pool.filter (p.addClient c).isConnected = [] := by
      refine List.filter_eq_nil_iff.2 fun client hc => ?_
      rw [isConnected_addClient (h.made client hc), hlost client hc]
      exact Bool.false_ne_true
    rw [List.filter_append, hold]
    exact List.length_filter_le _ [_]

theorem Inv.getClient (h : p.Inv config) (endpoint : SocketEndpoint) (reachable : Bool) :
    (p.getClient endpoint reachable).2.Inv config := by
  have hpool := h.poolOf endpoint.toKey
  have hset := h.setPool endpoint.toKey hpool
  generalize hres : p.getClient endpoint reachable = res
  have hcases := hres ▸ p.getClient_cases endpoint reachable
  cases hcases with
  | found client hmem hconnected => exact hset
  | refused hlost hrefused => exact hset
  | made hlost hroom hreached =>
    rw [h.config_eq] at hroom
    refine (hset.addClient _).setPool _ ?_
    exact (hpool.concat _ hlost hroom).of_fewer le_rfl fun _ _ hc => hc

theorem Inv.step (h : p.Inv config) (hs : p.step e = some p') : p'.Inv config := by
  cases e with
  | getClient endpoint reachable => exact Option.some.inj hs ▸ h.getClient endpoint reachable
  | release client => exact Option.some.inj hs ▸ h
  | closeEndpoint endpoint =>
    obtain rfl := Option.some.inj hs
    rw [closeEndpoint]
    split
    · exact h
    · rename_i pool hpool
      obtain ⟨hlen, hfewer⟩ := disconnectAll_spec (p := p) pool p.clients
      refine h.of_fewer rfl (fun key pool hget => ?_) hlen.ge hfewer
      exact (Dict.get?_erase_eq_some_iff.1 hget).2
  | closeAll =>
    obtain rfl := Option.some.inj hs
    obtain ⟨hlen, hfewer⟩ := disconnectAll_spec (p := p) p.pools.values.flatten p.clients
    exact h.of_fewer rfl (fun key pool hget => by cases hget) hlen.ge hfewer
  | disconnected client =>
    obtain rfl := Option.some.inj hs
    refine h.of_fewer rfl (fun _ _ hget => hget) (by simp) fun other hother => ?_
    refine isConnected_modify (fun c hc => ?_) p.clients client other hother
    rw [isConnected_onDisconnect] at hc
    cases hc
  | healthCheck =>
    simp only [RpcConnectionPool.step] at hs
    split at hs
    · obtain rfl := Option.some.inj hs
      refine ⟨h.config_eq, fun key pool hget => ?_⟩
      rw [healthCheck, Dict.get?_mapValues, Option.map_eq_some_iff] at hget
      obtain ⟨pool, hget, rfl⟩ := hget
      have hpool := (h.pools key pool hget).filter p.isConnected
      exact ⟨hpool.made, hpool.bound, hpool.oneConnected⟩
    · cases hs

theorem Inv.run {events : List ConnectionPoolEvent}
    (h : run RpcConnectionPool.step { config := config } events = some p) : p.Inv config :=
  run_invariant (.start config) (fun _ _ _ hp hs => hp.step hs) h

theorem Inv.serves_iff (h : p.Inv config) (e : ConnectionPoolEvent) : p.Serves e ↔ p.HasRoom e := by
  cases e with
  | getClient endpoint reachable =>
    have hbound := (h.poolOf endpoint.toKey).bound
    rw [← h.config_eq] at hbound
    refine imp_congr_right fun hreachable => ?_
    generalize hres : p.getClient endpoint reachable = res
    have hcases := hres ▸ p.getClient_cases endpoint reachable
    cases hcases with
    | found client hmem hconnected =>
      refine ⟨fun _ => lt_of_lt_of_le ?_ hbound, fun _ => ⟨client, _, rfl, hconnected⟩⟩
      -- the client that was found is not among the lost
      refine List.length_filter_lt_length_iff_exists.2 ⟨client, hmem, ?_⟩
      simp [hconnected]
    | made hlost hroom hreached =>
      refine ⟨fun _ => (List.length_filter_le ..).trans_lt hroom, fun _ => ?_⟩
      refine ⟨_, _, rfl, ?_⟩
      simp [isConnected, RpcConnectionPool.setPool, RpcConnectionPool.addClient,
        PooledClient.isConnected]
    | refused hlost hrefused =>
      have hall : p.lost endpoint = p.poolOf endpoint.toKey :=
        List.filter_eq_self.2 fun client hc => by simp [hlost client hc]
      rw [hall]
      constructor
      · rintro ⟨client, p', heq, -⟩
        cases heq
      · intro hlt
        rcases hrefused with hfull | hunreachable
        · omega
        · simp [hreachable] at hunreachable
  | release | closeEndpoint | closeAll | disconnected | healthCheck => exact Iff.rfl

end RpcConnectionPool

open RpcConnectionPool

/-- In every history the pools keep to their bound, and `get_client` serves whenever connecting would
succeed exactly if fewer of the pool's clients are lost then than it may have. -/
theorem connection_pool_serves_iff (config : RpcConnectionPoolConfig)
    (events : List ConnectionPoolEvent) :
    (∀ es p, es <+: events → run step { config := config } es = some p →
        ∀ key pool, p.pools.get? key = some pool →
          pool.length ≤ config.maxConnectionsPerEndpoint) ∧
      (Along step Serves { config := config } events ↔
        Along step HasRoom { config := config } events) := by
  refine ⟨fun es p _ hp key pool hget => ((Inv.run hp).pools key pool hget).bound, ?_⟩
  exact Along.congr fun es e p _ hp => (Inv.run hp).serves_iff e

/-- Without health checks a pool of one client that lost its connection never serves again. -/
theorem lost_client_keeps_place : ∃ p,
    let config : RpcConnectionPoolConfig :=
      { maxConnectionsPerEndpoint := 1, enableHealthCheck := false }
    let endpoint : SocketEndpoint := ⟨"a", 1⟩
    run step { config := config } [.getClient endpoint true, .disconnected 0] = some p ∧
    (p.getClient endpoint true).1 = none ∧ ¬ p.Serves (.getClient endpoint true) := by
  obtain ⟨p, hp, hnone⟩ : ∃ p,
      run step { config := { maxConnectionsPerEndpoint := 1, enableHealthCheck := false } }
        [.getClient ⟨"a", 1⟩ true, .disconnected 0] = some p ∧
      (p.getClient ⟨"a", 1⟩ true).1 = none := ⟨_, rfl, by decide⟩
  refine ⟨p, hp, hnone, fun h => ?_⟩
  obtain ⟨client, p', heq, -⟩ := h rfl
  rw [heq] at hnone
  cases hnone

end GossipRl
