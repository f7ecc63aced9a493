import GossipRl.Rpc.Client
import GossipRl.Rpc.Server

/-!
# One connection over time

A `Channel` is a link together with the buffers that are in the hands of the application and of the
pool's other users (other connections among them). The events are the completions of the link's
operations, the pool calls of the other users, and the operations the owner starts by itself
(`late`): completions of asynchronous handlers at a server, calls at a client. An event that is not
possible, or that runs into undefined behaviour, ends the run.
-/

namespace GossipRl
open Support

/-- The owner of a transport: its callbacks and the operations `ο` it starts by itself. -/
structure Endpoint (χ ο : Type*) where
  onMessage : MessageCallback χ
  /-- Indices of the buffers that `onMessage` passes on to the application. -/
  handed : χ → BufferPool → Buffer → List Nat
  onEnd : Int → χ → χ
  onSent : UInt64 → Bool → χ → χ
  late : ο → Link χ → Option (Except Fault (Link χ))

inductive ChannelEvent (ο : Type*) where
  | data (bs : List UInt8)
  | ended (result : Int)
  | sent (i : Nat) (result : Int)
  | pool (call : PoolCall)
  | late (op : ο)

structure Channel (χ : Type*) where
  link : Link χ
  /-- Indices of the buffers that the application and the other users of the pool have. -/
  users : List Nat

/-- The chunks that the receive completions of a run deliver. -/
def chunks {ο : Type*} (events : List (ChannelEvent ο)) : List (List UInt8) :=
  events.filterMap fun
    | .data bs => some bs
    | _ => none

theorem chunks_append {ο : Type*} (events events' : List (ChannelEvent ο)) :
    chunks (events ++ events') = chunks events ++ chunks events' :=
  List.filterMap_append

namespace Channel
variable {χ ο : Type*}

/-- A new connection with a pool of its own, its first receive armed. -/
def start (config : BufferPoolConfig) (owner : χ) : Except Fault (Channel χ) :=
  (Link.startRecv ⟨owner, {}, .create config⟩).map (⟨·, []⟩)

def step (E : Endpoint χ ο) (c : Channel χ) : ChannelEvent ο → Option (Channel χ)
  | .data bs =>
    match c.link.conn.recvBuffer with
    | none => none
    | some buffer =>
      if c.link.conn.recvPending ∧ 0 < bs.length ∧ bs.length ≤ buffer.capacity then
        match c.link.recvData (some E.onMessage) bs with
        | .error _ => none
        | .ok l => some ⟨l, c.users ++ E.handed c.link.owner c.link.pool (buffer.receive bs)⟩
      else none
  | .ended result =>
    if c.link.conn.recvPending ∧ result ≤ 0 then
      some { c with link := c.link.recvEnd (E.onEnd result) result }
    else none
  -- given to the callback that was submitted with it, as the transport counts on; the event loop
  -- gives it to what is in the operation's slot by then (`EventLoop`)
  | .sent i result => (c.link.sendCompletion E.onSent i result).map ({ c with link := · })
  | .pool call =>
    (PoolUse.step ⟨c.link.pool, c.users⟩ call).map fun u =>
      ⟨{ c.link with pool := u.pool }, u.outstanding⟩
  | .late op =>
    match E.late op c.link with
    | some (.ok l) => some { c with link := l }
    | _ => none

variable {E : Endpoint χ ο} {c c' : Channel χ}

theorem step_data_iff {bs : List UInt8} : c.step E (.data bs) = some c' ↔
    ∃ buffer l, c.link.conn.recvBuffer = some buffer ∧ c.link.conn.recvPending = true ∧
      0 < bs.length ∧ bs.length ≤ buffer.capacity ∧
      c.link.recvData (some E.onMessage) bs = .ok l ∧
      c' = ⟨l, c.users ++ E.handed c.link.owner c.link.pool (buffer.receive bs)⟩ := by
  cases hb : c.link.conn.recvBuffer with
  | none => simp [step, hb]
  | some buffer =>
    by_cases hc : c.link.conn.recvPending = true ∧ 0 < bs.length ∧ bs.length ≤ buffer.capacity
    · cases hr : c.link.recvData (some E.onMessage) bs with
      | error f => simp [step, hb, hr]
      | ok l => simp [step, hb, hr, hc, eq_comm]
    · simp only [step, hb, if_neg hc, false_iff, reduceCtorEq]
      rintro ⟨b, l, hb', h₁, h₂, h₃, -⟩
      obtain rfl := Option.some.inj hb'
      exact hc ⟨h₁, h₂, h₃⟩

theorem step_ended_iff {result : Int} : c.step E (.ended result) = some c' ↔
    (c.link.conn.recvPending = true ∧ result ≤ 0) ∧
      c' = ⟨c.link.recvEnd (E.onEnd result) result, c.users⟩ := by
  by_cases hc : c.link.conn.recvPending = true ∧ result ≤ 0
  · simp [step, hc, eq_comm]
  · simp [step, hc]

theorem step_sent_iff {i : Nat} {result : Int} : c.step E (.sent i result) = some c' ↔
    ∃ l, c.link.sendCompletion E.onSent i result = some l ∧ c' = ⟨l, c.users⟩ := by
  simp [step, eq_comm]

theorem step_pool_iff {call : PoolCall} : c.step E (.pool call) = some c' ↔
    ∃ u, PoolUse.step ⟨c.link.pool, c.users⟩ call = some u ∧
      c' = ⟨{ c.link with pool := u.pool }, u.outstanding⟩ := by
  simp [step, eq_comm]

theorem step_late_iff {op : ο} : c.step E (.late op) = some c' ↔
    ∃ l, E.late op c.link = some (.ok l) ∧ c' = ⟨l, c.users⟩ := by
  rcases hl : E.late op c.link with _ | (_ | l)
  · simp [step, hl]
  · simp [step, hl]
  · simp [step, hl, eq_comm]

end Channel

/-- A server: completions of asynchronous handlers come late. -/
def RpcServer.endpoint {σ : Type*} (reserved : RpcServer σ → UInt32) :
    Endpoint (RpcServer σ) (UInt32 × UInt64 × RpcResponse) where
  onMessage l buffer := RpcServer.onMessage (reserved l.owner) l buffer
  handed _ _ _ := []
  onEnd _ s := s
  onSent _ _ s := s
  late op l :=
    if op.2.1 ∈ l.owner.asyncCalls then some (asyncComplete op.1 l op.2.1 op.2.2) else none

inductive ClientCall where
  | async (methodId : UInt32) (payload : List UInt8)
  | oneway (methodId : UInt32) (payload : List UInt8)

/-- The payload buffer that `on_message` fills for a frame. -/
def RpcClient.payloadFor (c : RpcClient) (pool : BufferPool) (buffer : Buffer) : Option Buffer :=
  if buffer.size < RpcHeader.SIZE then none
  else
    match c.pendingRequests.get? (RpcHeader.decode buffer.bytes).requestId with
    | none => none
    | some _ =>
      match readPayload pool buffer.bytes (readError buffer.bytes).2 with
      | .ok (payload, _) => payload
      | .error _ => none

/-- A client: its calls are late. It sets no error callback. -/
def RpcClient.endpoint : Endpoint RpcClient (UInt32 × ClientCall) where
  onMessage := RpcClient.onMessage
  handed c pool buffer := (c.payloadFor pool buffer).toList.map Buffer.poolIndex
  onEnd result c := if result = 0 then c.onDisconnect else c
  onSent := RpcClient.onSent
  late op l :=
    match op.2 with
    | .async methodId payload => some ((callAsync op.1 l methodId payload).map Prod.snd)
    | .oneway methodId payload => some ((callOneway op.1 l methodId payload).map Prod.snd)

theorem RpcClient.endpoint_late_cases {l l' : Link RpcClient} {reserved : UInt32} {call : ClientCall}
    (h : endpoint.late (reserved, call) l = some (.ok l')) :
    (∃ methodId payload future, call = .async methodId payload ∧
      callAsync reserved l methodId payload = .ok (future, l')) ∨
    ∃ methodId payload sent, call = .oneway methodId payload ∧
      callOneway reserved l methodId payload = .ok (sent, l') := by
  cases call with
  | async methodId payload =>
    obtain ⟨⟨future, l₁⟩, hcall, rfl⟩ := map_eq_ok_iff.1 (Option.some.inj h)
    exact .inl ⟨methodId, payload, future, rfl, hcall⟩
  | oneway methodId payload =>
    obtain ⟨⟨sent, l₁⟩, hcall, rfl⟩ := map_eq_ok_iff.1 (Option.some.inj h)
    exact .inr ⟨methodId, payload, sent, rfl, hcall⟩

end GossipRl
