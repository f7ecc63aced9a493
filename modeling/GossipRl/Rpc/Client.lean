import GossipRl.Rpc.TcpTransport

/-!
# The RPC client (`rpc_client.cpp`)

A future is a reference to shared state (`std::shared_ptr<State>`): `futures` holds the states,
`pendingRequests` the references by request id. `invoked` records the completion callbacks that ran
and the response each was given. Moving a response out of a state leaves its status, an
unspecified (taken as empty) message and a null payload.
-/

namespace GossipRl
open Support

/-- `RpcFuture::State`; a callback is identified by a number. -/
structure RpcFutureState where
  response : RpcResponse := {}
  callback : Option Nat := none
  completed : Bool := false
  cancelled : Bool := false

structure RpcClient where
  pendingRequests : Dict UInt64 Nat := .empty
  futures : Nat → RpcFutureState := fun _ => {}
  /-- The next reference to be allocated. -/
  nextFuture : Nat := 0
  invoked : List (Nat × RpcResponse) := []
  nextRequestId : UInt64 := 1
  connected : Bool := true

def RpcResponse.movedFrom (r : RpcResponse) : RpcResponse := { status := r.status }

namespace RpcClient

/-- The frame of a request: header and payload, as far as the buffer takes them. -/
def writeRequest (buffer : Buffer) (header : RpcHeader) (payload : List UInt8) : Buffer :=
  (buffer.write header.encode).write payload

/-- The header of a request; `call_oneway` passes the flag `ONE_WAY` and request id 0. -/
def requestHeader (requestId : UInt64) (methodId : UInt32) (payload : List UInt8)
    (flags reserved : UInt32) : RpcHeader where
  requestId := requestId
  methodId := methodId
  payloadSize := UInt32.ofNat payload.length
  flags := flags
  reserved := reserved

/-- The error message at the front of a response body, and the offset of what follows it. -/
def readError (bytes : List UInt8) : List UInt8 × Nat :=
  let offset := RpcHeader.SIZE
  if bytes.length > offset + 4 then
    let errorLen := leField bytes offset 4
    let offset := offset + 4
    if errorLen > 0 ∧ bytes.length ≥ offset + errorLen then
      ((bytes.drop offset).take errorLen, offset + errorLen)
    else ([], offset)
  else ([], offset)

/-- The rest of the frame, copied to a buffer of its own; dropped if the pool has none. -/
def readPayload (pool : BufferPool) (bytes : List UInt8) (offset : Nat) :
    Except Fault (Option Buffer × BufferPool) :=
  if bytes.length > offset then
    match pool.acquire with
    | .error f => .error f
    | .ok (none, pool) => .ok (none, pool)
    | .ok (some buffer, pool) => .ok (some (buffer.write (bytes.drop offset)), pool)
  else .ok (none, pool)

/-- Completion of a future: the state takes the response and a registered callback is given it. -/
def complete (c : RpcClient) (future : Nat) (response : RpcResponse) : RpcClient :=
  let st := c.futures future
  match st.callback with
  | none =>
    { c with
      futures := Function.update c.futures future
        { st with response := response, completed := true } }
  | some callback =>
    { c with
      futures := Function.update c.futures future
        { st with response := response.movedFrom, completed := true }
      invoked := c.invoked ++ [(callback, response)] }

/-- A new future. -/
def newFuture (c : RpcClient) (st : RpcFutureState) : Nat × RpcClient :=
  (c.nextFuture, { c with
    futures := Function.update c.futures c.nextFuture st
    nextFuture := c.nextFuture + 1 })

/-- `is_connected`, on the link's connection. -/
def isConnected (l : Link RpcClient) : Bool :=
  l.owner.connected && l.conn.state == .CONNECTED

/-- The completion callback of the request's send. -/
def onSent (requestId : UInt64) (success : Bool) (c : RpcClient) : RpcClient :=
  if success then c
  else
    match c.pendingRequests.get? requestId with
    | none => c
    | some future =>
      { c with
        futures := Function.update c.futures future
          { c.futures future with
            response := { (c.futures future).response with
              status := .INTERNAL
              errorMessage := bytesOf "Send failed" }
            completed := true }
        pendingRequests := c.pendingRequests.erase requestId }

/-- `call_async`: the future and the link after the call. -/
def callAsync (reserved : UInt32) (l : Link RpcClient) (methodId : UInt32) (payload : List UInt8) :
    Except Fault (Nat × Link RpcClient) :=
  if !isConnected l then
    let (future, c) := l.owner.newFuture
      { response := { status := .UNAVAILABLE, errorMessage := bytesOf "Not connected" }
        completed := true }
    .ok (future, { l with owner := c })
  else
    match l.pool.acquire with
    | .error f => .error f
    | .ok (none, pool) =>
      let (future, c) := l.owner.newFuture
        { response :=
            { status := .RESOURCE_EXHAUSTED, errorMessage := bytesOf "Buffer pool exhausted" }
          completed := true }
      .ok (future, { l with owner := c, pool := pool })
    | .ok (some buffer, pool) =>
      let requestId := l.owner.nextRequestId
      let buffer := writeRequest buffer (requestHeader requestId methodId payload 0 reserved) payload
      let (future, c) := l.owner.newFuture {}
      let c := { c with
        nextRequestId := requestId + 1
        pendingRequests := c.pendingRequests.set requestId future }
      let (sent, conn) := l.conn.send buffer (some requestId)
      .ok (future, ⟨if sent then c else onSent requestId false c, conn, pool⟩)

/-- `call_oneway`. -/
def callOneway (reserved : UInt32) (l : Link RpcClient) (methodId : UInt32) (payload : List UInt8) :
    Except Fault (Bool × Link RpcClient) :=
  if !isConnected l then .ok (false, l)
  else
    match l.pool.acquire with
    | .error f => .error f
    | .ok (none, pool) => .ok (false, { l with pool := pool })
    | .ok (some buffer, pool) =>
      let buffer :=
        writeRequest buffer (requestHeader 0 methodId payload RpcFlags.ONE_WAY reserved) payload
      let (sent, conn) := l.conn.send buffer none
      .ok (sent, { l with conn := conn, pool := pool })

/-- `on_disconnect`. -/
def onDisconnect (c : RpcClient) : RpcClient := { c with connected := false }

/-- The pending futures are completed in the order in which their requests were made; the source
leaves the order open. -/
def failPending (c : RpcClient) : RpcClient :=
  { c.pendingRequests.values.foldl (fun c future =>
      c.complete future
        { (c.futures future).response with
          status := .UNAVAILABLE
          errorMessage := bytesOf "Connection closed" }) c with
    pendingRequests := .empty }

/-- `disconnect`. -/
def disconnect (l : Link RpcClient) : Link RpcClient :=
  if l.owner.connected then
    ⟨failPending { l.owner with connected := false }, l.conn.close, l.pool⟩
  else l

/-- `RpcFuture::on_complete`. -/
def onComplete (c : RpcClient) (future callback : Nat) : RpcClient :=
  let st := c.futures future
  if st.completed then
    { c with
      futures := Function.update c.futures future { st with response := st.response.movedFrom }
      invoked := c.invoked ++ [(callback, st.response)] }
  else
    { c with futures := Function.update c.futures future { st with callback := some callback } }

/-- `RpcFuture::cancel`. -/
def cancel (c : RpcClient) (future : Nat) : RpcClient :=
  { c with futures := Function.update c.futures future { c.futures future with cancelled := true } }

/-- `on_message`. -/
def onMessage : MessageCallback RpcClient := fun l buffer =>
  if buffer.size < RpcHeader.SIZE then .ok l
  else
    let header := RpcHeader.decode buffer.bytes
    match l.owner.pendingRequests.get? header.requestId with
    | none => .ok l
    | some future =>
      let l := l.mapOwner fun c =>
        { c with pendingRequests := c.pendingRequests.erase header.requestId }
      let (errorMessage, offset) := readError buffer.bytes
      match readPayload l.pool buffer.bytes offset with
      | .error f => .error f
      | .ok (payload, pool) =>
        .ok { l with
          pool := pool
          owner := l.owner.complete future
            { status := .ofWire header.methodId, errorMessage := errorMessage, payload := payload } }

end RpcClient

end GossipRl
