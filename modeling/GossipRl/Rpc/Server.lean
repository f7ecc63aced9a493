import GossipRl.Rpc.TcpTransport

/-!
# The RPC server (`rpc_server.cpp`)

The handlers are application code: a method's handler is any function of the request and of the
application's state `σ`. An asynchronous handler is given a completion closure, which the
application may call later (`asyncComplete`); `asyncCalls` are the closures it still holds. The
field `reserved` of a response header is never initialised, so its value is a parameter.
-/

namespace GossipRl
open Support

abbrev RpcHandler (σ : Type*) := RpcContext → List UInt8 → σ → RpcResponse × σ

abbrev AsyncRpcHandler (σ : Type*) := RpcContext → List UInt8 → σ → σ

structure RpcMethod (σ : Type*) where
  id : UInt32
  handler : Option (RpcHandler σ)
  asyncHandler : Option (AsyncRpcHandler σ)
  isAsync : Bool := false

structure RpcServerStats where
  totalRequests : UInt64 := 0
  successfulRequests : UInt64 := 0
  failedRequests : UInt64 := 0
  activeRequests : UInt64 := 0
  totalBytesReceived : UInt64 := 0
  totalBytesSent : UInt64 := 0
deriving DecidableEq, Repr

namespace RpcServerStats

def received (st : RpcServerStats) (n : Nat) : RpcServerStats :=
  { st with
    totalRequests := st.totalRequests + 1
    activeRequests := st.activeRequests + 1
    totalBytesReceived := st.totalBytesReceived + UInt64.ofNat n }

/-- A request is over. -/
def finished (st : RpcServerStats) (ok : Bool) : RpcServerStats :=
  let st := { st with activeRequests := st.activeRequests - 1 }
  if ok then { st with successfulRequests := st.successfulRequests + 1 }
  else { st with failedRequests := st.failedRequests + 1 }

end RpcServerStats

structure RpcServer (σ : Type*) where
  methodLookup : Dict UInt32 (RpcMethod σ)
  stats : RpcServerStats := {}
  /-- State of the application behind the handlers. -/
  app : σ
  /-- Request ids of the completions asynchronous handlers still hold. -/
  asyncCalls : List UInt64 := []

namespace RpcServer
variable {σ : Type*}

def mapStats (f : RpcServerStats → RpcServerStats) (s : RpcServer σ) : RpcServer σ :=
  { s with stats := f s.stats }

/-- The header of a response; the status travels in `method_id`. -/
def responseHeader (requestId : UInt64) (response : RpcResponse) (reserved : UInt32) : RpcHeader where
  requestId := requestId
  methodId := response.status.toWire
  payloadSize := UInt32.ofNat response.payloadBytes.length
  flags := 0
  reserved := reserved

/-- The writes of `send_response`: header, length-prefixed error message, payload. -/
def writeResponse (buffer : Buffer) (requestId : UInt64) (response : RpcResponse)
    (reserved : UInt32) : Buffer :=
  let buffer := buffer.write (responseHeader requestId response reserved).encode
  let buffer :=
    if response.errorMessage ≠ [] then
      (buffer.write (leEncode 4 response.errorMessage.length)).write response.errorMessage
    else
      buffer.write (leEncode 4 0)
  match response.payload with
  | none => buffer
  | some payload => buffer.write payload.bytes

def sendResponse (reserved : UInt32) (l : Link (RpcServer σ)) (requestId : UInt64)
    (response : RpcResponse) : Except Fault (Link (RpcServer σ)) :=
  match l.pool.acquire with
  | .error f => .error f
  | .ok (none, pool) => .ok { l with pool := pool }
  | .ok (some buffer, pool) =>
    let buffer := writeResponse buffer requestId response reserved
    let l := l.mapOwner (mapStats fun st =>
      { st with totalBytesSent := st.totalBytesSent + UInt64.ofNat buffer.size })
    .ok { l with pool := pool, conn := (l.conn.send buffer none).2 }

/-- The completion closure of the asynchronous call `requestId`. -/
def asyncComplete (reserved : UInt32) (l : Link (RpcServer σ)) (requestId : UInt64)
    (response : RpcResponse) : Except Fault (Link (RpcServer σ)) :=
  (sendResponse reserved l requestId response).map (Link.mapOwner (mapStats (·.finished response.ok)))

def notFound (methodId : UInt32) : RpcResponse where
  status := .NOT_FOUND
  errorMessage := bytesOf ("Method not found: " ++ toString methodId.toNat)

/-- `on_message`. -/
def onMessage (reserved : UInt32) : MessageCallback (RpcServer σ) := fun l buffer =>
  let l := l.mapOwner (mapStats (·.received buffer.size))
  if buffer.size < RpcHeader.SIZE then
    .ok (l.mapOwner (mapStats (·.finished false)))
  else
    let header := RpcHeader.decode buffer.bytes
    if header.magic ≠ RpcHeader.MAGIC then
      .ok (l.mapOwner (mapStats (·.finished false)))
    else
      let ctx : RpcContext := ⟨header.requestId, header.methodId⟩
      let payload := buffer.bytes.drop RpcHeader.SIZE
      match l.owner.methodLookup.get? header.methodId with
      | none =>
        (sendResponse reserved l header.requestId (notFound header.methodId)).map
          (Link.mapOwner (mapStats (·.finished false)))
      | some method =>
        match method.isAsync, method.asyncHandler, method.handler with
        | true, some handler, _ =>
          .ok (l.mapOwner fun s =>
            { s with
              app := handler ctx payload s.app
              asyncCalls := s.asyncCalls ++ [header.requestId] })
        | _, _, some handler =>
          let (response, app) := handler ctx payload l.owner.app
          (sendResponse reserved (l.mapOwner fun s => { s with app := app }) header.requestId
            response).map (Link.mapOwner (mapStats (·.finished response.ok)))
        | _, _, none => .ok l

end RpcServer

end GossipRl
