import GossipRl.Rpc.TimedOutCalls

/-!
# Threads of the client, and their mutexes (`rpc_client.cpp`)

Each future has a mutex, and `pending_mutex_` guards the pending requests. `ClientThreads` is a
client with some threads: a thread's stack says what it is in the middle of, with user code at the
bottom and in each callback, and which mutexes it holds. A step locks one mutex at most. Every
callback runs under its future's mutex, and one that `disconnect` runs under `pending_mutex_` too, so
a callback that asks for one of these blocks its own thread.
-/

namespace GossipRl
open Support

inductive ClientMutex where
  /-- `pending_mutex_` -/
  | pending
  /-- `state_->mutex` of a future. -/
  | future (future : Nat)
deriving DecidableEq, Repr

/-- What a thread is in the middle of. -/
inductive ClientFrame where
  /-- The callback of a future, called under the future's mutex. -/
  | callback (future : Nat)
  /-- `call_async`, before the request is registered, and before it is sent. -/
  | registering (requestId : UInt64) (buffer : Buffer)
  | sending (requestId : UInt64) (buffer : Buffer)
  /-- The callback of a failed send, which has found the future. -/
  | sendFailed (requestId : UInt64) (future : Nat)
  /-- `disconnect`, before the loop, and in it with the futures that are left. -/
  | closing
  | failing (futures : List Nat)
  /-- `on_message`, with the future taken out of the map. -/
  | completing (future : Nat) (response : RpcResponse)
  /-- `wait`, in `wait_for`. -/
  | waiting (future : Nat)

/-- The mutexes that are locked here. -/
def ClientFrame.holds : ClientFrame → List ClientMutex
  | callback future => [.future future]
  | sendFailed .. | failing _ => [.pending]
  | _ => []

structure ClientThreads (n : Nat) where
  link : Link RpcClient
  /-- For each thread, the innermost first. -/
  frames : Fin n → List ClientFrame := fun _ => []

/-- What user code does with the client and its futures. -/
inductive UserCall where
  | isReady (future : Nat)
  | wait (future : Nat)
  | onComplete (future callback : Nat)
  | cancel (future : Nat)
  | callAsync (reserved methodId : UInt32) (payload : List UInt8)
  | disconnect
  /-- `connect`, and whether the endpoint can be reached. -/
  | connect (reachable : Bool)

/-- The future whose mutex a call locks. -/
def UserCall.future? : UserCall → Option Nat
  | isReady future | wait future | onComplete future _ | cancel future => some future
  | _ => none

inductive ThreadEvent (n : Nat) where
  | user (thread : Fin n) (call : UserCall)
  /-- A callback returns. -/
  | ret (thread : Fin n)
  /-- The event loop hands a frame to `on_message`. -/
  | receive (thread : Fin n) (buffer : Buffer)
  /-- The event loop runs the completion callback of a request's send. -/
  | sent (thread : Fin n) (requestId : UInt64) (success : Bool)
  /-- The transport loses the connection and calls `on_disconnect`. -/
  | lost
  /-- The thread goes on. -/
  | go (thread : Fin n)
  /-- A `wait` is woken, perhaps as its time is over. -/
  | wake (thread : Fin n) (timedOut : Bool)

namespace ClientThreads
variable {n : Nat}

abbrev client (s : ClientThreads n) : RpcClient := s.link.owner

def held (s : ClientThreads n) (θ : Fin n) : List ClientMutex :=
  (s.frames θ).flatMap ClientFrame.holds

/-- No thread has locked the mutex. -/
def Free (s : ClientThreads n) (m : ClientMutex) : Prop := ∀ θ, m ∉ s.held θ

instance (s : ClientThreads n) (m : ClientMutex) : Decidable (s.Free m) :=
  inferInstanceAs (Decidable (∀ θ, m ∉ s.held θ))

def setClient (s : ClientThreads n) (c : RpcClient) : ClientThreads n :=
  { s with link := s.link.mapOwner fun _ => c }

def setStack (s : ClientThreads n) (θ : Fin n) (stack : List ClientFrame) : ClientThreads n :=
  { s with frames := Function.update s.frames θ stack }

def push (s : ClientThreads n) (θ : Fin n) (frame : ClientFrame) : ClientThreads n :=
  s.setStack θ (frame :: s.frames θ)

/-- User code runs on the thread: outside of everything, or in a callback. -/
def inUserCode : List ClientFrame → Bool
  | [] | .callback _ :: _ => true
  | _ => false

/-! ### Calls -/

/-- A future that is completed at once. -/
def refuse (s : ClientThreads n) (status : RpcStatus) (message : String) : ClientThreads n :=
  s.setClient (s.client.newFuture
    { response := { status := status, errorMessage := bytesOf message }, completed := true }).2

/-- `call_async` up to where the request is registered. -/
def callAsync (s : ClientThreads n) (θ : Fin n) (reserved methodId : UInt32)
    (payload : List UInt8) : Option (ClientThreads n) :=
  if !RpcClient.isConnected s.link then some (s.refuse .UNAVAILABLE "Not connected")
  else
    match s.link.pool.acquire with
    | .error _ => none
    | .ok (none, pool) =>
      some ({ s with link := { s.link with pool := pool } }.refuse .RESOURCE_EXHAUSTED
        "Buffer pool exhausted")
    | .ok (some buffer, pool) =>
      let requestId := s.client.nextRequestId
      let header := RpcClient.requestHeader requestId methodId payload 0 reserved
      let c := { s.client with nextRequestId := requestId + 1 }
      some ({ s with link := ⟨c, s.link.conn, pool⟩ }.push θ
        (.registering requestId (RpcClient.writeRequest buffer header payload)))

/-- `on_complete`: the callback is run at once if the future is completed. -/
def onComplete (s : ClientThreads n) (θ : Fin n) (future callback : Nat) : ClientThreads n :=
  let s' := s.setClient (s.client.onComplete future callback)
  if (s.client.futures future).completed then s'.push θ (.callback future) else s'

def userStep (s : ClientThreads n) (θ : Fin n) : UserCall → Option (ClientThreads n)
  | .isReady _ => some s
  | .wait future =>
    if (s.client.futures future).completed then some (s.setClient (s.client.wait future).2)
    else some (s.push θ (.waiting future))
  | .onComplete future callback => some (s.onComplete θ future callback)
  | .cancel future => some (s.setClient (s.client.cancel future))
  | .callAsync reserved methodId payload => s.callAsync θ reserved methodId payload
  | .disconnect =>
    if s.client.connected then
      some ({ s with link := ⟨{ s.client with connected := false }, s.link.conn.close, s.link.pool⟩
        }.push θ .closing)
    else some s
  | .connect reachable =>
    let state := if reachable then ConnectionState.CONNECTED else .DISCONNECTED
    some { s with link :=
      ⟨{ s.client with connected := s.client.connected || reachable }, { state := state },
        s.link.pool⟩ }

/-! ### The event loop -/

/-- `on_message`, up to where the future is completed. -/
def receive (s : ClientThreads n) (θ : Fin n) (buffer : Buffer) : Option (ClientThreads n) :=
  if buffer.size < RpcHeader.SIZE then some s
  else
    let header := RpcHeader.decode buffer.bytes
    match s.client.pendingRequests.get? header.requestId with
    | none => some s
    | some future =>
      let (errorMessage, offset) := RpcClient.readError buffer.bytes
      match RpcClient.readPayload s.link.pool buffer.bytes offset with
      | .error _ => none
      | .ok (payload, pool) =>
        let c := { s.client with
          pendingRequests := s.client.pendingRequests.erase header.requestId }
        some ({ s with link := ⟨c, s.link.conn, pool⟩ }.push θ (.completing future
          { status := .ofWire header.methodId, errorMessage := errorMessage, payload := payload }))

/-- The callback of a failed send looks for the request, and keeps the mutex if it is there. -/
def findFailed (s : ClientThreads n) (θ : Fin n) (requestId : UInt64) : ClientThreads n :=
  match s.client.pendingRequests.get? requestId with
  | none => s
  | some future => s.push θ (.sendFailed requestId future)

/-! ### Going on -/

/-- A future is completed; `below` is the rest of the stack, on which a callback is called. -/
def complete (s : ClientThreads n) (θ : Fin n) (future : Nat) (response : RpcResponse)
    (below : List ClientFrame) : ClientThreads n :=
  (s.setClient (s.client.complete future response)).setStack θ
    (if (s.client.futures future).callback.isSome then .callback future :: below else below)

/-- The next step of a frame on top of the stack `below`. -/
def goStep (s : ClientThreads n) (θ : Fin n) (below : List ClientFrame) :
    ClientFrame → Option (ClientThreads n)
  | .callback _ | .waiting _ => none
  | .registering requestId buffer =>
    let (future, c) := s.client.newFuture {}
    let c := { c with pendingRequests := c.pendingRequests.set requestId future }
    some ((s.setClient c).setStack θ (.sending requestId buffer :: below))
  | .sending requestId buffer =>
    let (sent, conn) := s.link.conn.send buffer (some requestId)
    let s' := { s with link := { s.link with conn := conn } }.setStack θ below
    some (if sent then s' else s'.findFailed θ requestId)
  | .sendFailed requestId _ =>
    some ((s.setClient (s.client.onSent requestId false)).setStack θ below)
  | .closing => some (s.setStack θ (.failing s.client.pendingRequests.values :: below))
  | .failing [] =>
    some ((s.setClient { s.client with pendingRequests := .empty }).setStack θ below)
  | .failing (future :: futures) =>
    let response := { (s.client.futures future).response with
      status := .UNAVAILABLE
      errorMessage := bytesOf "Connection closed" }
    some (s.complete θ future response (.failing futures :: below))
  | .completing future response => some (s.complete θ future response below)

/-- What the thread does, once it has the mutex that it needs. -/
def perform (s : ClientThreads n) : ThreadEvent n → Option (ClientThreads n)
  | .user θ call =>
    if inUserCode (s.frames θ) ∧ ∀ future ∈ call.future?, future < s.client.nextFuture then
      s.userStep θ call
    else none
  | .ret θ =>
    match s.frames θ with
    | .callback _ :: below => some (s.setStack θ below)
    | _ => none
  | .receive θ buffer => if (s.frames θ).isEmpty then s.receive θ buffer else none
  | .sent θ requestId success =>
    if (s.frames θ).isEmpty then
      some (if success then s else s.findFailed θ requestId)
    else none
  | .lost => some { s with link :=
      ⟨s.client.onDisconnect, { s.link.conn with state := .CLOSED }, s.link.pool⟩ }
  | .go θ =>
    match s.frames θ with
    | [] => none
    | frame :: below => s.goStep θ below frame
  | .wake θ timedOut =>
    match s.frames θ with
    | .waiting future :: below =>
      if (s.client.futures future).completed || timedOut then
        some ((s.setClient (s.client.wait future).2).setStack θ below)
      else some s
    | _ => none

/-! ### Mutexes -/

/-- The mutex that a frame locks when it goes on. -/
def goRequest (s : ClientThreads n) : ClientFrame → Option ClientMutex
  | .registering .. | .closing => some .pending
  | .sending requestId buffer =>
    if (s.link.conn.send buffer (some requestId)).1 then none else some .pending
  | .sendFailed _ future | .failing (future :: _) | .completing future _ => some (.future future)
  | .callback _ | .failing [] | .waiting _ => none

/-- The mutex that a call locks first; a future that is refused is locked when it is filled in. -/
def userRequest (s : ClientThreads n) : UserCall → Option ClientMutex
  | .callAsync .. =>
    if !RpcClient.isConnected s.link then some (.future s.client.nextFuture)
    else
      match s.link.pool.acquire with
      | .ok (none, _) => some (.future s.client.nextFuture)
      | _ => none
  | call => call.future?.map .future

/-- The thread that an event is about, and the mutex that it requests. -/
def request (s : ClientThreads n) : ThreadEvent n → Option (Fin n × ClientMutex)
  | .user θ call =>
    if inUserCode (s.frames θ) then (s.userRequest call).map (θ, ·) else none
  | .receive θ buffer =>
    if (s.frames θ).isEmpty ∧ RpcHeader.SIZE ≤ buffer.size then some (θ, .pending) else none
  | .sent θ _ success =>
    if (s.frames θ).isEmpty ∧ !success then some (θ, .pending) else none
  | .go θ => (s.frames θ).head?.bind fun frame => (s.goRequest frame).map (θ, ·)
  | .wake θ _ =>
    match s.frames θ with
    | .waiting future :: _ => some (θ, .future future)
    | _ => none
  | .ret _ | .lost => none

/-- A thread goes on when nobody has the mutex. -/
def step (s : ClientThreads n) (e : ThreadEvent n) : Option (ClientThreads n) :=
  if ∀ r ∈ s.request e, s.Free r.2 then s.perform e else none

end ClientThreads

end GossipRl
