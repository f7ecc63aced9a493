import GossipRl.Rpc.BufferPoolInv
import GossipRl.Rpc.Message

/-!
# TCP connections (`tcp_transport.cpp`)

`Link χ` is what a connection works on: the connection, the buffer pool it shares with its owner,
and the owner of the transport's message callback (a server, a client), whose state is `χ`. A
receive or send operation handed to the event loop is outstanding until its completion runs; the
completion gets the kernel's result (`recvData`, `recvEnd`, `sendCompletion`).
-/

namespace GossipRl

inductive ConnectionState where
  | DISCONNECTED
  | CONNECTING
  | CONNECTED
  | CLOSING
  | CLOSED
  | ERROR
deriving DecidableEq, Repr

structure ConnectionStats where
  bytesSent : UInt64 := 0
  bytesReceived : UInt64 := 0
  messagesSent : UInt64 := 0
  messagesReceived : UInt64 := 0
  errors : UInt64 := 0
deriving DecidableEq, Repr

/-- The counters after `n` more received bytes. -/
def ConnectionStats.received (st : ConnectionStats) (n : Nat) : ConnectionStats :=
  { st with
    bytesReceived := st.bytesReceived + UInt64.ofNat n
    messagesReceived := st.messagesReceived + 1 }

/-- A submitted send: the buffer its closure keeps alive, and the request whose `call_async` passed
the completion callback, if there is one. -/
structure SendOp where
  buffer : Buffer
  callback : Option UInt64

structure TcpConnection where
  state : ConnectionState := .CONNECTED
  stats : ConnectionStats := {}
  recvBuffer : Option Buffer := none
  /-- A receive operation is outstanding. -/
  recvPending : Bool := false
  /-- The outstanding send operations. -/
  sends : List SendOp := []

structure Link (χ : Type*) where
  owner : χ
  conn : TcpConnection
  pool : BufferPool

theorem map_eq_ok_iff {ε α β : Type*} {f : α → β} {x : Except ε α} {b : β} :
    x.map f = .ok b ↔ ∃ a, x = .ok a ∧ f a = b := by
  cases x <;> simp [Except.map]

/-- What the transport calls with each received buffer. -/
abbrev MessageCallback (χ : Type*) := Link χ → Buffer → Except Fault (Link χ)

namespace TcpConnection

/-- `send`: the frame is handed to the event loop, or dropped when the connection is not open. -/
def send (c : TcpConnection) (buffer : Buffer) (callback : Option UInt64) : Bool × TcpConnection :=
  if c.state ≠ .CONNECTED then (false, c)
  else (true, { c with sends := c.sends ++ [⟨buffer, callback⟩] })

def close (c : TcpConnection) : TcpConnection :=
  if c.state = .CONNECTED then { c with state := .CLOSED } else c

end TcpConnection

namespace Link
variable {χ χ' : Type*}

def mapOwner (f : χ → χ') (l : Link χ) : Link χ' := ⟨f l.owner, l.conn, l.pool⟩

@[simp] theorem mapOwner_mapOwner {χ'' : Type*} (f : χ → χ') (g : χ' → χ'') (l : Link χ) :
    (l.mapOwner f).mapOwner g = l.mapOwner (g ∘ f) := rfl

def mapConn (f : TcpConnection → TcpConnection) (l : Link χ) : Link χ := { l with conn := f l.conn }

def startRecv (l : Link χ) : Except Fault (Link χ) :=
  if l.conn.state ≠ .CONNECTED then .ok l
  else
    match l.pool.acquire with
    | .error f => .error f
    | .ok (none, pool) => .ok { l with pool := pool, conn := { l.conn with recvBuffer := none } }
    | .ok (some buffer, pool) =>
      .ok { l with
        pool := pool
        conn := { l.conn with recvBuffer := some buffer, recvPending := true } }

/-- Completion of the outstanding receive with the bytes `bs`: the whole buffer goes to the message
callback, then the next receive is armed. -/
def recvData (callback : Option (MessageCallback χ)) (l : Link χ) (bs : List UInt8) :
    Except Fault (Link χ) :=
  match l.conn.recvBuffer with
  | none => .ok l
  | some buffer =>
    let buffer := buffer.receive bs
    let l := l.mapConn fun c =>
      { c with recvPending := false, stats := c.stats.received bs.length }
    match callback with
    | none => l.startRecv
    | some callback =>
      match callback (l.mapConn fun c => { c with recvBuffer := none }) buffer with
      | .error f => .error f
      | .ok l => l.startRecv

/-- What a receive completion with data does: the callback sees the link without the buffer, then
the next receive is armed. -/
theorem recvData_eq (callback : MessageCallback χ) {l : Link χ} {buffer : Buffer} (bs : List UInt8)
    (h : l.conn.recvBuffer = some buffer) :
    l.recvData (some callback) bs =
      (callback
        (l.mapConn fun c =>
          { c with recvBuffer := none, recvPending := false, stats := c.stats.received bs.length })
        (buffer.receive bs)).bind startRecv := by
  simp only [recvData, h, mapConn]
  split <;> simp_all [Except.bind]

/-- Completion of the outstanding receive with end of stream or an error; the disconnect and error
callbacks of the owner are `onEnd`. -/
def recvEnd (onEnd : χ → χ) (l : Link χ) (result : Int) : Link χ :=
  (l.mapConn fun c =>
    ({ c with
      recvPending := false
      stats := if result = 0 then c.stats else { c.stats with errors := c.stats.errors + 1 } }
      : TcpConnection).close).mapOwner onEnd

/-- Completion of the `i`-th outstanding send. Its callback, if it has one, is told whether the
send succeeded (`onSent`); then the closure dies and its buffer goes back to the pool. -/
def sendCompletion (onSent : UInt64 → Bool → χ → χ) (l : Link χ) (i : Nat) (result : Int) :
    Option (Link χ) :=
  match l.conn.sends[i]? with
  | none => none
  | some op =>
    let st := l.conn.stats
    let stats :=
      if 0 ≤ result then
        { st with
          bytesSent := st.bytesSent + UInt64.ofNat result.toNat
          messagesSent := st.messagesSent + 1 }
      else { st with errors := st.errors + 1 }
    some {
      owner := match op.callback with
        | none => l.owner
        | some requestId => onSent requestId (0 ≤ result) l.owner
      pool := l.pool.release (some op.buffer)
      conn := { l.conn with sends := l.conn.sends.eraseIdx i, stats := stats } }

end Link

end GossipRl
