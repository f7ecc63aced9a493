import GossipRl.Rpc.TcpTransport
import Mathlib.Logic.Function.Basic

/-!
# Shared memory connections (`shm_transport.cpp`)

The send ring of one connection and the receive ring of its peer lie in one region. `try_push` and
`try_pop` read both positions, copy the element and then store their own position; the other side
runs in between, so these are separate steps here (`SendPc`, `RecvPc`). A side's own position is not
stored by anyone else, so its two loads are one step. Everything after a position is stored is the
side's own business and goes with that store, except that `poll_recv` takes its buffer later, from a
pool which others use too.
-/

namespace GossipRl

/-- A ring in a shared region; `data` are the elements after the header. -/
structure SharedRingBuffer (T : Type*) where
  writePos : UInt64 := 0
  readPos : UInt64 := 0
  capacity : UInt64
  data : Nat → T

namespace SharedRingBuffer
variable {T : Type*}

/-- The first part of `try_push`: the position to write to, unless the ring is full. -/
def pushStart (r : SharedRingBuffer T) : Option UInt64 :=
  if r.writePos - r.readPos ≥ r.capacity then none else some r.writePos

def pushStore (r : SharedRingBuffer T) (write : UInt64) (value : T) : SharedRingBuffer T :=
  { r with data := Function.update r.data (write % r.capacity).toNat value }

def pushFinish (r : SharedRingBuffer T) (write : UInt64) : SharedRingBuffer T :=
  { r with writePos := write + 1 }

/-- The first part of `try_pop`: the position to read from, unless the ring is empty. -/
def popStart (r : SharedRingBuffer T) : Option UInt64 :=
  if r.readPos ≥ r.writePos then none else some r.readPos

def popLoad (r : SharedRingBuffer T) (read : UInt64) : T := r.data (read % r.capacity).toNat

def popFinish (r : SharedRingBuffer T) (read : UInt64) : SharedRingBuffer T :=
  { r with readPos := read + 1 }

end SharedRingBuffer

/-- `data` are the bytes copied into the entry; what follows them in the array is indeterminate. -/
structure RingEntry where
  size : UInt32
  data : List UInt8

namespace RingEntry

/-- `sizeof(entry.data)`. -/
def dataSize : Nat := 65532

/-- What `send` fills in: the size is narrowed to 32 bits, the copy clipped to the array. -/
def ofBytes (bytes : List UInt8) : RingEntry :=
  ⟨UInt32.ofNat bytes.length, bytes.take (min bytes.length dataSize)⟩

/-- `buffer->write(entry.data, entry.size)`, which reads as many bytes of the array as fit into the
buffer. -/
def writeTo (e : RingEntry) (buffer : Buffer) : Except Fault Buffer :=
  if min e.size.toNat buffer.remaining ≤ e.data.length then
    .ok (buffer.write (e.data.take e.size.toNat))
  else .error .indexOutOfRange

end RingEntry

/-- The counters after a message with the entry `e` was pushed. -/
def ConnectionStats.pushed (st : ConnectionStats) (e : RingEntry) : ConnectionStats :=
  { st with
    bytesSent := st.bytesSent + e.size.toUInt64
    messagesSent := st.messagesSent + 1 }

/-- One end, with the buffer pool of its transport. -/
structure ShmConnection where
  state : ConnectionState := .CONNECTED
  stats : ConnectionStats := {}
  pool : BufferPool

def ShmConnection.close (c : ShmConnection) : ShmConnection :=
  if c.state = .CONNECTED then { c with state := .CLOSED } else c

/-- Where a call of `send` is. -/
inductive SendPc where
  | idle
  | storing (buffer : Buffer) (entry : RingEntry) (write : UInt64)
  | publishing (buffer : Buffer) (entry : RingEntry) (write : UInt64)

/-- Where a call of `poll_recv` is. -/
inductive RecvPc where
  | idle
  | copying (read : UInt64)
  | popping (read : UInt64) (entry : RingEntry)
  | acquiring (entry : RingEntry)

inductive ShmSide where
  | sender
  | receiver
deriving DecidableEq, Repr

/-- Two ends with a ring from the one to the other. -/
structure ShmLink where
  ring : SharedRingBuffer RingEntry
  sender : ShmConnection
  sendPc : SendPc
  receiver : ShmConnection
  recvPc : RecvPc
  /-- The messages for which `send` returned true. -/
  sent : List (List UInt8)
  /-- The messages `poll_recv` handed out. -/
  handedOut : List (List UInt8)
  /-- What the run came to grief on. -/
  fault : Option Fault

inductive ShmEvent where
  /-- A call of `send`, and its next steps. -/
  | send (buffer : Buffer)
  | sendStep
  /-- A call of `poll_recv`, and its next steps. -/
  | poll
  | pollStep
  /-- Another user of an end's pool. -/
  | pool (side : ShmSide) (call : PoolCall)
  /-- The sender closes its end. -/
  | close

namespace ShmLink

/-- `RING_CAPACITY`. -/
def ringCapacity : UInt64 := 1024

/-- Two ends over a region that has just been created. -/
def create (senderConfig receiverConfig : BufferPoolConfig) : ShmLink where
  ring := { capacity := ringCapacity, data := fun _ => ⟨0, []⟩ }
  sender := { pool := .create senderConfig }
  sendPc := .idle
  receiver := { pool := .create receiverConfig }
  recvPc := .idle
  sent := []
  handedOut := []
  fault := none

def send (l : ShmLink) (buffer : Buffer) : Option ShmLink :=
  match l.sendPc with
  | .idle =>
    -- otherwise `send` returns false
    if l.sender.state ≠ .CONNECTED then some l
    else
      match l.ring.pushStart with
      | none => some l
      | some write =>
        some { l with sendPc := .storing buffer (.ofBytes buffer.bytes) write }
  | _ => none

def sendStep (l : ShmLink) : Option ShmLink :=
  match l.sendPc with
  | .idle => none
  | .storing buffer entry write =>
    some { l with
      ring := l.ring.pushStore write entry
      sendPc := .publishing buffer entry write }
  | .publishing buffer entry write =>
    some { l with
      ring := l.ring.pushFinish write
      sender := { l.sender with
        stats := l.sender.stats.pushed entry
        pool := l.sender.pool.release (some buffer) }
      sendPc := .idle
      sent := l.sent ++ [buffer.bytes] }

def poll (l : ShmLink) : Option ShmLink :=
  match l.recvPc with
  | .idle =>
    match l.ring.popStart with
    | none => some l
    | some read => some { l with recvPc := .copying read }
  | _ => none

/-- The end of `poll_recv`: the entry is off the ring, and goes into a buffer if there is one. -/
def handOut (l : ShmLink) (entry : RingEntry) : ShmLink :=
  match l.receiver.pool.acquire with
  | .error f => { l with fault := some f }
  | .ok (none, pool) => { l with receiver := { l.receiver with pool := pool }, recvPc := .idle }
  | .ok (some buffer, pool) =>
    match entry.writeTo buffer with
    | .error f => { l with fault := some f }
    | .ok buffer =>
      { l with
        receiver := { l.receiver with
          pool := pool
          stats := l.receiver.stats.received entry.size.toNat }
        recvPc := .idle
        handedOut := l.handedOut ++ [buffer.bytes] }

def pollStep (l : ShmLink) : Option ShmLink :=
  match l.recvPc with
  | .idle => none
  | .copying read => some { l with recvPc := .popping read (l.ring.popLoad read) }
  | .popping read entry =>
    some { l with ring := l.ring.popFinish read, recvPc := .acquiring entry }
  | .acquiring entry => some (l.handOut entry)

def poolCall (pool : BufferPool) : PoolCall → Option BufferPool
  | .acquire =>
    match pool.acquire with
    | .error _ => none
    | .ok (_, pool) => some pool
  | .release buffer => some (pool.release (some buffer))

def usePool (l : ShmLink) (side : ShmSide) (call : PoolCall) : Option ShmLink :=
  match side with
  | .sender =>
    (poolCall l.sender.pool call).map fun pool =>
      { l with sender := { l.sender with pool := pool } }
  | .receiver =>
    (poolCall l.receiver.pool call).map fun pool =>
      { l with receiver := { l.receiver with pool := pool } }

/-- One step of one of the two ends. Nothing goes on after undefined behaviour. -/
def step (l : ShmLink) (e : ShmEvent) : Option ShmLink :=
  if l.fault.isSome then none
  else
    match e with
    | .send buffer => l.send buffer
    | .sendStep => l.sendStep
    | .poll => l.poll
    | .pollStep => l.pollStep
    | .pool side call => l.usePool side call
    | .close =>
      match l.sendPc with
      | .idle => some { l with sender := l.sender.close }
      | _ => none

end ShmLink
end GossipRl
