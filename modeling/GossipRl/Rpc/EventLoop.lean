import GossipRl.Support.Run

/-!
# The event loop (`event_loop.cpp`)

`pending_ops_` is a vector: `block` is where it lives, and `push_back` moves it when it is full. A
submission entry carries the address of its operation in the vector, which `submit_pending` clears
as soon as all entries are prepared; `run_once` reads the operation through that address. `serial`
says which submit call an operation comes from, and is not part of the source; nor are the records
`skipped` (operations for which there was no entry) and `processed`. The counters of the source,
which nothing here reads, are left out.
-/

namespace GossipRl

inductive IoOpType where
  | READ
  | WRITE
  | ACCEPT
  | CONNECT
  | SEND
  | RECV
  | TIMEOUT
  | CANCEL
  | NOP
deriving DecidableEq, Repr

structure IoOperation where
  type : IoOpType
  fd : Int
  buffer : UInt64
  length : UInt64
  offset : UInt64
  /-- Whether there is a callback. -/
  callback : Bool
  userData : UInt64
  serial : Nat
deriving DecidableEq, Repr

/-- A call that appends an operation to `pending_ops_`; addresses are numbers. -/
inductive SubmitCall where
  | read (fd : Int) (buffer length offset : UInt64) (callback : Bool) (userData : UInt64)
  | write (fd : Int) (buffer length offset : UInt64) (callback : Bool) (userData : UInt64)
  | send (fd : Int) (buffer length : UInt64) (callback : Bool) (userData : UInt64)
  | recv (fd : Int) (buffer length : UInt64) (callback : Bool) (userData : UInt64)
  | accept (listenFd : Int) (addr addrlen : UInt64) (callback : Bool) (userData : UInt64)
  | connect (fd : Int) (addr addrlen : UInt64) (callback : Bool) (userData : UInt64)
  | timeout (ts userData : UInt64)
  | cancel (userData : UInt64)

def SubmitCall.operation (serial : Nat) : SubmitCall → IoOperation
  | .read fd buffer length offset callback userData =>
    ⟨.READ, fd, buffer, length, offset, callback, userData, serial⟩
  | .write fd buffer length offset callback userData =>
    ⟨.WRITE, fd, buffer, length, offset, callback, userData, serial⟩
  | .send fd buffer length callback userData =>
    ⟨.SEND, fd, buffer, length, 0, callback, userData, serial⟩
  | .recv fd buffer length callback userData =>
    ⟨.RECV, fd, buffer, length, 0, callback, userData, serial⟩
  | .accept listenFd addr addrlen callback userData =>
    ⟨.ACCEPT, listenFd, addr, 0, addrlen, callback, userData, serial⟩
  | .connect fd addr addrlen callback userData =>
    ⟨.CONNECT, fd, addr, addrlen, 0, callback, userData, serial⟩
  -- the callback is wrapped, so there always is one
  | .timeout ts userData => ⟨.TIMEOUT, -1, ts, 0, 0, true, userData, serial⟩
  | .cancel userData => ⟨.CANCEL, -1, 0, 0, 0, false, userData, serial⟩

/-- The address of an operation: the block of the vector and the index in it. -/
structure Slot where
  block : Nat
  index : Nat
deriving DecidableEq, Repr

/-- What `io_uring_prep_*` writes to an entry. -/
inductive Prepared where
  | read (fd : Int) (buffer length offset : UInt64)
  | write (fd : Int) (buffer length offset : UInt64)
  | send (fd : Int) (buffer length : UInt64) (flags : Nat)
  | recv (fd : Int) (buffer length : UInt64) (flags : Nat)
  | accept (fd : Int) (addr addrlen : UInt64) (flags : Nat)
  | connect (fd : Int) (addr addrlen : UInt64)
  | timeout (ts : UInt64) (count flags : Nat)
  | cancel (userData : UInt64) (flags : Nat)
  | nop
deriving DecidableEq, Repr

def IoOperation.prepare (op : IoOperation) : Prepared :=
  match op.type with
  | .READ => .read op.fd op.buffer op.length op.offset
  | .WRITE => .write op.fd op.buffer op.length op.offset
  | .SEND => .send op.fd op.buffer op.length 0
  | .RECV => .recv op.fd op.buffer op.length 0
  | .ACCEPT => .accept op.fd op.buffer op.offset 0
  | .CONNECT => .connect op.fd op.buffer op.length
  | .TIMEOUT => .timeout op.buffer 0 0
  | .CANCEL => .cancel op.userData 0
  | .NOP => .nop

/-- A submission entry, and the operation it was prepared for. -/
structure Sqe where
  prepared : Prepared
  data : Slot
  op : IoOperation
deriving DecidableEq, Repr

/-- A completion: the entry that completed, whose data pointer it carries, and the result. -/
structure Cqe where
  sqe : Sqe
  res : Int
deriving DecidableEq, Repr

/-- The ring: entries that wait for the kernel, that the kernel works on, and completions. -/
structure Ring where
  sq : List Sqe := []
  inflight : List Sqe := []
  cq : List Cqe := []

/-- `io_uring_submit`, of which the kernel takes `n` entries. -/
def Ring.submit (n : Nat) (r : Ring) : Ring :=
  { r with sq := r.sq.drop n, inflight := r.inflight ++ r.sq.take n }

def Ring.add (e : Sqe) (r : Ring) : Ring := { r with sq := r.sq ++ [e] }

structure OpVector where
  block : Nat := 0
  capacity : Nat := 0
  ops : List IoOperation := []

/-- The operation at an address, if one lives there. -/
def OpVector.get? (v : OpVector) (slot : Slot) : Option IoOperation :=
  if slot.block = v.block then v.ops[slot.index]? else none

/-- What the processing of a completion did. -/
inductive Reaction where
  /-- The callback of the operation `serial` was called. -/
  | invoked (serial : Nat) (result : Int) (userData : UInt64)
  | nothing
  /-- The data pointer pointed to no operation. -/
  | undefined
deriving DecidableEq, Repr

structure EventLoop where
  pendingOps : OpVector := {}
  ring : Ring := {}
  /-- The number of submit calls. -/
  submitted : Nat := 0
  skipped : List IoOperation := []
  processed : List (Cqe × Reaction) := []

inductive LoopEvent where
  /-- `block` is where the vector moves to, if it must. -/
  | submit (call : SubmitCall) (block : Nat)
  /-- `takes` says how many entries the kernel takes at each `io_uring_submit`. -/
  | submitPending (takes : List Nat)
  /-- The kernel completes the `i`-th entry it works on. -/
  | complete (i : Nat) (res : Int)
  /-- `run_once` processes the next completion. -/
  | reap

namespace EventLoop

/-- The loop of `submit_pending` over the operations from index `i` on: what is left of `takes`, the
ring, and the operations without an entry. -/
def prepareAll (ringSize block : Nat) :
    Nat → List IoOperation → List Nat → Ring → List Nat × Ring × List IoOperation
  | _, [], takes, r => (takes, r, [])
  | i, op :: ops, takes, r =>
    let sqe : Sqe := ⟨op.prepare, ⟨block, i⟩, op⟩
    if r.sq.length < ringSize then prepareAll ringSize block (i + 1) ops takes (r.add sqe)
    else
      let r := r.submit (takes.headD 0)
      if r.sq.length < ringSize then
        prepareAll ringSize block (i + 1) ops takes.tail (r.add sqe)
      else
        let (takes, r, skipped) := prepareAll ringSize block (i + 1) ops takes.tail r
        (takes, r, op :: skipped)

def submitPending (ringSize : Nat) (takes : List Nat) (s : EventLoop) : EventLoop :=
  if s.pendingOps.ops = [] then s
  else
    let (takes, r, skipped) :=
      prepareAll ringSize s.pendingOps.block 0 s.pendingOps.ops takes s.ring
    { s with
      pendingOps := { s.pendingOps with ops := [] }
      ring := r.submit (takes.headD 0)
      skipped := s.skipped ++ skipped }

/-- What `run_once` does with a completion. -/
def react (v : OpVector) (cqe : Cqe) : Reaction :=
  match v.get? cqe.sqe.data with
  | none => .undefined
  | some op => if op.callback then .invoked op.serial cqe.res op.userData else .nothing

/-- `grow` is the capacity of a vector that has outgrown a capacity. -/
def step (ringSize : Nat) (grow : Nat → Nat) (s : EventLoop) : LoopEvent → Option EventLoop
  | .submit call block =>
    let v := s.pendingOps
    let ops := v.ops ++ [call.operation s.submitted]
    let s := { s with submitted := s.submitted + 1 }
    if v.ops.length < v.capacity then some { s with pendingOps := { v with ops := ops } }
    else if block = v.block then none
    else some { s with pendingOps := ⟨block, grow v.capacity, ops⟩ }
  | .submitPending takes => some (s.submitPending ringSize takes)
  | .complete i res =>
    match s.ring.inflight[i]? with
    | none => none
    | some sqe =>
      some { s with
        ring := { s.ring with
          inflight := s.ring.inflight.eraseIdx i
          cq := s.ring.cq ++ [⟨sqe, res⟩] } }
  | .reap =>
    match s.ring.cq with
    | [] => none
    | cqe :: cq =>
      some { s with
        ring := { s.ring with cq := cq }
        processed := s.processed ++ [(cqe, react s.pendingOps cqe)] }

end EventLoop

end GossipRl
