import GossipRl.Rpc.Framing

/-!
# A client over time

`RpcClient.session` is the client with everything its user does: calls, `disconnect`, and
`on_complete` and `cancel` on a future that a call has returned. To the client itself every event of
the connection is one of a few actions (`ClientAction`); `completes` says which futures an action is
to complete, and with which response.
-/

namespace GossipRl
open Support

inductive SessionOp where
  | call (reserved : UInt32) (call : ClientCall)
  | disconnect
  | onComplete (future callback : Nat)
  | cancel (future : Nat)

def RpcClient.session : Endpoint RpcClient SessionOp where
  onMessage := RpcClient.onMessage
  handed := RpcClient.endpoint.handed
  onEnd := RpcClient.endpoint.onEnd
  onSent := RpcClient.onSent
  late op l :=
    match op with
    | .call reserved call => RpcClient.endpoint.late (reserved, call) l
    | .disconnect => some (.ok (RpcClient.disconnect l))
    | .onComplete future callback =>
      if future < l.owner.nextFuture then
        some (.ok (l.mapOwner (RpcClient.onComplete · future callback)))
      else none
    | .cancel future =>
      if future < l.owner.nextFuture then some (.ok (l.mapOwner (RpcClient.cancel · future)))
      else none

inductive ClientAction where
  | none
  /-- A call is answered at once. -/
  | refuse (response : RpcResponse)
  | call
  | respond (requestId : UInt64) (response : RpcResponse)
  | sendFailed (requestId : UInt64)
  | remoteClose
  | disconnect
  | onComplete (future callback : Nat)
  | cancel (future : Nat)

namespace RpcClient

/-- The request that a frame answers, and the response. -/
def answer (c : RpcClient) (pool : BufferPool) (buffer : Buffer) : ClientAction :=
  if buffer.size < RpcHeader.SIZE then .none
  else
    let header := RpcHeader.decode buffer.bytes
    .respond header.requestId
      { status := .ofWire header.methodId
        errorMessage := (readError buffer.bytes).1
        payload := c.payloadFor pool buffer }

/-- What `call_async` is to the client. -/
def callAction (l : Link RpcClient) : ClientAction :=
  if !isConnected l then
    .refuse { status := .UNAVAILABLE, errorMessage := bytesOf "Not connected" }
  else
    match l.pool.acquire with
    | .ok (some _, _) => .call
    | _ => .refuse { status := .RESOURCE_EXHAUSTED, errorMessage := bytesOf "Buffer pool exhausted" }

def actionOf (l : Link RpcClient) : ChannelEvent SessionOp → ClientAction
  | .data bs =>
    match l.conn.recvBuffer with
    | none => .none
    | some buffer => l.owner.answer l.pool (buffer.receive bs)
  | .ended result => if result = 0 then .remoteClose else .none
  | .sent i result =>
    match (l.conn.sends[i]?).bind SendOp.callback with
    | none => .none
    | some requestId => if 0 ≤ result then .none else .sendFailed requestId
  | .pool _ => .none
  | .late (.call _ (.async _ _)) => callAction l
  | .late (.call _ (.oneway _ _)) => .none
  | .late .disconnect => .disconnect
  | .late (.onComplete future callback) => .onComplete future callback
  | .late (.cancel future) => .cancel future

/-- What an action does to the client. -/
def act (c : RpcClient) : ClientAction → RpcClient
  | .none => c
  | .refuse response => (c.newFuture { response := response, completed := true }).2
  | .call =>
    let (future, c) := c.newFuture {}
    { c with
      nextRequestId := c.nextRequestId + 1
      pendingRequests := c.pendingRequests.set c.nextRequestId future }
  | .respond requestId response =>
    match c.pendingRequests.get? requestId with
    | none => c
    | some future =>
      complete { c with pendingRequests := c.pendingRequests.erase requestId } future response
  | .sendFailed requestId => c.onSent requestId false
  | .remoteClose => c.onDisconnect
  | .disconnect => if c.connected then failPending { c with connected := false } else c
  | .onComplete future callback => c.onComplete future callback
  | .cancel future => c.cancel future

/-- The futures that an action is to complete. -/
def completes (c : RpcClient) : ClientAction → List (Nat × RpcResponse)
  | .refuse response => [(c.nextFuture, response)]
  | .respond requestId response =>
    (c.pendingRequests.get? requestId).toList.map fun future => (future, response)
  | .sendFailed requestId =>
    (c.pendingRequests.get? requestId).toList.map fun future =>
      (future, { status := .INTERNAL, errorMessage := bytesOf "Send failed" })
  | .disconnect =>
    if c.connected then
      c.pendingRequests.values.map fun future =>
        (future, { status := .UNAVAILABLE, errorMessage := bytesOf "Connection closed" })
    else []
  | _ => []

variable {c : RpcClient} {future : Nat} {response : RpcResponse}

@[simp] theorem complete_pendingRequests :
    (c.complete future response).pendingRequests = c.pendingRequests := by
  unfold complete
  dsimp only
  split <;> rfl

@[simp] theorem complete_nextFuture : (c.complete future response).nextFuture = c.nextFuture := by
  unfold complete
  dsimp only
  split <;> rfl

@[simp] theorem complete_connected : (c.complete future response).connected = c.connected := by
  unfold complete
  dsimp only
  split <;> rfl

theorem completed_complete (f : Nat) : ((c.complete future response).futures f).completed =
    (decide (f = future) || (c.futures f).completed) := by
  unfold complete
  dsimp only
  by_cases hf : f = future
  · subst hf
    split <;> simp
  · split <;> simp [hf]

@[simp] theorem onComplete_pendingRequests (callback : Nat) :
    (c.onComplete future callback).pendingRequests = c.pendingRequests := by
  unfold onComplete
  dsimp only
  split <;> rfl

@[simp] theorem onComplete_nextFuture (callback : Nat) :
    (c.onComplete future callback).nextFuture = c.nextFuture := by
  unfold onComplete
  dsimp only
  split <;> rfl

@[simp] theorem onComplete_connected (callback : Nat) :
    (c.onComplete future callback).connected = c.connected := by
  unfold onComplete
  dsimp only
  split <;> rfl

theorem completed_onComplete (callback f : Nat) :
    ((c.onComplete future callback).futures f).completed = (c.futures f).completed := by
  unfold onComplete
  dsimp only
  by_cases hf : f = future
  · subst hf
    split <;> simp
  · split <;> simp [hf]

theorem completed_cancel (f : Nat) :
    ((c.cancel future).futures f).completed = (c.futures f).completed := by
  unfold cancel
  by_cases hf : f = future
  · subst hf
    simp
  · simp [hf]

/-- The futures `fs` are failed. -/
def closeAll (fs : List Nat) (c : RpcClient) : RpcClient :=
  fs.foldl (fun c future =>
    c.complete future
      { (c.futures future).response with
        status := .UNAVAILABLE
        errorMessage := bytesOf "Connection closed" }) c

theorem failPending_eq (c : RpcClient) :
    c.failPending = { closeAll c.pendingRequests.values c with pendingRequests := .empty } := rfl

@[simp] theorem closeAll_nextFuture (fs : List Nat) (c : RpcClient) :
    (closeAll fs c).nextFuture = c.nextFuture := by
  induction fs generalizing c with
  | nil => rfl
  | cons f fs ih => exact (ih _).trans complete_nextFuture

theorem completed_closeAll (fs : List Nat) (c : RpcClient) (f : Nat) :
    ((closeAll fs c).futures f).completed = (decide (f ∈ fs) || (c.futures f).completed) := by
  induction fs generalizing c with
  | nil => simp [closeAll]
  | cons g fs ih =>
    show ((closeAll fs _).futures f).completed = _
    rw [ih, completed_complete]
    by_cases hg : f = g <;> by_cases hf : f ∈ fs <;> simp [hg, hf]

theorem onMessage_owner {l l' : Link RpcClient} {buffer : Buffer}
    (h : onMessage l buffer = .ok l') :
    l'.owner = l.owner.act (l.owner.answer l.pool buffer) := by
  by_cases hsize : buffer.size < RpcHeader.SIZE
  · rw [onMessage, if_pos hsize] at h
    rw [answer, if_pos hsize, ← Except.ok.inj h]
    rfl
  · rw [onMessage, if_neg hsize] at h
    rw [answer, if_neg hsize]
    simp only [act, payloadFor, if_neg hsize]
    cases hget : l.owner.pendingRequests.get? (RpcHeader.decode buffer.bytes).requestId with
    | none =>
      simp only [hget] at h ⊢
      rw [← Except.ok.inj h]
    | some future =>
      simp only [hget] at h ⊢
      have hpool : (l.mapOwner fun c : RpcClient => { c with
          pendingRequests := c.pendingRequests.erase (RpcHeader.decode buffer.bytes).requestId }).pool =
            l.pool := rfl
      rw [hpool] at h
      cases hread : readPayload l.pool buffer.bytes (readError buffer.bytes).2 with
      | error f => simp [hread] at h
      | ok r =>
        simp only [hread] at h ⊢
        rw [← Except.ok.inj h]
        rfl

theorem actionOf_data_cases (l : Link RpcClient) (bs : List UInt8) :
    actionOf l (.data bs) = .none ∨ ∃ id response, actionOf l (.data bs) = .respond id response := by
  unfold actionOf
  dsimp only
  split
  · exact .inl rfl
  · unfold answer
    split
    · exact .inl rfl
    · exact .inr ⟨_, _, rfl⟩

theorem actionOf_sent_cases (l : Link RpcClient) (i : Nat) (result : Int) :
    actionOf l (.sent i result) = .none ∨ ∃ id, actionOf l (.sent i result) = .sendFailed id := by
  unfold actionOf
  dsimp only
  split
  · exact .inl rfl
  · split
    · exact .inl rfl
    · exact .inr ⟨_, rfl⟩

theorem callAction_cases (l : Link RpcClient) :
    l.owner.connected = true ∧ callAction l = .call ∨
      ∃ response, callAction l = .refuse response := by
  unfold callAction
  split
  · exact .inr ⟨_, rfl⟩
  · rename_i hconn
    split
    · refine .inl ⟨?_, rfl⟩
      simp only [isConnected, Bool.not_eq_true', Bool.not_eq_false, Bool.and_eq_true] at hconn
      exact hconn.1
    · exact .inr ⟨_, rfl⟩

theorem connected_of_call {l : Link RpcClient} {e : ChannelEvent SessionOp}
    (h : actionOf l e = .call) : l.owner.connected = true := by
  cases e with
  | data bs =>
    rcases actionOf_data_cases l bs with heq | ⟨_, _, heq⟩
    · cases heq.symm.trans h
    · cases heq.symm.trans h
  | ended result =>
    unfold actionOf at h
    dsimp only at h
    split at h <;> cases h
  | sent i result =>
    rcases actionOf_sent_cases l i result with heq | ⟨_, heq⟩
    · cases heq.symm.trans h
    · cases heq.symm.trans h
  | pool call => cases h
  | late op =>
    cases op with
    | call reserved call =>
      cases call with
      | async methodId payload =>
        rcases callAction_cases l with ⟨hconn, -⟩ | ⟨_, heq⟩
        · exact hconn
        · cases heq.symm.trans h
      | oneway methodId payload => cases h
    | disconnect => cases h
    | onComplete future callback => cases h
    | cancel future => cases h

theorem callAsync_owner {l : Link RpcClient} {reserved : UInt32} {methodId : UInt32}
    {payload : List UInt8} {r : Nat × Link RpcClient}
    (h : callAsync reserved l methodId payload = .ok r) :
    r.2.owner = l.owner.act (callAction l) := by
  unfold callAsync at h
  unfold callAction
  by_cases hconn : isConnected l = true
  · simp only [hconn, Bool.not_true, Bool.false_eq_true, if_false] at h ⊢
    cases ha : l.pool.acquire with
    | error f => simp [ha] at h
    | ok res =>
      obtain ⟨_ | buffer, pool⟩ := res
      · simp only [ha] at h ⊢
        rw [← Except.ok.inj h]
        rfl
      · have hst : l.conn.state = .CONNECTED := by
          simp only [isConnected, Bool.and_eq_true, beq_iff_eq] at hconn
          exact hconn.2
        simp only [ha, TcpConnection.send, hst, ne_eq, not_true, if_false, if_true] at h ⊢
        rw [← Except.ok.inj h]
        rfl
  · simp only [hconn, Bool.not_false, if_true] at h ⊢
    rw [← Except.ok.inj h]
    rfl

theorem callOneway_owner {l : Link RpcClient} {reserved : UInt32} {methodId : UInt32}
    {payload : List UInt8} {r : Bool × Link RpcClient}
    (h : callOneway reserved l methodId payload = .ok r) : r.2.owner = l.owner := by
  unfold callOneway at h
  split at h
  · rw [← Except.ok.inj h]
  · split at h
    · cases h
    · rw [← Except.ok.inj h]
    · rw [← Except.ok.inj h]

theorem sendCompletion_owner {l l' : Link RpcClient} {i : Nat} {result : Int}
    (h : l.sendCompletion session.onSent i result = some l') :
    l'.owner = l.owner.act (actionOf l (.sent i result)) := by
  cases hop : l.conn.sends[i]? with
  | none => simp [Link.sendCompletion, hop] at h
  | some op =>
    simp only [Link.sendCompletion, hop, Option.some.injEq] at h
    rw [← h]
    cases hcb : op.callback with
    | none => simp [actionOf, hop, hcb, act]
    | some requestId =>
      by_cases hr : 0 ≤ result
      · simp [actionOf, hop, hcb, act, hr, session, onSent]
      · simp [actionOf, hop, hcb, act, hr, session]

theorem late_owner {l l' : Link RpcClient} {op : SessionOp} (h : session.late op l = some (.ok l')) :
    l'.owner = l.owner.act (actionOf l (.late op)) := by
  cases op with
  | call reserved call =>
    rcases endpoint_late_cases h with ⟨methodId, payload, future, rfl, hcall⟩ |
      ⟨methodId, payload, sent, rfl, hcall⟩
    · exact callAsync_owner hcall
    · exact callOneway_owner hcall
  | disconnect =>
    obtain rfl : disconnect l = l' := by simpa [session] using h
    show (disconnect l).owner = if _ then _ else _
    unfold disconnect
    split <;> rfl
  | onComplete future callback =>
    simp only [session, Option.ite_none_right_eq_some, Option.some.injEq, Except.ok.injEq] at h
    rw [← h.2]
    rfl
  | cancel future =>
    simp only [session, Option.ite_none_right_eq_some, Option.some.injEq, Except.ok.injEq] at h
    rw [← h.2]
    rfl

theorem step_owner {c c' : Channel RpcClient} {e : ChannelEvent SessionOp}
    (h : c.step session e = some c') : c'.link.owner = c.link.owner.act (actionOf c.link e) := by
  cases e with
  | data bs =>
    obtain ⟨buffer, l, hbuffer, -, -, -, hrecv, rfl⟩ := Channel.step_data_iff.1 h
    rw [Link.recvData_eq _ bs hbuffer] at hrecv
    obtain ⟨l', hmsg, hstart⟩ : ∃ l', onMessage _ (buffer.receive bs) = .ok l' ∧
        l'.startRecv = .ok l := by
      cases hmsg : onMessage (c.link.mapConn fun conn =>
          { conn with
            recvBuffer := none
            recvPending := false
            stats := conn.stats.received bs.length }) (buffer.receive bs) with
      | error f =>
        simp only [session, hmsg] at hrecv
        cases hrecv
      | ok l' =>
        simp only [session, hmsg] at hrecv
        exact ⟨l', hmsg, hrecv⟩
    simp only [actionOf, hbuffer]
    rw [Link.owner_startRecv hstart, onMessage_owner hmsg]
    rfl
  | ended result =>
    obtain ⟨-, rfl⟩ := Channel.step_ended_iff.1 h
    show (if result = 0 then c.link.owner.onDisconnect else c.link.owner) =
      c.link.owner.act (if result = 0 then .remoteClose else .none)
    split <;> rfl
  | sent i result =>
    obtain ⟨l, hsent, rfl⟩ := Channel.step_sent_iff.1 h
    exact sendCompletion_owner hsent
  | pool call =>
    obtain ⟨u, -, rfl⟩ := Channel.step_pool_iff.1 h
    rfl
  | late op =>
    obtain ⟨l, hlate, rfl⟩ := Channel.step_late_iff.1 h
    exact late_owner hlate

end RpcClient

end GossipRl
