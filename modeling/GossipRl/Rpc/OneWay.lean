import GossipRl.Rpc.Requests

/-!
# Which requests are answered

A request is answered by `on_message`, or by the completion of its asynchronous handler, which may
be called much later, more than once or never (`Answered`). Neither looks at the flags: all that
counts is whether something can be called, and how often that is over an open connection.
-/

namespace GossipRl
open Support

variable {σ : Type*}

/-- Calls of the completion closure of the asynchronous call `requestId`: the links as they find
them, and the frames that are sent. -/
inductive Completes (requestId : UInt64) : List (Link (RpcServer σ)) → List SendOp → Prop
  | nil : Completes requestId [] []
  | cons {via l' : Link (RpcServer σ)} {vias : List (Link (RpcServer σ))} {reserved : UInt32}
      {response : RpcResponse} {frames frames' : List SendOp}
      (complete : RpcServer.asyncComplete reserved via requestId response = .ok l')
      (sent : l'.conn.sends = via.conn.sends ++ frames)
      (rest : Completes requestId vias frames') : Completes requestId (via :: vias) (frames ++ frames')

/-- `frames` is what the server sends for `buffer`, and `vias` are the links as they are when it is
about to answer: one for `on_message` itself, or one for each call of the completion. -/
inductive Answered (reserved : UInt32) (l : Link (RpcServer σ)) (buffer : Buffer) :
    List (Link (RpcServer σ)) → List SendOp → Prop
  | atOnce {l' : Link (RpcServer σ)} {frames : List SendOp}
      (sync : (l.owner.dispatch buffer).isAsync = false)
      (message : RpcServer.onMessage reserved l buffer = .ok l')
      (sent : l'.conn.sends = l.conn.sends ++ frames) : Answered reserved l buffer [l] frames
  | later {header : RpcHeader} {payload : List UInt8} {handler : AsyncRpcHandler σ}
      {l' : Link (RpcServer σ)} {vias : List (Link (RpcServer σ))} {frames frames' : List SendOp}
      (async : l.owner.dispatch buffer = .async header payload handler)
      (message : RpcServer.onMessage reserved l buffer = .ok l')
      (sent : l'.conn.sends = l.conn.sends ++ frames)
      (completes : Completes header.requestId vias frames') :
      Answered reserved l buffer vias (frames ++ frames')

/-- One frame with the request's id. -/
def IsResponse (requestId : UInt64) (frames : List SendOp) : Prop :=
  ∃ out, frames = [out] ∧ (RpcHeader.decode out.buffer.bytes).requestId = requestId

/-- One response, or none if the request asks for none. -/
def RespondsTo (header : RpcHeader) (frames : List SendOp) : Prop :=
  if header.flags &&& RpcFlags.ONE_WAY = 0 then IsResponse header.requestId frames else frames = []

namespace RpcServer
variable {config : BufferPoolConfig} {reserved : UInt32} {l l' : Link (RpcServer σ)}
  {requestId : UInt64} {response : RpcResponse} {buffer : Buffer} {frames : List SendOp}

theorem prefix_write (b : Buffer) (src : List UInt8) : b.bytes <+: (b.write src).bytes :=
  List.prefix_append ..

theorem decode_writeResponse (hempty : buffer.bytes = []) (hsize : RpcHeader.SIZE ≤ buffer.capacity) :
    RpcHeader.decode (writeResponse buffer requestId response reserved).bytes =
      responseHeader requestId response reserved := by
  have hheader : (buffer.write (responseHeader requestId response reserved).encode).bytes =
      (responseHeader requestId response reserved).encode := by
    rw [Buffer.bytes_write (by simpa [hempty] using hsize), hempty, List.nil_append]
  have hprefix : (responseHeader requestId response reserved).encode <+:
      (writeResponse buffer requestId response reserved).bytes := by
    rw [← hheader]
    have hmessage : (buffer.write (responseHeader requestId response reserved).encode).bytes <+:
        (if response.errorMessage ≠ [] then
          ((buffer.write (responseHeader requestId response reserved).encode).write
            (leEncode 4 response.errorMessage.length)).write response.errorMessage
        else
          (buffer.write (responseHeader requestId response reserved).encode).write
            (leEncode 4 0)).bytes := by
      split
      · exact (prefix_write ..).trans (prefix_write ..)
      · exact prefix_write ..
    unfold writeResponse
    cases response.payload with
    | none => exact hmessage
    | some payload => exact hmessage.trans (prefix_write ..)
  obtain ⟨rest, hrest⟩ := hprefix
  rw [← hrest, RpcHeader.decode_encode_append]

/-- Over an open connection `send_response` sends one frame, and none otherwise. -/
theorem sends_sendResponse (hpool : BufferPool.Reached config l.pool)
    (hsize : RpcHeader.SIZE ≤ config.bufferSize)
    (h : sendResponse reserved l requestId response = .ok l')
    (hframes : l'.conn.sends = l.conn.sends ++ frames) :
    if l.conn.state = .CONNECTED then IsResponse requestId frames else frames = [] := by
  by_cases hcan : l.pool.CanAcquire
  · obtain ⟨k, b, pool, hacquire, hacq⟩ := BufferPool.acquire_of_canAcquire hpool.wf hcan
    simp only [sendResponse, hacquire, Except.ok.injEq] at h
    subst h
    have hcap : b.capacity = config.bufferSize := hacq.capacity.trans (congrArg _ hpool.config_eq)
    split
    · rename_i hstate
      refine ⟨⟨writeResponse b requestId response reserved, none⟩, ?_, ?_⟩
      · simpa [Link.mapOwner, TcpConnection.send, hstate, eq_comm] using hframes
      · rw [decode_writeResponse hacq.bytes (hcap ▸ hsize)]
        rfl
    · rename_i hstate
      simpa [Link.mapOwner, TcpConnection.send, hstate, eq_comm] using hframes
  · simp [sendResponse, BufferPool.acquire_of_not_canAcquire hcan] at h

theorem sends_asyncComplete (hpool : BufferPool.Reached config l.pool)
    (hsize : RpcHeader.SIZE ≤ config.bufferSize)
    (h : asyncComplete reserved l requestId response = .ok l')
    (hframes : l'.conn.sends = l.conn.sends ++ frames) :
    if l.conn.state = .CONNECTED then IsResponse requestId frames else frames = [] := by
  unfold asyncComplete at h
  obtain ⟨l₁, hsend, rfl⟩ := map_eq_ok_iff.1 h
  exact sends_sendResponse hpool hsize hsend hframes

end RpcServer

/-- The frames are responses to the request, one for each of `n` answers. -/
def AreResponses (requestId : UInt64) (frames : List SendOp) (n : Nat) : Prop :=
  frames.length = n ∧ ∀ out ∈ frames, (RpcHeader.decode out.buffer.bytes).requestId = requestId

namespace AreResponses
variable {requestId : UInt64} {frames frames' : List SendOp} {n m : Nat}

theorem of_ite {p : Prop} [Decidable p]
    (h : if p then IsResponse requestId frames else frames = []) :
    AreResponses requestId frames (if p then 1 else 0) := by
  split at h
  · rename_i hp
    obtain ⟨out, rfl, hid⟩ := h
    rw [if_pos hp]
    exact ⟨rfl, by simpa using hid⟩
  · rename_i hp
    rw [if_neg hp, h]
    exact ⟨rfl, by simp⟩

theorem append (h : AreResponses requestId frames n) (h' : AreResponses requestId frames' m) :
    AreResponses requestId (frames ++ frames') (n + m) := by
  refine ⟨by rw [List.length_append, h.1, h'.1], fun out hout => ?_⟩
  rcases List.mem_append.1 hout with hout | hout
  · exact h.2 out hout
  · exact h'.2 out hout

theorem isResponse_iff (h : AreResponses requestId frames n) :
    IsResponse requestId frames ↔ n = 1 := by
  rw [← h.1]
  constructor
  · rintro ⟨out, rfl, -⟩
    rfl
  · intro hone
    obtain ⟨out, rfl⟩ := List.length_eq_one_iff.1 hone
    exact ⟨out, rfl, h.2 out (List.mem_singleton_self _)⟩

theorem eq_nil_iff (h : AreResponses requestId frames n) : frames = [] ↔ n = 0 := by
  rw [← h.1, List.length_eq_zero_iff]

end AreResponses

/-- How often the server answers the request over an open connection. -/
def RpcServer.answers (server : RpcServer σ) (buffer : Buffer) (vias : List (Link (RpcServer σ))) :
    Nat :=
  vias.countP fun via => via.conn.state = .CONNECTED ∧ server.Serves buffer

section Answered
variable {config : BufferPoolConfig} {reserved : UInt32} {l : Link (RpcServer σ)}
  {vias : List (Link (RpcServer σ))} {buffer : Buffer} {frames : List SendOp} {requestId : UInt64}

theorem Completes.areResponses (h : Completes requestId vias frames)
    (hpool : ∀ via ∈ vias, BufferPool.Reached config via.pool)
    (hsize : RpcHeader.SIZE ≤ config.bufferSize) :
    AreResponses requestId frames (vias.countP fun via => via.conn.state = .CONNECTED) := by
  induction h with
  | nil => exact ⟨rfl, by simp⟩
  | @cons via l' vias reserved response frames frames' complete sent rest ih =>
    have hfirst := RpcServer.sends_asyncComplete (hpool via (List.mem_cons_self ..)) hsize complete sent
    have hrest := ih fun via hvia => hpool via (List.mem_cons_of_mem _ hvia)
    rw [List.countP_cons, Nat.add_comm]
    simpa using (AreResponses.of_ite hfirst).append hrest

/-- A valid frame is answered over an open connection if there is a handler for it, or no such
method. -/
theorem Answered.areResponses (h : Answered reserved l buffer vias frames)
    (hvalid : RpcServer.Valid buffer) (hpool : ∀ via ∈ vias, BufferPool.Reached config via.pool)
    (hsize : RpcHeader.SIZE ≤ config.bufferSize) :
    AreResponses (RpcHeader.decode buffer.bytes).requestId frames (l.owner.answers buffer vias) := by
  have hcases := l.owner.dispatch_cases buffer
  cases h with
  | atOnce sync message sent =>
    have hpool := hpool l (List.mem_singleton_self _)
    have hframes : if l.conn.state = .CONNECTED ∧ l.owner.Serves buffer then
        IsResponse (RpcHeader.decode buffer.bytes).requestId frames else frames = [] := by
      rw [RpcServer.onMessage_eq] at message
      generalize l.owner.dispatch buffer = d at message hcases sync
      cases hcases with
      | invalid invalid => exact absurd hvalid invalid
      | unknownMethod valid serves =>
        simp only [serves, and_true]
        exact RpcServer.sends_asyncComplete (l := l.mapOwner _) hpool hsize message sent
      | async handler => cases sync
      | sync handler valid serves =>
        simp only [serves, and_true]
        exact RpcServer.sends_asyncComplete (l := (l.mapOwner _).mapOwner _) hpool hsize message sent
      | noHandler valid empty =>
        obtain rfl := Except.ok.inj message
        rw [if_neg fun h => empty h.2]
        simpa [Link.mapOwner] using sent
    simpa [RpcServer.answers, List.countP_cons] using AreResponses.of_ite hframes
  | later async message sent completes =>
    rw [RpcServer.onMessage_eq, async] at message
    rw [async] at hcases
    obtain rfl := Except.ok.inj message
    cases hcases with
    | async handler valid serves =>
      rw [List.self_eq_append_right.1 sent, List.nil_append]
      simpa [RpcServer.answers, serves] using completes.areResponses hpool hsize

/-- The server answers as the flag `ONE_WAY` asks if and only if it answers over an open connection
just once where the flag is not set, and never where it is: `on_message` for a method that has a
handler or does not exist, the completion closure whenever the application calls it. -/
theorem responds_iff (h : Answered reserved l buffer vias frames) (hvalid : RpcServer.Valid buffer)
    (hpool : ∀ via ∈ vias, BufferPool.Reached config via.pool)
    (hbuffer : buffer.capacity = config.bufferSize) :
    RespondsTo (RpcHeader.decode buffer.bytes) frames ↔ l.owner.answers buffer vias =
      if (RpcHeader.decode buffer.bytes).flags &&& RpcFlags.ONE_WAY = 0 then 1 else 0 := by
  have hsize : RpcHeader.SIZE ≤ config.bufferSize := by
    rw [← hbuffer]
    exact hvalid.1.trans buffer.size_le
  have hframes := h.areResponses hvalid hpool hsize
  unfold RespondsTo
  split
  · exact hframes.isResponse_iff
  · exact hframes.eq_nil_iff

end Answered

section Example

/-- The server has a handler for method 1. -/
def echoLink : Link (RpcServer Unit) := ⟨echoServer, {}, .create .single⟩

/-- A request to method 1 with these flags, in a buffer of 64 bytes. -/
def flagged (flags : UInt32) : Buffer :=
  let header : RpcHeader :=
    { requestId := 7, methodId := 1, payloadSize := 0, flags := flags, reserved := 0 }
  (Buffer.create 0 0 64 0 false).receive header.encode

theorem responds_iff_flagged : ∃ frames,
    Answered 0 echoLink (flagged 0) [echoLink] frames ∧
    (RespondsTo (RpcHeader.decode (flagged 0).bytes) frames ↔
      echoLink.owner.answers (flagged 0) [echoLink] =
        if (RpcHeader.decode (flagged 0).bytes).flags &&& RpcFlags.ONE_WAY = 0 then 1 else 0) := by
  have hvalid : RpcServer.Valid (flagged 0) := by decide
  obtain ⟨l', frames, hmessage, hsent⟩ : ∃ l' frames,
      RpcServer.onMessage 0 echoLink (flagged 0) = .ok l' ∧
      l'.conn.sends = echoLink.conn.sends ++ frames := ⟨_, _, rfl, rfl⟩
  have h := Answered.atOnce rfl hmessage hsent
  exact ⟨frames, h, responds_iff h hvalid (by simpa using .create .single) rfl⟩

/-- A frame that `call_oneway` sends is answered. -/
theorem one_way_answered : ∃ (client : Link RpcClient) (out : SendOp) (server : Link (RpcServer Unit))
      (frames : List SendOp),
    RpcClient.request 0 smallClient (.oneway 1 []) = .ok (false, client) ∧
    client.conn.sends = [out] ∧
    RpcServer.onMessage 0 echoLink out.buffer = .ok server ∧
    server.conn.sends = echoLink.conn.sends ++ frames ∧ frames.length = 1 ∧
    (RpcHeader.decode out.buffer.bytes).flags &&& RpcFlags.ONE_WAY ≠ 0 ∧
    Answered 0 echoLink out.buffer [echoLink] frames ∧
    ¬ RespondsTo (RpcHeader.decode out.buffer.bytes) frames := by
  refine ⟨_, _, _, _, rfl, rfl, rfl, rfl, rfl, by decide, .atOnce rfl rfl rfl, ?_⟩
  rw [RespondsTo, if_neg (by decide)]
  exact List.cons_ne_nil _ _

end Example

end GossipRl
