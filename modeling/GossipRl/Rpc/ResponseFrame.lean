import GossipRl.Rpc.Client
import GossipRl.Rpc.Server

/-!
# A response over the wire

`send_response` writes the header, the length of the error message, the message and the payload;
the client's `on_message` reads them back. The client looks at the length field only if something
follows it (`size > offset + 4`), so a response with neither message nor payload is read as one
whose payload is the length field itself. The rest of the decoder inverts the encoder as long as
the 32-bit length field holds the message length and a buffer is left for the payload.
-/

namespace GossipRl
open Support

namespace RpcServer

theorem bytes_writeResponse {buffer : Buffer} {response : RpcResponse} (requestId : UInt64)
    (reserved : UInt32) (hempty : buffer.bytes = [])
    (hfit : 36 + response.errorMessage.length + response.payloadBytes.length ≤ buffer.capacity) :
    (writeResponse buffer requestId response reserved).bytes =
      (responseHeader requestId response reserved).encode ++
        (leEncode 4 response.errorMessage.length ++
          (response.errorMessage ++ response.payloadBytes)) := by
  have h₁ : (buffer.write (responseHeader requestId response reserved).encode).bytes =
      (responseHeader requestId response reserved).encode := by
    rw [Buffer.bytes_write (by simp [hempty, RpcHeader.SIZE]; omega), hempty, List.nil_append]
  set b₁ := buffer.write (responseHeader requestId response reserved).encode with hb₁
  have hcap₁ : b₁.capacity = buffer.capacity := rfl
  have hlen₁ : b₁.bytes.length = 32 := by rw [h₁]; simp [RpcHeader.SIZE]
  have h₂ : (b₁.write (leEncode 4 response.errorMessage.length)).bytes =
      b₁.bytes ++ leEncode 4 response.errorMessage.length :=
    Buffer.bytes_write (by rw [hlen₁, hcap₁]; simp; omega)
  set b₂ := b₁.write (leEncode 4 response.errorMessage.length) with hb₂
  have hlen₂ : b₂.bytes.length = 36 := by rw [h₂]; simp [hlen₁]
  -- the message is written on both branches: an empty one adds nothing
  have h₃ : ∃ b₃ : Buffer, b₃.capacity = buffer.capacity ∧
      b₃.bytes = b₂.bytes ++ response.errorMessage ∧
      writeResponse buffer requestId response reserved =
        response.payload.elim b₃ fun payload => b₃.write payload.bytes := by
    by_cases he : response.errorMessage = []
    · refine ⟨b₂, rfl, by simp [he], ?_⟩
      rw [writeResponse, if_neg (not_not.2 he), ← hb₁, hb₂, he]
      cases response.payload <;> rfl
    · refine ⟨b₂.write response.errorMessage, rfl, Buffer.bytes_write ?_, ?_⟩
      · rw [hlen₂]
        show _ ≤ buffer.capacity
        omega
      · rw [writeResponse, if_pos he]
        cases response.payload <;> rfl
  obtain ⟨b₃, hcap₃, hb₃, hw⟩ := h₃
  have hmid : b₃.bytes = (responseHeader requestId response reserved).encode ++
      (leEncode 4 response.errorMessage.length ++ response.errorMessage) := by
    rw [hb₃, h₂, h₁, List.append_assoc]
  rw [hw]
  unfold RpcResponse.payloadBytes at hfit ⊢
  cases hp : response.payload with
  | none => simp [hmid]
  | some payload =>
    simp only [hp] at hfit
    show (b₃.write payload.bytes).bytes = _
    rw [Buffer.bytes_write (by rw [hb₃, hcap₃]; simp [hlen₂]; omega), hmid]
    simp

theorem sendResponse_frame {σ : Type*} {config : BufferPoolConfig} {l l' : Link (RpcServer σ)}
    {requestId : UInt64} {response : RpcResponse} {reserved : UInt32} {out : SendOp}
    (hpool : BufferPool.Reached config l.pool)
    (hfit : 36 + response.errorMessage.length + response.payloadBytes.length ≤ config.bufferSize)
    (hsend : sendResponse reserved l requestId response = .ok l')
    (hout : l'.conn.sends = l.conn.sends ++ [out]) :
    out.buffer.bytes = (responseHeader requestId response reserved).encode ++
      (leEncode 4 response.errorMessage.length ++
        (response.errorMessage ++ response.payloadBytes)) := by
  by_cases hc : l.pool.CanAcquire
  · obtain ⟨k, b, pool, heq, ha⟩ := BufferPool.acquire_of_canAcquire hpool.wf hc
    simp only [sendResponse, heq, Except.ok.injEq] at hsend
    subst hsend
    by_cases hst : l.conn.state = .CONNECTED
    · obtain rfl : _ = out := by simpa [Link.mapOwner, TcpConnection.send, hst] using hout
      refine bytes_writeResponse requestId reserved ha.bytes ?_
      rwa [ha.capacity, hpool.config_eq]
    · simp [Link.mapOwner, TcpConnection.send, hst] at hout
  · simp [sendResponse, BufferPool.acquire_of_not_canAcquire hc] at hsend

end RpcServer

namespace RpcClient

/-- The body of a response after its header. -/
def responseBody (response : RpcResponse) : List UInt8 :=
  leEncode 4 response.errorMessage.length ++ (response.errorMessage ++ response.payloadBytes)

variable {header : RpcHeader} {response : RpcResponse}

theorem length_frame (header : RpcHeader) (response : RpcResponse) :
    (header.encode ++ responseBody response).length =
      36 + response.errorMessage.length + response.payloadBytes.length := by
  simp [responseBody, RpcHeader.SIZE]; omega

theorem drop_frame (header : RpcHeader) (response : RpcResponse) (n : Nat) :
    (header.encode ++ responseBody response).drop (36 + n) =
      (response.errorMessage ++ response.payloadBytes).drop n := by
  have h₁ : (header.encode ++ responseBody response).drop 32 = responseBody response :=
    List.drop_left' header.length_encode
  have h₂ : (responseBody response).drop 4 = response.errorMessage ++ response.payloadBytes :=
    List.drop_left' (leEncode_length 4 _)
  rw [show 36 + n = 32 + (4 + n) by omega, ← List.drop_drop, h₁, ← List.drop_drop, h₂]

theorem leField_frame : leField (header.encode ++ responseBody response) 32 4 =
    response.errorMessage.length % 256 ^ 4 := by
  rw [leField_append_of_le (by simp [RpcHeader.SIZE]), header.length_encode, RpcHeader.SIZE,
    Nat.sub_self, responseBody, leField_leEncode]

theorem length_readError_lt (bytes : List UInt8) : (readError bytes).1.length < 2 ^ 32 := by
  have hlt : leField bytes RpcHeader.SIZE 4 < 2 ^ 32 := by
    unfold leField
    have hlen : ((bytes.drop RpcHeader.SIZE).take 4).length ≤ 4 := List.length_take_le _ _
    exact lt_of_lt_of_le (leDecode_lt _) (Nat.pow_le_pow_right (by decide) hlen)
  unfold readError
  dsimp only
  split
  · split
    · simp only [List.length_take]; omega
    · simp
  · simp

theorem readError_frame (header : RpcHeader) (hlen : response.errorMessage.length < 2 ^ 32)
    (hne : response.errorMessage ≠ [] ∨ response.payloadBytes ≠ []) :
    readError (header.encode ++ responseBody response) =
      (response.errorMessage, 36 + response.errorMessage.length) := by
  have hmod : response.errorMessage.length % 256 ^ 4 = response.errorMessage.length :=
    Nat.mod_eq_of_lt (by omega)
  have hpos : 0 < response.errorMessage.length + response.payloadBytes.length := by
    rcases hne with h | h
    · have := List.length_pos_iff.2 h; omega
    · have := List.length_pos_iff.2 h; omega
  have hdrop := drop_frame header response 0
  simp only [readError, RpcHeader.SIZE, leField_frame, hmod, length_frame]
  rw [if_pos (by omega)]
  by_cases he : response.errorMessage = []
  · simp [he]
  · have := List.length_pos_iff.2 he
    rw [if_pos (by omega)]
    simp only [Nat.add_zero, List.drop_zero] at hdrop
    simp [hdrop]

/-- With nothing after it, the length field is not read but left for the payload. -/
theorem readError_frame_of_empty (he : response.errorMessage = [])
    (hp : response.payloadBytes = []) :
    readError (header.encode ++ responseBody response) = ([], 32) := by
  have hlen := length_frame header response
  rw [he, hp] at hlen
  simp only [readError, RpcHeader.SIZE, hlen]
  rfl

theorem readPayload_eq {pool : BufferPool} {config : BufferPoolConfig} {bytes : List UInt8}
    {offset : Nat} (hpool : BufferPool.Reached config pool) (hc : pool.CanAcquire)
    (hlt : offset < bytes.length) (hcap : bytes.length ≤ config.bufferSize) :
    ∃ b pool', readPayload pool bytes offset = .ok (some b, pool') ∧ b.bytes = bytes.drop offset := by
  obtain ⟨k, b, pool', heq, ha⟩ := BufferPool.acquire_of_canAcquire hpool.wf hc
  refine ⟨b.write (bytes.drop offset), pool', by simp [readPayload, hlt, heq], ?_⟩
  rw [Buffer.bytes_write, ha.bytes, List.nil_append]
  rw [ha.bytes, ha.capacity, hpool.config_eq]
  simp only [List.length_nil, List.length_drop]
  omega

theorem readPayload_of_le {pool : BufferPool} {bytes : List UInt8} {offset : Nat}
    (h : bytes.length ≤ offset) : readPayload pool bytes offset = .ok (none, pool) := by
  simp [readPayload, h]

/-- `future` was completed with `response`: its state holds the response, or the callback
registered on it was given it. -/
def CompletedWith (c c' : RpcClient) (future : Nat) (response : RpcResponse) : Prop :=
  (c'.futures future).completed = true ∧
    match (c.futures future).callback with
    | none => (c'.futures future).response = response
    | some callback => c'.invoked = c.invoked ++ [(callback, response)]

/-- The client's `on_message` completes `future` with the status, the error message and the payload
of `response`; an empty payload counts as none. -/
def Recovers (l : Link RpcClient) (frame : Buffer) (future : Nat) (response : RpcResponse) : Prop :=
  ∃ l' r, onMessage l frame = .ok l' ∧ l.owner.CompletedWith l'.owner future r ∧
    r.status = response.status ∧ r.errorMessage = response.errorMessage ∧
    r.payload.map Buffer.bytes =
      if response.payloadBytes = [] then none else some response.payloadBytes

theorem completedWith_complete (c : RpcClient) (future : Nat) (response : RpcResponse)
    (pending : Dict UInt64 Nat) :
    c.CompletedWith (complete { c with pendingRequests := pending } future response) future
      response := by
  unfold CompletedWith complete
  cases h : (c.futures future).callback <;> simp [h]

theorem CompletedWith.unique {c c' : RpcClient} {future : Nat} {r r' : RpcResponse}
    (h : c.CompletedWith c' future r) (h' : c.CompletedWith c' future r') : r = r' := by
  obtain ⟨-, h⟩ := h
  obtain ⟨-, h'⟩ := h'
  cases hc : (c.futures future).callback with
  | none => rw [hc] at h h'; exact h.symm.trans h'
  | some callback =>
    rw [hc] at h h'
    have := h.symm.trans h'
    simpa using this

theorem onMessage_of_pending {l : Link RpcClient} {frame : Buffer} {rest : List UInt8}
    {future : Nat} (hbytes : frame.bytes = header.encode ++ rest)
    (hpend : l.owner.pendingRequests.get? header.requestId = some future) :
    onMessage l frame =
      match readPayload l.pool frame.bytes (readError frame.bytes).2 with
      | .error f => .error f
      | .ok (payload, pool) =>
        .ok { l with
          pool := pool
          owner := complete
            { l.owner with pendingRequests := l.owner.pendingRequests.erase header.requestId } future
            { status := .ofWire header.methodId
              errorMessage := (readError frame.bytes).1
              payload := payload } } := by
  have hsize : ¬ frame.size < RpcHeader.SIZE := by simp [Buffer.size, hbytes]
  have hdec : RpcHeader.decode frame.bytes = header := by
    rw [hbytes, RpcHeader.decode_encode_append]
  unfold onMessage
  rw [if_neg hsize, hdec]
  dsimp only
  split
  · rename_i hnone
    rw [hpend] at hnone
    cases hnone
  · rename_i hsome
    obtain rfl := Option.some.inj (hpend.symm.trans hsome)
    rfl

/-- A pending frame is recovered exactly if its two variable parts are read back. -/
theorem recovers_iff_read {l : Link RpcClient} {frame : Buffer} {rest : List UInt8} {future : Nat}
    (hbytes : frame.bytes = header.encode ++ rest)
    (hstatus : RpcStatus.ofWire header.methodId = response.status)
    (hpend : l.owner.pendingRequests.get? header.requestId = some future) :
    Recovers l frame future response ↔
      (readError frame.bytes).1 = response.errorMessage ∧
      ∃ payload pool, readPayload l.pool frame.bytes (readError frame.bytes).2 = .ok (payload, pool) ∧
        payload.map Buffer.bytes =
          if response.payloadBytes = [] then none else some response.payloadBytes := by
  have hmsg := onMessage_of_pending hbytes hpend
  constructor
  · rintro ⟨l', r, hok, hcomp, -, herr, hpay⟩
    cases hread : readPayload l.pool frame.bytes (readError frame.bytes).2 with
    | error f => simp [hmsg, hread] at hok
    | ok res =>
      obtain ⟨payload, pool⟩ := res
      simp only [hmsg, hread, Except.ok.injEq] at hok
      subst hok
      obtain rfl := hcomp.unique (completedWith_complete _ _ _ _)
      exact ⟨herr, payload, pool, rfl, hpay⟩
  · rintro ⟨herr, payload, pool, hread, hpay⟩
    rw [hread] at hmsg
    exact ⟨_, _, hmsg, completedWith_complete _ _ _ _, hstatus, herr, hpay⟩

theorem recovers_frame_iff {config : BufferPoolConfig} {l : Link RpcClient} {frame : Buffer}
    {future : Nat} (hbytes : frame.bytes = header.encode ++ responseBody response)
    (hstatus : RpcStatus.ofWire header.methodId = response.status)
    (hpool : BufferPool.Reached config l.pool) (hcap : frame.capacity = config.bufferSize)
    (hpend : l.owner.pendingRequests.get? header.requestId = some future) :
    Recovers l frame future response ↔
      response.errorMessage.length < 2 ^ 32 ∧
      (response.errorMessage ≠ [] ∨ response.payloadBytes ≠ []) ∧
      (response.payloadBytes ≠ [] → l.pool.CanAcquire) := by
  have hle : frame.bytes.length ≤ config.bufferSize := hcap ▸ frame.size_le
  have hlen := length_frame header response
  rw [← hbytes] at hlen
  rw [recovers_iff_read hbytes hstatus hpend]
  constructor
  · rintro ⟨herr, payload, pool, hread, hpay⟩
    have hlt : response.errorMessage.length < 2 ^ 32 := herr ▸ length_readError_lt frame.bytes
    refine ⟨hlt, ?_, fun hp => ?_⟩
    · by_contra hne
      obtain ⟨he, hp⟩ := not_or.1 hne
      have he := not_not.1 he
      have hp := not_not.1 hp
      rw [hbytes, readError_frame_of_empty he hp, ← hbytes] at hread
      simp only [he, hp, List.length_nil] at hlen
      by_cases hc : l.pool.CanAcquire
      · -- the four bytes of the length field come out as the payload
        obtain ⟨b, pool', hread', hb⟩ := readPayload_eq hpool hc (by omega : 32 < _) hle
        rw [hread'] at hread
        obtain ⟨rfl, rfl⟩ : some b = payload ∧ pool' = pool := by simpa using hread
        simp [hp] at hpay
      · have : frame.bytes.length > 32 := by omega
        simp [readPayload, this, BufferPool.acquire_of_not_canAcquire hc] at hread
    · by_contra hc
      have hpos := List.length_pos_iff.2 hp
      have hgt : frame.bytes.length > (readError frame.bytes).2 := by
        rw [hbytes, readError_frame header hlt (.inr hp), ← hbytes]
        show _ < _
        omega
      simp [readPayload, hgt, BufferPool.acquire_of_not_canAcquire hc] at hread
  · rintro ⟨hlt, hne, hc⟩
    have hread := readError_frame header hlt hne
    rw [← hbytes] at hread
    rw [hread]
    refine ⟨rfl, ?_⟩
    by_cases hp : response.payloadBytes = []
    · refine ⟨none, l.pool, readPayload_of_le ?_, by simp [hp]⟩
      rw [hlen, hp]
      simp
    · have hpos := List.length_pos_iff.2 hp
      obtain ⟨b, pool', hpay, hb⟩ := readPayload_eq hpool (hc hp)
        (by omega : 36 + response.errorMessage.length < _) hle
      refine ⟨some b, pool', hpay, ?_⟩
      rw [if_neg hp, Option.map_some, hb, hbytes, drop_frame, List.drop_left]

end RpcClient

section RoundTrip
variable {σ : Type*} {serverConfig clientConfig : BufferPoolConfig} {reserved : UInt32}
  {server server' : Link (RpcServer σ)} {client : Link RpcClient} {requestId : UInt64}
  {response : RpcResponse} {out : SendOp} {frame : Buffer} {future : Nat}

/-- The client reads back what `send_response` put on the wire exactly if the length of the message
fits its field, message and payload are not both empty, and the client's pool has a buffer for the
payload. -/
theorem response_recovered_iff (hserver : BufferPool.Reached serverConfig server.pool)
    (hfit : 36 + response.errorMessage.length + response.payloadBytes.length ≤
      serverConfig.bufferSize)
    (hsend : RpcServer.sendResponse reserved server requestId response = .ok server')
    (hout : server'.conn.sends = server.conn.sends ++ [out])
    (hclient : BufferPool.Reached clientConfig client.pool)
    (hcap : frame.capacity = clientConfig.bufferSize) (hframe : frame.bytes = out.buffer.bytes)
    (hpend : client.owner.pendingRequests.get? requestId = some future) :
    RpcClient.Recovers client frame future response ↔
      response.errorMessage.length < 2 ^ 32 ∧
      (response.errorMessage ≠ [] ∨ response.payloadBytes ≠ []) ∧
      (response.payloadBytes ≠ [] → client.pool.CanAcquire) := by
  have hbytes := RpcServer.sendResponse_frame hserver hfit hsend hout
  refine RpcClient.recovers_frame_iff (hframe.trans hbytes) ?_ hclient hcap hpend
  exact RpcStatus.ofWire_toWire response.status

end RoundTrip

section Example

/-- A server without methods and a client with request 7 pending, each with a pool of one buffer. -/
def idleServer : Link (RpcServer Unit) :=
  ⟨{ methodLookup := .empty, app := () }, {}, .create .single⟩

def waitingClient : Link RpcClient :=
  ⟨{ pendingRequests := Dict.empty.set 7 0 }, {}, .create .single⟩

theorem response_recovered_iff_internal :
    ∃ server' out,
      RpcServer.sendResponse 0 idleServer 7
        { status := .INTERNAL, errorMessage := bytesOf "boom" } = .ok server' ∧
      server'.conn.sends = idleServer.conn.sends ++ [out] ∧
      (RpcClient.Recovers waitingClient out.buffer 0
          { status := .INTERNAL, errorMessage := bytesOf "boom" } ↔
        (bytesOf "boom").length < 2 ^ 32 ∧ (bytesOf "boom" ≠ [] ∨ ([] : List UInt8) ≠ []) ∧
        (([] : List UInt8) ≠ [] → waitingClient.pool.CanAcquire)) := by
  have hfit : 36 + (bytesOf "boom").length + ([] : List UInt8).length ≤
      BufferPoolConfig.single.bufferSize := by decide
  obtain ⟨server', out, hsend, hout, hcap⟩ : ∃ server' out,
      RpcServer.sendResponse 0 idleServer 7
        { status := .INTERNAL, errorMessage := bytesOf "boom" } = .ok server' ∧
      server'.conn.sends = idleServer.conn.sends ++ [out] ∧
      out.buffer.capacity = BufferPoolConfig.single.bufferSize := ⟨_, _, rfl, rfl, rfl⟩
  exact ⟨server', out, hsend, hout, response_recovered_iff (.create .single) hfit hsend hout
    (.create .single) hcap rfl rfl⟩

/-- An `OK` response without a payload reaches the client with the payload `00 00 00 00`. -/
theorem empty_response_not_recovered :
    36 + ({} : RpcResponse).errorMessage.length + ({} : RpcResponse).payloadBytes.length ≤
        BufferPoolConfig.single.bufferSize ∧
    ∃ server' out client' r,
      RpcServer.sendResponse 0 idleServer 7 {} = .ok server' ∧
      server'.conn.sends = idleServer.conn.sends ++ [out] ∧
      waitingClient.owner.pendingRequests.get? 7 = some 0 ∧
      RpcClient.onMessage waitingClient out.buffer = .ok client' ∧
      waitingClient.owner.CompletedWith client'.owner 0 r ∧
      r.payload.map Buffer.bytes = some [0, 0, 0, 0] ∧
      ¬ RpcClient.Recovers waitingClient out.buffer 0 {} := by
  have hpay : ∀ (r : RpcResponse), r.payload.map Buffer.bytes = some [0, 0, 0, 0] →
      r.payload.map Buffer.bytes ≠
        if ({} : RpcResponse).payloadBytes = [] then none
        else some ({} : RpcResponse).payloadBytes := by
    intro r h h'
    rw [h] at h'
    exact absurd h' (by decide)
  refine ⟨by decide, _, _, _, _, rfl, rfl, rfl, rfl, ⟨rfl, rfl⟩, rfl, ?_⟩
  rintro ⟨client', r, hmsg, hcomp, -, -, hr⟩
  obtain rfl := Except.ok.inj hmsg
  obtain rfl := hcomp.unique ⟨rfl, rfl⟩
  exact hpay _ rfl hr

end Example

end GossipRl
