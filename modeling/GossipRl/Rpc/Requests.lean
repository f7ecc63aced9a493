import GossipRl.Rpc.Dispatch
import GossipRl.Rpc.Endpoint

/-!
# What arrives of a request

A client writes the header of a request and then the payload, as much of it as the buffer has room
for; how much that was is not looked at, and the header announces the length of the whole payload in
32 bits. The server takes what follows the header for the payload.
-/

namespace GossipRl
open Support

namespace ClientCall

def methodId : ClientCall → UInt32
  | async methodId _ | oneway methodId _ => methodId

def payload : ClientCall → List UInt8
  | async _ payload | oneway _ payload => payload

end ClientCall

namespace RpcClient
variable {config : BufferPoolConfig} {reserved : UInt32} {l l' : Link RpcClient} {call : ClientCall}
  {failed : Bool} {buffer : Buffer} {header : RpcHeader} {payload : List UInt8}

/-- A call, and whether it fails: the future is completed at once, or false is returned. -/
def request (reserved : UInt32) (l : Link RpcClient) :
    ClientCall → Except Fault (Bool × Link RpcClient)
  | .async methodId payload =>
    (callAsync reserved l methodId payload).map fun r => ((r.2.owner.futures r.1).completed, r.2)
  | .oneway methodId payload =>
    (callOneway reserved l methodId payload).map fun r => (!r.1, r.2)

/-- The header announces the payload, and any handler that a server runs for the frame is called
with it. -/
structure ArrivesWhole (payload : List UInt8) (out : SendOp) : Prop where
  announced : (RpcHeader.decode out.buffer.bytes).payloadSize.toNat = payload.length
  received : ∀ (σ : Type) (server : RpcServer σ) (frame : Buffer),
    frame.bytes = out.buffer.bytes → ∀ p ∈ (server.dispatch frame).payload, p = payload

/-- A request is sent whole, and one that does not fit its buffer is not sent. -/
structure SendsWhole (config : BufferPoolConfig) (payload : List UInt8) (l l' : Link RpcClient)
    (failed : Bool) : Prop where
  whole : ∀ out, l'.conn.sends = l.conn.sends ++ [out] → ArrivesWhole payload out
  fails : config.bufferSize < RpcHeader.SIZE + payload.length →
    l'.conn.sends = l.conn.sends ∧ failed = true

/-- The header of the frame of a call. -/
def headerOf (reserved : UInt32) (c : RpcClient) : ClientCall → RpcHeader
  | .async methodId payload => requestHeader c.nextRequestId methodId payload 0 reserved
  | .oneway methodId payload => requestHeader 0 methodId payload RpcFlags.ONE_WAY reserved

theorem magic_headerOf (c : RpcClient) : (headerOf reserved c call).magic = RpcHeader.MAGIC := by
  cases call <;> rfl

theorem payloadSize_headerOf (c : RpcClient) :
    (headerOf reserved c call).payloadSize = UInt32.ofNat call.payload.length := by
  cases call <;> rfl

theorem methodId_headerOf (c : RpcClient) :
    (headerOf reserved c call).methodId = call.methodId := by
  cases call <;> rfl

theorem bytes_writeRequest (header : RpcHeader) (payload : List UInt8) (hempty : buffer.bytes = [])
    (hsize : RpcHeader.SIZE ≤ buffer.capacity) :
    (writeRequest buffer header payload).bytes =
      header.encode ++ payload.take (buffer.capacity - RpcHeader.SIZE) := by
  have hheader : (buffer.write header.encode).bytes = header.encode := by
    rw [Buffer.bytes_write (by simpa [hempty] using hsize), hempty, List.nil_append]
  have hroom : (buffer.write header.encode).remaining = buffer.capacity - RpcHeader.SIZE := by
    rw [Buffer.remaining, Buffer.size, hheader, header.length_encode]
    rfl
  show (buffer.write header.encode).bytes ++ payload.take (min payload.length _) = _
  rw [hheader, hroom, Nat.min_comm, ← List.take_eq_take_min]

theorem request_of_not_connected (hc : isConnected l = false)
    (h : request reserved l call = .ok (failed, l')) : l'.conn = l.conn ∧ failed = true := by
  cases call with
  | async methodId payload =>
    simp only [request, callAsync, hc, Bool.not_false, if_true, Except.map, Except.ok.injEq,
      Prod.mk.injEq] at h
    obtain ⟨rfl, rfl⟩ := h
    exact ⟨rfl, by simp [newFuture]⟩
  | oneway methodId payload =>
    simp only [request, callOneway, hc, Bool.not_false, if_true, Except.map, Except.ok.injEq,
      Prod.mk.injEq] at h
    obtain ⟨rfl, rfl⟩ := h
    exact ⟨rfl, rfl⟩

/-- A connected client sends a frame, whatever the payload. -/
theorem request_of_connected (hpool : BufferPool.Reached config l.pool) (hc : isConnected l = true)
    (h : request reserved l call = .ok (failed, l')) :
    ∃ (b : Buffer) (callback : Option UInt64), b.bytes = [] ∧ b.capacity = config.bufferSize ∧
      l'.conn.sends = l.conn.sends ++
        [⟨writeRequest b (headerOf reserved l.owner call) call.payload, callback⟩] := by
  have hstate : l.conn.state = .CONNECTED := by
    simpa using (Bool.and_eq_true_iff.1 hc).2
  by_cases hcan : l.pool.CanAcquire
  · obtain ⟨k, b, pool, hacquire, hacq⟩ := BufferPool.acquire_of_canAcquire hpool.wf hcan
    have hcap : b.capacity = config.bufferSize := hacq.capacity.trans (congrArg _ hpool.config_eq)
    cases call with
    | async methodId payload =>
      simp only [request, callAsync, hc, hacquire, Bool.not_true, Bool.false_eq_true, if_false,
        Except.map, Except.ok.injEq, Prod.mk.injEq] at h
      obtain ⟨-, rfl⟩ := h
      refine ⟨b, some l.owner.nextRequestId, hacq.bytes, hcap, ?_⟩
      simp [TcpConnection.send, hstate, headerOf, ClientCall.payload]
    | oneway methodId payload =>
      simp only [request, callOneway, hc, hacquire, Bool.not_true, Bool.false_eq_true, if_false,
        Except.map, Except.ok.injEq, Prod.mk.injEq] at h
      obtain ⟨-, rfl⟩ := h
      refine ⟨b, none, hacq.bytes, hcap, ?_⟩
      simp [TcpConnection.send, hstate, headerOf, ClientCall.payload]
  · have hfault := BufferPool.acquire_of_not_canAcquire hcan
    cases call with
    | async methodId payload => simp [request, callAsync, hc, hfault, Except.map] at h
    | oneway methodId payload => simp [request, callOneway, hc, hfault, Except.map] at h

theorem arrivesWhole_iff {n : Nat} (callback : Option UInt64) {c : RpcClient}
    (hbytes : buffer.bytes = (headerOf reserved c call).encode ++ call.payload.take n) :
    ArrivesWhole call.payload ⟨buffer, callback⟩ ↔
      call.payload.length ≤ n ∧ call.payload.length < 2 ^ 32 := by
  have hmagic : (headerOf reserved c call).magic = RpcHeader.MAGIC := magic_headerOf c
  have hsize : (RpcHeader.decode buffer.bytes).payloadSize.toNat = call.payload.length % 2 ^ 32 := by
    rw [hbytes, RpcHeader.decode_encode_append, payloadSize_headerOf, UInt32.toNat_ofNat']
  constructor
  · rintro ⟨hannounced, hreceived⟩
    refine ⟨?_, ?_⟩
    · -- a server that has a handler for the method
      let server : RpcServer Unit :=
        { methodLookup := Dict.empty.set call.methodId
            { id := call.methodId, handler := some fun _ _ app => ({}, app), asyncHandler := none }
          app := () }
      have hdispatch : server.dispatch buffer = .sync (headerOf reserved c call) (call.payload.take n)
          fun _ _ app => ({}, app) := by
        rw [RpcServer.dispatch_of_encode hmagic hbytes, methodId_headerOf]
        simp only [server, Dict.get?_set_self]
        rfl
      have heq := hreceived Unit server buffer rfl (call.payload.take n) (by rw [hdispatch]; rfl)
      rw [← heq]
      exact List.length_take_le ..
    · rw [hsize] at hannounced
      omega
  · rintro ⟨hfits, hlt⟩
    refine ⟨hsize.trans (Nat.mod_eq_of_lt hlt), fun σ server frame hframe p hp => ?_⟩
    rw [RpcServer.dispatch_of_encode hmagic (hframe.trans hbytes), List.take_of_length_le hfits] at hp
    split at hp
    · cases hp
    · rw [RpcMethod.payload_dispatch] at hp
      split at hp
      · exact (Option.some.inj hp).symm
      · cases hp

end RpcClient

/-- A request arrives whole, or fails, if and only if no frame is sent, or the payload fits into
what the header leaves of the buffer and its length into 32 bits. -/
theorem sendsWhole_iff {config : BufferPoolConfig} {reserved : UInt32} {l l' : Link RpcClient}
    {call : ClientCall} {failed : Bool} (hpool : BufferPool.Reached config l.pool)
    (hsize : RpcHeader.SIZE ≤ config.bufferSize)
    (h : RpcClient.request reserved l call = .ok (failed, l')) :
    RpcClient.SendsWhole config call.payload l l' failed ↔
      RpcClient.isConnected l = false ∨
        RpcHeader.SIZE + call.payload.length ≤ config.bufferSize ∧ call.payload.length < 2 ^ 32 := by
  cases hc : RpcClient.isConnected l with
  | false =>
    obtain ⟨hconn, hfailed⟩ := RpcClient.request_of_not_connected hc h
    refine iff_of_true ⟨fun out hout => ?_, fun _ => ⟨by rw [hconn], hfailed⟩⟩ (.inl rfl)
    rw [hconn, List.self_eq_append_right] at hout
    cases hout
  | true =>
    obtain ⟨b, callback, hempty, hcap, hsends⟩ := RpcClient.request_of_connected hpool hc h
    have hbytes := RpcClient.bytes_writeRequest (RpcClient.headerOf reserved l.owner call)
      call.payload hempty (hcap ▸ hsize)
    have hwhole := RpcClient.arrivesWhole_iff callback hbytes
    rw [hcap] at hwhole
    constructor
    · intro hs
      obtain ⟨hfits, hlt⟩ := hwhole.1 (hs.whole _ hsends)
      exact .inr ⟨by omega, hlt⟩
    · rintro (hnot | ⟨hfits, hlt⟩)
      · cases hnot
      · refine ⟨fun out hout => ?_, fun hover => by omega⟩
        obtain rfl : _ = out := by simpa [hsends] using hout
        exact hwhole.2 ⟨by omega, hlt⟩

section Example

/-- A connected client with buffers of 64 bytes. -/
def smallClient : Link RpcClient := ⟨{}, {}, .create .single⟩

def echoServer : RpcServer Unit where
  methodLookup := Methods.registerMethod 1 (some fun _ _ app => ({}, app)) .empty
  app := ()

theorem sendsWhole_iff_small : ∃ l',
    RpcHeader.SIZE ≤ BufferPoolConfig.single.bufferSize ∧
    RpcClient.request 0 smallClient (.async 1 [7]) = .ok (false, l') ∧
    (RpcClient.SendsWhole .single [7] smallClient l' false ↔
      RpcClient.isConnected smallClient = false ∨
        RpcHeader.SIZE + [7].length ≤ BufferPoolConfig.single.bufferSize ∧ [7].length < 2 ^ 32) := by
  have hsize : RpcHeader.SIZE ≤ BufferPoolConfig.single.bufferSize := by decide
  obtain ⟨l', hrequest⟩ : ∃ l', RpcClient.request 0 smallClient (.async 1 [7]) = .ok (false, l') :=
    ⟨_, rfl⟩
  exact ⟨l', hsize, hrequest, sendsWhole_iff (.create .single) hsize hrequest⟩

/-- Of a payload of 33 bytes the handler is called with 32. -/
theorem request_cut : ∃ l' out,
    RpcClient.request 0 smallClient (.oneway 1 (.replicate 33 7)) = .ok (false, l') ∧
    l'.conn.sends = smallClient.conn.sends ++ [out] ∧
    (RpcHeader.decode out.buffer.bytes).payloadSize = 33 ∧
    (echoServer.dispatch out.buffer).payload = some (.replicate 32 7) ∧
    ¬ RpcClient.SendsWhole .single (.replicate 33 7) smallClient l' false := by
  refine ⟨_, _, rfl, rfl, by decide, by decide, fun h => ?_⟩
  have hfails := h.fails (by decide)
  exact absurd hfails.2 (by decide)

end Example

end GossipRl
