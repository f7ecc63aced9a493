import GossipRl.Rpc.OneWay
import GossipRl.Rpc.ReceiveArmed

/-!
# The frames of a step

`Channel.sentSince` are the frames that a step hands to the event loop. A client hands over a frame
for each call it makes while it is connected, and nothing else; a server one for each answer, if its
connection is open. What a server makes of a request, and the closures its handlers call later, are
its acts (`ServerAct`).
-/

namespace GossipRl
open Support

/-! ### Buffers of one size -/

/-- A pool of buffers as `config` has them. -/
structure BufferPool.Of (config : BufferPoolConfig) (p : BufferPool) : Prop where
  wf : p.WF
  config_eq : p.config = config

namespace BufferPool.Of
variable {config : BufferPoolConfig} {p p' : BufferPool}

theorem create (config : BufferPoolConfig) : Of config (.create config) := ⟨.create config, rfl⟩

theorem acquire {r : Option Buffer} (h : Of config p) (ha : p.acquire = .ok (r, p')) :
    Of config p' ∧ ∃ b, r = some b ∧ b.bytes = [] ∧ b.capacity = config.bufferSize := by
  by_cases hc : p.CanAcquire
  · obtain ⟨k, b, p'', heq, hacq⟩ := acquire_of_canAcquire h.wf hc
    obtain ⟨rfl, rfl⟩ := Prod.mk.inj (Except.ok.inj (heq.symm.trans ha))
    exact ⟨⟨hacq.wf, hacq.config.trans h.config_eq⟩, b, rfl, hacq.bytes,
      hacq.capacity.trans (congrArg _ h.config_eq)⟩
  · cases (acquire_of_not_canAcquire hc).symm.trans ha

theorem release (h : Of config p) (b : Option Buffer) : Of config (p.release b) := by
  refine ⟨h.wf.release b, ?_⟩
  unfold BufferPool.release
  split
  · exact h.config_eq
  · split
    · exact h.config_eq
    · exact h.config_eq

theorem poolStep {users : List Nat} {call : PoolCall} {u : PoolUse} (h : Of config p)
    (hs : PoolUse.step ⟨p, users⟩ call = some u) : Of config u.pool := by
  cases call with
  | acquire =>
    rcases ha : p.acquire with f | ⟨_ | b, pool⟩
    · simp [PoolUse.step, ha] at hs
    · simp only [PoolUse.step, ha, Option.some.injEq] at hs
      exact hs ▸ (h.acquire ha).1
    · simp only [PoolUse.step, ha, Option.some.injEq] at hs
      exact hs ▸ (h.acquire ha).1
  | release buffer =>
    simp only [PoolUse.step, Option.ite_none_right_eq_some, Option.some.injEq] at hs
    exact hs.2 ▸ h.release (some buffer)

end BufferPool.Of

/-! ### Frames -/

theorem TcpConnection.sends_close (c : TcpConnection) : c.close.sends = c.sends := by
  unfold close
  split <;> rfl

/-- The bytes of the frames that are handed over from `c` to `c'`. -/
def Channel.sentSince {χ : Type*} (c' c : Channel χ) : List (List UInt8) :=
  (c'.link.conn.sends.drop c.link.conn.sends.length).map (·.buffer.bytes)

/-- From `l` to `l'` the frames are handed to the event loop. -/
structure Link.Emits {χ χ' : Type*} (config : BufferPoolConfig) (frames : List (List UInt8))
    (l : Link χ) (l' : Link χ') : Prop where
  pool : l'.pool.Of config
  sends : ∃ ops, l'.conn.sends = l.conn.sends ++ ops ∧ ops.map (·.buffer.bytes) = frames

namespace Link.Emits
variable {χ χ' χ'' : Type*} {config : BufferPoolConfig} {frames frames' : List (List UInt8)}
  {l : Link χ} {l' : Link χ'} {l'' : Link χ''}

theorem nothing (hpool : l'.pool.Of config) (hsends : l'.conn.sends = l.conn.sends) :
    Emits config [] l l' := ⟨hpool, [], by simp [hsends], rfl⟩

theorem trans (h : Emits config frames l l') (h' : Emits config frames' l' l'') :
    Emits config (frames ++ frames') l l'' := by
  obtain ⟨ops, hops, rfl⟩ := h.sends
  obtain ⟨ops', hops', rfl⟩ := h'.sends
  exact ⟨h'.pool, ops ++ ops', by rw [hops', hops, List.append_assoc], List.map_append⟩

theorem startRecv {l l' : Link χ} (hpool : l.pool.Of config) (h : l.startRecv = .ok l') :
    Emits config [] l l' := by
  unfold Link.startRecv at h
  split at h
  · obtain rfl := Except.ok.inj h
    exact nothing hpool rfl
  · rcases ha : l.pool.acquire with f | ⟨_ | b, pool⟩
    · simp [ha] at h
    · simp only [ha, Except.ok.injEq] at h
      exact h ▸ nothing (hpool.acquire ha).1 rfl
    · simp only [ha, Except.ok.injEq] at h
      exact h ▸ nothing (hpool.acquire ha).1 rfl

theorem send (l : Link χ) (buffer : Buffer) (callback : Option UInt64) (owner : χ')
    {pool : BufferPool} (hpool : pool.Of config) :
    Emits config (if l.conn.state = .CONNECTED then [buffer.bytes] else []) l
      ⟨owner, (l.conn.send buffer callback).2, pool⟩ := by
  unfold TcpConnection.send
  by_cases hstate : l.conn.state = .CONNECTED
  · simp only [hstate, ne_eq, not_true, if_false, if_true]
    exact ⟨hpool, [⟨buffer, callback⟩], rfl, rfl⟩
  · simp only [hstate, ne_eq, not_false_iff, if_true, if_false]
    exact nothing hpool rfl

end Link.Emits

theorem Link.state_startRecv {χ : Type*} {l l' : Link χ} (h : l.startRecv = .ok l') :
    l'.conn.state = l.conn.state := by
  unfold Link.startRecv at h
  split at h
  · exact Except.ok.inj h ▸ rfl
  · rcases ha : l.pool.acquire with f | ⟨_ | b, pool⟩
    · simp [ha] at h
    · simp only [ha, Except.ok.injEq] at h
      exact h ▸ rfl
    · simp only [ha, Except.ok.injEq] at h
      exact h ▸ rfl

namespace Channel
variable {χ ο : Type*} {config : BufferPoolConfig} {frames : List (List UInt8)} {E : Endpoint χ ο}
  {c c' : Channel χ} {e : ChannelEvent ο}

theorem sentSince_of_emits (h : Link.Emits config frames c.link c'.link) :
    c'.sentSince c = frames := by
  obtain ⟨ops, hops, rfl⟩ := h.sends
  rw [sentSince, hops, List.drop_left]

theorem of_start {owner : χ} (h : Channel.start config owner = .ok c) :
    c.link.pool.Of config ∧ c.link.owner = owner ∧ c.link.conn.state = .CONNECTED := by
  obtain ⟨l, hl, rfl⟩ := map_eq_ok_iff.1 h
  have howner := Link.owner_startRecv hl
  exact ⟨(Link.Emits.startRecv (.create config) hl).pool, howner, Link.state_startRecv hl⟩

/-- The link as the message callback sees it: the receive is over, and nothing else has changed. -/
structure Receiving (c : Channel χ) (l : Link χ) : Prop where
  owner : l.owner = c.link.owner
  pool : l.pool = c.link.pool
  state : l.conn.state = c.link.conn.state
  sends : l.conn.sends = c.link.conn.sends

theorem message_of_data {bs : List UInt8} (h : c.step E (.data bs) = some c') :
    ∃ buffer l l₁, c.link.conn.recvBuffer = some buffer ∧ (buffer.receive bs).bytes = bs ∧
      c.Receiving l ∧ E.onMessage l (buffer.receive bs) = .ok l₁ ∧ l₁.startRecv = .ok c'.link := by
  obtain ⟨buffer, l, hbuffer, -, -, hle, hrecv, rfl⟩ := step_data_iff.1 h
  rw [Link.recvData_eq _ _ hbuffer] at hrecv
  cases hm : E.onMessage _ (buffer.receive bs) with
  | error f =>
    rw [hm] at hrecv
    cases hrecv
  | ok l₁ =>
    rw [hm] at hrecv
    exact ⟨buffer, c.link.mapConn _, l₁, hbuffer, Buffer.bytes_receive hle, ⟨rfl, rfl, rfl, rfl⟩, hm,
      hrecv⟩

theorem emits_data {bs : List UInt8} (h : c.step E (.data bs) = some c')
    (hmessage : ∀ l l' buffer, c.Receiving l → E.onMessage l buffer = .ok l' →
      Link.Emits config frames l l') : Link.Emits config frames c.link c'.link := by
  obtain ⟨buffer, l, l₁, -, -, hl, hm, hstart⟩ := message_of_data h
  have hsent := hmessage l l₁ _ hl hm
  have hall := hsent.trans (.startRecv hsent.pool hstart)
  rw [List.append_nil] at hall
  exact ⟨hall.pool, hl.sends ▸ hall.sends⟩

/-- Completions of sends and of the receive, and the other users of the pool, send nothing. -/
theorem sentSince_of_not_owner (hpool : c.link.pool.Of config) (h : c.step E e = some c')
    (hdata : ∀ bs, e ≠ .data bs) (hlate : ∀ op, e ≠ .late op) :
    c'.link.pool.Of config ∧ c'.sentSince c = [] := by
  cases e with
  | data bs => exact absurd rfl (hdata bs)
  | ended result =>
    obtain ⟨-, rfl⟩ := step_ended_iff.1 h
    have hemits : Link.Emits config [] c.link (c.link.recvEnd (E.onEnd result) result) :=
      .nothing hpool (TcpConnection.sends_close _)
    exact ⟨hemits.pool, sentSince_of_emits hemits⟩
  | sent i result =>
    obtain ⟨l, hl, rfl⟩ := step_sent_iff.1 h
    unfold Link.sendCompletion at hl
    cases hop : c.link.conn.sends[i]? with
    | none => simp [hop] at hl
    | some op =>
      simp only [hop, Option.some.injEq] at hl
      subst hl
      refine ⟨hpool.release (some op.buffer), ?_⟩
      have hle := (List.eraseIdx_sublist (l := c.link.conn.sends) (k := i)).length_le
      simp only [sentSince]
      rw [List.drop_eq_nil_of_le hle, List.map_nil]
  | pool call =>
    obtain ⟨u, hu, rfl⟩ := step_pool_iff.1 h
    have hemits : Link.Emits config [] c.link { c.link with pool := u.pool } :=
      .nothing (hpool.poolStep hu) rfl
    exact ⟨hemits.pool, sentSince_of_emits hemits⟩
  | late op => exact absurd rfl (hlate op)

end Channel

/-! ### Clients -/

namespace RpcClient
variable {config : BufferPoolConfig} {reserved : UInt32} {l l' : Link RpcClient}
  {c c' : Channel RpcClient} {call : ClientCall}

/-- As much of a payload as there is room for behind the header. -/
def arriving (config : BufferPoolConfig) (payload : List UInt8) : List UInt8 :=
  payload.take (config.bufferSize - RpcHeader.SIZE)

/-- The frame of a call that is made while the client is connected. -/
def frameOf (config : BufferPoolConfig) (header : RpcHeader) (payload : List UInt8) : List UInt8 :=
  header.encode ++ arriving config payload

theorem bytes_frameOf {b : Buffer} (header : RpcHeader) (payload : List UInt8)
    (hempty : b.bytes = []) (hcap : b.capacity = config.bufferSize)
    (hsize : RpcHeader.SIZE ≤ config.bufferSize) :
    (writeRequest b header payload).bytes = frameOf config header payload := by
  rw [bytes_writeRequest header payload hempty (hcap ▸ hsize), hcap]
  rfl

theorem emits_call (hpool : l.pool.Of config) (hsize : RpcHeader.SIZE ≤ config.bufferSize)
    (h : endpoint.late (reserved, call) l = some (.ok l')) :
    Link.Emits config
      (if isConnected l then [frameOf config (headerOf reserved l.owner call) call.payload] else [])
      l l' := by
  cases hc : isConnected l with
  | false =>
    rcases endpoint_late_cases h with ⟨methodId, payload, future, rfl, hcall⟩ |
      ⟨methodId, payload, sent, rfl, hcall⟩
    · simp only [callAsync, hc, Bool.not_false, if_true, Except.ok.injEq, Prod.mk.injEq] at hcall
      exact hcall.2 ▸ .nothing hpool rfl
    · simp only [callOneway, hc, Bool.not_false, if_true, Except.ok.injEq, Prod.mk.injEq] at hcall
      exact hcall.2 ▸ .nothing hpool rfl
  | true =>
    have hstate : l.conn.state = .CONNECTED := by
      simpa using (Bool.and_eq_true_iff.1 hc).2
    -- the frame is written to a buffer of the pool and sent
    have hsent : ∀ (pool : BufferPool) (b : Buffer) (callback : Option UInt64) (owner : RpcClient),
        pool.Of config → b.bytes = [] → b.capacity = config.bufferSize →
        Link.Emits config [frameOf config (headerOf reserved l.owner call) call.payload] l
          ⟨owner, (l.conn.send (writeRequest b (headerOf reserved l.owner call) call.payload)
            callback).2, pool⟩ := by
      intro pool b callback owner hof hempty hcap
      have hemits := Link.Emits.send l
        (writeRequest b (headerOf reserved l.owner call) call.payload) callback owner hof
      rwa [if_pos hstate, bytes_frameOf _ _ hempty hcap hsize] at hemits
    simp only [if_true]
    rcases ha : l.pool.acquire with f | ⟨acquired, pool⟩
    · rcases endpoint_late_cases h with ⟨methodId, payload, future, rfl, hcall⟩ |
        ⟨methodId, payload, sent, rfl, hcall⟩
      · simp [callAsync, hc, ha] at hcall
      · simp [callOneway, hc, ha] at hcall
    · obtain ⟨hof, b, rfl, hempty, hcap⟩ := hpool.acquire ha
      rcases endpoint_late_cases h with ⟨methodId, payload, future, rfl, hcall⟩ |
        ⟨methodId, payload, sent, rfl, hcall⟩
      · simp only [callAsync, hc, ha, Bool.not_true, Bool.false_eq_true, if_false, Except.ok.injEq,
          Prod.mk.injEq] at hcall
        exact hcall.2 ▸ hsent pool b _ _ hof hempty hcap
      · simp only [callOneway, hc, ha, Bool.not_true, Bool.false_eq_true, if_false, Except.ok.injEq,
          Prod.mk.injEq] at hcall
        exact hcall.2 ▸ hsent pool b _ _ hof hempty hcap

theorem emits_onMessage {buffer : Buffer} (hpool : l.pool.Of config)
    (h : onMessage l buffer = .ok l') : Link.Emits config [] l l' := by
  unfold onMessage at h
  split at h
  · exact Except.ok.inj h ▸ .nothing hpool rfl
  · dsimp only at h
    split at h
    · exact Except.ok.inj h ▸ .nothing hpool rfl
    · split at h
      · cases h
      · rename_i payload pool hread
        refine Except.ok.inj h ▸ .nothing ?_ rfl
        show pool.Of config
        unfold readPayload at hread
        split at hread
        · rcases ha : l.pool.acquire with f | ⟨_ | b, pool'⟩
          · simp [Link.mapOwner, ha] at hread
          · simp only [Link.mapOwner, ha, Except.ok.injEq, Prod.mk.injEq] at hread
            exact hread.2 ▸ (hpool.acquire ha).1
          · simp only [Link.mapOwner, ha, Except.ok.injEq, Prod.mk.injEq] at hread
            exact hread.2 ▸ (hpool.acquire ha).1
        · exact (Prod.mk.inj (Except.ok.inj hread)).2 ▸ hpool

/-- The frames that an event has the client send. -/
def framesOf (config : BufferPoolConfig) (l : Link RpcClient) :
    ChannelEvent SessionOp → List (List UInt8)
  | .late (.call reserved call) =>
    if isConnected l then [frameOf config (headerOf reserved l.owner call) call.payload] else []
  | _ => []

theorem step_frames {e : ChannelEvent SessionOp} (hpool : c.link.pool.Of config)
    (hsize : RpcHeader.SIZE ≤ config.bufferSize) (h : c.step session e = some c') :
    c'.link.pool.Of config ∧ c'.sentSince c = framesOf config c.link e := by
  have hemits : ∀ {frames}, Link.Emits config frames c.link c'.link →
      c'.link.pool.Of config ∧ c'.sentSince c = frames :=
    fun h => ⟨h.pool, Channel.sentSince_of_emits h⟩
  cases e with
  | data bs =>
    refine hemits (Channel.emits_data h ?_)
    intro l l' buffer hl hmessage
    exact emits_onMessage (hl.pool ▸ hpool) hmessage
  | ended result => exact Channel.sentSince_of_not_owner hpool h (by simp) (by simp)
  | sent i result => exact Channel.sentSince_of_not_owner hpool h (by simp) (by simp)
  | pool call => exact Channel.sentSince_of_not_owner hpool h (by simp) (by simp)
  | late op =>
    obtain ⟨l, hlate, rfl⟩ := Channel.step_late_iff.1 h
    cases op with
    | call reserved call => exact hemits (emits_call hpool hsize hlate)
    | disconnect =>
      obtain rfl : disconnect c.link = l := by simpa [session] using hlate
      refine hemits ?_
      unfold disconnect
      split
      · exact .nothing hpool (TcpConnection.sends_close _)
      · exact .nothing hpool rfl
    | onComplete future callback =>
      simp only [session, Option.ite_none_right_eq_some, Option.some.injEq, Except.ok.injEq] at hlate
      exact hemits (hlate.2 ▸ .nothing hpool rfl)
    | cancel future =>
      simp only [session, Option.ite_none_right_eq_some, Option.some.injEq, Except.ok.injEq] at hlate
      exact hemits (hlate.2 ▸ .nothing hpool rfl)

end RpcClient

/-! ### Servers -/

/-- What a server does: it refuses a request for a method it does not know, runs a synchronous
handler in the state `app`, calls an asynchronous one, or a closure of such a handler is called. -/
inductive ServerAct (σ : Type*) where
  | refused (header : RpcHeader)
  | ran (header : RpcHeader) (payload : List UInt8) (app : σ) (response : RpcResponse)
  | began (header : RpcHeader) (payload : List UInt8) (app : σ)
  | completed (requestId : UInt64) (response : RpcResponse)

namespace ServerAct
variable {σ : Type*}

/-- The answer that is given, and the request id it is given for. -/
def answer : ServerAct σ → Option (UInt64 × RpcResponse)
  | refused header => some (header.requestId, RpcServer.notFound header.methodId)
  | ran header _ _ response => some (header.requestId, response)
  | began .. => none
  | completed requestId response => some (requestId, response)

/-- The header of the request that has just arrived. -/
def header : ServerAct σ → Option RpcHeader
  | refused header | ran header .. | began header .. => some header
  | completed .. => none

/-- The request that a handler is called with. -/
def handled : ServerAct σ → Option (RpcHeader × List UInt8)
  | ran header payload _ _ | began header payload _ => some (header, payload)
  | _ => none

/-- The request whose completion is left to a closure. -/
def opened : ServerAct σ → Option UInt64
  | began header .. => some header.requestId
  | _ => none

end ServerAct

/-- The header and the payload of a frame. -/
def requestOf (frame : List UInt8) : RpcHeader × List UInt8 :=
  (RpcHeader.decode frame, frame.drop RpcHeader.SIZE)

/-- There is a handler to be called for the method. -/
def Methods.handles {σ : Type*} (methods : Methods σ) (methodId : UInt32) : Bool :=
  match methods.get? methodId with
  | none => false
  | some method => decide method.Callable

/-- The state of the application after a request, whichever kind of handler it has. -/
def Methods.serve {σ : Type*} (methods : Methods σ) (app : σ) (request : RpcHeader × List UInt8) : σ :=
  match methods.get? request.1.methodId with
  | none => app
  | some method =>
    match method.dispatch request.1 request.2 with
    | .sync header payload handler => (handler header.context payload app).2
    | .async header payload handler => handler header.context payload app
    | _ => app

namespace RpcServer
variable {σ : Type*} {config : BufferPoolConfig} {reserved : UInt32} {l l' : Link (RpcServer σ)}
  {act : Option (ServerAct σ)} {requestId : UInt64} {response : RpcResponse} {buffer : Buffer}

/-- The frame of an answer, as far as the buffer takes it. -/
def IsFrame (config : BufferPoolConfig) (requestId : UInt64) (response : RpcResponse)
    (frame : List UInt8) : Prop :=
  ∃ (b : Buffer) (reserved : UInt32), b.bytes = [] ∧ b.capacity = config.bufferSize ∧
    frame = (writeResponse b requestId response reserved).bytes

theorem IsFrame.decode {frame : List UInt8} (h : IsFrame config requestId response frame)
    (hsize : RpcHeader.SIZE ≤ config.bufferSize) :
    ∃ reserved, RpcHeader.decode frame = responseHeader requestId response reserved := by
  obtain ⟨b, reserved, hempty, hcap, rfl⟩ := h
  exact ⟨reserved, decode_writeResponse hempty (hcap ▸ hsize)⟩

theorem IsFrame.length_le {frame : List UInt8} (h : IsFrame config requestId response frame)
    (hsize : RpcHeader.SIZE ≤ config.bufferSize) : RpcHeader.SIZE ≤ frame.length := by
  obtain ⟨b, reserved, hempty, hcap, rfl⟩ := h
  have hheader : (b.write (responseHeader requestId response reserved).encode).bytes.length =
      RpcHeader.SIZE := by
    rw [Buffer.bytes_write (by rw [hempty, hcap]; simpa using hsize), hempty, List.nil_append,
      RpcHeader.length_encode]
  have hwrite : ∀ (b : Buffer) (src : List UInt8), b.bytes.length ≤ (b.write src).bytes.length :=
    fun b src => (prefix_write b src).length_le
  rw [← hheader, writeResponse]
  cases response.payload with
  | none =>
    dsimp only
    split
    · exact (hwrite ..).trans (hwrite ..)
    · exact hwrite ..
  | some payload =>
    refine le_trans ?_ (hwrite _ payload.bytes)
    split
    · exact (hwrite ..).trans (hwrite ..)
    · exact hwrite ..

def actOf (s : RpcServer σ) : Dispatch σ → Option (ServerAct σ)
  | .unknownMethod header => some (.refused header)
  | .sync header payload handler =>
    some (.ran header payload s.app (handler header.context payload s.app).1)
  | .async header payload _ => some (.began header payload s.app)
  | _ => none

/-- The frames of an answer. -/
def Sends (config : BufferPoolConfig) (connected : Prop) (frames : List (List UInt8)) :
    Option (UInt64 × RpcResponse) → Prop
  | none => frames = []
  | some (requestId, response) =>
    connected ∧ (∃ frame, frames = [frame] ∧ IsFrame config requestId response frame) ∨
      ¬ connected ∧ frames = []

/-- From `l` to `l'` the server has done `act`. -/
structure Performs (config : BufferPoolConfig) (act : Option (ServerAct σ))
    (l l' : Link (RpcServer σ)) : Prop where
  emits : ∃ frames, Link.Emits config frames l l' ∧
    Sends config (l.conn.state = .CONNECTED) frames (act.bind ServerAct.answer)
  state : l'.conn.state = l.conn.state
  methods : l'.owner.methodLookup = l.owner.methodLookup
  app : l'.owner.app =
    (act.bind ServerAct.handled).toList.foldl (Methods.serve l.owner.methodLookup) l.owner.app
  asyncCalls : l'.owner.asyncCalls =
    l.owner.asyncCalls ++ (act.bind ServerAct.opened).toList

theorem emits_asyncComplete (hpool : l.pool.Of config)
    (h : asyncComplete reserved l requestId response = .ok l') :
    ∃ frames, Link.Emits config frames l l' ∧
      Sends config (l.conn.state = .CONNECTED) frames (some (requestId, response)) := by
  obtain ⟨l₁, hsend, rfl⟩ := map_eq_ok_iff.1 h
  unfold sendResponse at hsend
  rcases ha : l.pool.acquire with f | ⟨acquired, pool⟩
  · simp [ha] at hsend
  · obtain ⟨hof, b, rfl, hempty, hcap⟩ := hpool.acquire ha
    simp only [ha, Except.ok.injEq] at hsend
    subst hsend
    refine ⟨_, Link.Emits.send _ (writeResponse b requestId response reserved) none _ hof, ?_⟩
    by_cases hstate : l.conn.state = .CONNECTED
    · rw [if_pos hstate]
      exact .inl ⟨hstate, _, rfl, b, reserved, hempty, hcap, rfl⟩
    · rw [if_neg hstate]
      exact .inr ⟨hstate, rfl⟩

theorem owner_asyncComplete (h : asyncComplete reserved l requestId response = .ok l') :
    l'.owner.methodLookup = l.owner.methodLookup ∧ l'.owner.app = l.owner.app ∧
      l'.owner.asyncCalls = l.owner.asyncCalls ∧ l'.conn.state = l.conn.state := by
  obtain ⟨l₁, hsend, rfl⟩ := map_eq_ok_iff.1 h
  have hstate : ∀ b : Buffer, (l.conn.send b none).2.state = l.conn.state := by
    intro b
    unfold TcpConnection.send
    split <;> rfl
  unfold sendResponse at hsend
  rcases ha : l.pool.acquire with f | ⟨_ | b, pool⟩
  · simp [ha] at hsend
  · simp only [ha, Except.ok.injEq] at hsend
    subst hsend
    exact ⟨rfl, rfl, rfl, rfl⟩
  · simp only [ha, Except.ok.injEq] at hsend
    subst hsend
    exact ⟨rfl, rfl, rfl, hstate _⟩

theorem performs_asyncComplete (hpool : l.pool.Of config)
    (h : asyncComplete reserved l requestId response = .ok l') :
    Performs config (some (.completed requestId response)) l l' := by
  obtain ⟨hmethods, happ, hcalls, hstate⟩ := owner_asyncComplete h
  exact ⟨emits_asyncComplete hpool h, hstate, hmethods, happ, by simp [hcalls, ServerAct.opened]⟩

theorem method_of_dispatch (s : RpcServer σ) (buffer : Buffer)
    (h : (s.dispatch buffer).payload.isSome) :
    ∃ method, s.methodLookup.get? (RpcHeader.decode buffer.bytes).methodId = some method ∧
      s.dispatch buffer =
        method.dispatch (RpcHeader.decode buffer.bytes) (buffer.bytes.drop RpcHeader.SIZE) := by
  by_cases hvalid : Valid buffer
  · rw [dispatch_of_valid hvalid] at h ⊢
    split at h
    · cases h
    · rename_i method hget
      exact ⟨method, hget, rfl⟩
  · rw [dispatch_of_not_valid hvalid] at h
    cases h

theorem performs_perform (l₁ : Link (RpcServer σ)) (hpool : l.pool.Of config)
    (hconn : l₁.conn = l.conn) (hpool₁ : l₁.pool = l.pool)
    (hlookup : l₁.owner.methodLookup = l.owner.methodLookup) (happ : l₁.owner.app = l.owner.app)
    (hcalls : l₁.owner.asyncCalls = l.owner.asyncCalls)
    (h : perform reserved l₁ (l.owner.dispatch buffer) = .ok l') :
    Performs config (l.owner.actOf (l.owner.dispatch buffer)) l l' := by
  have hof : l₁.pool.Of config := hpool₁ ▸ hpool
  have hmethod := l.owner.method_of_dispatch buffer
  have hcases := l.owner.dispatch_cases buffer
  generalize l.owner.dispatch buffer = d at h hmethod hcases
  cases hcases with
  | invalid =>
    obtain rfl := Except.ok.inj h
    exact ⟨⟨[], .nothing hof (by rw [← hconn]; rfl), rfl⟩, by rw [← hconn]; rfl, hlookup, happ,
      by simp [actOf, Link.mapOwner, mapStats, hcalls]⟩
  | unknownMethod =>
    obtain ⟨frames, hemits, hsends⟩ := emits_asyncComplete hof h
    obtain ⟨hlookup', happ', hcalls', hstate'⟩ := owner_asyncComplete h
    refine ⟨⟨frames, ⟨hemits.pool, hconn ▸ hemits.sends⟩, hconn ▸ hsends⟩, ?_, ?_, ?_, ?_⟩
    · rw [hstate', hconn]
    · rw [hlookup', hlookup]
    · rw [happ', happ]
      rfl
    · rw [hcalls', hcalls]
      exact (List.append_nil _).symm
  | async handler =>
    obtain rfl := Except.ok.inj h
    obtain ⟨method, hget, hdispatch⟩ := hmethod rfl
    refine ⟨⟨[], .nothing hof (by rw [← hconn]; rfl), rfl⟩, by rw [← hconn]; rfl, hlookup, ?_, ?_⟩
    · simp only [actOf, Option.bind_some, ServerAct.handled, Option.toList_some, List.foldl_cons,
        List.foldl_nil, Methods.serve, hget, ← hdispatch]
      rw [← happ]
      rfl
    · rw [← hcalls]
      rfl
  | sync handler =>
    obtain ⟨method, hget, hdispatch⟩ := hmethod rfl
    obtain ⟨frames, hemits, hsends⟩ := @emits_asyncComplete _ _ _ (l₁.mapOwner _) _ _ _ hof h
    obtain ⟨hlookup', happ', hcalls', hstate'⟩ := owner_asyncComplete h
    refine ⟨⟨frames, ⟨hemits.pool, hconn ▸ hemits.sends⟩, ?_⟩, ?_, ?_, ?_, ?_⟩
    · rw [← hconn]
      simp only [actOf, Option.bind_some, ServerAct.answer, ← happ]
      exact hsends
    · rw [hstate', ← hconn]
      rfl
    · rw [hlookup', ← hlookup]
      rfl
    · simp only [actOf, Option.bind_some, ServerAct.handled, Option.toList_some, List.foldl_cons,
        List.foldl_nil, Methods.serve, hget, ← hdispatch]
      rw [happ', ← happ]
      rfl
    · rw [hcalls', ← hcalls]
      exact (List.append_nil _).symm
  | noHandler =>
    obtain rfl := Except.ok.inj h
    exact ⟨⟨[], .nothing hof (by rw [← hconn]), rfl⟩, by rw [← hconn], hlookup, happ,
      by simp [actOf, hcalls]⟩

theorem performs_onMessage (hpool : l.pool.Of config) (h : onMessage reserved l buffer = .ok l') :
    Performs config (l.owner.actOf (l.owner.dispatch buffer)) l l' := by
  rw [onMessage_eq] at h
  exact performs_perform (l.mapOwner _) hpool rfl rfl rfl rfl rfl h

theorem Performs.startRecv {l'' : Link (RpcServer σ)} (h : Performs config act l l')
    (hs : l'.startRecv = .ok l'') : Performs config act l l'' := by
  obtain ⟨frames, hemits, hsends⟩ := h.emits
  have hall := hemits.trans (.startRecv hemits.pool hs)
  rw [List.append_nil] at hall
  have howner := Link.owner_startRecv hs
  refine ⟨⟨frames, hall, hsends⟩, (Link.state_startRecv hs).trans h.state, ?_, ?_, ?_⟩
  · rw [howner, h.methods]
  · rw [howner, h.app]
  · rw [howner, h.asyncCalls]

/-- What an event has the server do. -/
def channelAct (c : Channel (RpcServer σ)) :
    ChannelEvent (UInt32 × UInt64 × RpcResponse) → Option (ServerAct σ)
  | .data bs => c.link.conn.recvBuffer.bind fun buffer =>
      c.link.owner.actOf (c.link.owner.dispatch (buffer.receive bs))
  | .late (_, requestId, response) => some (.completed requestId response)
  | _ => none

/-- In a step the server does `act`, and the frames that it sends are the answer. -/
structure Takes (config : BufferPoolConfig) (act : Option (ServerAct σ))
    (c c' : Channel (RpcServer σ)) : Prop where
  pool : c'.link.pool.Of config
  sends : Sends config (c.link.conn.state = .CONNECTED) (c'.sentSince c) (act.bind ServerAct.answer)
  methods : c'.link.owner.methodLookup = c.link.owner.methodLookup
  app : c'.link.owner.app = (act.bind ServerAct.handled).toList.foldl
    (Methods.serve c.link.owner.methodLookup) c.link.owner.app
  asyncCalls : c'.link.owner.asyncCalls =
    c.link.owner.asyncCalls ++ (act.bind ServerAct.opened).toList

variable {c c' : Channel (RpcServer σ)} {e : ChannelEvent (UInt32 × UInt64 × RpcResponse)}
  {reservedOf : RpcServer σ → UInt32}

theorem Performs.takes (h : Performs config act c.link c'.link) : Takes config act c c' := by
  obtain ⟨frames, hemits, hsends⟩ := h.emits
  rw [← Channel.sentSince_of_emits hemits] at hsends
  exact ⟨hemits.pool, hsends, h.methods, h.app, h.asyncCalls⟩

theorem performs_data {bs : List UInt8} (hpool : c.link.pool.Of config)
    (h : c.step (endpoint reservedOf) (.data bs) = some c') :
    Performs config (channelAct c (.data bs)) c.link c'.link := by
  obtain ⟨buffer, l, l₁, hbuffer, -, hl, hm, hstart⟩ := Channel.message_of_data h
  have hperforms := (performs_onMessage (hl.pool ▸ hpool) hm).startRecv hstart
  obtain ⟨frames, ⟨hof, hops⟩, hsends⟩ := hperforms.emits
  have hact : channelAct c (.data bs) = l.owner.actOf (l.owner.dispatch (buffer.receive bs)) := by
    rw [channelAct, hbuffer, hl.owner, Option.bind_some]
  rw [hact]
  exact ⟨⟨frames, ⟨hof, hl.sends ▸ hops⟩, hl.state ▸ hsends⟩, hl.state ▸ hperforms.state,
    hl.owner ▸ hperforms.methods, hl.owner ▸ hperforms.app, hl.owner ▸ hperforms.asyncCalls⟩

theorem performs_late {op : UInt32 × UInt64 × RpcResponse} (hpool : c.link.pool.Of config)
    (h : c.step (endpoint reservedOf) (.late op) = some c') :
    Performs config (channelAct c (.late op)) c.link c'.link ∧ op.2.1 ∈ c.link.owner.asyncCalls := by
  obtain ⟨l, hlate, rfl⟩ := Channel.step_late_iff.1 h
  simp only [endpoint, Option.ite_none_right_eq_some, Option.some.injEq] at hlate
  exact ⟨performs_asyncComplete hpool hlate.2, hlate.1⟩

/-- Completions of sends and of the receive, and the other users of the pool, do not reach the
server. -/
theorem owner_of_not_owner (h : c.step (endpoint reservedOf) e = some c')
    (hdata : ∀ bs, e ≠ .data bs) (hlate : ∀ op, e ≠ .late op) : c'.link.owner = c.link.owner := by
  cases e with
  | data bs => exact absurd rfl (hdata bs)
  | ended result =>
    obtain ⟨-, rfl⟩ := Channel.step_ended_iff.1 h
    rfl
  | sent i result =>
    obtain ⟨l, hl, rfl⟩ := Channel.step_sent_iff.1 h
    unfold Link.sendCompletion at hl
    cases hop : c.link.conn.sends[i]? with
    | none => simp [hop] at hl
    | some op =>
      simp only [hop, Option.some.injEq] at hl
      subst hl
      dsimp only
      split <;> rfl
  | pool call =>
    obtain ⟨u, -, rfl⟩ := Channel.step_pool_iff.1 h
    rfl
  | late op => exact absurd rfl (hlate op)

theorem step_takes (hpool : c.link.pool.Of config) (h : c.step (endpoint reservedOf) e = some c') :
    Takes config (channelAct c e) c c' := by
  have hother : (∀ bs, e ≠ .data bs) → (∀ op, e ≠ .late op) → channelAct c e = none →
      Takes config (channelAct c e) c c' := by
    intro hdata hlate hact
    obtain ⟨hof, hsent⟩ := Channel.sentSince_of_not_owner hpool h hdata hlate
    have howner := owner_of_not_owner h hdata hlate
    rw [hact]
    exact ⟨hof, hsent, by rw [howner], by rw [howner]; rfl, by rw [howner]; simp⟩
  cases e with
  | data bs => exact (performs_data hpool h).takes
  | ended result => exact hother (by simp) (by simp) rfl
  | sent i result => exact hother (by simp) (by simp) rfl
  | pool call => exact hother (by simp) (by simp) rfl
  | late op => exact (performs_late hpool h).1.takes

/-- What a frame leads to is about that frame, and a request that has a handler is handled. -/
theorem channelAct_data {bs : List UInt8} (h : c.step (endpoint reservedOf) (.data bs) = some c') :
    (∀ act, channelAct c (.data bs) = some act → act.header = some (RpcHeader.decode bs)) ∧
      (RpcHeader.SIZE ≤ bs.length → (RpcHeader.decode bs).magic = RpcHeader.MAGIC →
        (channelAct c (.data bs)).bind ServerAct.handled =
          if Methods.handles c.link.owner.methodLookup (RpcHeader.decode bs).methodId then
            some (requestOf bs)
          else none) := by
  obtain ⟨buffer, l, hbuffer, -, -, hle, -, rfl⟩ := Channel.step_data_iff.1 h
  have hbytes : (buffer.receive bs).bytes = bs := Buffer.bytes_receive hle
  simp only [channelAct, hbuffer, Option.bind_some]
  constructor
  · intro act hact
    have hcases := c.link.owner.dispatch_cases (buffer.receive bs)
    generalize c.link.owner.dispatch (buffer.receive bs) = d at hact hcases
    rw [← hbytes]
    cases hcases with
    | invalid => cases hact
    | noHandler => cases hact
    | _ => exact Option.some.inj hact ▸ rfl
  · intro hsize hmagic
    have hvalid : Valid (buffer.receive bs) := by
      rw [Valid, Buffer.size, hbytes]
      exact ⟨hsize, hmagic⟩
    rw [dispatch_of_valid hvalid, hbytes, Methods.handles]
    cases c.link.owner.methodLookup.get? (RpcHeader.decode bs).methodId with
    | none => rfl
    | some method =>
      dsimp only
      rcases method.dispatch_cases (RpcHeader.decode bs) (bs.drop RpcHeader.SIZE) with
        ⟨hc, handler, hd⟩ | ⟨hc, handler, hd⟩ | ⟨hc, hd⟩
      · rw [hd, if_pos (decide_eq_true hc)]
        rfl
      · rw [hd, if_pos (decide_eq_true hc)]
        rfl
      · rw [hd, if_neg (by simpa using hc)]
        rfl

/-- A valid frame leads to something, if the method that it asks for has a handler. -/
theorem channelAct_isSome {bs : List UInt8} (h : c.step (endpoint reservedOf) (.data bs) = some c')
    (hsize : RpcHeader.SIZE ≤ bs.length) (hmagic : (RpcHeader.decode bs).magic = RpcHeader.MAGIC)
    (hcallable : ∀ method, c.link.owner.methodLookup.get? (RpcHeader.decode bs).methodId =
      some method → method.Callable) : (channelAct c (.data bs)).isSome := by
  obtain ⟨buffer, l, hbuffer, -, -, hle, -, rfl⟩ := Channel.step_data_iff.1 h
  have hbytes : (buffer.receive bs).bytes = bs := Buffer.bytes_receive hle
  have hvalid : Valid (buffer.receive bs) := by
    rw [Valid, Buffer.size, hbytes]
    exact ⟨hsize, hmagic⟩
  simp only [channelAct, hbuffer, Option.bind_some]
  rw [dispatch_of_valid hvalid, hbytes]
  cases hget : c.link.owner.methodLookup.get? (RpcHeader.decode bs).methodId with
  | none => rfl
  | some method =>
    dsimp only
    rcases method.dispatch_cases (RpcHeader.decode bs) (bs.drop RpcHeader.SIZE) with
      ⟨-, handler, hd⟩ | ⟨-, handler, hd⟩ | ⟨hc, -⟩
    · rw [hd]
      rfl
    · rw [hd]
      rfl
    · exact absurd (hcallable method hget) hc

theorem state_of_step (hpool : c.link.pool.Of config) (h : c.step (endpoint reservedOf) e = some c')
    (hended : ∀ result, e ≠ .ended result) : c'.link.conn.state = c.link.conn.state := by
  cases e with
  | data bs => exact (performs_data hpool h).state
  | ended result => exact absurd rfl (hended result)
  | sent i result =>
    obtain ⟨l, hl, rfl⟩ := Channel.step_sent_iff.1 h
    unfold Link.sendCompletion at hl
    cases hop : c.link.conn.sends[i]? with
    | none => simp [hop] at hl
    | some op =>
      simp only [hop, Option.some.injEq] at hl
      exact hl ▸ rfl
  | pool call =>
    obtain ⟨u, -, rfl⟩ := Channel.step_pool_iff.1 h
    rfl
  | late op => exact (performs_late hpool h).1.state

/-- Any other event leads to nothing, or is the call of a closure that a handler has. -/
theorem channelAct_other {act : ServerAct σ} (hpool : c.link.pool.Of config)
    (h : c.step (endpoint reservedOf) e = some c') (hdata : ∀ bs, e ≠ .data bs)
    (hact : channelAct c e = some act) :
    ∃ id response, act = .completed id response ∧ id ∈ c.link.owner.asyncCalls := by
  cases e with
  | data bs => exact absurd rfl (hdata bs)
  | late op =>
    obtain rfl := Option.some.inj hact
    exact ⟨op.2.1, op.2.2, rfl, (performs_late hpool h).2⟩
  | _ => cases hact

end RpcServer

end GossipRl
