import GossipRl.Rpc.Framing
import GossipRl.Rpc.ResponseFrame

/-!
# Where the buffers go

At every moment of a connection each buffer of its pool is free, held by the connection (armed for
the next receive, or in a send that is not yet complete), in the hands of the application and the
pool's other users, or lost: nobody holds it and it is not free. `Channel.Accounted` counts the
lost ones. Both message callbacks destroy the receive buffer they are given without releasing it,
so every frame loses one.
-/

namespace GossipRl
open Support

/-- Indices of the buffers a connection holds. -/
def TcpConnection.held (c : TcpConnection) : List Nat :=
  c.recvBuffer.toList.map Buffer.poolIndex ++ c.sends.map (·.buffer.poolIndex)

/-- No buffer is lost. -/
def Channel.NoneLost {χ : Type*} (c : Channel χ) : Prop :=
  ∀ i < c.link.pool.bufferStorage.length,
    i ∈ c.link.pool.freeList ∨ i ∈ c.link.conn.held ∨ i ∈ c.users

/-- The buffers of the pool `config` that are not free are those the connection holds and `rest`. -/
def Link.Accounts {χ : Type*} (config : BufferPoolConfig) (l : Link χ) (rest : List Nat) : Prop :=
  PoolUse.Inv config ⟨l.pool, l.conn.held ++ rest⟩

variable {χ ο : Type*} {config : BufferPoolConfig}

namespace Link
variable {l l' : Link χ} {rest : List Nat}

theorem Accounts.perm {rest' : List Nat} (h : l.Accounts config rest) (hp : rest.Perm rest') :
    l.Accounts config rest' :=
  PoolUse.Inv.perm h (hp.append_left _)

/-- Arming a receive overwrites the buffer of the one before, if it is still there. -/
theorem Accounts.startRecv (h : l.Accounts config rest) (hs : l.startRecv = .ok l') :
    ∃ lost, l'.Accounts config (lost ++ rest) ∧ (l.conn.recvBuffer = none → lost = []) := by
  unfold Link.startRecv at hs
  by_cases hst : l.conn.state = .CONNECTED
  · rcases ha : l.pool.acquire with f | ⟨r, pool⟩
    · simp [hst, ha] at hs
    · obtain ⟨b, rfl, hinv⟩ := PoolUse.Inv.acquire_ok h ha
      simp only [hst, ha, ne_eq, not_true, if_false, Except.ok.injEq] at hs
      subst hs
      refine ⟨l.conn.recvBuffer.toList.map Buffer.poolIndex, hinv.perm ?_, fun hn => by simp [hn]⟩
      rw [List.perm_iff_count]
      intro i
      simp only [TcpConnection.held, List.count_append, Option.toList_some, List.map_cons,
        List.map_nil]
      omega
  · simp only [ne_eq, hst, not_false_iff, if_true, Except.ok.injEq] at hs
    subst hs
    exact ⟨[], h, fun _ => rfl⟩

/-- A buffer taken for sending is held by the connection, or lost if the connection is closed. -/
theorem Accounts.send {pool : BufferPool} {b : Buffer} (h : PoolUse.Inv config
      ⟨pool, (l.conn.held ++ rest) ++ [b.poolIndex]⟩) (owner : χ) (callback : Option UInt64) :
    ∃ lost, Accounts config ⟨owner, (l.conn.send b callback).2, pool⟩ (lost ++ rest) ∧
      (l.conn.state = .CONNECTED → lost = []) := by
  unfold TcpConnection.send
  by_cases hst : l.conn.state = .CONNECTED
  · refine ⟨[], ?_, fun _ => rfl⟩
    simp only [hst, ne_eq, not_true, if_false]
    refine h.perm ?_
    rw [List.perm_iff_count]
    intro i
    simp only [TcpConnection.held, List.count_append, List.map_append, List.map_cons, List.map_nil,
      List.nil_append]
    omega
  · refine ⟨[b.poolIndex], ?_, fun h => absurd h hst⟩
    simp only [ne_eq, hst, not_false_iff, if_true]
    refine h.perm ?_
    rw [List.perm_iff_count]
    intro i
    simp only [List.count_append]
    omega

theorem Accounts.sendCompletion {onSent : UInt64 → Bool → χ → χ} {i : Nat} {result : Int}
    (h : l.Accounts config rest) (hs : l.sendCompletion onSent i result = some l') :
    l'.Accounts config rest := by
  unfold Link.sendCompletion at hs
  cases hop : l.conn.sends[i]? with
  | none => simp [hop] at hs
  | some op =>
    obtain ⟨hi, hget⟩ := List.getElem?_eq_some_iff.1 hop
    simp only [hop, Option.some.injEq] at hs
    subst hs
    have hperm := (List.getElem_cons_eraseIdx_perm hi).map (·.buffer.poolIndex)
    rw [hget, List.map_cons] at hperm
    have hrest : (l.conn.held ++ rest).Perm ([op.buffer.poolIndex] ++
        ((l.conn.recvBuffer.toList.map Buffer.poolIndex ++
          (l.conn.sends.eraseIdx i).map (·.buffer.poolIndex)) ++ rest)) := by
      rw [List.perm_iff_count] at hperm ⊢
      intro j
      have := hperm j
      rw [← List.singleton_append] at this
      simp only [TcpConnection.held, List.count_append] at this ⊢
      omega
    have hrel := PoolUse.Inv.released (PoolUse.Inv.perm h hrest) (b := op.buffer) (by simp)
    rw [List.singleton_append, List.erase_cons_head] at hrel
    exact hrel

end Link

/-! ### Callbacks -/

/-- The endpoint keeps account of its buffers. An owner that is `idle` has not been given a frame
yet; until then it loses nothing. -/
structure Endpoint.Conserves (E : Endpoint χ ο) (idle : χ → Prop) : Prop where
  message : ∀ {config : BufferPoolConfig} {l l' : Link χ} {buffer : Buffer} {rest : List Nat},
    l.Accounts config rest → E.onMessage l buffer = .ok l' →
      ∃ lost, l'.Accounts config (lost ++ (E.handed l.owner l.pool buffer ++ rest))
  late : ∀ {config : BufferPoolConfig} {l l' : Link χ} {op : ο} {rest : List Nat},
    l.Accounts config rest → E.late op l = some (.ok l') →
      ∃ lost, l'.Accounts config (lost ++ rest) ∧ (idle l.owner → lost = [] ∧ idle l'.owner)
  ended : ∀ {result : Int} {c : χ}, idle c → idle (E.onEnd result c)
  sent : ∀ {id : UInt64} {success : Bool} {c : χ}, idle c → idle (E.onSent id success c)

theorem RpcServer.accounts_sendResponse {σ : Type*} {l l' : Link (RpcServer σ)} {reserved : UInt32}
    {requestId : UInt64} {response : RpcResponse} {rest : List Nat} (h : l.Accounts config rest)
    (hs : sendResponse reserved l requestId response = .ok l') :
    ∃ lost, l'.Accounts config (lost ++ rest) := by
  unfold sendResponse at hs
  rcases ha : l.pool.acquire with f | ⟨r, pool⟩
  · simp [ha] at hs
  · obtain ⟨b, rfl, hinv⟩ := PoolUse.Inv.acquire_ok h ha
    simp only [ha, Except.ok.injEq] at hs
    subst hs
    have hidx : (writeResponse b requestId response reserved).poolIndex = b.poolIndex := by
      unfold writeResponse
      split <;> split <;> rfl
    rw [← hidx] at hinv
    obtain ⟨lost, hacc, -⟩ := Link.Accounts.send hinv _ none
    exact ⟨lost, hacc⟩

/-- What the callback does to connection and pool: nothing, or one `send_response`. -/
theorem RpcServer.onMessage_cases {σ : Type*} {l l' : Link (RpcServer σ)} {reserved : UInt32}
    {buffer : Buffer} (h : onMessage reserved l buffer = .ok l') :
    (∃ g : RpcServer σ → RpcServer σ, l' = l.mapOwner g) ∨
      ∃ (f g : RpcServer σ → RpcServer σ) (id : UInt64) (response : RpcResponse),
        (sendResponse reserved (l.mapOwner f) id response).map (Link.mapOwner g) = .ok l' := by
  unfold onMessage at h
  dsimp only at h
  simp only [Link.mapOwner_mapOwner] at h
  split at h
  · exact .inl ⟨_, (Except.ok.inj h).symm⟩
  split at h
  · exact .inl ⟨_, (Except.ok.inj h).symm⟩
  split at h
  · exact .inr ⟨_, _, _, _, h⟩
  split at h
  · exact .inl ⟨_, (Except.ok.inj h).symm⟩
  · exact .inr ⟨_, _, _, _, h⟩
  · exact .inl ⟨_, (Except.ok.inj h).symm⟩

theorem RpcServer.conserves {σ : Type*} (reserved : RpcServer σ → UInt32) :
    (endpoint reserved).Conserves (fun s : RpcServer σ => s.asyncCalls = []) := by
  refine ⟨fun {config l l' buffer rest} h hm => ?_, fun {config l l' op rest} h hl => ?_,
    fun h => h, fun h => h⟩
  · rcases onMessage_cases hm with ⟨g, rfl⟩ | ⟨f, g, id, response, hs⟩
    · exact ⟨[], h⟩
    · obtain ⟨l₁, hr, rfl⟩ := map_eq_ok_iff.1 hs
      obtain ⟨lost, hacc⟩ := accounts_sendResponse (l := l.mapOwner f) h hr
      exact ⟨lost, hacc⟩
  · simp only [endpoint] at hl
    split at hl
    · rename_i hmem
      obtain ⟨l₁, hr, rfl⟩ := map_eq_ok_iff.1 (Option.some.inj hl)
      obtain ⟨lost, hacc⟩ := accounts_sendResponse h hr
      exact ⟨lost, hacc, fun hidle => by simp [hidle] at hmem⟩
    · cases hl

namespace RpcClient

theorem readPayload_accounts {l : Link RpcClient} {rest : List Nat} {bytes : List UInt8}
    {offset : Nat} {payload : Option Buffer} {pool : BufferPool} (h : l.Accounts config rest)
    (hr : readPayload l.pool bytes offset = .ok (payload, pool)) (owner : RpcClient) :
    Link.Accounts config ⟨owner, l.conn, pool⟩ (payload.toList.map Buffer.poolIndex ++ rest) := by
  unfold readPayload at hr
  split at hr
  · rcases ha : l.pool.acquire with f | ⟨r, pool'⟩
    · simp [ha] at hr
    · obtain ⟨b, rfl, hinv⟩ := PoolUse.Inv.acquire_ok h ha
      simp only [ha, Except.ok.injEq, Prod.mk.injEq] at hr
      obtain ⟨rfl, rfl⟩ := hr
      refine hinv.perm ?_
      rw [List.perm_iff_count]
      intro i
      simp only [List.count_append, Option.toList_some, List.map_cons, List.map_nil,
        Buffer.poolIndex_write]
      omega
  · obtain ⟨rfl, rfl⟩ : none = payload ∧ l.pool = pool := by simpa using hr
    exact h

/-- While the client is connected there is a buffer for a request, and the request is sent, not
dropped. -/
theorem accounts_send {l : Link RpcClient} {rest : List Nat} {pool : BufferPool}
    {acquired : Option Buffer} (h : l.Accounts config rest)
    (ha : l.pool.acquire = .ok (acquired, pool)) (hc : isConnected l = true) :
    ∃ b, acquired = some b ∧ ∀ (owner : RpcClient) header payload callback, Link.Accounts config
      ⟨owner, (l.conn.send (writeRequest b header payload) callback).2, pool⟩ rest := by
  obtain ⟨b, rfl, hinv⟩ := PoolUse.Inv.acquire_ok h ha
  refine ⟨b, rfl, fun owner header payload callback => ?_⟩
  have hst : l.conn.state = .CONNECTED := by
    have := (Bool.and_eq_true_iff.1 hc).2
    simpa using this
  have hidx : (writeRequest b header payload).poolIndex = b.poolIndex := rfl
  rw [← hidx] at hinv
  obtain ⟨lost, hacc, hlost⟩ := Link.Accounts.send hinv owner callback
  rwa [hlost hst] at hacc

theorem callAsync_accounts {l : Link RpcClient} {rest : List Nat} {reserved methodId : UInt32}
    {payload : List UInt8} {r : Nat × Link RpcClient} (h : l.Accounts config rest)
    (hr : callAsync reserved l methodId payload = .ok r) : r.2.Accounts config rest := by
  unfold callAsync at hr
  by_cases hc : isConnected l = true
  · rcases ha : l.pool.acquire with f | ⟨b, pool⟩
    · simp [hc, ha] at hr
    · obtain ⟨b, rfl, hsent⟩ := accounts_send h ha hc
      simp only [hc, ha, Bool.not_true, Bool.false_eq_true, if_false, Except.ok.injEq] at hr
      subst hr
      exact hsent _ _ payload _
  · simp only [hc, Bool.not_false, if_true, Except.ok.injEq] at hr
    subst hr
    exact h

theorem callOneway_accounts {l : Link RpcClient} {rest : List Nat} {reserved methodId : UInt32}
    {payload : List UInt8} {r : Bool × Link RpcClient} (h : l.Accounts config rest)
    (hr : callOneway reserved l methodId payload = .ok r) : r.2.Accounts config rest := by
  unfold callOneway at hr
  by_cases hc : isConnected l = true
  · rcases ha : l.pool.acquire with f | ⟨b, pool⟩
    · simp [hc, ha] at hr
    · obtain ⟨b, rfl, hsent⟩ := accounts_send h ha hc
      simp only [hc, ha, Bool.not_true, Bool.false_eq_true, if_false, Except.ok.injEq] at hr
      subst hr
      exact hsent _ _ payload _
  · simp only [hc, Bool.not_false, if_true, Except.ok.injEq] at hr
    subst hr
    exact h

theorem conserves : endpoint.Conserves (fun _ : RpcClient => True) := by
  refine ⟨fun {config l l' buffer rest} h hm => ?_, fun {config l l' op rest} h hl => ?_,
    fun _ => trivial, fun _ => trivial⟩
  · refine ⟨[], ?_⟩
    simp only [endpoint, onMessage, payloadFor] at hm ⊢
    by_cases hsize : buffer.size < RpcHeader.SIZE
    · simp only [if_pos hsize, Except.ok.injEq] at hm ⊢
      exact hm ▸ h
    · simp only [if_neg hsize] at hm ⊢
      cases hp : l.owner.pendingRequests.get? (RpcHeader.decode buffer.bytes).requestId with
      | none =>
        simp only [hp, Except.ok.injEq] at hm ⊢
        exact hm ▸ h
      | some future =>
        simp only [hp, Link.mapOwner] at hm ⊢
        rcases hr : readPayload l.pool buffer.bytes (readError buffer.bytes).2 with f | ⟨payload, pool⟩
        · simp [hr] at hm
        · simp only [hr, Except.ok.injEq] at hm ⊢
          subst hm
          exact readPayload_accounts h hr _
  · refine ⟨[], ?_, fun _ => ⟨rfl, trivial⟩⟩
    obtain ⟨reserved, call⟩ := op
    rcases endpoint_late_cases hl with ⟨methodId, payload, future, rfl, hr⟩ |
      ⟨methodId, payload, sent, rfl, hr⟩
    · exact callAsync_accounts h hr
    · exact callOneway_accounts h hr

end RpcClient

/-! ### Runs -/

/-- After `n` frames at least `n` buffers are lost, and none if `n = 0`. -/
def Channel.Accounted (config : BufferPoolConfig) (idle : χ → Prop) (n : Nat) (c : Channel χ) : Prop :=
  ∃ lost, c.link.Accounts config (lost ++ c.users) ∧ n ≤ lost.length ∧
    (n = 0 → lost = [] ∧ idle c.link.owner)

namespace Channel
variable {E : Endpoint χ ο} {idle : χ → Prop} {c c' : Channel χ}

theorem Accounted.start {owner : χ} (hidle : idle owner) (h : Channel.start config owner = .ok c) :
    c.Accounted config idle 0 := by
  unfold Channel.start at h
  obtain ⟨l, hs, rfl⟩ := map_eq_ok_iff.1 h
  have hnew : Link.Accounts config ⟨owner, {}, .create config⟩ [] := .create config
  obtain ⟨lost, hacc, hlost⟩ := hnew.startRecv hs
  obtain rfl := hlost rfl
  have howner := Link.owner_startRecv hs
  exact ⟨[], hacc, Nat.zero_le _, fun _ => ⟨rfl, howner ▸ hidle⟩⟩

theorem Accounted.data {n : Nat} {bs : List UInt8} (hE : E.Conserves idle)
    (h : c.Accounted config idle n) (hs : c.step E (.data bs) = some c') :
    c'.Accounted config idle (n + 1) := by
  obtain ⟨lost, hacc, hn, -⟩ := h
  obtain ⟨buffer, l, hb, -, -, -, hr, rfl⟩ := step_data_iff.1 hs
  rw [Link.recvData_eq _ _ hb] at hr
  set l₀ := c.link.mapConn fun conn =>
    { conn with
      recvBuffer := none
      recvPending := false
      stats := conn.stats.received bs.length } with hl₀
  have hacc₀ : l₀.Accounts config ([buffer.poolIndex] ++ (lost ++ c.users)) := by
    refine PoolUse.Inv.perm hacc ?_
    simp only [hl₀, Link.mapConn, TcpConnection.held, hb, List.perm_iff_count, List.count_append,
      Option.toList_some, Option.toList_none, List.map_cons, List.map_nil]
    intro i
    simp only [List.count_nil]
    omega
  rcases hm : E.onMessage l₀ (buffer.receive bs) with f | l₁
  · simp [hm, Except.bind] at hr
  · simp only [hm, Except.bind] at hr
    obtain ⟨lost₁, hacc₁⟩ := hE.message hacc₀ hm
    obtain ⟨lost₂, hacc₂, -⟩ := hacc₁.startRecv hr
    refine ⟨lost₂ ++ lost₁ ++ [buffer.poolIndex] ++ lost, hacc₂.perm ?_, ?_, fun h => by omega⟩
    · show (lost₂ ++ (lost₁ ++ (E.handed c.link.owner c.link.pool (buffer.receive bs) ++
        ([buffer.poolIndex] ++ (lost ++ c.users))))).Perm _
      rw [List.perm_iff_count]
      intro i
      simp only [List.count_append]
      omega
    · simp only [List.length_append, List.length_singleton]
      omega

/-- Nothing but a frame, or an operation that a frame has led to, loses a buffer. -/
theorem Accounted.other {n : Nat} {e : ChannelEvent ο} (hE : E.Conserves idle)
    (h : c.Accounted config idle n) (hs : c.step E e = some c') (he : chunks [e] = []) :
    c'.Accounted config idle n := by
  obtain ⟨lost, hacc, hn, hzero⟩ := h
  cases e with
  | data bs => simp [chunks] at he
  | ended result =>
    obtain ⟨-, rfl⟩ := step_ended_iff.1 hs
    have hheld : (c.link.recvEnd (E.onEnd result) result).conn.held = c.link.conn.held := by
      simp only [Link.recvEnd, Link.mapOwner, Link.mapConn, TcpConnection.close]
      split <;> rfl
    refine ⟨lost, ?_, hn, fun h => ⟨(hzero h).1, hE.ended (hzero h).2⟩⟩
    rw [Link.Accounts, hheld]
    exact hacc
  | sent i result =>
    obtain ⟨l, hl, rfl⟩ := step_sent_iff.1 hs
    refine ⟨lost, hacc.sendCompletion hl, hn, fun h => ⟨(hzero h).1, ?_⟩⟩
    unfold Link.sendCompletion at hl
    cases hop : c.link.conn.sends[i]? with
    | none => simp [hop] at hl
    | some op =>
      simp only [hop, Option.some.injEq] at hl
      subst hl
      cases hcb : op.callback with
      | none => simpa [hcb] using (hzero h).2
      | some id => simpa [hcb] using hE.sent (hzero h).2
  | pool call =>
    obtain ⟨u, hu, rfl⟩ := step_pool_iff.1 hs
    refine ⟨lost, ?_, hn, hzero⟩
    have hacc' : PoolUse.Inv config ⟨c.link.pool, c.users ++ (c.link.conn.held ++ lost)⟩ := by
      refine PoolUse.Inv.perm hacc ?_
      rw [List.perm_iff_count]
      intro i
      simp only [List.count_append]
      omega
    refine (hacc'.frame_step hu).perm ?_
    rw [List.perm_iff_count]
    intro i
    simp only [List.count_append]
    omega
  | late op =>
    obtain ⟨l, hl, rfl⟩ := step_late_iff.1 hs
    obtain ⟨lost₁, hacc₁, hidle₁⟩ := hE.late hacc hl
    refine ⟨lost₁ ++ lost, by simpa using hacc₁, by simp; omega, fun h => ?_⟩
    obtain ⟨rfl, hidle⟩ := hzero h
    obtain ⟨rfl, hidle'⟩ := hidle₁ hidle
    exact ⟨rfl, hidle'⟩

theorem Accounted.run {events : List (ChannelEvent ο)} (hE : E.Conserves idle)
    (h₀ : c.Accounted config idle 0) (h : run (step E) c events = some c') :
    c'.Accounted config idle (chunks events).length := by
  refine run_induction (motive := fun es s => s.Accounted config idle (chunks es).length) h₀ ?_
    .unconditional h
  intro es s e s' _ ih _ hs
  rw [chunks_append, List.length_append]
  cases e with
  | data bs => exact ih.data hE hs
  | ended result => exact ih.other hE hs rfl
  | sent i result => exact ih.other hE hs rfl
  | pool call => exact ih.other hE hs rfl
  | late op => exact ih.other hE hs rfl

/-- The lost buffers are the ones nobody has. -/
theorem Accounted.noneLost_iff {n : Nat} (h : c.Accounted config idle n) : c.NoneLost ↔ n = 0 := by
  obtain ⟨lost, hacc, hn, hzero⟩ := h
  have hpart := hacc.partition
  constructor
  · intro hnone
    have hnd : (c.link.pool.freeList ++ (c.link.conn.held ++ (lost ++ c.users))).Nodup :=
      hpart.nodup_iff.2 List.nodup_range
    cases lost with
    | nil => simpa using hn
    | cons i lost =>
      exfalso
      have hi : i < c.link.pool.bufferStorage.length := hacc.lt_of_mem (by simp)
      obtain ⟨-, hnd', hfree⟩ := List.nodup_append.1 hnd
      obtain ⟨-, hnd'', hheld⟩ := List.nodup_append.1 hnd'
      obtain ⟨-, -, huser⟩ := List.nodup_append.1 hnd''
      rcases hnone i hi with hmem | hmem | hmem
      · exact hfree i hmem i (by simp) rfl
      · exact hheld i hmem i (by simp) rfl
      · exact huser i (by simp) i hmem rfl
  · intro h0
    obtain ⟨rfl, -⟩ := hzero h0
    intro i hi
    have hmem := hpart.mem_iff.2 (List.mem_range.2 hi)
    simpa [or_assoc] using hmem

end Channel

/-- A connection that has received any frame has lost a buffer, at a server as at a client. -/
theorem no_buffer_lost_iff {σ : Type*} (config : BufferPoolConfig) (reserved : RpcServer σ → UInt32)
    (server : RpcServer σ) (hidle : server.asyncCalls = []) (client : RpcClient) :
    (∀ c c' events, Channel.start config server = .ok c →
      run (Channel.step (RpcServer.endpoint reserved)) c events = some c' →
      (c'.NoneLost ↔ chunks events = [])) ∧
    (∀ c c' events, Channel.start config client = .ok c →
      run (Channel.step RpcClient.endpoint) c events = some c' →
      (c'.NoneLost ↔ chunks events = [])) := by
  refine ⟨fun c c' events hs hr => ?_, fun c c' events hs hr => ?_⟩
  · have hstart : c.Accounted config (fun s : RpcServer σ => s.asyncCalls = []) 0 := .start hidle hs
    rw [(hstart.run (RpcServer.conserves reserved) hr).noneLost_iff, List.length_eq_zero_iff]
  · have hstart : c.Accounted config (fun _ : RpcClient => True) 0 := .start trivial hs
    rw [(hstart.run RpcClient.conserves hr).noneLost_iff, List.length_eq_zero_iff]

section Example

theorem no_buffer_lost_iff_short :
    idleServer.owner.asyncCalls = [] ∧ ∃ c c',
      Channel.start .few idleServer.owner = .ok c ∧
      run (Channel.step (RpcServer.endpoint fun _ => 0)) c [.data [0]] = some c' ∧
      (c'.NoneLost ↔ [([0] : List UInt8)] = []) := by
  obtain ⟨c, hc⟩ : ∃ c, Channel.start .few idleServer.owner = .ok c := ⟨_, rfl⟩
  obtain ⟨c', hc'⟩ : ∃ c', run (Channel.step (RpcServer.endpoint fun _ => 0)) c [.data [0]] =
      some c' := by
    obtain rfl := Except.ok.inj hc
    exact ⟨_, rfl⟩
  exact ⟨rfl, c, c', hc, hc', (no_buffer_lost_iff .few (fun _ => 0) idleServer.owner rfl {}).1
    c c' _ hc hc'⟩

/-- A frame that is too short is dropped together with the buffer it came in. -/
theorem short_frame_loses_buffer : ∃ c c',
    Channel.start .few idleServer.owner = .ok c ∧
    run (Channel.step (RpcServer.endpoint fun _ => 0)) c [.data [0]] = some c' ∧
    c'.link.conn.sends = [] ∧ c'.users = [] ∧
    c.link.pool.freeList = [0, 1, 2] ∧ c.link.conn.held = [3] ∧
    c'.link.pool.freeList = [0, 1] ∧ c'.link.conn.held = [2] ∧ ¬ c'.NoneLost := by
  refine ⟨_, _, rfl, rfl, rfl, rfl, rfl, rfl, rfl, rfl, fun h => ?_⟩
  rcases h 3 (by decide) with h | h | h
  · exact absurd h (by decide)
  · exact absurd h (by decide)
  · exact absurd h (by decide)

end Example

theorem Channel.Accounted.total_le {idle : χ → Prop} {c : Channel χ} {n : Nat}
    (h : c.Accounted config idle n) (hle : config.initialCount ≤ config.maxCount) :
    c.link.pool.freeList.length + c.link.conn.held.length + c.users.length + n ≤
      config.maxCount := by
  obtain ⟨lost, hacc, hn, -⟩ := h
  have hparts := hacc.partition.length_eq
  have htotal := hacc.wf.total
  have hbound := hacc.bound hle
  simp only [List.length_append, List.length_range] at hparts htotal hbound
  omega

/-- Each frame that is received takes a buffer out of the pool for good, so a connection receives
`max_count` frames at most, however the application uses the pool. -/
theorem frames_within_max_count {σ : Type*} (config : BufferPoolConfig)
    (hle : config.initialCount ≤ config.maxCount) (reserved : RpcServer σ → UInt32)
    (server : RpcServer σ) (hidle : server.asyncCalls = []) (client : RpcClient) :
    (∀ c c' events, Channel.start config server = .ok c →
      run (Channel.step (RpcServer.endpoint reserved)) c events = some c' →
      c'.link.pool.freeList.length + c'.link.conn.held.length + c'.users.length +
        (chunks events).length ≤ config.maxCount) ∧
    (∀ c c' events, Channel.start config client = .ok c →
      run (Channel.step RpcClient.endpoint) c events = some c' →
      c'.link.pool.freeList.length + c'.link.conn.held.length + c'.users.length +
        (chunks events).length ≤ config.maxCount) := by
  refine ⟨fun c c' events hs hr => ?_, fun c c' events hs hr => ?_⟩
  · have hstart : c.Accounted config (fun s : RpcServer σ => s.asyncCalls = []) 0 := .start hidle hs
    exact (hstart.run (RpcServer.conserves reserved) hr).total_le hle
  · have hstart : c.Accounted config (fun _ : RpcClient => True) 0 := .start trivial hs
    exact (hstart.run RpcClient.conserves hr).total_le hle

section Example

theorem frames_within_max_count_short : ∃ c c',
    Channel.start .few idleServer.owner = .ok c ∧
    run (Channel.step (RpcServer.endpoint fun _ => 0)) c [.data [0], .data [1]] = some c' ∧
    c'.link.pool.freeList.length + c'.link.conn.held.length + c'.users.length + 2 ≤
      BufferPoolConfig.few.maxCount := by
  obtain ⟨c, hc⟩ : ∃ c, Channel.start .few idleServer.owner = .ok c := ⟨_, rfl⟩
  obtain ⟨c', hc'⟩ : ∃ c', run (Channel.step (RpcServer.endpoint fun _ => 0)) c
      [.data [0], .data [1]] = some c' := by
    obtain rfl := Except.ok.inj hc
    exact ⟨_, rfl⟩
  exact ⟨c, c', hc, hc', (frames_within_max_count .few (by decide) (fun _ => 0)
    idleServer.owner rfl {}).1 c c' _ hc hc'⟩

end Example

end GossipRl
