import GossipRl.Rpc.ClientSession
import GossipRl.Rpc.Traffic

/-!
# The outstanding receive

A connection is kept receiving by the completion callback, which starts the next receive when the
message callback has returned. `countStep` counts the receives that are submitted and not completed.
The owner of a connection can send on it, close it and use the pool, but has no hold of its receive
(`Endpoint.LeavesReceive`). So there is one receive as long as the connection is open, provided
that there is a buffer for it: on an exhausted pool `acquire` does not return a null pointer, for
which `start_recv` has a branch, but reads the end of an empty vector.
-/

namespace GossipRl
open Support

variable {χ ο : Type*}

namespace BufferPool
variable {p p' : BufferPool}

theorem WF.acquire {r : Option Buffer} (h : p.WF) (ha : p.acquire = .ok (r, p')) :
    (∃ b, r = some b) ∧ p'.WF := by
  by_cases hc : p.CanAcquire
  · obtain ⟨k, b, p'', heq, hacq⟩ := acquire_of_canAcquire h hc
    rw [heq] at ha
    obtain ⟨rfl, rfl⟩ := Prod.mk.inj (Except.ok.inj ha)
    exact ⟨⟨b, rfl⟩, hacq.wf⟩
  · rw [acquire_of_not_canAcquire hc] at ha
    cases ha

end BufferPool

theorem PoolUse.wf_step {u u' : PoolUse} {call : PoolCall} (h : u.pool.WF)
    (hs : u.step call = some u') : u'.pool.WF := by
  cases call with
  | acquire =>
    rcases ha : u.pool.acquire with f | ⟨_ | b, pool⟩
    · simp [step, ha] at hs
    · obtain ⟨⟨b, hb⟩, -⟩ := h.acquire ha
      cases hb
    · simp only [step, ha, Option.some.injEq] at hs
      exact hs ▸ (h.acquire ha).2
  | release buffer =>
    simp only [step, Option.ite_none_right_eq_some, Option.some.injEq] at hs
    exact hs.2 ▸ h.release (some buffer)

namespace Link
variable {l l' l'' : Link χ}

/-- From `l` to `l'` the receive is left alone, and the connection is not opened. -/
structure LeavesReceive (l l' : Link χ) : Prop where
  recvPending : l'.conn.recvPending = l.conn.recvPending
  connected : l'.conn.state = .CONNECTED → l.conn.state = .CONNECTED
  wf : l.pool.WF → l'.pool.WF

namespace LeavesReceive

theorem refl (l : Link χ) : l.LeavesReceive l := ⟨rfl, id, id⟩

theorem trans (h : l.LeavesReceive l') (h' : l'.LeavesReceive l'') : l.LeavesReceive l'' :=
  ⟨h'.recvPending.trans h.recvPending, h.connected ∘ h'.connected, h'.wf ∘ h.wf⟩

theorem of_conn_eq (hconn : l'.conn = l.conn) (hwf : l.pool.WF → l'.pool.WF) :
    l.LeavesReceive l' := by
  refine ⟨?_, ?_, hwf⟩
  · rw [hconn]
  · rw [hconn]
    exact id

theorem of_send {buffer : Buffer} {callback : Option UInt64}
    (hconn : l'.conn = (l.conn.send buffer callback).2) (hwf : l.pool.WF → l'.pool.WF) :
    l.LeavesReceive l' := by
  unfold TcpConnection.send at hconn
  split at hconn
  · exact of_conn_eq hconn hwf
  · refine ⟨?_, ?_, hwf⟩
    · rw [hconn]
    · rw [hconn]
      exact id

end LeavesReceive

/-- How many receive operations `start_recv` submits. -/
def submitted (l : Link χ) : Nat :=
  if l.conn.state ≠ .CONNECTED then 0
  else
    match l.pool.acquire with
    | .ok (some _, _) => 1
    | _ => 0

/-- After `start_recv` an open connection has a receive, which has just been submitted. -/
theorem startRecv_spec (hpool : l.pool.WF) (hpending : l.conn.recvPending = false)
    (h : l.startRecv = .ok l') : l'.pool.WF ∧ l'.conn.recvPending.toNat = l.submitted ∧
      (l'.conn.state = .CONNECTED → l'.conn.recvPending = true) := by
  unfold startRecv at h
  unfold submitted
  by_cases hst : l.conn.state = .CONNECTED
  · rw [if_neg (not_not.2 hst)] at h ⊢
    rcases ha : l.pool.acquire with f | ⟨_ | b, pool⟩
    · simp [ha] at h
    · obtain ⟨⟨b, hb⟩, -⟩ := hpool.acquire ha
      cases hb
    · simp only [ha, Except.ok.injEq] at h
      subst h
      exact ⟨(hpool.acquire ha).2, rfl, fun _ => rfl⟩
  · rw [if_pos hst] at h ⊢
    obtain rfl := Except.ok.inj h
    exact ⟨hpool, by rw [hpending]; rfl, fun hopen => absurd hopen hst⟩

/-- `start_recv` is defined exactly if the connection is not open or the pool has a buffer. -/
theorem startRecv_ok_iff (hpool : l.pool.WF) :
    (∃ l', l.startRecv = .ok l') ↔ (l.conn.state = .CONNECTED → l.pool.CanAcquire) := by
  unfold startRecv
  by_cases hst : l.conn.state = .CONNECTED
  · rw [if_neg (not_not.2 hst)]
    by_cases hc : l.pool.CanAcquire
    · obtain ⟨k, b, pool, ha, -⟩ := BufferPool.acquire_of_canAcquire hpool hc
      exact iff_of_true ⟨_, by rw [ha]⟩ fun _ => hc
    · rw [BufferPool.acquire_of_not_canAcquire hc]
      exact iff_of_false (by simp) fun h => hc (h hst)
  · rw [if_pos hst]
    exact iff_of_true ⟨_, rfl⟩ fun hopen => absurd hopen hst

end Link

/-- Neither the message callback nor what the owner starts by itself touches the receive. -/
structure Endpoint.LeavesReceive (E : Endpoint χ ο) : Prop where
  message : ∀ {l l' : Link χ} {buffer : Buffer}, E.onMessage l buffer = .ok l' → l.LeavesReceive l'
  late : ∀ {l l' : Link χ} {op : ο}, E.late op l = some (.ok l') → l.LeavesReceive l'

/-! ### Servers and clients -/

theorem RpcServer.leavesReceive_sendResponse {σ : Type*} {l l' : Link (RpcServer σ)}
    {reserved : UInt32} {requestId : UInt64} {response : RpcResponse}
    (h : sendResponse reserved l requestId response = .ok l') : l.LeavesReceive l' := by
  unfold sendResponse at h
  rcases ha : l.pool.acquire with f | ⟨_ | b, pool⟩
  · simp [ha] at h
  · simp only [ha, Except.ok.injEq] at h
    subst h
    exact .of_conn_eq rfl fun hpool => (hpool.acquire ha).2
  · simp only [ha, Except.ok.injEq] at h
    subst h
    exact .of_send rfl fun hpool => (hpool.acquire ha).2

theorem RpcServer.leavesReceive {σ : Type*} (reserved : RpcServer σ → UInt32) :
    (endpoint reserved).LeavesReceive := by
  constructor
  · intro l l' buffer h
    rcases onMessage_cases h with ⟨g, rfl⟩ | ⟨f, g, id, response, hs⟩
    · exact .of_conn_eq rfl fun hpool => hpool
    · obtain ⟨l₁, hr, rfl⟩ := map_eq_ok_iff.1 hs
      obtain ⟨hpending, hconnected, hwf⟩ := leavesReceive_sendResponse hr
      exact ⟨hpending, hconnected, hwf⟩
  · intro l l' op h
    simp only [endpoint, Option.ite_none_right_eq_some, Option.some.injEq, asyncComplete] at h
    obtain ⟨l₁, hr, rfl⟩ := map_eq_ok_iff.1 h.2
    obtain ⟨hpending, hconnected, hwf⟩ := leavesReceive_sendResponse hr
    exact ⟨hpending, hconnected, hwf⟩

namespace RpcClient

theorem wf_readPayload {pool pool' : BufferPool} {bytes : List UInt8} {offset : Nat}
    {payload : Option Buffer} (hpool : pool.WF)
    (h : readPayload pool bytes offset = .ok (payload, pool')) : pool'.WF := by
  unfold readPayload at h
  split at h
  · rcases ha : pool.acquire with f | ⟨_ | b, pool₁⟩
    · simp [ha] at h
    · simp only [ha, Except.ok.injEq, Prod.mk.injEq] at h
      exact h.2 ▸ (hpool.acquire ha).2
    · simp only [ha, Except.ok.injEq, Prod.mk.injEq] at h
      exact h.2 ▸ (hpool.acquire ha).2
  · obtain ⟨-, rfl⟩ := Prod.mk.inj (Except.ok.inj h)
    exact hpool

theorem leavesReceive_onMessage {l l' : Link RpcClient} {buffer : Buffer}
    (h : onMessage l buffer = .ok l') : l.LeavesReceive l' := by
  unfold onMessage at h
  split at h
  · obtain rfl := Except.ok.inj h
    exact .refl l
  · dsimp only at h
    split at h
    · obtain rfl := Except.ok.inj h
      exact .refl l
    · simp only [Link.mapOwner] at h
      rcases hr : readPayload l.pool buffer.bytes (readError buffer.bytes).2 with f | ⟨payload, pool⟩
      · simp [hr] at h
      · simp only [hr, Except.ok.injEq] at h
        subst h
        exact .of_conn_eq rfl fun hpool => wf_readPayload hpool hr

theorem leavesReceive_callAsync {l : Link RpcClient} {reserved methodId : UInt32}
    {payload : List UInt8} {r : Nat × Link RpcClient}
    (h : callAsync reserved l methodId payload = .ok r) : l.LeavesReceive r.2 := by
  unfold callAsync at h
  split at h
  · obtain rfl := Except.ok.inj h
    exact .of_conn_eq rfl fun hpool => hpool
  · rcases ha : l.pool.acquire with f | ⟨_ | b, pool⟩
    · simp [ha] at h
    · simp only [ha, Except.ok.injEq] at h
      subst h
      exact .of_conn_eq rfl fun hpool => (hpool.acquire ha).2
    · simp only [ha, Except.ok.injEq] at h
      subst h
      exact .of_send rfl fun hpool => (hpool.acquire ha).2

theorem leavesReceive_callOneway {l : Link RpcClient} {reserved methodId : UInt32}
    {payload : List UInt8} {r : Bool × Link RpcClient}
    (h : callOneway reserved l methodId payload = .ok r) : l.LeavesReceive r.2 := by
  unfold callOneway at h
  split at h
  · obtain rfl := Except.ok.inj h
    exact .refl l
  · rcases ha : l.pool.acquire with f | ⟨_ | b, pool⟩
    · simp [ha] at h
    · simp only [ha, Except.ok.injEq] at h
      subst h
      exact .of_conn_eq rfl fun hpool => (hpool.acquire ha).2
    · simp only [ha, Except.ok.injEq] at h
      subst h
      exact .of_send rfl fun hpool => (hpool.acquire ha).2

theorem leavesReceive_disconnect (l : Link RpcClient) : l.LeavesReceive (disconnect l) := by
  unfold disconnect
  split
  · refine ⟨?_, ?_, id⟩
    · show l.conn.close.recvPending = _
      unfold TcpConnection.close
      split <;> rfl
    · show l.conn.close.state = _ → _
      unfold TcpConnection.close
      split
      · rintro ⟨⟩
      · exact id
  · exact .refl l

theorem leavesReceive : session.LeavesReceive := by
  refine ⟨leavesReceive_onMessage, fun {l l' op} h => ?_⟩
  cases op with
  | call reserved call =>
    rcases endpoint_late_cases h with ⟨methodId, payload, future, rfl, hcall⟩ |
      ⟨methodId, payload, sent, rfl, hcall⟩
    · exact leavesReceive_callAsync hcall
    · exact leavesReceive_callOneway hcall
  | disconnect =>
    obtain rfl : disconnect l = l' := by simpa [session] using h
    exact leavesReceive_disconnect l
  | onComplete future callback =>
    simp only [session, Option.ite_none_right_eq_some, Option.some.injEq, Except.ok.injEq] at h
    exact .of_conn_eq (h.2 ▸ rfl) fun hpool => h.2 ▸ hpool
  | cancel future =>
    simp only [session, Option.ite_none_right_eq_some, Option.some.injEq, Except.ok.injEq] at h
    exact .of_conn_eq (h.2 ▸ rfl) fun hpool => h.2 ▸ hpool

end RpcClient

/-! ### Runs -/

namespace Channel
variable {E : Endpoint χ ο} {c c' : Channel χ} {s s' : Channel χ × Nat} {e : ChannelEvent ο}

/-- The link when the message callback has returned from a receive completion with `bs`. -/
def afterMessage (E : Endpoint χ ο) (c : Channel χ) (bs : List UInt8) : Option (Link χ) :=
  match c.link.conn.recvBuffer with
  | none => none
  | some buffer =>
    if c.link.conn.recvPending ∧ 0 < bs.length ∧ bs.length ≤ buffer.capacity then
      (E.onMessage
        (c.link.mapConn fun conn =>
          { conn with
            recvBuffer := none
            recvPending := false
            stats := conn.stats.received bs.length })
        (buffer.receive bs)).toOption
    else none

theorem afterMessage_of_step_data {bs : List UInt8} (h : c.step E (.data bs) = some c') :
    c.link.conn.recvPending = true ∧
      ∃ l, c.afterMessage E bs = some l ∧ l.startRecv = .ok c'.link := by
  obtain ⟨buffer, l, hb, hpending, hpos, hle, hrecv, rfl⟩ := step_data_iff.1 h
  refine ⟨hpending, ?_⟩
  rw [Link.recvData_eq _ _ hb] at hrecv
  rw [afterMessage, hb]
  dsimp only
  rw [if_pos ⟨hpending, hpos, hle⟩]
  cases hm : E.onMessage _ (buffer.receive bs) with
  | error f =>
    rw [hm] at hrecv
    cases hrecv
  | ok l₁ =>
    rw [hm] at hrecv
    exact ⟨l₁, rfl, hrecv⟩

theorem afterMessage_spec (hE : E.LeavesReceive) {bs : List UInt8} {l : Link χ}
    (h : c.afterMessage E bs = some l) (hpool : c.link.pool.WF) :
    l.conn.recvPending = false ∧ l.pool.WF := by
  unfold afterMessage at h
  split at h
  · cases h
  · split at h
    · cases hm : E.onMessage _ _ with
      | error f =>
        rw [hm] at h
        cases h
      | ok l₁ =>
        rw [hm] at h
        obtain rfl := Option.some.inj h
        have hleaves := hE.message hm
        exact ⟨hleaves.recvPending, hleaves.wf hpool⟩
    · cases h

/-- A step, and how many receives are submitted and not completed after it. -/
def countStep (E : Endpoint χ ο) (s : Channel χ × Nat) (e : ChannelEvent ο) :
    Option (Channel χ × Nat) :=
  (s.1.step E e).map fun c => (c, match e with
    | .data bs => s.2 - 1 + (s.1.afterMessage E bs).elim 0 Link.submitted
    | .ended _ => s.2 - 1
    | _ => s.2)

/-- The flag says how many receives there are, and an open connection has one. -/
structure CountInv (s : Channel χ × Nat) : Prop where
  wf : s.1.link.pool.WF
  count : s.2 = s.1.link.conn.recvPending.toNat
  armed : s.1.link.conn.state = .CONNECTED → s.1.link.conn.recvPending = true

namespace CountInv

theorem leaves (hs : CountInv s) {c : Channel χ} (h : s.1.link.LeavesReceive c.link) :
    CountInv (c, s.2) where
  wf := h.wf hs.wf
  count := hs.count.trans (by rw [h.recvPending])
  armed := fun hopen => h.recvPending.trans (hs.armed (h.connected hopen))

theorem data (hE : E.LeavesReceive) (hs : CountInv s) {bs : List UInt8}
    (h : s.1.step E (.data bs) = some c') :
    CountInv (c', s.2 - 1 + (s.1.afterMessage E bs).elim 0 Link.submitted) := by
  obtain ⟨hpending, l, hl, hstart⟩ := afterMessage_of_step_data h
  obtain ⟨hnone, hpool⟩ := afterMessage_spec hE hl hs.wf
  obtain ⟨hwf, hcount, harmed⟩ := Link.startRecv_spec hpool hnone hstart
  refine ⟨hwf, ?_, harmed⟩
  rw [hl, hs.count, hpending, Option.elim_some]
  simp only [Bool.toNat_true, Nat.sub_self, Nat.zero_add]
  exact hcount.symm

theorem ended (hs : CountInv s) {result : Int} (h : s.1.step E (.ended result) = some c') :
    CountInv (c', s.2 - 1) := by
  obtain ⟨⟨hpending, -⟩, rfl⟩ := step_ended_iff.1 h
  refine ⟨hs.wf, ?_, ?_⟩
  · have hnone : (s.1.link.recvEnd (E.onEnd result) result).conn.recvPending = false := by
      simp only [Link.recvEnd, Link.mapOwner, Link.mapConn, TcpConnection.close]
      split <;> rfl
    rw [hs.count, hpending]
    exact (congrArg Bool.toNat hnone).symm
  · intro hopen
    have hclosed : (s.1.link.recvEnd (E.onEnd result) result).conn.state ≠ .CONNECTED := by
      simp only [Link.recvEnd, Link.mapOwner, Link.mapConn, TcpConnection.close]
      split
      · rintro ⟨⟩
      · assumption
    exact absurd hopen hclosed

theorem step (hE : E.LeavesReceive) (hs : CountInv s) (h : countStep E s e = some s') :
    CountInv s' := by
  obtain ⟨c', hc', rfl⟩ := Option.map_eq_some_iff.1 h
  cases e with
  | data bs => exact hs.data hE hc'
  | ended result => exact hs.ended hc'
  | sent i result =>
    obtain ⟨l, hl, rfl⟩ := step_sent_iff.1 hc'
    refine hs.leaves ?_
    unfold Link.sendCompletion at hl
    split at hl
    · cases hl
    · obtain rfl := Option.some.inj hl
      rename_i op hop
      exact ⟨rfl, id, fun hpool => hpool.release (some op.buffer)⟩
  | pool call =>
    obtain ⟨u, hu, rfl⟩ := step_pool_iff.1 hc'
    exact hs.leaves ⟨rfl, id, fun hpool => PoolUse.wf_step (u := ⟨s.1.link.pool, s.1.users⟩) hpool hu⟩
  | late op =>
    obtain ⟨l, hl, rfl⟩ := step_late_iff.1 hc'
    exact hs.leaves (hE.late hl)

theorem of_run (hE : E.LeavesReceive) (hs : CountInv s) {es : List (ChannelEvent ο)}
    (h : run (countStep E) s es = some s') : CountInv s' :=
  run_invariant hs (fun _ _ _ hs₁ hstep => hs₁.step hE hstep) h

end CountInv

theorem countInv_startRecv {owner : χ} {pool : BufferPool} {l : Link χ} (hpool : pool.WF)
    (h : Link.startRecv ⟨owner, {}, pool⟩ = .ok l) (users : List Nat) :
    CountInv (⟨l, users⟩, Link.submitted ⟨owner, {}, pool⟩) := by
  obtain ⟨hwf, hcount, harmed⟩ := Link.startRecv_spec hpool rfl h
  exact ⟨hwf, hcount.symm, harmed⟩

theorem run_countStep (s : Channel χ × Nat) (events : List (ChannelEvent ο)) :
    (run (countStep E) s events).map Prod.fst = run (step E) s.1 events := by
  induction events generalizing s with
  | nil => rfl
  | cons e events ih =>
    rw [run_cons, run_cons]
    cases hc : s.1.step E e with
    | none =>
      have hnone : countStep E s e = none := by unfold countStep; rw [hc]; rfl
      rw [hnone]
      rfl
    | some c =>
      obtain ⟨n, hn⟩ : ∃ n, countStep E s e = some (c, n) := ⟨_, by unfold countStep; rw [hc]; rfl⟩
      rw [hn]
      exact ih (c, n)

/-- In every state that a run reaches an open connection has exactly one receive, and whenever the
message callback has returned from a completion the next receive can be started. -/
structure ReceivesOne (E : Endpoint χ ο) (s : Channel χ × Nat) (events : List (ChannelEvent ο)) :
    Prop where
  one : ∀ es s', es <+: events → run (countStep E) s es = some s' →
    s'.1.link.conn.state = .CONNECTED → s'.2 = 1
  rearmed : Along (step E)
    (fun c e => ∀ bs l, e = .data bs → c.afterMessage E bs = some l → ∃ l', l.startRecv = .ok l')
    s.1 events

/-- If the connection is open when the message callback has returned, the pool has a buffer. -/
def HasBuffer (E : Endpoint χ ο) (c : Channel χ) (e : ChannelEvent ο) : Prop :=
  ∀ bs l, e = .data bs → c.afterMessage E bs = some l →
    l.conn.state = .CONNECTED → l.pool.CanAcquire

end Channel

open Channel

/-- A connection whose first receive has been started keeps exactly one while it is open, exactly if
the pool has a buffer each time that the next receive is to be started on the open connection. -/
theorem receives_one_iff {E : Endpoint χ ο} (hE : E.LeavesReceive) {owner : χ} {pool : BufferPool}
    {l : Link χ} (hpool : pool.WF) (hstart : Link.startRecv ⟨owner, {}, pool⟩ = .ok l)
    (users : List Nat) (events : List (ChannelEvent ο)) :
    ReceivesOne E (⟨l, users⟩, Link.submitted ⟨owner, {}, pool⟩) events ↔
      Along (Channel.step E) (HasBuffer E) ⟨l, users⟩ events := by
  have hinit := countInv_startRecv hpool hstart users
  have hrearmed : Along (Channel.step E)
      (fun c e => ∀ bs l, e = .data bs → c.afterMessage E bs = some l →
        ∃ l', l.startRecv = .ok l') ⟨l, users⟩ events ↔
      Along (Channel.step E) (HasBuffer E) ⟨l, users⟩ events := by
    refine Along.congr fun es e c _ hc => ?_
    have hcount := run_countStep (E := E) (⟨l, users⟩, Link.submitted ⟨owner, {}, pool⟩) es
    rw [hc] at hcount
    obtain ⟨s, hs, rfl⟩ := Option.map_eq_some_iff.1 hcount
    have hwf := (hinit.of_run hE hs).wf
    refine forall₄_congr fun bs l₁ _ hl₁ => ?_
    exact Link.startRecv_ok_iff (afterMessage_spec hE hl₁ hwf).2
  constructor
  · exact fun h => hrearmed.1 h.rearmed
  · refine fun h => ⟨fun es s _ hs hopen => ?_, hrearmed.2 h⟩
    have hinv := hinit.of_run hE hs
    rw [hinv.count, hinv.armed hopen]
    rfl

section Example

/-- The link of a server connection with a pool of its own. -/
def newServer (config : BufferPoolConfig) : Link (RpcServer Unit) :=
  ⟨idleServer.owner, {}, .create config⟩

theorem receives_one_iff_short : ∃ l, (newServer .few).startRecv = .ok l ∧
    ReceivesOne (RpcServer.endpoint fun _ => 0) (⟨l, []⟩, (newServer .few).submitted)
      [.data [0]] := by
  obtain ⟨l, hl⟩ : ∃ l, (newServer .few).startRecv = .ok l := ⟨_, rfl⟩
  refine ⟨l, hl, (receives_one_iff (RpcServer.leavesReceive fun _ => 0) (.create .few) hl [] _).2 ?_⟩
  obtain rfl := Except.ok.inj hl
  refine Along.singleton ?_
  rintro bs l' ⟨⟩ hl' -
  obtain rfl := Option.some.inj hl'
  exact .inl (by decide)

/-- The only buffer of a pool is lost with the first message, and `start_recv` runs into undefined
behaviour; the connection is open and has no receive. -/
theorem receive_not_rearmed : ∃ l l',
    (newServer .single).startRecv = .ok l ∧ (newServer .single).submitted = 1 ∧
    afterMessage (RpcServer.endpoint fun _ => 0) ⟨l, []⟩ [0] = some l' ∧
    l'.conn.state = .CONNECTED ∧ l'.conn.recvPending = false ∧
    l'.startRecv = .error .backOnEmpty ∧
    ¬ ReceivesOne (RpcServer.endpoint fun _ => 0) (⟨l, []⟩, (newServer .single).submitted)
      [.data [0]] := by
  refine ⟨_, _, rfl, rfl, rfl, rfl, rfl, rfl, fun h => ?_⟩
  obtain ⟨l', hl'⟩ := h.rearmed [] (.data [0]) [] _ rfl rfl [0] _ rfl rfl
  cases hl'

end Example

end GossipRl
