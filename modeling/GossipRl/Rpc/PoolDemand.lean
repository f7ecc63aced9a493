import GossipRl.Rpc.Dispatch
import GossipRl.Rpc.Endpoint

/-!
# What a step asks of the pool

`acquire` is undefined on an exhausted pool, so a step of a connection is defined exactly if the pool
can hand out all the buffers that the step asks for (`step_defined`). How many these are can be told
before the step (`demand`): one for the next receive, and what the owner needs for the frame
(`Draws`). A run in which only possible things happen gets to its end exactly if the pool meets the
demand of every step (`run_defined_iff`).
-/

namespace GossipRl
open Support

namespace BufferPool
variable {α β : Type*} {p : BufferPool} {n m : Nat} {pool : α → BufferPool}
  {pool' : β → BufferPool} {r : Except Fault α}

/-- The pool can hand out `n` buffers, one after the other. -/
def Supplies : Nat → BufferPool → Prop
  | 0, _ => True
  | n + 1, p => p.CanAcquire ∧ ∀ b p', p.acquire = .ok (b, p') → Supplies n p'

/-- What comes to `r` takes `n` buffers from `p`, and leaves the pool that `pool` finds in it. -/
structure Takes (n : Nat) (p : BufferPool) (pool : α → BufferPool) (r : Except Fault α) : Prop where
  defined : (∃ a, r = .ok a) ↔ p.Supplies n
  wf : ∀ a, r = .ok a → (pool a).WF
  left : ∀ a, r = .ok a → ∀ k, p.Supplies (n + k) ↔ (pool a).Supplies k

namespace Takes

theorem ok {a : α} (h : p.WF) (hpool : pool a = p) : Takes 0 p pool (.ok a) where
  defined := ⟨fun _ => trivial, fun _ => ⟨a, rfl⟩⟩
  wf := by
    rintro _ ⟨⟩
    rwa [hpool]
  left := by
    rintro _ ⟨⟩ k
    rw [Nat.zero_add, hpool]

theorem acquire (h : p.WF) (hr : r.map pool = p.acquire.map Prod.snd) : Takes 1 p pool r := by
  by_cases hc : p.CanAcquire
  · obtain ⟨k, b, p', hp', hacquired⟩ := acquire_of_canAcquire h hc
    rw [hp'] at hr
    obtain ⟨a, rfl, hpool⟩ := map_eq_ok_iff.1 hr
    obtain rfl : pool a = p' := hpool
    refine ⟨⟨fun _ => ⟨hc, fun _ _ _ => trivial⟩, fun _ => ⟨a, rfl⟩⟩, ?_, ?_⟩
    · rintro _ ⟨⟩
      exact hacquired.wf
    · rintro _ ⟨⟩ k
      rw [Nat.add_comm]
      refine ⟨fun hs => hs.2 _ _ hp', fun hs => ⟨hc, fun b' p' hp'' => ?_⟩⟩
      obtain ⟨-, rfl⟩ := Prod.mk.inj (Except.ok.inj (hp'.symm.trans hp''))
      exact hs
  · rw [acquire_of_not_canAcquire hc] at hr
    have hnone : ∀ a, r ≠ .ok a := by
      rintro a rfl
      cases hr
    refine ⟨⟨fun ⟨a, ha⟩ => absurd ha (hnone a), fun hs => absurd hs.1 hc⟩, ?_, ?_⟩
    · exact fun a ha => absurd ha (hnone a)
    · exact fun a ha => absurd ha (hnone a)

theorem bind {f : α → Except Fault β} (h : Takes n p pool r)
    (hf : ∀ a, r = .ok a → Takes m (pool a) pool' (f a)) : Takes (n + m) p pool' (r.bind f) := by
  cases r with
  | error fault =>
    have hnot : ¬ p.Supplies n := fun hs => by
      obtain ⟨_, ⟨⟩⟩ := h.defined.2 hs
    refine ⟨⟨?_, fun hs => absurd (supplies_of_add hs) hnot⟩, ?_, ?_⟩
    · rintro ⟨_, ⟨⟩⟩
    · rintro _ ⟨⟩
    · rintro _ ⟨⟩
  | ok a =>
    have hfa := hf a rfl
    refine ⟨hfa.defined.trans (h.left a rfl m).symm, fun b hb => hfa.wf b hb, fun b hb k => ?_⟩
    rw [Nat.add_assoc, h.left a rfl, hfa.left b hb]
where
  supplies_of_add {n m : Nat} {p : BufferPool} (h : p.Supplies (n + m)) : p.Supplies n := by
    induction n generalizing p with
    | zero => trivial
    | succ n ih =>
      rw [Nat.succ_add] at h
      exact ⟨h.1, fun b p' hp' => ih (h.2 b p' hp')⟩

theorem map {f : α → β} (h : Takes n p pool r) (hf : ∀ a, pool' (f a) = pool a) :
    Takes n p pool' (r.map f) := by
  have hok : ∀ a, r = .ok a → Takes 0 (pool a) pool' (.ok (f a)) := fun a ha =>
    .ok (h.wf a ha) (hf a)
  have hbind : Takes (n + 0) p pool' (r.bind fun a => .ok (f a)) := h.bind hok
  cases r <;> exact hbind

end Takes

end BufferPool

open BufferPool

/-- How many buffers the owner of a transport takes from the pool: for a frame that its message
callback gets, and for what it starts by itself. -/
structure Endpoint.Draws {χ ο : Type*} (E : Endpoint χ ο) where
  message : χ → Buffer → Nat
  late : ο → Link χ → Nat
  takes_message : ∀ l buffer, l.pool.WF →
    Takes (message l.owner buffer) l.pool Link.pool (E.onMessage l buffer)
  state_message : ∀ l buffer l', E.onMessage l buffer = .ok l' → l'.conn.state = l.conn.state
  takes_late : ∀ op l r, l.pool.WF → E.late op l = some r → Takes (late op l) l.pool Link.pool r

theorem TcpConnection.state_send (c : TcpConnection) (buffer : Buffer) (callback : Option UInt64) :
    (c.send buffer callback).2.state = c.state := by
  unfold send
  split <;> rfl

theorem Link.takes_startRecv {χ : Type*} {l : Link χ} (h : l.pool.WF) :
    Takes (if l.conn.state = .CONNECTED then 1 else 0) l.pool Link.pool l.startRecv := by
  unfold startRecv
  by_cases hstate : l.conn.state = .CONNECTED
  · rw [if_pos hstate, if_neg (not_not.2 hstate)]
    refine .acquire h ?_
    rcases l.pool.acquire with f | ⟨_ | b, p'⟩ <;> rfl
  · rw [if_neg hstate, if_pos hstate]
    exact .ok h rfl

namespace RpcServer
variable {σ : Type*} {l l' : Link (RpcServer σ)}

theorem takes_asyncComplete (reserved : UInt32) (requestId : UInt64) (response : RpcResponse)
    (h : l.pool.WF) : Takes 1 l.pool Link.pool (asyncComplete reserved l requestId response) := by
  have hsend : Takes 1 l.pool Link.pool (sendResponse reserved l requestId response) := by
    refine .acquire h ?_
    unfold sendResponse
    rcases l.pool.acquire with f | ⟨_ | b, p'⟩ <;> rfl
  exact hsend.map fun _ => rfl

theorem state_asyncComplete {reserved : UInt32} {requestId : UInt64} {response : RpcResponse}
    (h : asyncComplete reserved l requestId response = .ok l') : l'.conn.state = l.conn.state := by
  obtain ⟨l₁, hl₁, rfl⟩ := map_eq_ok_iff.1 h
  unfold sendResponse at hl₁
  split at hl₁
  · cases hl₁
  · obtain rfl := Except.ok.inj hl₁
    rfl
  · obtain rfl := Except.ok.inj hl₁
    exact TcpConnection.state_send ..

/-- A response needs a buffer. -/
def draws (reserved : RpcServer σ → UInt32) : (endpoint reserved).Draws where
  message s buffer :=
    match s.dispatch buffer with
    | .unknownMethod _ | .sync .. => 1
    | _ => 0
  late _ _ := 1
  takes_message l buffer h := by
    show Takes _ _ _ (onMessage _ _ _)
    rw [onMessage_eq]
    have hwf : (l.mapOwner (mapStats (·.received buffer.size))).pool.WF := h
    cases l.owner.dispatch buffer with
    | unknownMethod header => exact takes_asyncComplete _ header.requestId _ hwf
    | sync header payload handler =>
      let result := handler header.context payload l.owner.app
      let l₁ := (l.mapOwner (mapStats (·.received buffer.size))).mapOwner fun s =>
        { s with app := result.2 }
      have hwf₁ : l₁.pool.WF := h
      exact takes_asyncComplete _ header.requestId result.1 hwf₁
    | invalid => exact .ok hwf rfl
    | async => exact .ok hwf rfl
    | noHandler => exact .ok hwf rfl
  state_message l buffer l' h := by
    have h : onMessage (reserved l.owner) l buffer = .ok l' := h
    rw [onMessage_eq] at h
    cases hd : l.owner.dispatch buffer with
    | unknownMethod header =>
      rw [hd] at h
      have hstate := state_asyncComplete h
      exact hstate
    | sync header payload handler =>
      rw [hd] at h
      have hstate := state_asyncComplete h
      exact hstate
    | invalid | async | noHandler =>
      rw [hd] at h
      obtain rfl := Except.ok.inj h
      rfl
  takes_late op l r h hr := by
    obtain ⟨-, hr⟩ := Option.ite_none_right_eq_some.1 hr
    obtain rfl := Option.some.inj hr
    exact takes_asyncComplete _ _ _ h

end RpcServer

namespace RpcClient
variable {l l' : Link RpcClient}

theorem takes_readPayload {p : BufferPool} (h : p.WF) (bytes : List UInt8) (offset : Nat) :
    Takes (if offset < bytes.length then 1 else 0) p Prod.snd (readPayload p bytes offset) := by
  unfold readPayload
  split_ifs
  · refine .acquire h ?_
    rcases p.acquire with f | ⟨_ | b, p'⟩ <;> rfl
  · exact .ok h rfl

theorem takes_callAsync (reserved : UInt32) (methodId : UInt32) (payload : List UInt8)
    (h : l.pool.WF) : Takes (if isConnected l then 1 else 0) l.pool (·.2.pool)
      (callAsync reserved l methodId payload) := by
  unfold callAsync
  cases isConnected l
  · exact .ok h rfl
  · refine .acquire h ?_
    rcases l.pool.acquire with f | ⟨_ | b, p'⟩ <;> rfl

theorem takes_callOneway (reserved : UInt32) (methodId : UInt32) (payload : List UInt8)
    (h : l.pool.WF) : Takes (if isConnected l then 1 else 0) l.pool (·.2.pool)
      (callOneway reserved l methodId payload) := by
  unfold callOneway
  cases isConnected l
  · exact .ok h rfl
  · refine .acquire h ?_
    rcases l.pool.acquire with f | ⟨_ | b, p'⟩ <;> rfl

theorem onMessage_eq_readPayload {buffer : Buffer} {future : Nat} (hsize : ¬ buffer.size < RpcHeader.SIZE)
    (h : l.owner.pendingRequests.get? (RpcHeader.decode buffer.bytes).requestId = some future) :
    ∃ owner : Option Buffer → RpcClient, onMessage l buffer =
      (readPayload l.pool buffer.bytes (readError buffer.bytes).2).map fun read =>
        { l with pool := read.2, owner := owner read.1 } := by
  refine ⟨fun payload => RpcClient.complete
    { l.owner with
      pendingRequests :=
        l.owner.pendingRequests.erase (RpcHeader.decode buffer.bytes).requestId } future
    { status := .ofWire (RpcHeader.decode buffer.bytes).methodId
      errorMessage := (readError buffer.bytes).1
      payload := payload }, ?_⟩
  unfold onMessage
  rw [if_neg hsize]
  simp only [h, Link.mapOwner]
  rcases readPayload l.pool buffer.bytes (readError buffer.bytes).2 with f | ⟨payload, p⟩ <;> rfl

/-- The payload of a response is copied, and a request needs a buffer. -/
def draws : endpoint.Draws where
  message c buffer :=
    if buffer.size < RpcHeader.SIZE then 0
    else
      match c.pendingRequests.get? (RpcHeader.decode buffer.bytes).requestId with
      | none => 0
      | some _ => if (readError buffer.bytes).2 < buffer.bytes.length then 1 else 0
  late _ l := if isConnected l then 1 else 0
  takes_message l buffer h := by
    show Takes _ _ _ (onMessage l buffer)
    by_cases hsize : buffer.size < RpcHeader.SIZE
    · rw [if_pos hsize, onMessage, if_pos hsize]
      exact .ok h rfl
    · rw [if_neg hsize]
      cases hget : l.owner.pendingRequests.get? (RpcHeader.decode buffer.bytes).requestId with
      | none =>
        simp only [onMessage, if_neg hsize, hget]
        exact .ok h rfl
      | some future =>
        obtain ⟨owner, heq⟩ := onMessage_eq_readPayload hsize hget
        rw [heq]
        exact (takes_readPayload h _ _).map fun _ => rfl
  state_message l buffer l' h := by
    have h : onMessage l buffer = .ok l' := h
    by_cases hsize : buffer.size < RpcHeader.SIZE
    · rw [onMessage, if_pos hsize] at h
      obtain rfl := Except.ok.inj h
      rfl
    · cases hget : l.owner.pendingRequests.get? (RpcHeader.decode buffer.bytes).requestId with
      | none =>
        simp only [onMessage, if_neg hsize, hget] at h
        obtain rfl := Except.ok.inj h
        rfl
      | some future =>
        obtain ⟨owner, heq⟩ := onMessage_eq_readPayload hsize hget
        rw [heq] at h
        obtain ⟨read, -, rfl⟩ := map_eq_ok_iff.1 h
        rfl
  takes_late op l r h hr := by
    obtain ⟨reserved, call⟩ := op
    cases call with
    | async methodId payload =>
      obtain rfl := Option.some.inj hr
      exact (takes_callAsync reserved methodId payload h).map fun _ => rfl
    | oneway methodId payload =>
      obtain rfl := Option.some.inj hr
      exact (takes_callOneway reserved methodId payload h).map fun _ => rfl

end RpcClient

namespace Channel
variable {χ ο : Type*} {E : Endpoint χ ο} {c c' : Channel χ} {e : ChannelEvent ο}
  {events : List (ChannelEvent ο)}

/-- What the environment can do: a receive that is armed is completed with 1 to capacity bytes or
ends, a send completes, a user of the pool gives back a buffer it has, and the owner starts an
operation that it can start. -/
def Possible (E : Endpoint χ ο) (c : Channel χ) : ChannelEvent ο → Prop
  | .data bs => ∃ buffer, c.link.conn.recvBuffer = some buffer ∧ c.link.conn.recvPending = true ∧
      0 < bs.length ∧ bs.length ≤ buffer.capacity
  | .ended result => c.link.conn.recvPending = true ∧ result ≤ 0
  | .sent i _ => i < c.link.conn.sends.length
  | .pool .acquire => True
  | .pool (.release buffer) => buffer.poolIndex ∈ c.users
  | .late op => E.late op c.link ≠ none

/-- How many buffers the step asks the pool for. -/
def demand (D : E.Draws) (c : Channel χ) : ChannelEvent ο → Nat
  | .data bs =>
    (match c.link.conn.recvBuffer with
      | none => 0
      | some buffer => D.message c.link.owner (buffer.receive bs)) +
    if c.link.conn.state = .CONNECTED then 1 else 0
  | .pool .acquire => 1
  | .late op => D.late op c.link
  | _ => 0

theorem wf_start {config : BufferPoolConfig} {owner : χ} (h : start config owner = .ok c) :
    c.link.pool.WF := by
  obtain ⟨l, hl, rfl⟩ := map_eq_ok_iff.1 h
  exact (Link.takes_startRecv (BufferPool.WF.create config)).wf l hl

theorem takes_recvData (D : E.Draws) {l : Link χ} {buffer : Buffer} (bs : List UInt8)
    (hbuffer : l.conn.recvBuffer = some buffer) (h : l.pool.WF) :
    Takes (D.message l.owner (buffer.receive bs) + if l.conn.state = .CONNECTED then 1 else 0)
      l.pool Link.pool (l.recvData (some E.onMessage) bs) := by
  rw [Link.recvData_eq _ _ hbuffer]
  let received := l.mapConn fun c =>
    { c with recvBuffer := none, recvPending := false, stats := c.stats.received bs.length }
  have hmessage : Takes (D.message l.owner (buffer.receive bs)) l.pool Link.pool
      (E.onMessage received (buffer.receive bs)) := D.takes_message received _ h
  refine hmessage.bind fun l₁ hl₁ => ?_
  have hstate : l₁.conn.state = l.conn.state := D.state_message received _ _ hl₁
  rw [← hstate]
  exact Link.takes_startRecv (hmessage.wf l₁ hl₁)

/-- What is possible is defined exactly if the pool meets the demand, and the pool stays well
formed. -/
theorem step_defined (D : E.Draws) (hwf : c.link.pool.WF) (h : c.Possible E e) :
    ((∃ c', c.step E e = some c') ↔ c.link.pool.Supplies (c.demand D e)) ∧
      ∀ c', c.step E e = some c' → c'.link.pool.WF := by
  cases e with
  | data bs =>
    obtain ⟨buffer, hbuffer, hpending, hpos, hle⟩ := h
    have htakes := takes_recvData D bs hbuffer hwf
    simp only [demand, hbuffer]
    rw [← htakes.defined]
    constructor
    · constructor
      · rintro ⟨c', hstep⟩
        obtain ⟨-, l, -, -, -, -, hl, -⟩ := step_data_iff.1 hstep
        exact ⟨l, hl⟩
      · rintro ⟨l, hl⟩
        exact ⟨_, step_data_iff.2 ⟨buffer, l, hbuffer, hpending, hpos, hle, hl, rfl⟩⟩
    · intro c' hstep
      obtain ⟨-, l, -, -, -, -, hl, rfl⟩ := step_data_iff.1 hstep
      exact htakes.wf l hl
  | ended result =>
    refine ⟨⟨fun _ => trivial, fun _ => ⟨_, step_ended_iff.2 ⟨h, rfl⟩⟩⟩, fun c' hstep => ?_⟩
    obtain ⟨-, rfl⟩ := step_ended_iff.1 hstep
    exact hwf
  | sent i result =>
    have hop : c.link.conn.sends[i]? = some c.link.conn.sends[i] := List.getElem?_eq_getElem h
    simp only [step, Link.sendCompletion, hop, Option.map_some]
    refine ⟨⟨fun _ => trivial, fun _ => ⟨_, rfl⟩⟩, ?_⟩
    rintro c' ⟨⟩
    exact hwf.release (some c.link.conn.sends[i].buffer)
  | pool call =>
    cases call with
    | acquire =>
      have htakes : Takes 1 c.link.pool Prod.snd c.link.pool.acquire := .acquire hwf rfl
      have hdefined : (∃ c', c.step E (.pool .acquire) = some c') ↔
          ∃ a, c.link.pool.acquire = .ok a := by
        rcases ha : c.link.pool.acquire with f | ⟨_ | b, p'⟩ <;> simp [step, PoolUse.step, ha]
      refine ⟨hdefined.trans htakes.defined, fun c' hstep => ?_⟩
      rcases ha : c.link.pool.acquire with f | ⟨_ | b, p'⟩ <;>
        simp only [step, PoolUse.step, ha, Option.map_none, Option.map_some, reduceCtorEq,
          Option.some.injEq] at hstep
      · exact hstep ▸ htakes.wf _ ha
      · exact hstep ▸ htakes.wf _ ha
    | release buffer =>
      have hstep : c.step E (.pool (.release buffer)) = some ⟨{ c.link with
          pool := c.link.pool.release (some buffer) }, c.users.erase buffer.poolIndex⟩ := by
        have hmem : buffer.poolIndex ∈ c.users := h
        simp [step, PoolUse.step, hmem]
      rw [hstep]
      refine ⟨⟨fun _ => trivial, fun _ => ⟨_, rfl⟩⟩, ?_⟩
      rintro c' ⟨⟩
      exact hwf.release (some buffer)
  | late op =>
    obtain ⟨r, hr⟩ := Option.ne_none_iff_exists'.1 h
    have htakes := D.takes_late op c.link r hwf hr
    show (_ ↔ c.link.pool.Supplies (D.late op c.link)) ∧ _
    rw [← htakes.defined]
    constructor
    · constructor
      · rintro ⟨c', hstep⟩
        obtain ⟨l, hl, -⟩ := step_late_iff.1 hstep
        exact ⟨l, Option.some.inj (hr.symm.trans hl)⟩
      · rintro ⟨l, rfl⟩
        exact ⟨_, step_late_iff.2 ⟨l, hr, rfl⟩⟩
    · intro c' hstep
      obtain ⟨l, hl, rfl⟩ := step_late_iff.1 hstep
      exact htakes.wf l (Option.some.inj (hr.symm.trans hl))

theorem run_defined_iff (D : E.Draws) (hwf : c.link.pool.WF)
    (hpossible : Along (step E) (Possible E) c events) :
    (∃ c', run (step E) c events = some c') ↔
      Along (step E) (fun c e => c.link.pool.Supplies (c.demand D e)) c events := by
  induction events generalizing c with
  | nil => exact ⟨fun _ => .nil, fun _ => ⟨c, rfl⟩⟩
  | cons e events ih =>
    obtain ⟨he, hrest⟩ := Along.cons_iff.1 hpossible
    obtain ⟨hdefined, hkeeps⟩ := step_defined D hwf he
    rw [Along.cons_iff, ← hdefined, run_cons]
    constructor
    · rintro ⟨c', hrun⟩
      obtain ⟨c₁, hstep, hrun⟩ := Option.bind_eq_some_iff.1 hrun
      refine ⟨⟨c₁, hstep⟩, fun c₂ hstep₂ => ?_⟩
      obtain rfl := Option.some.inj (hstep.symm.trans hstep₂)
      exact (ih (hkeeps _ hstep) (hrest _ hstep)).1 ⟨c', hrun⟩
    · rintro ⟨⟨c₁, hstep⟩, hsupplies⟩
      obtain ⟨c', hrun⟩ := (ih (hkeeps _ hstep) (hrest _ hstep)).2 (hsupplies _ hstep)
      exact ⟨c', by rw [hstep, Option.bind_some, hrun]⟩

end Channel

end GossipRl
