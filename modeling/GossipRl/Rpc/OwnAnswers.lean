import GossipRl.Rpc.Conversation
import GossipRl.Rpc.TimedOutCalls

/-!
# Whose answer a future gets

A response is matched to a call by its id alone. As long as the ids have not wrapped around, the
asynchronous calls have distinct ids, none of them 0 (`Owned`), and each of the server's answers
belongs to one request that has arrived (`Traffic`). So a future that a response completes gets an
answer that the server gave to the call that returned the future, whatever the order in which
frames arrive and handlers finish.
-/

namespace GossipRl
open Support

namespace RpcClient
variable {c : RpcClient} {a : ClientAction} {future : Nat} {response : RpcResponse}

theorem complete_nextRequestId :
    (c.complete future response).nextRequestId = c.nextRequestId := by
  unfold complete
  dsimp only
  split <;> rfl

theorem closeAll_nextRequestId (fs : List Nat) (c : RpcClient) :
    (closeAll fs c).nextRequestId = c.nextRequestId := by
  induction fs generalizing c with
  | nil => rfl
  | cons f fs ih => exact (ih _).trans complete_nextRequestId

/-- Only a request takes an id. -/
theorem nextRequestId_act (h : a ≠ .call) : (c.act a).nextRequestId = c.nextRequestId := by
  cases a with
  | call => exact absurd rfl h
  | respond requestId response =>
    unfold act
    dsimp only
    split
    · rfl
    · exact complete_nextRequestId
  | sendFailed requestId =>
    simp only [act, onSent, Bool.false_eq_true, if_false]
    split <;> rfl
  | disconnect =>
    unfold act
    dsimp only
    split
    · exact closeAll_nextRequestId ..
    · rfl
  | onComplete future callback =>
    simp only [act, onComplete]
    split <;> rfl
  | _ => rfl

theorem get?_of_act {id : UInt64} {f : Nat} (h : a ≠ .call)
    (hget : (c.act a).pendingRequests.get? id = some f) :
    c.pendingRequests.get? id = some f := by
  cases c.act_effect a with
  | keeps _ hpending => exact hpending ▸ hget
  | refuses _ hpending => exact hpending ▸ hget
  | requests => exact absurd rfl h
  | settles _ _ hpending =>
    rw [hpending] at hget
    exact (Dict.get?_erase_eq_some_iff.1 hget).2
  | closes _ hpending =>
    rw [hpending] at hget
    cases hget

theorem completed_act {f : Nat} (hf : f < c.nextFuture) (h : (c.futures f).completed = true) :
    ((c.act a).futures f).completed = true := by
  cases c.act_effect a with
  | keeps _ _ _ hcompleted => rw [hcompleted, h]
  | refuses _ _ _ hcompleted => rw [hcompleted, h, Bool.or_true]
  | requests _ _ _ hcompleted => rw [hcompleted f (by omega), h]
  | settles _ _ _ _ hcompleted => rw [hcompleted, h, Bool.or_true]
  | closes _ _ _ hcompleted => rw [hcompleted, h, Bool.or_true]

/-- What an action issues: a call takes the next id and the next future, a one-way call neither. -/
inductive Issues (c : RpcClient) : ClientAction → Option IssuedCall → Prop
  | call (header : RpcHeader) (payload : List UInt8) (id : header.requestId = c.nextRequestId) :
      Issues c .call (some ⟨header, payload, some c.nextFuture⟩)
  | oneway (header : RpcHeader) (payload : List UInt8) (id : header.requestId = 0) :
      Issues c .none (some ⟨header, payload, none⟩)
  | nothing {a : ClientAction} (notCall : a ≠ .call) : Issues c a none

end RpcClient

namespace Conversation
variable {σ : Type*} {clientConfig serverConfig : BufferPoolConfig} {methods : Methods σ} {app : σ}
  {calls : List IssuedCall} {acts : List (ServerAct σ)} {done : List (Nat × RpcResponse)}
  {reserved : RpcServer σ → UInt32} {s s' : Conversation σ} {e : ConversationEvent}

theorem issues_of_step {e : ChannelEvent SessionOp} {client : Channel RpcClient}
    (hpool : s.client.link.pool.Of clientConfig)
    (h : s.client.step RpcClient.session e = some client) :
    RpcClient.Issues s.client.link.owner (RpcClient.actionOf s.client.link e)
      (s.issued (.client e)) := by
  cases e with
  | data bs =>
    refine .nothing ?_
    rcases RpcClient.actionOf_data_cases s.client.link bs with heq | ⟨_, _, heq⟩ <;> simp [heq]
  | ended result =>
    refine .nothing ?_
    simp only [RpcClient.actionOf]
    split <;> simp
  | sent i result =>
    refine .nothing ?_
    rcases RpcClient.actionOf_sent_cases s.client.link i result with heq | ⟨_, heq⟩ <;> simp [heq]
  | pool call => exact .nothing (by simp [RpcClient.actionOf])
  | late op =>
    cases op with
    | call reserved call =>
      obtain ⟨l, hlate, rfl⟩ := Channel.step_late_iff.1 h
      cases hc : RpcClient.isConnected s.client.link with
      | false =>
        rw [show s.issued (.client (.late (.call reserved call))) = none by simp [issued, hc]]
        refine .nothing ?_
        cases call with
        | async methodId payload => simp [RpcClient.actionOf, RpcClient.callAction, hc]
        | oneway methodId payload => simp [RpcClient.actionOf]
      | true =>
        cases call with
        | oneway methodId payload =>
          simp only [issued, hc, if_true]
          exact .oneway _ _ rfl
        | async methodId payload =>
          simp only [issued, hc, if_true]
          have hcall : RpcClient.callAction s.client.link = .call := by
            obtain ⟨⟨future, l'⟩, hasync, -⟩ := map_eq_ok_iff.1 (Option.some.inj hlate)
            rcases ha : s.client.link.pool.acquire with f | ⟨acquired, pool⟩
            · simp [RpcClient.callAsync, hc, ha] at hasync
            · obtain ⟨-, b, rfl, -⟩ := hpool.acquire ha
              simp [RpcClient.callAction, hc, ha]
          rw [show RpcClient.actionOf s.client.link (.late (.call reserved (.async methodId payload))) =
            .call from hcall]
          exact .call _ _ rfl
    | _ => exact .nothing (by simp [RpcClient.actionOf])

/-- The calls that wait for a response. -/
def awaited (calls : List IssuedCall) : List UInt64 :=
  (calls.filter (·.future.isSome)).map (·.header.requestId)

/-- A pending request is one of the calls, with its future; the calls have been numbered from 1 on;
and the futures that a response has completed are different ones. -/
structure Owned (calls : List IssuedCall) (done : List (Nat × RpcResponse)) (c : RpcClient) : Prop
    extends c.PendingInv where
  pending : ∀ id f, c.pendingRequests.get? id = some f →
    ∃ call ∈ calls, call.header.requestId = id ∧ call.future = some f
  ids : awaited calls = (List.range (awaited calls).length).map fun i => UInt64.ofNat (i + 1)
  next : c.nextRequestId = UInt64.ofNat ((awaited calls).length + 1)
  oneway : ∀ call ∈ calls, call.future = none → call.header.requestId = 0
  completed : ∀ p ∈ done, p.1 < c.nextFuture ∧ (c.futures p.1).completed = true
  once : (done.map Prod.fst).Nodup

namespace Owned

theorem init : Owned [] [] {} where
  waiting := by
    intro id f hget
    cases hget
  inj := by
    intro id id' f hget
    cases hget
  pending := by
    intro id f hget
    cases hget
  ids := rfl
  next := rfl
  oneway := by simp
  completed := by simp
  once := List.nodup_nil

theorem awaited_spec {c : RpcClient} (h : Owned calls done c) (hfew : calls.length < 2 ^ 64) :
    (awaited calls).Nodup ∧ 0 ∉ awaited calls := by
  have hlen : (awaited calls).length < 2 ^ 64 := by
    rw [awaited, List.length_map]
    exact (List.length_filter_le ..).trans_lt hfew
  have htoNat : ∀ i ∈ List.range (awaited calls).length, (UInt64.ofNat (i + 1)).toNat = i + 1 := by
    intro i hi
    rw [List.mem_range] at hi
    rw [UInt64.toNat_ofNat', Nat.mod_eq_of_lt (by omega)]
  rw [h.ids]
  constructor
  · refine List.Nodup.map_on ?_ List.nodup_range
    intro i hi j hj heq
    have := congrArg UInt64.toNat heq
    rw [htoNat i hi, htoNat j hj] at this
    omega
  · intro hzero
    obtain ⟨i, hi, heq⟩ := List.mem_map.1 hzero
    have := congrArg UInt64.toNat heq
    rw [htoNat i hi] at this
    cases this

theorem mem_awaited {call : IssuedCall} {f : Nat} (hcall : call ∈ calls)
    (hfuture : call.future = some f) : call.header.requestId ∈ awaited calls :=
  List.mem_map_of_mem (List.mem_filter.2 ⟨hcall, by rw [hfuture]; rfl⟩)

/-- Two calls with one id are the same call, if one of them waits for a response. -/
theorem call_eq {c : RpcClient} (h : Owned calls done c) (hfew : calls.length < 2 ^ 64)
    {call call' : IssuedCall} {f : Nat} (hcall : call ∈ calls) (hcall' : call' ∈ calls)
    (hfuture : call.future = some f) (hid : call'.header.requestId = call.header.requestId) :
    call' = call := by
  obtain ⟨hnodup, hpos⟩ := h.awaited_spec hfew
  have hmem : call ∈ calls.filter (·.future.isSome) := List.mem_filter.2 ⟨hcall, by rw [hfuture]; rfl⟩
  have hmem' : call' ∈ calls.filter (·.future.isSome) := by
    refine List.mem_filter.2 ⟨hcall', ?_⟩
    by_contra hnone
    have hzero := h.oneway call' hcall' (by simpa using hnone)
    exact hpos (hzero ▸ hid ▸ mem_awaited hcall hfuture)
  exact List.inj_on_of_nodup_map hnodup hmem' hmem hid

theorem act {c : RpcClient} (h : Owned calls done c) {a : ClientAction} {call : Option IssuedCall}
    (hissues : c.Issues a call) : Owned (calls ++ call.toList) done (c.act a) where
  toPendingInv := h.toPendingInv.act a
  pending := by
    intro id f hget
    cases hissues with
    | call header payload hid =>
      have hset : (c.act .call).pendingRequests = c.pendingRequests.set c.nextRequestId c.nextFuture :=
        rfl
      rw [hset] at hget
      rcases Dict.get?_set_eq_some_iff.1 hget with ⟨rfl, rfl⟩ | ⟨-, hget⟩
      · exact ⟨_, List.mem_append_right _ (List.mem_singleton_self _), hid, rfl⟩
      · obtain ⟨call, hcall, hrest⟩ := h.pending id f hget
        exact ⟨call, List.mem_append_left _ hcall, hrest⟩
    | oneway header payload hid =>
      obtain ⟨call, hcall, hrest⟩ := h.pending id f hget
      exact ⟨call, List.mem_append_left _ hcall, hrest⟩
    | nothing hne =>
      obtain ⟨call, hcall, hrest⟩ := h.pending id f (RpcClient.get?_of_act hne hget)
      exact ⟨call, List.mem_append_left _ hcall, hrest⟩
  ids := by
    cases hissues with
    | call header payload hid =>
      have happend : awaited (calls ++ [⟨header, payload, some c.nextFuture⟩]) =
          awaited calls ++ [header.requestId] := by simp [awaited]
      rw [Option.toList_some, happend, List.length_append, List.length_singleton, List.range_succ,
        List.map_append, ← h.ids, hid, h.next]
      rfl
    | oneway header payload hid =>
      have happend : awaited (calls ++ [⟨header, payload, none⟩]) = awaited calls := by simp [awaited]
      rw [Option.toList_some, happend]
      exact h.ids
    | nothing => simpa using h.ids
  next := by
    cases hissues with
    | call header payload hid =>
      have happend : awaited (calls ++ [⟨header, payload, some c.nextFuture⟩]) =
          awaited calls ++ [header.requestId] := by simp [awaited]
      rw [Option.toList_some, happend, List.length_append, List.length_singleton]
      show c.nextRequestId + 1 = _
      rw [h.next]
      simp
    | oneway header payload hid =>
      have happend : awaited (calls ++ [⟨header, payload, none⟩]) = awaited calls := by simp [awaited]
      rw [Option.toList_some, happend]
      exact h.next
    | nothing hne =>
      rw [RpcClient.nextRequestId_act hne]
      simpa using h.next
  oneway := by
    intro call' hcall' hnone
    rcases List.mem_append.1 hcall' with hcall' | hcall'
    · exact h.oneway call' hcall' hnone
    · cases hissues with
      | call header payload hid =>
        obtain rfl := List.mem_singleton.1 hcall'
        cases hnone
      | oneway header payload hid =>
        obtain rfl := List.mem_singleton.1 hcall'
        exact hid
      | nothing => cases hcall'
  completed := by
    intro p hp
    obtain ⟨hlt, hcompleted⟩ := h.completed p hp
    exact ⟨hlt.trans_le (RpcClient.nextFuture_act c a), RpcClient.completed_act hlt hcompleted⟩
  once := h.once

/-- A response completes a future that was pending, so one that no response has completed before. -/
theorem settle {c : RpcClient} (h : Owned calls done c) {id : UInt64} {f : Nat}
    {response : RpcResponse} (hget : c.pendingRequests.get? id = some f) :
    Owned calls (done ++ [(f, response)]) (c.act (.respond id response)) := by
  have hact := @act _ _ _ h (.respond id response) none (.nothing (by simp))
  rw [Option.toList_none, List.append_nil] at hact
  obtain ⟨hlt, hwaiting⟩ := h.waiting id f hget
  refine { hact with completed := ?_, once := ?_ }
  · refine List.forall_mem_append.2 ⟨hact.completed, ?_⟩
    intro p hp
    obtain rfl := List.mem_singleton.1 hp
    refine ⟨hlt.trans_le (RpcClient.nextFuture_act c _), ?_⟩
    simp only [RpcClient.act, hget]
    rw [RpcClient.completed_complete, decide_eq_true rfl, Bool.true_or]
  · rw [List.map_append, List.map_singleton, List.nodup_append]
    refine ⟨h.once, List.nodup_singleton _, ?_⟩
    rintro g hg g' hg' rfl
    obtain rfl := List.mem_singleton.1 hg'
    obtain ⟨p, hp, heq⟩ := List.mem_map.1 hg
    have := (h.completed p hp).2
    rw [heq, hwaiting] at this
    cases this

end Owned

/-! ### Answers -/

/-- The server answers the call: it refuses the call because it does not know the method, or the
method's handler, called with the header and the payload of this call, returns the response, or the
closure that it was called with is given the response. -/
inductive Answers (config : BufferPoolConfig) (acts : List (ServerAct σ)) (call : IssuedCall) :
    RpcResponse → Prop
  | unknownMethod (refused : .refused call.header ∈ acts) :
      Answers config acts call (RpcServer.notFound call.header.methodId)
  | sync {app : σ} {response : RpcResponse}
      (ran : .ran call.header (RpcClient.arriving config call.payload) app response ∈ acts) :
      Answers config acts call response
  | async {app : σ} {response : RpcResponse}
      (began : .began call.header (RpcClient.arriving config call.payload) app ∈ acts)
      (completed : .completed call.header.requestId response ∈ acts) :
      Answers config acts call response

/-- What is read of an answer: the status, and the whole of it if it has a message or a payload and
fits the buffers of both sides. -/
structure Reads (clientConfig serverConfig : BufferPoolConfig) (answer response : RpcResponse) :
    Prop where
  status : response.status = answer.status
  whole : 36 + answer.errorMessage.length + answer.payloadBytes.length ≤ serverConfig.bufferSize →
    36 + answer.errorMessage.length + answer.payloadBytes.length ≤ clientConfig.bufferSize →
    answer.errorMessage.length < 2 ^ 32 → answer.errorMessage ≠ [] ∨ answer.payloadBytes ≠ [] →
    response.errorMessage = answer.errorMessage ∧
      response.payload.map Buffer.bytes =
        if answer.payloadBytes = [] then none else some answer.payloadBytes

theorem Answers.mono {config : BufferPoolConfig} {acts' : List (ServerAct σ)} {call : IssuedCall}
    {response : RpcResponse} (h : Answers config acts call response) :
    Answers config (acts ++ acts') call response := by
  cases h with
  | unknownMethod refused => exact .unknownMethod (List.mem_append_left _ refused)
  | sync ran => exact .sync (List.mem_append_left _ ran)
  | async began completed =>
    exact .async (List.mem_append_left _ began) (List.mem_append_left _ completed)

theorem bytes_readPayload {config : BufferPoolConfig} {pool pool' : BufferPool} {bytes : List UInt8}
    {offset : Nat} {payload : Option Buffer} (hpool : pool.Of config)
    (hfit : bytes.length ≤ config.bufferSize)
    (h : RpcClient.readPayload pool bytes offset = .ok (payload, pool')) :
    payload.map Buffer.bytes =
      if offset < bytes.length then some (bytes.drop offset) else none := by
  unfold RpcClient.readPayload at h
  by_cases hlt : offset < bytes.length
  · rw [if_pos hlt] at h ⊢
    rcases ha : pool.acquire with f | ⟨acquired, pool₁⟩
    · simp [ha] at h
    · obtain ⟨-, b, rfl, hempty, hcap⟩ := hpool.acquire ha
      simp only [ha, Except.ok.injEq, Prod.mk.injEq] at h
      rw [← h.1, Option.map_some, Buffer.bytes_write, hempty, List.nil_append]
      rw [hempty, hcap, List.length_nil, List.length_drop]
      omega
  · rw [if_neg hlt] at h ⊢
    rw [← (Prod.mk.inj (Except.ok.inj h)).1]
    rfl

theorem reads_of_isFrame {frame : List UInt8} {buffer : Buffer} {l l' : Link RpcClient}
    {id : UInt64} {answer : RpcResponse} {f : Nat} (hpool : l.pool.Of clientConfig)
    (hsize : RpcHeader.SIZE ≤ serverConfig.bufferSize) (hbuffer : buffer.bytes = frame)
    (hlen : RpcHeader.SIZE ≤ frame.length)
    (hframe : RpcServer.IsFrame serverConfig id answer frame)
    (hget : l.owner.pendingRequests.get? id = some f)
    (hmessage : RpcClient.onMessage l buffer = .ok l') :
    ∃ response, l.owner.answer l.pool buffer = .respond id response ∧
      Reads clientConfig serverConfig answer response := by
  obtain ⟨reserved, hdecode⟩ := hframe.decode hsize
  have hid : (RpcHeader.decode buffer.bytes).requestId = id := by rw [hbuffer, hdecode]; rfl
  have hnot : ¬ buffer.size < RpcHeader.SIZE := by
    rw [Buffer.size, hbuffer]
    omega
  rw [RpcClient.answer, if_neg hnot]
  dsimp only
  rw [hid]
  refine ⟨_, rfl, ?_, ?_⟩
  · rw [hbuffer, hdecode]
    exact RpcStatus.ofWire_toWire answer.status
  · intro hserver hclient herror hne
    obtain ⟨b, reserved', hempty, hcap, hbytes⟩ := hframe
    rw [RpcServer.bytes_writeResponse id reserved' hempty (hcap ▸ hserver)] at hbytes
    have hread := RpcClient.readError_frame (RpcServer.responseHeader id answer reserved') herror hne
    have hwhole := RpcClient.length_frame (RpcServer.responseHeader id answer reserved') answer
    have hdrop := RpcClient.drop_frame (RpcServer.responseHeader id answer reserved') answer
      answer.errorMessage.length
    unfold RpcClient.responseBody at hread hwhole hdrop
    rw [← hbytes, ← hbuffer] at hread hwhole hdrop
    rw [List.drop_left] at hdrop
    rw [hread]
    refine ⟨rfl, ?_⟩
    simp only [RpcClient.payloadFor, if_neg hnot, hid, hget, hread]
    -- the callback has returned, so the payload was read
    rcases hpayload : RpcClient.readPayload l.pool buffer.bytes
        (36 + answer.errorMessage.length) with fault | ⟨payload, pool⟩
    · have hpending := @RpcClient.onMessage_of_pending (RpcServer.responseHeader id answer reserved')
        l buffer _ _ (hbuffer.trans hbytes) hget
      rw [hread, hpayload, hmessage] at hpending
      cases hpending
    · dsimp only
      rw [bytes_readPayload hpool (by rw [hwhole]; exact hclient) hpayload, hwhole, hdrop]
      by_cases hp : answer.payloadBytes = []
      · rw [if_pos hp, hp, if_neg (by simp)]
      · have := List.length_pos_iff.2 hp
        rw [if_neg hp, if_pos (by omega)]

/-- An answer that the server has given for the id of a call was given to this call. -/
theorem answers_of_answer {c : RpcClient}
    (htraffic : Traffic clientConfig serverConfig methods app calls acts s)
    (howned : Owned calls done c) (hfew : calls.length < 2 ^ 64) {act : ServerAct σ}
    {call : IssuedCall} {f : Nat} {answer : RpcResponse} (hact : act ∈ acts) (hcall : call ∈ calls)
    (hfuture : call.future = some f)
    (hanswer : act.answer = some (call.header.requestId, answer)) :
    Answers clientConfig acts call answer := by
  -- what has arrived is what some call sent
  have harrived : ∀ header payload, (header, payload) ∈ acts.filterMap ServerAct.handled →
      header.requestId = call.header.requestId →
      header = call.header ∧ payload = RpcClient.arriving clientConfig call.payload := by
    intro header payload hmem hid
    rw [htraffic.handled] at hmem
    obtain ⟨frame, hframe, heq⟩ := List.mem_map.1 (List.mem_filter.1 hmem).1
    obtain ⟨call', hcall', rfl⟩ := List.mem_map.1
      (htraffic.requests.mem_iff.1 (List.mem_append_left _ hframe))
    rw [requestOf_frame] at heq
    obtain ⟨rfl, rfl⟩ := Prod.mk.inj heq
    obtain rfl := howned.call_eq hfew hcall hcall' hfuture hid
    exact ⟨rfl, rfl⟩
  cases act with
  | refused header =>
    obtain ⟨hid, rfl⟩ := Prod.mk.inj (Option.some.inj hanswer)
    have hmem : header ∈ acts.filterMap ServerAct.header := List.mem_filterMap.2 ⟨_, hact, rfl⟩
    obtain ⟨frame, hframe, heq⟩ := List.mem_map.1 (htraffic.headers.subset hmem)
    obtain ⟨call', hcall', rfl⟩ := List.mem_map.1
      (htraffic.requests.mem_iff.1 (List.mem_append_left _ hframe))
    have hheader : call'.header = header :=
      (congrArg Prod.fst (requestOf_frame clientConfig call')).symm.trans heq
    subst hheader
    obtain rfl := howned.call_eq hfew hcall hcall' hfuture hid
    exact .unknownMethod hact
  | ran header payload app response =>
    obtain ⟨hid, rfl⟩ := Prod.mk.inj (Option.some.inj hanswer)
    obtain ⟨rfl, rfl⟩ := harrived header payload (List.mem_filterMap.2 ⟨_, hact, rfl⟩) hid
    exact .sync hact
  | began header payload app => cases hanswer
  | completed id response =>
    obtain ⟨rfl, rfl⟩ := Prod.mk.inj (Option.some.inj hanswer)
    obtain ⟨act', hact', hopened⟩ := List.mem_filterMap.1 (htraffic.completed _ _ hact)
    cases act' with
    | began header payload app =>
      obtain ⟨rfl, rfl⟩ := harrived header payload (List.mem_filterMap.2 ⟨_, hact', rfl⟩)
        (Option.some.inj hopened)
      exact .async hact' hact
    | _ => cases hopened

/-- Each future that a response has completed was returned by a call, and got an answer to it. -/
structure Served (clientConfig serverConfig : BufferPoolConfig) (methods : Methods σ) (app : σ)
    (calls : List IssuedCall) (acts : List (ServerAct σ)) (done : List (Nat × RpcResponse))
    (s : Conversation σ) : Prop where
  traffic : Traffic clientConfig serverConfig methods app calls acts s
  owned : Owned calls done s.client.link.owner
  own : ∀ p ∈ done, ∃ call ∈ calls, call.future = some p.1 ∧
    ∃ answer, Answers clientConfig acts call answer ∧ Reads clientConfig serverConfig answer p.2

theorem settled_response {k : Nat} {frame : List UInt8} {responses : Mailbox (List UInt8)}
    (h : s.responses.receive k = some (frame, responses)) :
    s.settled (.response k) =
      s.client.link.owner.settles (RpcClient.actionOf s.client.link (.data frame)) := by
  obtain ⟨a, ha, heq⟩ := Option.map_eq_some_iff.1 h
  obtain ⟨rfl, -⟩ := Prod.mk.inj heq
  simp only [settled, ha, Option.bind_some]

theorem own_of_arrival (h : Served clientConfig serverConfig methods app calls acts done s)
    (hsize : RpcHeader.SIZE ≤ serverConfig.bufferSize) (hfew : calls.length < 2 ^ 64)
    {frame : List UInt8} {client : Channel RpcClient} {id : UInt64} {response : RpcResponse} {f : Nat}
    (hframe : frame ∈ s.responses.all)
    (hstep : s.client.step RpcClient.session (.data frame) = some client)
    (haction : RpcClient.actionOf s.client.link (.data frame) = .respond id response)
    (hget : s.client.link.owner.pendingRequests.get? id = some f) :
    ∃ call ∈ calls, call.future = some f ∧ ∃ answer, Answers clientConfig acts call answer ∧
      Reads clientConfig serverConfig answer response := by
  obtain ⟨buffer, l, l₁, hbuffer, hbytes, hl, hmessage, -⟩ := Channel.message_of_data hstep
  obtain ⟨act, hact, id', answer, hanswer, hisFrame⟩ := h.traffic.responses frame hframe
  have hrespond : l.owner.answer l.pool (buffer.receive frame) = .respond id response := by
    rw [hl.owner, hl.pool, ← haction, RpcClient.actionOf, hbuffer]
  have hlen : RpcHeader.SIZE ≤ frame.length := by
    by_contra hlt
    rw [RpcClient.answer, if_pos (by rw [Buffer.size, hbytes]; omega)] at hrespond
    cases hrespond
  obtain ⟨reserved, hdecode⟩ := hisFrame.decode hsize
  have hid : id' = id := by
    rw [RpcClient.answer, if_neg (by rw [Buffer.size, hbytes]; omega)] at hrespond
    have := (ClientAction.respond.inj hrespond).1
    rw [hbytes, hdecode] at this
    exact this
  subst hid
  obtain ⟨response', hrespond', hreads⟩ := reads_of_isFrame (hl.pool ▸ h.traffic.clientPool) hsize
    hbytes hlen hisFrame (hl.owner ▸ hget) hmessage
  obtain ⟨-, rfl⟩ := ClientAction.respond.inj (hrespond.symm.trans hrespond')
  obtain ⟨call, hcall, hcallId, hfuture⟩ := h.owned.pending id' f hget
  refine ⟨call, hcall, hfuture, answer, ?_, hreads⟩
  exact answers_of_answer h.traffic h.owned hfew hact hcall hfuture (hcallId ▸ hanswer)

namespace Served

theorem start (h : Conversation.start clientConfig serverConfig methods app = .ok s) :
    Served clientConfig serverConfig methods app [] [] [] s := by
  refine ⟨.start h, ?_, by simp⟩
  unfold Conversation.start at h
  cases hclient : Channel.start clientConfig ({} : RpcClient) with
  | error f =>
    rw [hclient] at h
    cases h
  | ok client =>
    rw [hclient] at h
    obtain ⟨server, -, rfl⟩ := map_eq_ok_iff.1 h
    rw [show client.link.owner = {} from (Channel.of_start hclient).2.1]
    exact .init

theorem step (h : Served clientConfig serverConfig methods app calls acts done s)
    (hclient : RpcHeader.SIZE ≤ clientConfig.bufferSize)
    (hserver : RpcHeader.SIZE ≤ serverConfig.bufferSize) (hfew : calls.length < 2 ^ 64)
    (hs : s.step reserved e = some s') :
    Served clientConfig serverConfig methods app (calls ++ (s.issued e).toList)
      (acts ++ (s.acted e).toList) (done ++ (s.settled e).toList) s' := by
  have htraffic := h.traffic.step hclient hs
  -- what has been answered stays answered
  have hown : ∀ p ∈ done, ∃ call ∈ calls ++ (s.issued e).toList, call.future = some p.1 ∧
      ∃ answer, Answers clientConfig (acts ++ (s.acted e).toList) call answer ∧
        Reads clientConfig serverConfig answer p.2 := by
    intro p hp
    obtain ⟨call, hcall, hfuture, answer, hanswers, hreads⟩ := h.own p hp
    exact ⟨call, List.mem_append_left _ hcall, hfuture, answer, hanswers.mono, hreads⟩
  cases step_cases hs with
  | @client e client notData hstep =>
    rw [show s.settled (.client e) = none from rfl, Option.toList_none, List.append_nil]
    refine ⟨htraffic, ?_, hown⟩
    rw [RpcClient.step_owner hstep]
    exact h.owned.act (issues_of_step h.traffic.clientPool hstep)
  | @server e server notData hstep =>
    rw [show s.settled (.server e) = none from rfl, Option.toList_none, List.append_nil]
    refine ⟨htraffic, ?_, hown⟩
    rw [show s.issued (.server e) = none from rfl, Option.toList_none, List.append_nil]
    exact h.owned
  | @request k frame requests server hreceive hstep =>
    rw [show s.settled (.request k) = none from rfl, Option.toList_none, List.append_nil]
    refine ⟨htraffic, ?_, hown⟩
    rw [show s.issued (.request k) = none from rfl, Option.toList_none, List.append_nil]
    exact h.owned
  | @response k frame responses client hreceive hstep =>
    have howner := RpcClient.step_owner hstep
    have hframe := Mailbox.mem_all_of_mem_inFlight (Mailbox.mem_of_receive hreceive)
    have hnothing : s.settled (.response k) = none →
        Served clientConfig serverConfig methods app (calls ++ (s.issued (.response k)).toList)
          (acts ++ (s.acted (.response k)).toList) (done ++ (s.settled (.response k)).toList)
          { s with
            responses := responses
            client := client
            requests := s.requests.post (client.sentSince s.client) } := by
      intro hnone
      rw [hnone, Option.toList_none, List.append_nil]
      refine ⟨htraffic, ?_, hown⟩
      rw [howner]
      refine h.owned.act (.nothing ?_)
      rcases RpcClient.actionOf_data_cases s.client.link frame with heq | ⟨_, _, heq⟩ <;> simp [heq]
    rcases RpcClient.actionOf_data_cases s.client.link frame with haction | ⟨id, response, haction⟩
    · exact hnothing (by rw [settled_response hreceive, haction]; rfl)
    · cases hget : s.client.link.owner.pendingRequests.get? id with
      | none => exact hnothing (by rw [settled_response hreceive, haction]; simp [RpcClient.settles, hget])
      | some f =>
        have hsettled : s.settled (.response k) = some (f, response) := by
          rw [settled_response hreceive, haction]
          simp [RpcClient.settles, hget]
        refine ⟨htraffic, ?_, ?_⟩
        · rw [hsettled, show s.issued (.response k) = none from rfl, Option.toList_none,
            List.append_nil, howner, haction]
          exact h.owned.settle hget
        · rw [hsettled]
          refine List.forall_mem_append.2 ⟨hown, ?_⟩
          intro p hp
          obtain rfl := List.mem_singleton.1 hp
          obtain ⟨call, hcall, hfuture, answer, hanswers, hreads⟩ :=
            own_of_arrival h hserver hfew hframe hstep haction hget
          exact ⟨call, List.mem_append_left _ hcall, hfuture, answer, hanswers.mono, hreads⟩

end Served

end Conversation

open Conversation

/-- As long as fewer than `2 ^ 64` calls have been made, every response that completes a future
completes one that no response has completed before, and it is an answer that the server gave to
the very call that returned the future. -/
theorem settled_by_own_answer {σ : Type*} {clientConfig serverConfig : BufferPoolConfig}
    {methods : Methods σ} {app : σ} {reserved : RpcServer σ → UInt32} {s₀ s : Conversation σ}
    {events : List ConversationEvent}
    (hstart : Conversation.start clientConfig serverConfig methods app = .ok s₀)
    (hclient : RpcHeader.SIZE ≤ clientConfig.bufferSize)
    (hserver : RpcHeader.SIZE ≤ serverConfig.bufferSize) (hfew : events.length < 2 ^ 64)
    (hrun : run (step reserved) s₀ events = some s) :
    let calls := observe (step reserved) issued s₀ events
    let acts := observe (step reserved) acted s₀ events
    let done := observe (step reserved) settled s₀ events
    (done.map Prod.fst).Nodup ∧
      ∀ p ∈ done, ∃ call ∈ calls, call.future = some p.1 ∧
        ∃ answer, Answers clientConfig acts call answer ∧
          Reads clientConfig serverConfig answer p.2 := by
  intro calls acts done
  have hserved : Served clientConfig serverConfig methods app calls acts done s := by
    refine run_induction (motive := fun es s => es.length < 2 ^ 64 →
      Served clientConfig serverConfig methods app (observe (step reserved) issued s₀ es)
        (observe (step reserved) acted s₀ es) (observe (step reserved) settled s₀ es) s)
      (fun _ => .start hstart) ?_ .unconditional hrun hfew
    intro es s₁ e s₂ hes ih _ hstep hlen
    rw [List.length_append, List.length_singleton] at hlen
    rw [observe_concat hes, observe_concat hes, observe_concat hes]
    refine (ih (by omega)).step hclient hserver ?_ hstep
    have := length_observe_le (step reserved) issued s₀ es
    omega
  exact ⟨hserved.owned.once, hserved.own⟩

section Example

/-- The second request is answered first. -/
def crossedRun : List ConversationEvent :=
  [callCounting [7], callCounting [8], .request 1, .request 0, .response 0, .response 0]

theorem settled_by_own_answer_crossed : ∃ s₀ s : Conversation Nat,
    Conversation.start .several .several countingMethods 0 = .ok s₀ ∧
    run (step fun _ => 0) s₀ crossedRun = some s ∧
    (observe (step fun _ => 0) settled s₀ crossedRun).map Prod.fst = [1, 0] ∧
    ∀ p ∈ observe (step fun _ => 0) settled s₀ crossedRun,
      ∃ call ∈ observe (step fun _ => 0) issued s₀ crossedRun, call.future = some p.1 ∧
        ∃ answer, Answers .several (observe (step fun _ => 0) acted s₀ crossedRun) call answer ∧
          Reads .several .several answer p.2 := by
  obtain ⟨s₀, hstart⟩ : ∃ s₀, Conversation.start .several .several countingMethods 0 = .ok s₀ := ⟨_, rfl⟩
  obtain ⟨s, hrun, hdone⟩ : ∃ s, run (step fun _ => 0) s₀ crossedRun = some s ∧
      (observe (step fun _ => 0) settled s₀ crossedRun).map Prod.fst = [1, 0] := by
    obtain rfl := Except.ok.inj hstart
    exact ⟨_, rfl, rfl⟩
  exact ⟨s₀, s, hstart, hrun, hdone,
    (settled_by_own_answer hstart (by decide) (by decide) (by decide) hrun).2⟩

end Example

end GossipRl
