import GossipRl.Rpc.OwnAnswers

/-!
# Where a pending call is

While the server's connection is open and none of its handlers is empty, a request that the client
waits for is on its way to the server, or an asynchronous handler has it, or the response is on its
way back (`OnItsWay`). So once nothing is on its way and the handlers have called their closures,
the client waits for nothing, and every future is completed.
-/

namespace GossipRl
open Support

namespace RpcClient
variable {c : RpcClient} {a : ClientAction}

/-- Every future is completed or pending. -/
def Settles (c : RpcClient) : Prop :=
  ∀ f < c.nextFuture, (c.futures f).completed = true ∨ ∃ id, c.pendingRequests.get? id = some f

theorem Settles.act (h : c.Settles) (hid : a = .call → c.pendingRequests.get? c.nextRequestId = none) :
    (c.act a).Settles := by
  intro f hf
  cases c.act_effect a with
  | keeps _ hpending hnext hcompleted =>
    rw [hpending, hcompleted]
    exact h f (by omega)
  | refuses _ hpending hnext hcompleted =>
    rw [hpending, hcompleted]
    rcases Nat.lt_or_ge f c.nextFuture with hlt | hge
    · exact (h f hlt).imp_left fun hdone => by rw [hdone, Bool.or_true]
    · exact .inl (by rw [decide_eq_true (by omega), Bool.true_or])
  | requests hpending hnext hfresh hcompleted =>
    rw [hpending]
    rcases Nat.lt_or_ge f c.nextFuture with hlt | hge
    · rw [hcompleted f (by omega)]
      refine (h f hlt).imp_right ?_
      rintro ⟨id, hget⟩
      refine ⟨id, ?_⟩
      rw [Dict.get?_set_of_ne, hget]
      rintro rfl
      cases hget.symm.trans (hid rfl)
    · obtain rfl : f = c.nextFuture := by omega
      exact .inr ⟨c.nextRequestId, Dict.get?_set_self⟩
  | @settles _ id f₀ _ hget hpending hnext hcompleted =>
    rw [hpending, hcompleted]
    by_cases heq : f = f₀
    · exact .inl (by rw [decide_eq_true heq, Bool.true_or])
    · refine (h f (by omega)).imp (fun hdone => by rw [hdone, Bool.or_true]) ?_
      rintro ⟨id', hget'⟩
      refine ⟨id', Dict.get?_erase_eq_some_iff.2 ⟨?_, hget'⟩⟩
      rintro rfl
      exact heq (Option.some.inj (hget'.symm.trans hget))
  | closes _ _ hnext hcompleted =>
    rw [hcompleted]
    left
    rcases h f (by omega) with hdone | hpending
    · rw [hdone, Bool.or_true]
    · rw [decide_eq_true (Dict.mem_values_iff.2 hpending), Bool.true_or]

end RpcClient

namespace Conversation
variable {σ : Type*} {clientConfig serverConfig : BufferPoolConfig} {methods : Methods σ} {app : σ}
  {calls : List IssuedCall} {acts : List (ServerAct σ)} {done : List (Nat × RpcResponse)}
  {reserved : RpcServer σ → UInt32} {s s' : Conversation σ} {e : ConversationEvent} {id : UInt64}

/-- The request id of a frame. -/
def idOf (frame : List UInt8) : UInt64 := (RpcHeader.decode frame).requestId

theorem idOf_frame (config : BufferPoolConfig) (call : IssuedCall) :
    idOf (call.frame config) = call.header.requestId := by
  rw [idOf, IssuedCall.frame, RpcClient.frameOf, RpcHeader.decode_encode_append]

/-- One of the frames has this id. -/
def Carries (id : UInt64) (frames : List (List UInt8)) : Prop := ∃ frame ∈ frames, idOf frame = id

theorem Carries.append_left {frames : List (List UInt8)} (h : Carries id frames)
    (frames' : List (List UInt8)) : Carries id (frames ++ frames') := by
  obtain ⟨frame, hframe, hid⟩ := h
  exact ⟨frame, List.mem_append_left _ hframe, hid⟩

/-- A handler has been called for the request, and its closure has not. -/
def BeingHandled (acts : List (ServerAct σ)) (id : UInt64) : Prop :=
  id ∈ acts.filterMap ServerAct.opened ∧ ∀ response, .completed id response ∉ acts

/-- Where a request is until its response arrives. -/
def OnItsWay (acts : List (ServerAct σ)) (s : Conversation σ) (id : UInt64) : Prop :=
  Carries id s.requests.inFlight ∨ BeingHandled acts id ∨ Carries id s.responses.inFlight

/-- Every method has a handler. -/
def Methods.Complete (methods : Methods σ) : Prop :=
  ∀ id method, methods.get? id = some method → method.Callable

/-- The server is connected, and what the client waits for is on its way. -/
structure Tracked (acts : List (ServerAct σ)) (s : Conversation σ) : Prop where
  state : s.server.link.conn.state = .CONNECTED
  onItsWay : ∀ id f, s.client.link.owner.pendingRequests.get? id = some f → OnItsWay acts s id
  settles : s.client.link.owner.Settles

theorem Tracked.start (h : Conversation.start clientConfig serverConfig methods app = .ok s) :
    Tracked ([] : List (ServerAct σ)) s := by
  unfold Conversation.start at h
  cases hclient : Channel.start clientConfig ({} : RpcClient) with
  | error f =>
    rw [hclient] at h
    cases h
  | ok client =>
    rw [hclient] at h
    obtain ⟨server, hserver, rfl⟩ := map_eq_ok_iff.1 h
    have howner := (Channel.of_start hclient).2.1
    refine ⟨(Channel.of_start hserver).2.2, ?_, ?_⟩
    · intro id f hget
      rw [howner] at hget
      cases hget
    · intro f hf
      rw [howner] at hf
      cases hf

theorem Owned.fresh {c : RpcClient} (h : Owned calls done c) (hfew : calls.length + 1 < 2 ^ 64) :
    c.pendingRequests.get? c.nextRequestId = none := by
  cases hget : c.pendingRequests.get? c.nextRequestId with
  | none => rfl
  | some f =>
    obtain ⟨call, hmem, hid, hfuture⟩ := h.pending _ f hget
    have hlen : (awaited calls).length ≤ calls.length := by
      rw [awaited, List.length_map]
      exact List.length_filter_le ..
    have hin : c.nextRequestId ∈
        (List.range (awaited calls).length).map fun i => UInt64.ofNat (i + 1) := by
      rw [← h.ids, ← hid]
      exact mem_awaited hmem hfuture
    obtain ⟨i, hi, heq⟩ := List.mem_map.1 hin
    rw [List.mem_range] at hi
    have heq := congrArg UInt64.toNat (heq.trans h.next)
    rw [UInt64.toNat_ofNat', UInt64.toNat_ofNat', Nat.mod_eq_of_lt (by omega),
      Nat.mod_eq_of_lt (by omega)] at heq
    omega

/-! ### One request, one act -/

theorem count_ids_le (h : ∀ call ∈ calls, call.future = none → call.header.requestId ≠ id) :
    (calls.map (·.header.requestId)).count id ≤ (awaited calls).count id := by
  induction calls with
  | nil => exact le_rfl
  | cons call calls ih =>
    have hrest := ih fun call hcall => h call (List.mem_cons_of_mem _ hcall)
    rw [List.map_cons, List.count_cons]
    cases hfuture : call.future with
    | none =>
      have hne := h call (List.mem_cons_self ..) hfuture
      have hsame : awaited (call :: calls) = awaited calls := by simp [awaited, hfuture]
      rw [hsame, if_neg (by simpa using hne)]
      exact hrest
    | some f =>
      have hcons : awaited (call :: calls) = call.header.requestId :: awaited calls := by
        simp [awaited, hfuture]
      rw [hcons, List.count_cons]
      omega

theorem not_completed_of_inFlight {c : RpcClient}
    (htraffic : Traffic clientConfig serverConfig methods app calls acts s)
    (howned : Owned calls done c) (hfew : calls.length < 2 ^ 64) (hid : id ∈ awaited calls)
    (hflight : Carries id s.requests.inFlight) (response : RpcResponse) :
    .completed id response ∉ acts := by
  intro hcompleted
  obtain ⟨hnodup, hpos⟩ := howned.awaited_spec hfew
  have hids : (s.requests.all.map idOf).Perm (calls.map (·.header.requestId)) := by
    have hframes := htraffic.requests.map idOf
    rwa [List.map_map, show idOf ∘ IssuedCall.frame clientConfig = (·.header.requestId) from
      funext (idOf_frame clientConfig)] at hframes
  have hone : (s.requests.all.map idOf).count id ≤ 1 := by
    rw [hids.count_eq]
    refine (count_ids_le ?_).trans (List.nodup_iff_count_le_one.1 hnodup id)
    intro call hcall hnone heq
    rw [← heq, howned.oneway call hcall hnone] at hid
    exact hpos hid
  -- the request is counted once where it is, and once where it arrived
  have harrived : id ∈ s.requests.delivered.map idOf := by
    obtain ⟨act, hact, hopened⟩ := List.mem_filterMap.1 (htraffic.completed _ _ hcompleted)
    cases act with
    | began header payload app =>
      have hmem : header ∈ acts.filterMap ServerAct.header := List.mem_filterMap.2 ⟨_, hact, rfl⟩
      obtain ⟨frame, hframe, rfl⟩ := List.mem_map.1 (htraffic.headers.subset hmem)
      exact List.mem_map.2 ⟨frame, hframe, Option.some.inj hopened⟩
    | _ => cases hopened
  have hin : id ∈ s.requests.inFlight.map idOf := List.mem_map.2 hflight
  rw [Mailbox.all, List.map_append, List.count_append] at hone
  have := List.count_pos_iff.2 harrived
  have := List.count_pos_iff.2 hin
  omega

/-! ### Steps -/

theorem carries_of_answer {act : Option (ServerAct σ)} {server server' : Channel (RpcServer σ)}
    {response : RpcResponse} (hsize : RpcHeader.SIZE ≤ serverConfig.bufferSize)
    (htakes : RpcServer.Takes serverConfig act server server')
    (hstate : server.link.conn.state = .CONNECTED)
    (hanswer : act.bind ServerAct.answer = some (id, response)) :
    Carries id (server'.sentSince server) := by
  have hsends := htakes.sends
  rw [hanswer] at hsends
  rcases hsends with ⟨-, frame, hframes, hisFrame⟩ | ⟨hclosed, -⟩
  · obtain ⟨reserved, hdecode⟩ := hisFrame.decode hsize
    exact ⟨frame, by simp [hframes], by rw [idOf, hdecode]; rfl⟩
  · exact absurd hstate hclosed

theorem get?_of_issues {c : RpcClient} {a : ClientAction} {call : Option IssuedCall} {f : Nat}
    (h : c.Issues a call) (hget : (c.act a).pendingRequests.get? id = some f) :
    c.pendingRequests.get? id = some f ∨
      ∃ issuedCall, call = some issuedCall ∧ issuedCall.header.requestId = id := by
  cases h with
  | call header payload hid =>
    rcases Dict.get?_set_eq_some_iff.1 hget with ⟨heq, -⟩ | ⟨-, hget⟩
    · exact .inr ⟨_, rfl, hid.trans heq.symm⟩
    · exact .inl hget
  | oneway => exact .inl hget
  | nothing hne => exact .inl (RpcClient.get?_of_act hne hget)

theorem erased_of_response {client client' : Channel RpcClient} {frame : List UInt8}
    (h : client.step RpcClient.session (.data frame) = some client')
    (hlen : RpcHeader.SIZE ≤ frame.length) :
    client'.link.owner.pendingRequests.get? (idOf frame) = none := by
  obtain ⟨buffer, l, l₁, hbuffer, hbytes, hl, hmessage, -⟩ := Channel.message_of_data h
  rw [RpcClient.step_owner h, RpcClient.actionOf, hbuffer]
  dsimp only
  rw [RpcClient.answer, if_neg (by rw [Buffer.size, hbytes]; omega), hbytes]
  simp only [RpcClient.act]
  cases hget : client.link.owner.pendingRequests.get? (RpcHeader.decode frame).requestId with
  | none => exact hget
  | some f =>
    dsimp only
    rw [RpcClient.complete_pendingRequests, Dict.get?_erase]
    exact if_pos rfl

theorem BeingHandled.concat (h : BeingHandled acts id) {act : Option (ServerAct σ)}
    (hnot : ∀ response, act ≠ some (.completed id response)) :
    BeingHandled (acts ++ act.toList) id := by
  refine ⟨?_, ?_⟩
  · rw [List.filterMap_append]
    exact List.mem_append_left _ h.1
  · intro response hmem
    rcases List.mem_append.1 hmem with hmem | hmem
    · exact h.2 response hmem
    · exact hnot response (Option.mem_toList.1 hmem)

/-- A request that a handler has is with it until its closure is called, and then answered. -/
theorem BeingHandled.serverStep (h : BeingHandled acts id) {act : Option (ServerAct σ)}
    {server server' : Channel (RpcServer σ)} (hsize : RpcHeader.SIZE ≤ serverConfig.bufferSize)
    (htakes : RpcServer.Takes serverConfig act server server')
    (hstate : server.link.conn.state = .CONNECTED) :
    BeingHandled (acts ++ act.toList) id ∨ Carries id (server'.sentSince server) := by
  by_cases hcompleted : ∃ response, act = some (.completed id response)
  · obtain ⟨response, rfl⟩ := hcompleted
    exact .inr (carries_of_answer hsize htakes hstate rfl)
  · exact .inl (h.concat fun response heq => hcompleted ⟨response, heq⟩)

theorem onItsWay_of_arrival (h : Served clientConfig serverConfig methods app calls acts done s)
    (hserver : RpcHeader.SIZE ≤ serverConfig.bufferSize) (hfew : calls.length < 2 ^ 64)
    (hcomplete : Methods.Complete methods) (hstate : s.server.link.conn.state = .CONNECTED)
    {k : Nat} {frame : List UInt8} {requests : Mailbox (List UInt8)} {server : Channel (RpcServer σ)}
    (hreceive : s.requests.receive k = some (frame, requests))
    (hstep : s.server.step (RpcServer.endpoint reserved) (.data frame) = some server)
    (hid : idOf frame ∈ awaited calls) :
    BeingHandled (acts ++ (RpcServer.channelAct s.server (.data frame)).toList) (idOf frame) ∨
      Carries (idOf frame) (server.sentSince s.server) := by
  obtain ⟨call, hcall, rfl⟩ := h.traffic.call_of_mem (Mailbox.mem_of_receive hreceive)
  have hdecode : RpcHeader.decode (call.frame clientConfig) = call.header :=
    RpcHeader.decode_encode_append ..
  have hsome := RpcServer.channelAct_isSome hstep (call.length_frame clientConfig)
    (by rw [hdecode]; exact h.traffic.magic call hcall)
    (by rw [h.traffic.lookup]; exact hcomplete _)
  obtain ⟨act, hact⟩ := Option.isSome_iff_exists.1 hsome
  have hheader := (RpcServer.channelAct_data hstep).1 act hact
  have htakes := RpcServer.step_takes h.traffic.serverPool hstep
  rw [hact] at htakes ⊢
  have hnot := not_completed_of_inFlight h.traffic h.owned hfew hid
    ⟨_, Mailbox.mem_of_receive hreceive, rfl⟩
  cases act with
  | refused header =>
    obtain rfl := Option.some.inj hheader
    exact .inr (carries_of_answer hserver htakes hstate rfl)
  | ran header payload app response =>
    obtain rfl := Option.some.inj hheader
    exact .inr (carries_of_answer hserver htakes hstate rfl)
  | began header payload app =>
    obtain rfl := Option.some.inj hheader
    refine .inl ⟨?_, ?_⟩
    · rw [List.filterMap_append]
      exact List.mem_append_right _ (by simp [ServerAct.opened, idOf])
    · intro response hmem
      rcases List.mem_append.1 hmem with hmem | hmem
      · exact hnot response hmem
      · simp at hmem
  | completed requestId response => cases hheader

theorem Tracked.step (ht : Tracked acts s)
    (h : Served clientConfig serverConfig methods app calls acts done s)
    (hclient : RpcHeader.SIZE ≤ clientConfig.bufferSize)
    (hserver : RpcHeader.SIZE ≤ serverConfig.bufferSize) (hfew : calls.length + 1 < 2 ^ 64)
    (hcomplete : Methods.Complete methods) (hended : ∀ result, e ≠ .server (.ended result))
    (hs : s.step reserved e = some s') : Tracked (acts ++ (s.acted e).toList) s' := by
  cases step_cases hs with
  | @client e client notData hstep =>
    have howner := RpcClient.step_owner hstep
    have hissues := issues_of_step h.traffic.clientPool hstep
    obtain ⟨-, hsent⟩ := RpcClient.step_frames h.traffic.clientPool hclient hstep
    rw [s.framesOf_eq clientConfig e] at hsent
    rw [show s.acted (.client e) = none from rfl, Option.toList_none, List.append_nil]
    refine ⟨ht.state, ?_, ?_⟩
    · intro id f hget
      rw [howner] at hget
      rcases get?_of_issues hissues hget with hget | ⟨call, hcall, hid⟩
      · exact (ht.onItsWay id f hget).imp_left fun hflight => hflight.append_left _
      · refine .inl ⟨call.frame clientConfig, List.mem_append_right _ ?_, ?_⟩
        · rw [hsent, hcall]
          exact List.mem_singleton_self _
        · rw [idOf_frame, hid]
    · rw [howner]
      exact ht.settles.act fun _ => h.owned.fresh hfew
  | @server e server notData hstep =>
    have htakes := RpcServer.step_takes h.traffic.serverPool hstep
    refine ⟨?_, ?_, ht.settles⟩
    · rw [← ht.state]
      exact RpcServer.state_of_step h.traffic.serverPool hstep fun result heq =>
        hended result (congrArg _ heq)
    · intro id f hget
      rcases ht.onItsWay id f hget with hflight | hhandled | hanswered
      · exact .inl hflight
      · rcases hhandled.serverStep hserver htakes ht.state with hhandled | ⟨frame, hframe, hid⟩
        · exact .inr (.inl hhandled)
        · exact .inr (.inr ⟨frame, List.mem_append_right _ hframe, hid⟩)
      · exact .inr (.inr (hanswered.append_left _))
  | @request k frame requests server hreceive hstep =>
    have htakes := RpcServer.step_takes h.traffic.serverPool hstep
    rw [acted_request hreceive]
    refine ⟨?_, ?_, ht.settles⟩
    · rw [← ht.state]
      exact RpcServer.state_of_step h.traffic.serverPool hstep (by simp)
    · intro id f hget
      have hanswer : BeingHandled (acts ++ (RpcServer.channelAct s.server (.data frame)).toList) id ∨
          Carries id (server.sentSince s.server) →
          OnItsWay (acts ++ (RpcServer.channelAct s.server (.data frame)).toList)
            { s with
              requests := requests
              server := server
              responses := s.responses.post (server.sentSince s.server) } id := by
        rintro (hhandled | ⟨frame, hframe, hid⟩)
        · exact .inr (.inl hhandled)
        · exact .inr (.inr ⟨frame, List.mem_append_right _ hframe, hid⟩)
      rcases ht.onItsWay id f hget with ⟨frame', hframe', rfl⟩ | hhandled | hanswered
      · rcases List.mem_cons.1 ((Mailbox.receive_inFlight hreceive).mem_iff.1 hframe') with rfl | hrest
        · obtain ⟨call, hcall, hid, hfuture⟩ := h.owned.pending _ f hget
          exact hanswer (onItsWay_of_arrival h hserver (by omega) hcomplete ht.state hreceive hstep
            (hid ▸ Owned.mem_awaited hcall hfuture))
        · exact .inl ⟨frame', hrest, rfl⟩
      · exact hanswer (hhandled.serverStep hserver htakes ht.state)
      · exact .inr (.inr (hanswered.append_left _))
  | @response k frame responses client hreceive hstep =>
    have howner := RpcClient.step_owner hstep
    have hne : RpcClient.actionOf s.client.link (.data frame) ≠ .call := by
      rcases RpcClient.actionOf_data_cases s.client.link frame with heq | ⟨_, _, heq⟩ <;> simp [heq]
    rw [show s.acted (.response k) = none from rfl, Option.toList_none, List.append_nil]
    refine ⟨ht.state, ?_, ?_⟩
    · intro id f hget
      rw [howner] at hget
      rcases ht.onItsWay id f (RpcClient.get?_of_act hne hget) with hflight | hhandled |
        ⟨frame', hframe', rfl⟩
      · exact .inl (hflight.append_left _)
      · exact .inr (.inl hhandled)
      · rcases List.mem_cons.1 ((Mailbox.receive_inFlight hreceive).mem_iff.1 hframe') with rfl | hrest
        · -- the response that arrives takes its request out of the table
          obtain ⟨act, -, id, response, -, hisFrame⟩ := h.traffic.responses _
            (Mailbox.mem_all_of_mem_inFlight (Mailbox.mem_of_receive hreceive))
          rw [← howner, erased_of_response hstep (hisFrame.length_le hserver)] at hget
          cases hget
        · exact .inr (.inr ⟨frame', hrest, rfl⟩)
    · rw [howner]
      exact ht.settles.act fun hcall => absurd hcall hne

end Conversation

open Conversation

/-- While the server's connection is open and every method has a handler, each request that the
client waits for is on its way to the server, or a handler has it, or its response is on its way
back; and once nothing is on its way and every closure has been called, the client waits for
nothing and all futures are completed. -/
theorem pending_on_its_way {σ : Type*} {clientConfig serverConfig : BufferPoolConfig}
    {methods : Methods σ} {app : σ} {reserved : RpcServer σ → UInt32} {s₀ s : Conversation σ}
    {events : List ConversationEvent}
    (hstart : Conversation.start clientConfig serverConfig methods app = .ok s₀)
    (hclient : RpcHeader.SIZE ≤ clientConfig.bufferSize)
    (hserver : RpcHeader.SIZE ≤ serverConfig.bufferSize) (hfew : events.length < 2 ^ 64)
    (hcomplete : Methods.Complete methods)
    (hopen : ∀ result, ConversationEvent.server (.ended result) ∉ events)
    (hrun : run (step reserved) s₀ events = some s) :
    let acts := observe (step reserved) acted s₀ events
    (∀ id f, s.client.link.owner.pendingRequests.get? id = some f → OnItsWay acts s id) ∧
      (s.requests.inFlight = [] → s.responses.inFlight = [] →
        (∀ id ∈ s.server.link.owner.asyncCalls, ∃ response, .completed id response ∈ acts) →
        s.client.link.owner.pendingRequests.entries = [] ∧
          ∀ f < s.client.link.owner.nextFuture, (s.client.link.owner.futures f).completed = true) := by
  intro acts
  obtain ⟨hserved, htracked⟩ : Served clientConfig serverConfig methods app
      (observe (step reserved) issued s₀ events) acts (observe (step reserved) settled s₀ events) s ∧
      Tracked acts s := by
    refine run_induction (C := fun _ _ => True) (motive := fun es s => es.length < 2 ^ 64 →
      (∀ result, ConversationEvent.server (.ended result) ∉ es) →
      Served clientConfig serverConfig methods app (observe (step reserved) issued s₀ es)
        (observe (step reserved) acted s₀ es) (observe (step reserved) settled s₀ es) s ∧
      Tracked (observe (step reserved) acted s₀ es) s)
      (fun _ _ => ⟨.start hstart, .start hstart⟩) ?_ .unconditional hrun hfew hopen
    intro es s₁ e s₂ hes ih _ hstep hlen hended
    rw [List.length_append, List.length_singleton] at hlen
    obtain ⟨hserved, htracked⟩ := ih (by omega) fun result hmem =>
      hended result (List.mem_append_left _ hmem)
    have hcalls := length_observe_le (step reserved) issued s₀ es
    rw [observe_concat hes, observe_concat hes, observe_concat hes]
    refine ⟨hserved.step hclient hserver (by omega) hstep,
      htracked.step hserved hclient hserver (by omega) hcomplete ?_ hstep⟩
    rintro result rfl
    exact hended result (by simp)
  refine ⟨htracked.onItsWay, fun hrequests hresponses hclosures => ?_⟩
  have hnone : ∀ id, s.client.link.owner.pendingRequests.get? id = none := by
    intro id
    cases hget : s.client.link.owner.pendingRequests.get? id with
    | none => rfl
    | some f =>
      rcases htracked.onItsWay id f hget with ⟨frame, hframe, -⟩ | ⟨hopened, hnot⟩ | ⟨frame, hframe, -⟩
      · rw [hrequests] at hframe
        cases hframe
      · rw [← hserved.traffic.asyncCalls] at hopened
        obtain ⟨response, hcompleted⟩ := hclosures id hopened
        exact absurd hcompleted (hnot response)
      · rw [hresponses] at hframe
        cases hframe
  refine ⟨Dict.entries_eq_nil_iff.2 hnone, fun f hf => ?_⟩
  rcases htracked.settles f hf with hdone | ⟨id, hget⟩
  · exact hdone
  · rw [hnone id] at hget
    cases hget

section Example

/-- Method 1 answers at once, method 2 later. -/
def bothMethods : Methods Nat :=
  countingMethods.registerAsyncMethod 2 (some fun _ _ n => n + 1)

/-- The request to method 2 arrives first and is answered last. -/
def laterRun : List ConversationEvent :=
  [.client (.late (.call 0 (.async 2 [7]))), callCounting [8], .request 0, .request 0, .response 0,
    .server (.late (0, 1, { errorMessage := bytesOf "late" })), .response 0]

theorem pending_on_its_way_later : ∃ s₀ s : Conversation Nat,
    Conversation.start .several .several bothMethods 0 = .ok s₀ ∧
    run (step fun _ => 0) s₀ laterRun = some s ∧
    s.requests.inFlight = [] ∧ s.responses.inFlight = [] ∧ s.client.link.owner.nextFuture = 2 ∧
    s.client.link.owner.pendingRequests.entries = [] ∧
      ∀ f < s.client.link.owner.nextFuture, (s.client.link.owner.futures f).completed = true := by
  obtain ⟨s₀, hstart⟩ : ∃ s₀, Conversation.start .several .several bothMethods 0 = .ok s₀ := ⟨_, rfl⟩
  obtain ⟨s, hrun, hrequests, hresponses, hnext, hcalls, hact⟩ : ∃ s,
      run (step fun _ => 0) s₀ laterRun = some s ∧ s.requests.inFlight = [] ∧
      s.responses.inFlight = [] ∧ s.client.link.owner.nextFuture = 2 ∧
      s.server.link.owner.asyncCalls = [1] ∧
      (observe (step fun _ => 0) acted s₀ laterRun)[2]? =
        some (.completed 1 { errorMessage := bytesOf "late" }) := by
    obtain rfl := Except.ok.inj hstart
    exact ⟨_, rfl, rfl, rfl, rfl, rfl, rfl⟩
  have hcomplete : Methods.Complete bothMethods := by
    intro id method hget
    rcases Dict.get?_set_eq_some_iff.1 hget with ⟨-, rfl⟩ | ⟨-, hget⟩
    · exact .inl ⟨rfl, rfl⟩
    · rcases Dict.get?_set_eq_some_iff.1 hget with ⟨-, rfl⟩ | ⟨-, hget⟩
      · exact .inr rfl
      · cases hget
  have hopen : ∀ result, ConversationEvent.server (.ended result) ∉ laterRun := by
    simp [laterRun, callCounting]
  refine ⟨s₀, s, hstart, hrun, hrequests, hresponses, hnext,
    (pending_on_its_way hstart (by decide) (by decide) (by decide) hcomplete hopen hrun).2 hrequests
      hresponses ?_⟩
  rw [hcalls]
  intro id hid
  obtain rfl := List.mem_singleton.1 hid
  exact ⟨_, List.mem_of_getElem? hact⟩

end Example

end GossipRl
