import GossipRl.Rpc.SentFrames
import GossipRl.Support.Mailbox

/-!
# A client and its server

`Conversation` is both ends of a connection and the frames that are on their way. Any event of either
end may come next, in any order; a frame arrives once at most, early, late or never. It arrives in one
piece (`request`, `response`), which is an assumption: the transport hands over what one `recv`
returned, and `Framing` says what becomes of frames that are cut or joined. What goes on is seen in the calls for which the client sends a frame
(`issued`), in the acts of the server (`acted`), and in the futures that a response completes
(`settled`). `Traffic` says where requests and responses come from.
-/

namespace GossipRl
open Support

structure Conversation (σ : Type*) where
  client : Channel RpcClient
  server : Channel (RpcServer σ)
  requests : Mailbox (List UInt8) := {}
  responses : Mailbox (List UInt8) := {}

inductive ConversationEvent where
  | client (e : ChannelEvent SessionOp)
  | server (e : ChannelEvent (UInt32 × UInt64 × RpcResponse))
  /-- The server receives the `k`-th of the requests on their way. -/
  | request (k : Nat)
  /-- The client receives the `k`-th of the responses on their way. -/
  | response (k : Nat)

/-- A call for which the client sends a frame, and its future if it is asynchronous. -/
structure IssuedCall where
  header : RpcHeader
  payload : List UInt8
  future : Option Nat

namespace IssuedCall

def frame (config : BufferPoolConfig) (call : IssuedCall) : List UInt8 :=
  RpcClient.frameOf config call.header call.payload

/-- What a handler is called with. -/
def request (config : BufferPoolConfig) (call : IssuedCall) : RpcHeader × List UInt8 :=
  (call.header, RpcClient.arriving config call.payload)

theorem length_frame (config : BufferPoolConfig) (call : IssuedCall) :
    RpcHeader.SIZE ≤ (call.frame config).length := by
  simp [frame, RpcClient.frameOf]

end IssuedCall

theorem requestOf_frame (config : BufferPoolConfig) (call : IssuedCall) :
    requestOf (call.frame config) = call.request config := by
  refine Prod.ext (RpcHeader.decode_encode_append _ _) ?_
  exact List.drop_left' call.header.length_encode

/-- The future that a response completes, with what. -/
def RpcClient.settles (c : RpcClient) : ClientAction → Option (Nat × RpcResponse)
  | .respond requestId response => (c.pendingRequests.get? requestId).map (·, response)
  | _ => none

namespace Conversation
variable {σ : Type*}

def clientStep (s : Conversation σ) (e : ChannelEvent SessionOp) : Option (Conversation σ) :=
  (s.client.step RpcClient.session e).map fun client =>
    { s with client := client, requests := s.requests.post (client.sentSince s.client) }

def serverStep (reserved : RpcServer σ → UInt32) (s : Conversation σ)
    (e : ChannelEvent (UInt32 × UInt64 × RpcResponse)) : Option (Conversation σ) :=
  (s.server.step (RpcServer.endpoint reserved) e).map fun server =>
    { s with server := server, responses := s.responses.post (server.sentSince s.server) }

/-- Bytes come from the other end only. -/
def step (reserved : RpcServer σ → UInt32) (s : Conversation σ) :
    ConversationEvent → Option (Conversation σ)
  | .client (.data _) | .server (.data _) => none
  | .client e => s.clientStep e
  | .server e => s.serverStep reserved e
  | .request k =>
    (s.requests.receive k).bind fun (frame, requests) =>
      ({ s with requests := requests } : Conversation σ).serverStep reserved (.data frame)
  | .response k =>
    (s.responses.receive k).bind fun (frame, responses) =>
      ({ s with responses := responses } : Conversation σ).clientStep (.data frame)

/-- A new connection; the service has the methods that were registered with it. -/
def start (clientConfig serverConfig : BufferPoolConfig) (methods : Methods σ) (app : σ) :
    Except Fault (Conversation σ) :=
  (Channel.start clientConfig {}).bind fun client =>
    (Channel.start serverConfig { methodLookup := methods, app := app }).map fun server =>
      { client := client, server := server }

/-! ### What is seen of a run -/

def issued (s : Conversation σ) : ConversationEvent → Option IssuedCall
  | .client (.late (.call reserved call)) =>
    if RpcClient.isConnected s.client.link then
      some {
        header := RpcClient.headerOf reserved s.client.link.owner call
        payload := call.payload
        future := match call with
          | .async .. => some s.client.link.owner.nextFuture
          | .oneway .. => none }
    else none
  | _ => none

def acted (s : Conversation σ) : ConversationEvent → Option (ServerAct σ)
  | .server e => RpcServer.channelAct s.server e
  | .request k => s.requests.inFlight[k]?.bind fun frame =>
      RpcServer.channelAct s.server (.data frame)
  | _ => none

def settled (s : Conversation σ) : ConversationEvent → Option (Nat × RpcResponse)
  | .response k => s.responses.inFlight[k]?.bind fun frame =>
      s.client.link.owner.settles (RpcClient.actionOf s.client.link (.data frame))
  | _ => none

/-! ### Steps -/

variable {s s' : Conversation σ} {e : ConversationEvent} {reserved : RpcServer σ → UInt32}
  {clientConfig serverConfig : BufferPoolConfig}

/-- The kinds of steps. -/
inductive StepCases (reserved : RpcServer σ → UInt32) (s : Conversation σ) :
    ConversationEvent → Conversation σ → Prop
  | client {e : ChannelEvent SessionOp} {client : Channel RpcClient} (notData : ∀ bs, e ≠ .data bs)
      (step : s.client.step RpcClient.session e = some client) :
      StepCases reserved s (.client e)
        { s with client := client, requests := s.requests.post (client.sentSince s.client) }
  | server {e : ChannelEvent (UInt32 × UInt64 × RpcResponse)} {server : Channel (RpcServer σ)}
      (notData : ∀ bs, e ≠ .data bs)
      (step : s.server.step (RpcServer.endpoint reserved) e = some server) :
      StepCases reserved s (.server e)
        { s with server := server, responses := s.responses.post (server.sentSince s.server) }
  | request {k : Nat} {frame : List UInt8} {requests : Mailbox (List UInt8)}
      {server : Channel (RpcServer σ)} (receive : s.requests.receive k = some (frame, requests))
      (step : s.server.step (RpcServer.endpoint reserved) (.data frame) = some server) :
      StepCases reserved s (.request k)
        { s with
          requests := requests
          server := server
          responses := s.responses.post (server.sentSince s.server) }
  | response {k : Nat} {frame : List UInt8} {responses : Mailbox (List UInt8)}
      {client : Channel RpcClient} (receive : s.responses.receive k = some (frame, responses))
      (step : s.client.step RpcClient.session (.data frame) = some client) :
      StepCases reserved s (.response k)
        { s with
          responses := responses
          client := client
          requests := s.requests.post (client.sentSince s.client) }

theorem step_cases (h : s.step reserved e = some s') : StepCases reserved s e s' := by
  cases e with
  | client e =>
    have hdata : ∀ bs, e ≠ .data bs := by
      rintro bs rfl
      cases h
    have hclient : s.clientStep e = some s' := by
      cases e with
      | data bs => exact absurd rfl (hdata bs)
      | _ => exact h
    obtain ⟨client, hstep, rfl⟩ := Option.map_eq_some_iff.1 hclient
    exact .client hdata hstep
  | server e =>
    have hdata : ∀ bs, e ≠ .data bs := by
      rintro bs rfl
      cases h
    have hserver : s.serverStep reserved e = some s' := by
      cases e with
      | data bs => exact absurd rfl (hdata bs)
      | _ => exact h
    obtain ⟨server, hstep, rfl⟩ := Option.map_eq_some_iff.1 hserver
    exact .server hdata hstep
  | request k =>
    obtain ⟨⟨frame, requests⟩, hreceive, hrest⟩ := Option.bind_eq_some_iff.1 h
    obtain ⟨server, hstep, rfl⟩ := Option.map_eq_some_iff.1 hrest
    exact .request hreceive hstep
  | response k =>
    obtain ⟨⟨frame, responses⟩, hreceive, hrest⟩ := Option.bind_eq_some_iff.1 h
    obtain ⟨client, hstep, rfl⟩ := Option.map_eq_some_iff.1 hrest
    exact .response hreceive hstep

theorem framesOf_eq (s : Conversation σ) (config : BufferPoolConfig) (e : ChannelEvent SessionOp) :
    RpcClient.framesOf config s.client.link e =
      (s.issued (.client e)).toList.map (IssuedCall.frame config) := by
  cases e with
  | late op =>
    cases op with
    | call reserved call =>
      simp only [RpcClient.framesOf, issued]
      split <;> rfl
    | _ => rfl
  | _ => rfl

theorem magic_of_issued {call : IssuedCall} (h : s.issued e = some call) :
    call.header.magic = RpcHeader.MAGIC := by
  unfold issued at h
  split at h
  · split at h
    · exact Option.some.inj h ▸ RpcClient.magic_headerOf _
    · cases h
  · cases h

theorem acted_request {k : Nat} {frame : List UInt8} {requests : Mailbox (List UInt8)}
    (h : s.requests.receive k = some (frame, requests)) :
    s.acted (.request k) = RpcServer.channelAct s.server (.data frame) := by
  obtain ⟨a, ha, heq⟩ := Option.map_eq_some_iff.1 h
  obtain ⟨rfl, -⟩ := Prod.mk.inj heq
  simp only [acted, ha, Option.bind_some]

/-! ### Where requests and responses come from -/

/-- The requests that were posted are the frames of the calls, what the server did it did for
requests that have arrived, and the responses are answers it gave. -/
structure Traffic (clientConfig serverConfig : BufferPoolConfig) (methods : Methods σ) (app : σ)
    (calls : List IssuedCall) (acts : List (ServerAct σ)) (s : Conversation σ) : Prop where
  clientPool : s.client.link.pool.Of clientConfig
  serverPool : s.server.link.pool.Of serverConfig
  lookup : s.server.link.owner.methodLookup = methods
  app : s.server.link.owner.app = (acts.filterMap ServerAct.handled).foldl methods.serve app
  requests : s.requests.all.Perm (calls.map (IssuedCall.frame clientConfig))
  headers : (acts.filterMap ServerAct.header).Sublist (s.requests.delivered.map RpcHeader.decode)
  handled : acts.filterMap ServerAct.handled =
    (s.requests.delivered.map requestOf).filter fun r => methods.handles r.1.methodId
  magic : ∀ call ∈ calls, call.header.magic = RpcHeader.MAGIC
  asyncCalls : s.server.link.owner.asyncCalls = acts.filterMap ServerAct.opened
  completed : ∀ id response, .completed id response ∈ acts → id ∈ acts.filterMap ServerAct.opened
  responses : ∀ frame ∈ s.responses.all, ∃ act ∈ acts, ∃ id response,
    act.answer = some (id, response) ∧ RpcServer.IsFrame serverConfig id response frame

namespace Traffic
variable {methods : Methods σ} {app : σ} {calls : List IssuedCall} {acts : List (ServerAct σ)}

theorem start (h : Conversation.start clientConfig serverConfig methods app = .ok s) :
    Traffic clientConfig serverConfig methods app [] [] s := by
  unfold Conversation.start at h
  cases hclient : Channel.start clientConfig ({} : RpcClient) with
  | error f =>
    rw [hclient] at h
    cases h
  | ok client =>
    rw [hclient] at h
    obtain ⟨server, hserver, rfl⟩ := map_eq_ok_iff.1 h
    obtain ⟨hof, -, -⟩ := Channel.of_start hclient
    obtain ⟨hof', howner, -⟩ := Channel.of_start hserver
    exact ⟨hof, hof', by rw [howner], by rw [howner]; rfl, .refl _, .slnil, rfl, by simp,
      by rw [howner]; rfl, by simp, by simp [Mailbox.all]⟩

theorem call_of_mem (h : Traffic clientConfig serverConfig methods app calls acts s)
    {frame : List UInt8} (hframe : frame ∈ s.requests.inFlight) :
    ∃ call ∈ calls, call.frame clientConfig = frame :=
  List.mem_map.1 (h.requests.mem_iff.1 (Mailbox.mem_all_of_mem_inFlight hframe))

theorem clientStep (h : Traffic clientConfig serverConfig methods app calls acts s)
    (calls' : List IssuedCall) {client : Channel RpcClient} {responses : Mailbox (List UInt8)}
    (hpool : client.link.pool.Of clientConfig)
    (hsent : client.sentSince s.client = calls'.map (IssuedCall.frame clientConfig))
    (hmagic : ∀ call ∈ calls', call.header.magic = RpcHeader.MAGIC)
    (hresponses : responses.all.Perm s.responses.all) :
    Traffic clientConfig serverConfig methods app (calls ++ calls') acts
      { s with
        client := client
        requests := s.requests.post (client.sentSince s.client)
        responses := responses } where
  clientPool := hpool
  serverPool := h.serverPool
  lookup := h.lookup
  app := h.app
  requests := by
    rw [Mailbox.all_post, hsent, List.map_append]
    exact h.requests.append_right _
  headers := h.headers
  handled := h.handled
  magic := List.forall_mem_append.2 ⟨h.magic, hmagic⟩
  asyncCalls := h.asyncCalls
  completed := h.completed
  responses := fun frame hframe => h.responses frame (hresponses.mem_iff.1 hframe)

/-- A step of the server is one act at most, about the frame that has just arrived, if one has. -/
theorem serverStep (h : Traffic clientConfig serverConfig methods app calls acts s)
    (arrived : List (List UInt8)) {act : Option (ServerAct σ)} {server : Channel (RpcServer σ)}
    {requests : Mailbox (List UInt8)} (htakes : RpcServer.Takes serverConfig act s.server server)
    (hall : requests.all.Perm s.requests.all)
    (hdelivered : requests.delivered = s.requests.delivered ++ arrived)
    (hheader : (act.bind ServerAct.header).toList.Sublist (arrived.map RpcHeader.decode))
    (hhandled : (act.bind ServerAct.handled).toList =
      (arrived.map requestOf).filter fun r => methods.handles r.1.methodId)
    (hcompleted : ∀ id response, act = some (.completed id response) →
      id ∈ s.server.link.owner.asyncCalls) :
    Traffic clientConfig serverConfig methods app calls (acts ++ act.toList)
      { s with
        requests := requests
        server := server
        responses := s.responses.post (server.sentSince s.server) } where
  clientPool := h.clientPool
  serverPool := htakes.pool
  lookup := htakes.methods.trans h.lookup
  app := by
    rw [filterMap_append_toList, List.foldl_append, ← h.app, ← h.lookup]
    exact htakes.app
  requests := hall.trans h.requests
  headers := by
    rw [filterMap_append_toList, hdelivered, List.map_append]
    exact h.headers.append hheader
  handled := by
    rw [filterMap_append_toList, hdelivered, List.map_append, List.filter_append, h.handled, hhandled]
  magic := h.magic
  asyncCalls := by
    rw [filterMap_append_toList, ← h.asyncCalls]
    exact htakes.asyncCalls
  completed := by
    intro id response hmem
    rw [filterMap_append_toList]
    rcases List.mem_append.1 hmem with hmem | hmem
    · exact List.mem_append_left _ (h.completed id response hmem)
    · rw [Option.mem_toList] at hmem
      rw [← h.asyncCalls]
      exact List.mem_append_left _ (hcompleted id response hmem)
  responses := by
    intro frame hframe
    rw [Mailbox.all_post] at hframe
    rcases List.mem_append.1 hframe with hframe | hframe
    · obtain ⟨act', hact', hanswer⟩ := h.responses frame hframe
      exact ⟨act', List.mem_append_left _ hact', hanswer⟩
    · have hsends := htakes.sends
      cases hanswer : act.bind ServerAct.answer with
      | none =>
        rw [hanswer] at hsends
        rw [show server.sentSince s.server = [] from hsends] at hframe
        cases hframe
      | some answer =>
        obtain ⟨act', rfl, hgiven⟩ := Option.bind_eq_some_iff.1 hanswer
        rw [hanswer] at hsends
        rcases hsends with ⟨-, frame', hframes, hisFrame⟩ | ⟨-, hframes⟩
        · rw [hframes, List.mem_singleton] at hframe
          exact ⟨act', by simp, answer.1, answer.2, hgiven, hframe ▸ hisFrame⟩
        · rw [hframes] at hframe
          cases hframe

theorem step (h : Traffic clientConfig serverConfig methods app calls acts s)
    (hsize : RpcHeader.SIZE ≤ clientConfig.bufferSize) (hs : s.step reserved e = some s') :
    Traffic clientConfig serverConfig methods app (calls ++ (s.issued e).toList)
      (acts ++ (s.acted e).toList) s' := by
  cases step_cases hs with
  | @client e client notData hstep =>
    obtain ⟨hof, hsent⟩ := RpcClient.step_frames h.clientPool hsize hstep
    rw [show s.acted (.client e) = none from rfl, Option.toList_none, List.append_nil]
    refine h.clientStep _ hof (hsent.trans (s.framesOf_eq clientConfig e)) ?_ (.refl _)
    intro call hcall
    exact magic_of_issued (Option.mem_toList.1 hcall)
  | @server e server notData hstep =>
    have hother : ∀ act, s.acted (.server e) = some act → ∃ id response,
        act = .completed id response ∧ id ∈ s.server.link.owner.asyncCalls :=
      fun act hact => RpcServer.channelAct_other h.serverPool hstep notData hact
    have hnone : ∀ {β : Type} (f : ServerAct σ → Option β),
        (∀ id response, f (.completed id response) = none) → (s.acted (.server e)).bind f = none := by
      intro β f hf
      cases hact : s.acted (.server e) with
      | none => rfl
      | some act =>
        obtain ⟨id, response, rfl, -⟩ := hother act hact
        exact hf id response
    rw [show s.issued (.server e) = none from rfl, Option.toList_none, List.append_nil]
    refine h.serverStep [] (RpcServer.step_takes h.serverPool hstep) (.refl _)
      (List.append_nil _).symm ?_ ?_ ?_
    · rw [hnone ServerAct.header fun _ _ => rfl]
      exact .slnil
    · rw [hnone ServerAct.handled fun _ _ => rfl]
      rfl
    · intro id response hact
      obtain ⟨id', response', heq, hmem⟩ := hother _ hact
      obtain ⟨rfl, -⟩ := ServerAct.completed.inj heq
      exact hmem
  | @request k frame requests server hreceive hstep =>
    rw [show s.issued (.request k) = none from rfl, Option.toList_none, List.append_nil,
      acted_request hreceive]
    refine h.serverStep [frame] (RpcServer.step_takes h.serverPool hstep)
      (Mailbox.receive_all hreceive) (Mailbox.receive_delivered hreceive) ?_ ?_ ?_
    · cases hact : RpcServer.channelAct s.server (.data frame) with
      | none => exact List.nil_sublist _
      | some act =>
        rw [Option.bind_some, (RpcServer.channelAct_data hstep).1 act hact]
        exact .refl _
    · obtain ⟨call, hcall, hframe⟩ := h.call_of_mem (Mailbox.mem_of_receive hreceive)
      have hrequest := requestOf_frame clientConfig call
      rw [hframe] at hrequest
      have hdecode : RpcHeader.decode frame = call.header := congrArg Prod.fst hrequest
      rw [(RpcServer.channelAct_data hstep).2 (hframe ▸ call.length_frame clientConfig)
        (hdecode ▸ h.magic call hcall), ← h.lookup, List.map_singleton, List.filter_singleton]
      by_cases hhandles : Methods.handles s.server.link.owner.methodLookup
        (RpcHeader.decode frame).methodId = true
      · rw [if_pos hhandles]
        simp [requestOf, hhandles]
      · rw [if_neg hhandles]
        simp [requestOf, hhandles]
    · intro id response hact
      cases (RpcServer.channelAct_data hstep).1 _ hact
  | @response k frame responses client hreceive hstep =>
    obtain ⟨hof, hsent⟩ := RpcClient.step_frames h.clientPool hsize hstep
    rw [show s.acted (.response k) = none from rfl, Option.toList_none, List.append_nil]
    exact h.clientStep [] hof hsent (by simp) (Mailbox.receive_all hreceive)

theorem run (hstart : Conversation.start clientConfig serverConfig methods app = .ok s)
    (hsize : RpcHeader.SIZE ≤ clientConfig.bufferSize) {events : List ConversationEvent}
    (h : run (Conversation.step reserved) s events = some s') :
    Traffic clientConfig serverConfig methods app
      (observe (Conversation.step reserved) issued s events)
      (observe (Conversation.step reserved) acted s events) s' := by
  refine run_induction (motive := fun es s' => Traffic clientConfig serverConfig methods app
      (observe (Conversation.step reserved) issued s es)
      (observe (Conversation.step reserved) acted s es) s') (start hstart) ?_ .unconditional h
  intro es s₁ e s₂ hrun ih _ hstep
  rw [observe_concat hrun, observe_concat hrun]
  exact ih.step hsize hstep

end Traffic

end Conversation

section Example

/-- A pool of eight buffers. -/
def BufferPoolConfig.several : BufferPoolConfig :=
  { BufferPoolConfig.few with
    initialCount := 8
    maxCount := 8
    initialCount_lt := by decide
    maxCount_lt := by decide }

/-- A method that counts its calls. -/
def countingMethods : Methods Nat :=
  Methods.registerMethod 1 (some fun _ _ n => ({ errorMessage := bytesOf "done" }, n + 1)) .empty

def callCounting (payload : List UInt8) : ConversationEvent := .client (.late (.call 0 (.async 1 payload)))

end Example

end GossipRl
