import GossipRl.Rpc.Conversation

/-!
# How often a request is handled

The server keeps no record of the requests it has handled; that none is handled twice rests on the
client, which sends one frame for a call, and on frames that arrive once. Then the requests that a
handler is called with are some of the calls, each once, and the state of the application is what
the handlers make of it one after the other.
-/

namespace GossipRl
open Support

/-- Of the requests that arrive, those to a method with a handler are handled, once each and in the
order of their arrival; they are among the calls that the client has sent a frame for, cut to what
the client's buffers take, and the application is in the state that the handlers leave when they are
run on them in this order. -/
theorem handled_at_most_once {σ : Type*} {clientConfig serverConfig : BufferPoolConfig}
    {methods : Methods σ} {app : σ} {reserved : RpcServer σ → UInt32} {s₀ s : Conversation σ}
    {events : List ConversationEvent}
    (hstart : Conversation.start clientConfig serverConfig methods app = .ok s₀)
    (hsize : RpcHeader.SIZE ≤ clientConfig.bufferSize)
    (hrun : run (Conversation.step reserved) s₀ events = some s) :
    let calls := observe (Conversation.step reserved) Conversation.issued s₀ events
    let handled := (observe (Conversation.step reserved) Conversation.acted s₀ events).filterMap
      ServerAct.handled
    handled = (s.requests.delivered.map requestOf).filter (fun r => methods.handles r.1.methodId) ∧
      handled.Subperm (calls.map (IssuedCall.request clientConfig)) ∧
      s.server.link.owner.app = handled.foldl methods.serve app := by
  intro calls handled
  have htraffic := Conversation.Traffic.run hstart hsize hrun
  refine ⟨htraffic.handled, ?_, htraffic.app⟩
  rw [show handled = _ from htraffic.handled]
  have harrived : (s.requests.delivered.map requestOf).Sublist (s.requests.all.map requestOf) :=
    (List.sublist_append_left ..).map requestOf
  have hrequests : (s.requests.all.map requestOf).Perm
      (calls.map (IssuedCall.request clientConfig)) := by
    have hrequest : requestOf ∘ IssuedCall.frame clientConfig = IssuedCall.request clientConfig :=
      funext (requestOf_frame clientConfig)
    have hframes := htraffic.requests.map requestOf
    rwa [List.map_map, hrequest] at hframes
  exact (List.filter_sublist.trans harrived).subperm.trans hrequests.subperm

section Example

/-- Of two requests that are sent, the second arrives and is handled; the first is still on its way. -/
theorem handled_at_most_once_second : ∃ s₀ s : Conversation Nat,
    Conversation.start .few .few countingMethods 0 = .ok s₀ ∧
    run (Conversation.step fun _ => 0) s₀ [callCounting [7], callCounting [8], .request 1] = some s ∧
    s.requests.inFlight.length = 1 ∧ s.server.link.owner.app = 1 ∧
    ((observe (Conversation.step fun _ => 0) Conversation.acted s₀
        [callCounting [7], callCounting [8], .request 1]).filterMap ServerAct.handled).Subperm
      ((observe (Conversation.step fun _ => 0) Conversation.issued s₀
        [callCounting [7], callCounting [8], .request 1]).map (IssuedCall.request .few)) := by
  obtain ⟨s₀, hstart⟩ : ∃ s₀, Conversation.start .few .few countingMethods 0 = .ok s₀ := ⟨_, rfl⟩
  obtain ⟨s, hrun, hflight, happ⟩ : ∃ s,
      run (Conversation.step fun _ => 0) s₀ [callCounting [7], callCounting [8], .request 1] = some s ∧
      s.requests.inFlight.length = 1 ∧ s.server.link.owner.app = 1 := by
    obtain rfl := Except.ok.inj hstart
    exact ⟨_, rfl, rfl, rfl⟩
  exact ⟨s₀, s, hstart, hrun, hflight, happ,
    (handled_at_most_once hstart (by decide) hrun).2.1⟩

end Example

end GossipRl
