import GossipRl.Rpc.BufferPoolInv
import GossipRl.Rpc.Dispatch

/-!
# The counters of a server (`rpc_server.cpp`)

Between the call of a handler and its response other frames may come in and other calls may be
completed: a synchronous handler runs (`running`) until it returns, and an asynchronous one leaves a
completion that is called later (`outstanding`), each in any order. `Counts st n` says that the
counters know of `n` requests which are being handled. Each step but one keeps this to the number of
those there are: a request for a method with an empty handler is counted and never finished.
-/

namespace GossipRl
open Support

variable {σ : Type*}

/-- A call of a synchronous handler. -/
structure HandlerCall (σ : Type*) where
  header : RpcHeader
  payload : List UInt8
  handler : RpcHandler σ

structure Service (σ : Type*) where
  server : RpcServer σ
  running : List (HandlerCall σ) := []
  /-- The request ids of the completions that have not been called. -/
  outstanding : List UInt64 := []

/-- The connection that an answer goes to and the pool it takes its buffer from, as they are then. -/
structure Answering where
  conn : TcpConnection
  pool : BufferPool
  /-- The field of the header that is not initialized. -/
  reserved : UInt32

inductive ServiceEvent where
  | message (via : Answering) (buffer : Buffer)
  /-- A synchronous handler returns. -/
  | return (i : Nat) (via : Answering)
  /-- A completion is called. -/
  | complete (i : Nat) (via : Answering) (response : RpcResponse)

namespace Service

def start (methods : Methods σ) (app : σ) : Service σ where
  server := { methodLookup := methods, app := app }

/-- The link that the server answers on. -/
def link (s : Service σ) (via : Answering) : Link (RpcServer σ) := ⟨s.server, via.conn, via.pool⟩

/-- `on_message`, up to where a synchronous handler is called. -/
def message (s : Service σ) (via : Answering) (buffer : Buffer) : Option (Service σ) :=
  let l := (s.link via).mapOwner (RpcServer.mapStats (·.received buffer.size))
  match s.server.dispatch buffer with
  | .sync header payload handler =>
    some { s with server := l.owner, running := s.running ++ [⟨header, payload, handler⟩] }
  | .async header payload handler =>
    (RpcServer.perform via.reserved l (.async header payload handler)).toOption.map fun l =>
      { s with server := l.owner, outstanding := s.outstanding ++ [header.requestId] }
  | d => (RpcServer.perform via.reserved l d).toOption.map fun l => { s with server := l.owner }

/-- The rest of `on_message`, with what the handler returns. -/
def return_ (s : Service σ) (i : Nat) (via : Answering) : Option (Service σ) :=
  match s.running[i]? with
  | none => none
  | some call =>
    let (response, app) := call.handler call.header.context call.payload s.server.app
    let l := (s.link via).mapOwner fun server => { server with app := app }
    (RpcServer.asyncComplete via.reserved l call.header.requestId response).toOption.map fun l =>
      { s with server := l.owner, running := s.running.eraseIdx i }

def complete (s : Service σ) (i : Nat) (via : Answering) (response : RpcResponse) :
    Option (Service σ) :=
  match s.outstanding[i]? with
  | none => none
  | some requestId =>
    (RpcServer.asyncComplete via.reserved (s.link via) requestId response).toOption.map fun l =>
      { s with server := l.owner, outstanding := s.outstanding.eraseIdx i }

def step (s : Service σ) : ServiceEvent → Option (Service σ)
  | .message via buffer => s.message via buffer
  | .return i via => s.return_ i via
  | .complete i via response => s.complete i via response

/-- How many requests are being handled. -/
def handling (s : Service σ) : Nat := s.running.length + s.outstanding.length

end Service

/-- The counters know of `n` requests that are being handled. -/
structure RpcServerStats.Counts (st : RpcServerStats) (n : Nat) : Prop where
  active : st.activeRequests = UInt64.ofNat n
  total : st.totalRequests = st.successfulRequests + st.failedRequests + UInt64.ofNat n

namespace RpcServerStats.Counts
variable {st : RpcServerStats} {n : Nat}

theorem init : Counts {} 0 := ⟨rfl, rfl⟩

theorem received (h : st.Counts n) (size : Nat) : (st.received size).Counts (n + 1) := by
  constructor
  · show st.activeRequests + 1 = _
    rw [h.active, UInt64.ofNat_add]
    rfl
  · show st.totalRequests + 1 = st.successfulRequests + st.failedRequests + _
    rw [h.total, UInt64.ofNat_add, UInt64.add_assoc]
    rfl

theorem finished (h : st.Counts (n + 1)) (ok : Bool) : (st.finished ok).Counts n := by
  have hactive : st.activeRequests - 1 = UInt64.ofNat n := by
    rw [h.active, UInt64.ofNat_add]
    exact UInt64.add_sub_cancel ..
  have htotal : st.totalRequests = st.successfulRequests + st.failedRequests + UInt64.ofNat n + 1 := by
    rw [h.total, UInt64.ofNat_add, UInt64.add_assoc _ _ 1]
    rfl
  cases ok with
  | true =>
    refine ⟨hactive, ?_⟩
    show st.totalRequests = st.successfulRequests + 1 + st.failedRequests + UInt64.ofNat n
    rw [htotal]
    ac_rfl
  | false =>
    refine ⟨hactive, ?_⟩
    show st.totalRequests = st.successfulRequests + (st.failedRequests + 1) + UInt64.ofNat n
    rw [htotal]
    ac_rfl

end RpcServerStats.Counts

namespace RpcServer
variable {l l' : Link (RpcServer σ)} {reserved : UInt32} {requestId : UInt64}
  {response : RpcResponse} {n : Nat}

theorem sendResponse_counts (h : l.owner.stats.Counts n)
    (hs : sendResponse reserved l requestId response = .ok l') : l'.owner.stats.Counts n := by
  unfold sendResponse at hs
  split at hs
  · cases hs
  · obtain rfl := Except.ok.inj hs
    exact h
  · obtain rfl := Except.ok.inj hs
    exact ⟨h.active, h.total⟩

theorem asyncComplete_counts (h : l.owner.stats.Counts (n + 1))
    (hs : asyncComplete reserved l requestId response = .ok l') : l'.owner.stats.Counts n := by
  unfold asyncComplete at hs
  obtain ⟨l₁, hsend, rfl⟩ := map_eq_ok_iff.1 hs
  exact (sendResponse_counts h hsend).finished response.ok

end RpcServer

theorem eq_ok_of_toOption {ε α : Type*} {x : Except ε α} {a : α} (h : x.toOption = some a) :
    x = .ok a := by
  cases x with
  | error e => cases h
  | ok b => exact congrArg _ (Option.some.inj h)

namespace Service
variable {s s' : Service σ} {e : ServiceEvent} {via : Answering} {buffer : Buffer}

/-- Where no synchronous handler is called, the whole of `on_message` is one step. -/
theorem message_server (h : ∀ call : HandlerCall σ,
    s.server.dispatch buffer ≠ .sync call.header call.payload call.handler) :
    (s.message via buffer).map (·.server) =
      (RpcServer.onMessage via.reserved (s.link via) buffer).toOption.map (·.owner) := by
  rw [RpcServer.onMessage_eq]
  unfold message
  show Option.map _ _ = Option.map _ (Except.toOption (RpcServer.perform _ _ (s.server.dispatch buffer)))
  cases hd : s.server.dispatch buffer with
  | sync header payload handler => exact absurd hd (h ⟨header, payload, handler⟩)
  | _ =>
    simp only [Option.map_map]
    rfl

/-- Otherwise it is that step together with the return of the handler. -/
theorem message_return_server {call : HandlerCall σ}
    (h : s.server.dispatch buffer = .sync call.header call.payload call.handler) :
    ((s.message via buffer).bind fun s₁ => s₁.return_ s.running.length via).map (·.server) =
      (RpcServer.onMessage via.reserved (s.link via) buffer).toOption.map (·.owner) := by
  rw [RpcServer.onMessage_eq]
  show _ = Option.map _ (Except.toOption (RpcServer.perform _ _ (s.server.dispatch buffer)))
  unfold message
  rw [h]
  simp only [Option.bind_some, return_, List.getElem?_concat_length, Option.map_map]
  rfl

/-- The condition on a step. -/
def Served (s : Service σ) : ServiceEvent → Prop
  | .message _ buffer => RpcServer.Valid buffer → s.server.Serves buffer
  | _ => True

instance (s : Service σ) : ∀ e, Decidable (s.Served e)
  | .message _ buffer => inferInstanceAs (Decidable (RpcServer.Valid buffer → s.server.Serves buffer))
  | .return .. | .complete .. => isTrue trivial

/-- The counters know of the requests there are. -/
def Balanced (s : Service σ) : Prop := s.server.stats.Counts s.handling

theorem Balanced.of_handling {n : Nat} (h : s.server.stats.Counts n) (hn : s.handling = n) :
    s.Balanced := by
  subst hn
  exact h

theorem Balanced.counts {n : Nat} (h : s.Balanced) (hn : s.handling = n) :
    s.server.stats.Counts n := by
  subst hn
  exact h

theorem Balanced.message (h : s.Balanced) (hserves : RpcServer.Valid buffer → s.server.Serves buffer)
    (hs : s.message via buffer = some s') : s'.Balanced := by
  have hreceived : ((s.link via).mapOwner
      (RpcServer.mapStats (·.received buffer.size))).owner.stats.Counts (s.handling + 1) :=
    RpcServerStats.Counts.received h buffer.size
  have hcases := s.server.dispatch_cases buffer
  unfold Service.message at hs
  dsimp only at hs
  generalize s.server.dispatch buffer = d at hs hcases
  cases hcases with
  | invalid =>
    obtain rfl := Option.some.inj hs
    exact hreceived.finished false
  | unknownMethod =>
    obtain ⟨l, hl, rfl⟩ := Option.map_eq_some_iff.1 hs
    exact RpcServer.asyncComplete_counts hreceived (eq_ok_of_toOption hl)
  | async handler =>
    obtain rfl := Option.some.inj hs
    refine .of_handling ⟨hreceived.active, hreceived.total⟩ ?_
    simp only [handling, List.length_append, List.length_singleton, Nat.add_assoc]
  | sync handler =>
    obtain rfl := Option.some.inj hs
    refine .of_handling hreceived ?_
    simp only [handling, List.length_append, List.length_singleton]
    omega
  | noHandler valid empty => exact absurd (hserves valid) empty

theorem Balanced.return_ {i : Nat} (h : s.Balanced) (hs : s.return_ i via = some s') :
    s'.Balanced := by
  unfold Service.return_ at hs
  split at hs
  · cases hs
  · rename_i call hcall
    obtain ⟨l, hl, rfl⟩ := Option.map_eq_some_iff.1 hs
    obtain ⟨hlt, -⟩ := List.getElem?_eq_some_iff.1 hcall
    have hhandling : s.handling = (s.running.eraseIdx i).length + s.outstanding.length + 1 := by
      rw [handling, List.length_eraseIdx_of_lt hlt]
      omega
    have hcounts := h.counts hhandling
    refine .of_handling (RpcServer.asyncComplete_counts ?_ (eq_ok_of_toOption hl)) rfl
    exact ⟨hcounts.active, hcounts.total⟩

theorem Balanced.complete {i : Nat} {response : RpcResponse} (h : s.Balanced)
    (hs : s.complete i via response = some s') : s'.Balanced := by
  unfold Service.complete at hs
  split at hs
  · cases hs
  · rename_i requestId hcall
    obtain ⟨l, hl, rfl⟩ := Option.map_eq_some_iff.1 hs
    obtain ⟨hlt, -⟩ := List.getElem?_eq_some_iff.1 hcall
    have hhandling : s.handling = s.running.length + (s.outstanding.eraseIdx i).length + 1 := by
      rw [handling, List.length_eraseIdx_of_lt hlt]
      omega
    have hcounts := h.counts hhandling
    refine .of_handling (RpcServer.asyncComplete_counts ?_ (eq_ok_of_toOption hl)) rfl
    exact ⟨hcounts.active, hcounts.total⟩

theorem Balanced.step (h : s.Balanced) (hserved : s.Served e) (hs : s.step e = some s') :
    s'.Balanced := by
  cases e with
  | message via buffer => exact h.message hserved hs
  | «return» i via => exact h.return_ hs
  | complete i via response => exact h.complete hs

end Service

/-- While no valid frame asks for a method with an empty handler, `active_requests` is the number of
requests that are being handled, and when there are none the other counters balance. -/
theorem counters_balance {methods : Methods σ} {app : σ} {events : List ServiceEvent}
    {s : Service σ} (hrun : run Service.step (.start methods app) events = some s)
    (hserved : Along Service.step Service.Served (.start methods app) events) :
    s.server.stats.activeRequests = UInt64.ofNat (s.running.length + s.outstanding.length) ∧
    (s.running = [] → s.outstanding = [] →
      s.server.stats.activeRequests = 0 ∧
      s.server.stats.totalRequests =
        s.server.stats.successfulRequests + s.server.stats.failedRequests) := by
  have hbalanced : s.Balanced := by
    refine run_induction (motive := fun _ s => s.Balanced) .init ?_ hserved hrun
    intro es s e s' _ h hserved hstep
    exact h.step hserved hstep
  refine ⟨hbalanced.active, fun hrunning houtstanding => ?_⟩
  have hquiet : s.handling = 0 := by
    rw [Service.handling, hrunning, houtstanding]
    rfl
  have hcounts : s.server.stats.Counts _ := hbalanced
  rw [hquiet] at hcounts
  exact ⟨hcounts.active, hcounts.total.trans (UInt64.add_zero _)⟩

section Example

/-- A request for the method `id` without a payload. -/
def requestFor (id : UInt32) : Buffer :=
  let header : RpcHeader :=
    { requestId := 7, methodId := id, payloadSize := 0, flags := 0, reserved := 0 }
  (Buffer.create 0 0 64 0 false).receive header.encode

/-- Over an open connection, from a pool with a free buffer. -/
def openVia : Answering := ⟨{}, .create .single, 0⟩

/-- A synchronous, an asynchronous and an empty handler. -/
def threeMethods : Methods Unit :=
  ((Methods.registerMethod 1 (some fun _ _ app => ({}, app)) .empty).registerAsyncMethod 2
    (some fun _ _ app => app)).registerMethod 3 none

/-- The asynchronous call is completed while the synchronous handler runs. -/
def servedRun : List ServiceEvent :=
  [.message openVia (requestFor 2), .message openVia (requestFor 1),
    .complete 0 openVia { status := .INTERNAL }, .return 0 openVia, .message openVia (requestFor 9)]

theorem counters_balance_served : ∃ s,
    run Service.step (.start threeMethods ()) servedRun = some s ∧
    s.running = [] ∧ s.outstanding = [] ∧
    s.server.stats.totalRequests = 3 ∧
    s.server.stats.activeRequests = UInt64.ofNat (s.running.length + s.outstanding.length) := by
  obtain ⟨s, hrun, hrunning, houtstanding, htotal⟩ : ∃ s,
      run Service.step (.start threeMethods ()) servedRun = some s ∧
      s.running = [] ∧ s.outstanding = [] ∧ s.server.stats.totalRequests = 3 :=
    ⟨_, rfl, rfl, rfl, rfl⟩
  exact ⟨s, hrun, hrunning, houtstanding, htotal, (counters_balance hrun (by decide)).1⟩

/-- The request for the method with the empty handler is never finished. -/
theorem empty_handler_leaks : ∃ s,
    run Service.step (.start threeMethods ()) [.message openVia (requestFor 3)] = some s ∧
    s.running = [] ∧ s.outstanding = [] ∧
    s.server.stats.activeRequests = 1 ∧ s.server.stats.totalRequests = 1 ∧
    s.server.stats.successfulRequests = 0 ∧ s.server.stats.failedRequests = 0 :=
  ⟨_, rfl, rfl, rfl, rfl, rfl, rfl, rfl⟩

end Example

end GossipRl
