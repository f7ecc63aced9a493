import GossipRl.Rpc.Server

/-!
# What `on_message` makes of a frame (`rpc_server.cpp`)

`dispatch` is the decision of `on_message`: it depends on the frame and the registered methods only,
and `onMessage_eq` says what is done with it. `register_method` and `register_async_method` put any
`std::function` in the place of the handler, an empty one included; a method whose handler is empty
is found, and then nothing is called.
-/

namespace GossipRl
open Support

variable {σ : Type*}

inductive Dispatch (σ : Type*) where
  /-- The frame is too short, or its magic number is wrong. -/
  | invalid
  | unknownMethod (header : RpcHeader)
  | async (header : RpcHeader) (payload : List UInt8) (handler : AsyncRpcHandler σ)
  | sync (header : RpcHeader) (payload : List UInt8) (handler : RpcHandler σ)
  | noHandler (header : RpcHeader)

/-- The payload that a handler is called with. -/
def Dispatch.payload : Dispatch σ → Option (List UInt8)
  | async _ payload _ | sync _ payload _ => some payload
  | _ => none

def Dispatch.isAsync : Dispatch σ → Bool
  | async .. => true
  | _ => false

def RpcHeader.context (header : RpcHeader) : RpcContext := ⟨header.requestId, header.methodId⟩

/-- A service's methods, before `register_service`. -/
abbrev Methods (σ : Type*) := Dict UInt32 (RpcMethod σ)

namespace Methods

def registerMethod (id : UInt32) (handler : Option (RpcHandler σ)) (methods : Methods σ) :
    Methods σ :=
  methods.set id { id := id, handler := handler, asyncHandler := none }

def registerAsyncMethod (id : UInt32) (handler : Option (AsyncRpcHandler σ)) (methods : Methods σ) :
    Methods σ :=
  methods.set id { id := id, handler := none, asyncHandler := handler, isAsync := true }

end Methods

namespace RpcMethod

/-- The branches of `on_message` for a method that was found. -/
def dispatch (method : RpcMethod σ) (header : RpcHeader) (payload : List UInt8) : Dispatch σ :=
  match method.isAsync, method.asyncHandler, method.handler with
  | true, some handler, _ => .async header payload handler
  | _, _, some handler => .sync header payload handler
  | _, _, none => .noHandler header

/-- A handler can be called. -/
def Callable (method : RpcMethod σ) : Prop :=
  method.isAsync = true ∧ method.asyncHandler.isSome ∨ method.handler.isSome

instance (method : RpcMethod σ) : Decidable method.Callable := inferInstanceAs (Decidable (_ ∨ _))

end RpcMethod

namespace RpcServer

def dispatch (s : RpcServer σ) (buffer : Buffer) : Dispatch σ :=
  if buffer.size < RpcHeader.SIZE then .invalid
  else
    let header := RpcHeader.decode buffer.bytes
    if header.magic ≠ RpcHeader.MAGIC then .invalid
    else
      match s.methodLookup.get? header.methodId with
      | none => .unknownMethod header
      | some method => method.dispatch header (buffer.bytes.drop RpcHeader.SIZE)

/-- What is done for a frame, once it is counted. -/
def perform (reserved : UInt32) (l : Link (RpcServer σ)) :
    Dispatch σ → Except Fault (Link (RpcServer σ))
  | .invalid => .ok (l.mapOwner (mapStats (·.finished false)))
  | .unknownMethod header => asyncComplete reserved l header.requestId (notFound header.methodId)
  | .async header payload handler =>
    .ok (l.mapOwner fun s =>
      { s with
        app := handler header.context payload s.app
        asyncCalls := s.asyncCalls ++ [header.requestId] })
  | .sync header payload handler =>
    let (response, app) := handler header.context payload l.owner.app
    asyncComplete reserved (l.mapOwner fun s => { s with app := app }) header.requestId response
  | .noHandler _ => .ok l

variable {s : RpcServer σ} {buffer : Buffer}

theorem onMessage_eq (reserved : UInt32) (l : Link (RpcServer σ)) (buffer : Buffer) :
    onMessage reserved l buffer =
      perform reserved (l.mapOwner (mapStats (·.received buffer.size)))
        (l.owner.dispatch buffer) := by
  have hlookup : (l.mapOwner (mapStats (·.received buffer.size))).owner.methodLookup =
      l.owner.methodLookup := rfl
  unfold onMessage dispatch
  dsimp only
  rw [hlookup]
  split
  · rfl
  split
  · rfl
  cases hget : l.owner.methodLookup.get? (RpcHeader.decode buffer.bytes).methodId with
  | none => rfl
  | some method =>
    simp only [RpcMethod.dispatch]
    rcases method.isAsync with _ | _ <;> rcases method.asyncHandler with _ | async <;>
      rcases method.handler with _ | handler <;> rfl

/-- `on_message` takes the frame for a request. -/
def Valid (buffer : Buffer) : Prop :=
  RpcHeader.SIZE ≤ buffer.size ∧ (RpcHeader.decode buffer.bytes).magic = RpcHeader.MAGIC

instance (buffer : Buffer) : Decidable (Valid buffer) := inferInstanceAs (Decidable (_ ∧ _))

/-- The method that the frame asks for has a handler, if it is registered. -/
def Serves (s : RpcServer σ) (buffer : Buffer) : Prop :=
  ∀ method, s.methodLookup.get? (RpcHeader.decode buffer.bytes).methodId = some method →
    method.Callable

instance (s : RpcServer σ) (buffer : Buffer) : Decidable (s.Serves buffer) :=
  match h : s.methodLookup.get? (RpcHeader.decode buffer.bytes).methodId with
  | none => isTrue (by simp [Serves, h])
  | some method => decidable_of_iff method.Callable (by simp [Serves, h])

theorem dispatch_of_valid (h : Valid buffer) :
    s.dispatch buffer = match s.methodLookup.get? (RpcHeader.decode buffer.bytes).methodId with
      | none => .unknownMethod (RpcHeader.decode buffer.bytes)
      | some method =>
        method.dispatch (RpcHeader.decode buffer.bytes) (buffer.bytes.drop RpcHeader.SIZE) := by
  rw [dispatch, if_neg (Nat.not_lt.2 h.1)]
  simp only [h.2, ne_eq, not_true, if_false]

theorem dispatch_of_not_valid (h : ¬ Valid buffer) : s.dispatch buffer = .invalid := by
  unfold dispatch
  split
  · rfl
  · rename_i hsize
    exact if_pos fun hmagic => h ⟨Nat.le_of_not_lt hsize, hmagic⟩

end RpcServer

namespace RpcMethod
variable {method : RpcMethod σ} {header : RpcHeader} {payload : List UInt8}

theorem dispatch_cases (method : RpcMethod σ) (header : RpcHeader) (payload : List UInt8) :
    method.Callable ∧ (∃ handler, method.dispatch header payload = .async header payload handler) ∨
    method.Callable ∧ (∃ handler, method.dispatch header payload = .sync header payload handler) ∨
    ¬ method.Callable ∧ method.dispatch header payload = .noHandler header := by
  obtain ⟨id, handler, async, isAsync⟩ := method
  unfold dispatch Callable
  cases isAsync <;> cases async <;> cases handler <;> simp

theorem payload_dispatch : (method.dispatch header payload).payload =
    if method.Callable then some payload else none := by
  rcases method.dispatch_cases header payload with ⟨hc, handler, h⟩ | ⟨hc, handler, h⟩ | ⟨hc, h⟩
  · rw [h, if_pos hc]
    rfl
  · rw [h, if_pos hc]
    rfl
  · rw [h, if_neg hc]
    rfl

end RpcMethod

namespace RpcServer
variable {s : RpcServer σ} {buffer : Buffer}

/-- What a frame can be. -/
inductive DispatchCases (s : RpcServer σ) (buffer : Buffer) : Dispatch σ → Prop
  | invalid (invalid : ¬ Valid buffer) : DispatchCases s buffer .invalid
  | unknownMethod (valid : Valid buffer) (serves : s.Serves buffer) :
      DispatchCases s buffer (.unknownMethod (RpcHeader.decode buffer.bytes))
  | async (handler : AsyncRpcHandler σ) (valid : Valid buffer) (serves : s.Serves buffer) :
      DispatchCases s buffer
        (.async (RpcHeader.decode buffer.bytes) (buffer.bytes.drop RpcHeader.SIZE) handler)
  | sync (handler : RpcHandler σ) (valid : Valid buffer) (serves : s.Serves buffer) :
      DispatchCases s buffer
        (.sync (RpcHeader.decode buffer.bytes) (buffer.bytes.drop RpcHeader.SIZE) handler)
  | noHandler (valid : Valid buffer) (empty : ¬ s.Serves buffer) :
      DispatchCases s buffer (.noHandler (RpcHeader.decode buffer.bytes))

theorem dispatch_cases (s : RpcServer σ) (buffer : Buffer) :
    DispatchCases s buffer (s.dispatch buffer) := by
  by_cases hv : Valid buffer
  · rw [dispatch_of_valid hv]
    cases hget : s.methodLookup.get? (RpcHeader.decode buffer.bytes).methodId with
    | none => exact .unknownMethod hv fun method h => by simp [hget] at h
    | some method =>
      have hserves : s.Serves buffer ↔ method.Callable := by simp [Serves, hget]
      dsimp only
      rcases method.dispatch_cases (RpcHeader.decode buffer.bytes)
        (buffer.bytes.drop RpcHeader.SIZE) with ⟨hc, handler, h⟩ | ⟨hc, handler, h⟩ | ⟨hc, h⟩
      · rw [h]
        exact .async handler hv (hserves.2 hc)
      · rw [h]
        exact .sync handler hv (hserves.2 hc)
      · rw [h]
        exact .noHandler hv (mt hserves.1 hc)
  · rw [dispatch_of_not_valid hv]
    exact .invalid hv

theorem dispatch_of_encode {header : RpcHeader} {rest : List UInt8}
    (hmagic : header.magic = RpcHeader.MAGIC) (hbytes : buffer.bytes = header.encode ++ rest) :
    s.dispatch buffer = match s.methodLookup.get? header.methodId with
      | none => .unknownMethod header
      | some method => method.dispatch header rest := by
  have hdecode : RpcHeader.decode buffer.bytes = header := by
    rw [hbytes, RpcHeader.decode_encode_append]
  have hdrop : buffer.bytes.drop RpcHeader.SIZE = rest := by
    rw [hbytes]
    exact List.drop_left' header.length_encode
  have hvalid : Valid buffer := ⟨by simp [Buffer.size, hbytes], by rw [hdecode, hmagic]⟩
  rw [dispatch_of_valid hvalid, hdecode, hdrop]

end RpcServer

end GossipRl
