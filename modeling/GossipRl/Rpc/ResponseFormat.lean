import GossipRl.Rpc.ClientSession
import GossipRl.Rpc.ResponseFrame

/-!
# What the client takes for a response

`IsResponseFrame` is the format in which `send_response` writes (`isResponseFrame_writeResponse`).
The client's `on_message` checks that there is a header and that its request is pending; neither the
magic number nor the version, status or lengths are looked at before the pending entry is erased.
-/

namespace GossipRl
open Support

namespace RpcStatus

/-- The enumerators. -/
def defined : List RpcStatus :=
  [OK, CANCELLED, INVALID_ARGUMENT, DEADLINE_EXCEEDED, NOT_FOUND, ALREADY_EXISTS,
    PERMISSION_DENIED, RESOURCE_EXHAUSTED, INTERNAL, UNAVAILABLE, UNKNOWN]

end RpcStatus

def RpcHeader.VERSION : UInt32 := 1

/-- Offset of what follows the length of the error message. -/
def errorOffset : Nat := RpcHeader.SIZE + 4

structure IsResponseFrame (bytes : List UInt8) : Prop where
  size : errorOffset ≤ bytes.length
  magic : (RpcHeader.decode bytes).magic = RpcHeader.MAGIC
  version : (RpcHeader.decode bytes).version = RpcHeader.VERSION
  status : ∃ status ∈ RpcStatus.defined, (RpcHeader.decode bytes).methodId = status.toWire
  error : leField bytes RpcHeader.SIZE 4 ≤ bytes.length - errorOffset
  payload : (RpcHeader.decode bytes).payloadSize.toNat =
    bytes.length - errorOffset - leField bytes RpcHeader.SIZE 4

/-- What `send_response` writes is in the format, if it fits and the status is one of those there
are. -/
theorem isResponseFrame_writeResponse {buffer : Buffer} {response : RpcResponse}
    (requestId : UInt64) (reserved : UInt32) (hempty : buffer.bytes = [])
    (hfit : 36 + response.errorMessage.length + response.payloadBytes.length ≤ buffer.capacity)
    (hstatus : response.status ∈ RpcStatus.defined) (herror : response.errorMessage.length < 2 ^ 32)
    (hpayload : response.payloadBytes.length < 2 ^ 32) :
    IsResponseFrame (RpcServer.writeResponse buffer requestId response reserved).bytes := by
  have hbytes := RpcServer.bytes_writeResponse requestId reserved hempty hfit
  have hlen := RpcClient.length_frame (RpcServer.responseHeader requestId response reserved) response
  have hfield : leField ((RpcServer.responseHeader requestId response reserved).encode ++
      RpcClient.responseBody response) 32 4 = response.errorMessage.length % 256 ^ 4 :=
    RpcClient.leField_frame
  unfold RpcClient.responseBody at hlen hfield
  rw [← hbytes] at hlen hfield
  rw [Nat.mod_eq_of_lt (by omega)] at hfield
  have hdecode : RpcHeader.decode (RpcServer.writeResponse buffer requestId response reserved).bytes =
      RpcServer.responseHeader requestId response reserved := by
    rw [hbytes, RpcHeader.decode_encode_append]
  have hsize : (RpcServer.responseHeader requestId response reserved).payloadSize.toNat =
      response.payloadBytes.length := by
    rw [RpcServer.responseHeader, UInt32.toNat_ofNat']
    exact Nat.mod_eq_of_lt hpayload
  have hoffset : errorOffset = 36 := rfl
  constructor
  · omega
  · rw [hdecode]
    rfl
  · rw [hdecode]
    rfl
  · rw [hdecode]
    exact ⟨response.status, hstatus, rfl⟩
  · rw [show RpcHeader.SIZE = 32 from rfl, hfield]
    omega
  · rw [hdecode, hsize, show RpcHeader.SIZE = 32 from rfl, hfield]
    omega

namespace RpcClient
variable {l l' : Link RpcClient} {frame : Buffer}

/-- The frame has a header, with the id of a pending request. -/
def IsPending (c : RpcClient) (frame : Buffer) : Prop :=
  RpcHeader.SIZE ≤ frame.size ∧
    c.pendingRequests.get? (RpcHeader.decode frame.bytes).requestId ≠ none

instance (c : RpcClient) (frame : Buffer) : Decidable (c.IsPending frame) :=
  inferInstanceAs (Decidable (_ ∧ _))

/-- Only a response completes a future, and anything else leaves the pending requests alone. -/
structure AcceptsOnlyResponses (c c' : RpcClient) (bytes : List UInt8) : Prop where
  completes : ∀ f, (c.futures f).completed = false → (c'.futures f).completed = true →
    IsResponseFrame bytes
  leaves : ¬ IsResponseFrame bytes → c'.pendingRequests = c.pendingRequests

theorem onMessage_of_not_pending (hp : ¬ l.owner.IsPending frame)
    (h : onMessage l frame = .ok l') : l'.owner = l.owner := by
  rw [onMessage_owner h, answer]
  split
  · rfl
  · rename_i hsize
    have hnone : l.owner.pendingRequests.get? (RpcHeader.decode frame.bytes).requestId = none := by
      by_contra hne
      exact hp ⟨Nat.le_of_not_lt hsize, hne⟩
    simp only [act, hnone]

theorem onMessage_pendingRequests (hp : l.owner.IsPending frame) (h : onMessage l frame = .ok l') :
    l'.owner.pendingRequests =
      l.owner.pendingRequests.erase (RpcHeader.decode frame.bytes).requestId := by
  obtain ⟨hsize, hsome⟩ := hp
  obtain ⟨future, hget⟩ := Option.ne_none_iff_exists'.1 hsome
  rw [onMessage_owner h, answer, if_neg (Nat.not_lt.2 hsize)]
  simp only [act, hget, complete_pendingRequests]

end RpcClient

/-- A frame is taken for a response only if it is one, if and only if it is one, or is too short to
have a header or has a request id that is not pending. -/
theorem accepts_only_responses_iff {l l' : Link RpcClient} {frame : Buffer}
    (h : RpcClient.onMessage l frame = .ok l') :
    l.owner.AcceptsOnlyResponses l'.owner frame.bytes ↔
      IsResponseFrame frame.bytes ∨ ¬ l.owner.IsPending frame := by
  constructor
  · intro haccepts
    by_contra hnot
    obtain ⟨hframe, hp⟩ := not_or.1 hnot
    have hp := not_not.1 hp
    have hleaves := haccepts.leaves hframe
    rw [RpcClient.onMessage_pendingRequests hp h] at hleaves
    have hget := Dict.get?_erase l.owner.pendingRequests
      (RpcHeader.decode frame.bytes).requestId (RpcHeader.decode frame.bytes).requestId
    rw [hleaves, if_pos rfl] at hget
    exact hp.2 hget
  · rintro (hframe | hp)
    · exact ⟨fun _ _ _ => hframe, fun hnot => absurd hframe hnot⟩
    · rw [RpcClient.onMessage_of_not_pending hp h]
      refine ⟨fun f hopen hdone => ?_, fun _ => rfl⟩
      rw [hopen] at hdone
      cases hdone

section Example

/-- A frame of zeros around the id of the pending request. -/
def zeroFrame : Buffer :=
  (Buffer.create 0 0 64 0 false).receive
    (List.replicate 8 0 ++ leEncode 8 7 ++ List.replicate 16 0)

theorem accepts_only_responses_iff_zeroFrame : ∃ l',
    RpcClient.onMessage waitingClient zeroFrame = .ok l' ∧
    (waitingClient.owner.AcceptsOnlyResponses l'.owner zeroFrame.bytes ↔
      IsResponseFrame zeroFrame.bytes ∨ ¬ waitingClient.owner.IsPending zeroFrame) := by
  obtain ⟨l', h⟩ : ∃ l', RpcClient.onMessage waitingClient zeroFrame = .ok l' := ⟨_, rfl⟩
  exact ⟨l', h, accepts_only_responses_iff h⟩

/-- Without a magic number, a version or a length, the frame completes the future, with `OK`. -/
theorem zeros_accepted : ∃ l',
    RpcClient.onMessage waitingClient zeroFrame = .ok l' ∧
    waitingClient.owner.CompletedWith l'.owner 0 {} ∧
    ¬ IsResponseFrame zeroFrame.bytes ∧
    ¬ waitingClient.owner.AcceptsOnlyResponses l'.owner zeroFrame.bytes := by
  have hnot : ¬ IsResponseFrame zeroFrame.bytes := fun h => absurd h.magic (by decide)
  refine ⟨_, rfl, ⟨rfl, rfl⟩, hnot, fun h => hnot (h.completes 0 rfl rfl)⟩

end Example

end GossipRl
