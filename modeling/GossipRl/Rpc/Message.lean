import GossipRl.Rpc.BufferPool
import GossipRl.Support.LittleEndian

/-!
# RPC messages (`rpc_server.hpp`)

Headers are copied to and from the wire as they lie in memory (`memcpy` of `RpcHeader`), on a
little-endian machine: 32 bytes, the fields in order without padding. `RpcStatus` is a `uint8_t`
with eleven named values; a cast from the wire can produce any of the 256.
-/

namespace GossipRl
open Support

/-- The bytes of a `std::string` literal. -/
def bytesOf (s : String) : List UInt8 := s.toUTF8.data.toList

structure RpcHeader where
  magic : UInt32 := 0x47525043
  version : UInt32 := 1
  requestId : UInt64
  methodId : UInt32
  payloadSize : UInt32
  flags : UInt32
  reserved : UInt32
deriving DecidableEq, Repr

namespace RpcHeader

/-- `RpcHeader::SIZE`. -/
def SIZE : Nat := 32

def MAGIC : UInt32 := 0x47525043

def encode (h : RpcHeader) : List UInt8 :=
  leEncode 4 h.magic.toNat ++ (leEncode 4 h.version.toNat ++ (leEncode 8 h.requestId.toNat ++
    (leEncode 4 h.methodId.toNat ++ (leEncode 4 h.payloadSize.toNat ++
      (leEncode 4 h.flags.toNat ++ leEncode 4 h.reserved.toNat)))))

def decode (bs : List UInt8) : RpcHeader where
  magic := UInt32.ofNat (leField bs 0 4)
  version := UInt32.ofNat (leField bs 4 4)
  requestId := UInt64.ofNat (leField bs 8 8)
  methodId := UInt32.ofNat (leField bs 16 4)
  payloadSize := UInt32.ofNat (leField bs 20 4)
  flags := UInt32.ofNat (leField bs 24 4)
  reserved := UInt32.ofNat (leField bs 28 4)

@[simp] theorem length_encode (h : RpcHeader) : h.encode.length = SIZE := by
  simp [encode, SIZE]

theorem ofNat_mod_u32 (n : UInt32) : UInt32.ofNat (n.toNat % 256 ^ 4) = n := by
  rw [Nat.mod_eq_of_lt (by have := n.toNat_lt; omega), UInt32.ofNat_toNat]

theorem ofNat_mod_u64 (n : UInt64) : UInt64.ofNat (n.toNat % 256 ^ 8) = n := by
  rw [Nat.mod_eq_of_lt (by have := n.toNat_lt; omega), UInt64.ofNat_toNat]

theorem decode_encode_append (h : RpcHeader) (rest : List UInt8) :
    decode (h.encode ++ rest) = h := by
  obtain ⟨magic, version, requestId, methodId, payloadSize, flags, reserved⟩ := h
  simp only [decode, encode, mk.injEq, List.append_assoc]
  refine ⟨?_, ?_, ?_, ?_, ?_, ?_, ?_⟩
  · rw [leField_leEncode, ofNat_mod_u32]
  all_goals
    simp (disch := simp) only [leField_append_of_le, leEncode_length, Nat.reduceSub,
      leField_leEncode, ofNat_mod_u32, ofNat_mod_u64]

end RpcHeader

namespace RpcFlags

def NONE : UInt32 := 0
def ONE_WAY : UInt32 := (1 : UInt32) <<< 2

end RpcFlags

structure RpcStatus where
  code : UInt8
deriving DecidableEq, Repr

namespace RpcStatus

def OK : RpcStatus := ⟨0⟩
def CANCELLED : RpcStatus := ⟨1⟩
def INVALID_ARGUMENT : RpcStatus := ⟨2⟩
def DEADLINE_EXCEEDED : RpcStatus := ⟨3⟩
def NOT_FOUND : RpcStatus := ⟨4⟩
def ALREADY_EXISTS : RpcStatus := ⟨5⟩
def PERMISSION_DENIED : RpcStatus := ⟨6⟩
def RESOURCE_EXHAUSTED : RpcStatus := ⟨7⟩
def INTERNAL : RpcStatus := ⟨8⟩
def UNAVAILABLE : RpcStatus := ⟨9⟩
def UNKNOWN : RpcStatus := ⟨255⟩

/-- `static_cast<uint32_t>(status)`. -/
def toWire (s : RpcStatus) : UInt32 := s.code.toUInt32

/-- `static_cast<RpcStatus>(header.method_id)`: the low byte, named or not. -/
def ofWire (n : UInt32) : RpcStatus := ⟨n.toUInt8⟩

@[simp] theorem ofWire_toWire (s : RpcStatus) : ofWire s.toWire = s := by
  simp [ofWire, toWire]

end RpcStatus

structure RpcContext where
  requestId : UInt64
  methodId : UInt32

structure RpcResponse where
  status : RpcStatus := .OK
  errorMessage : List UInt8 := []
  payload : Option Buffer := none

namespace RpcResponse

def ok (r : RpcResponse) : Bool := r.status == .OK

/-- The payload bytes, none for a null pointer. -/
def payloadBytes (r : RpcResponse) : List UInt8 :=
  match r.payload with
  | none => []
  | some b => b.bytes

end RpcResponse

end GossipRl
