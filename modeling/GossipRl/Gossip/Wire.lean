import GossipRl.Gossip.Message
import GossipRl.Support.ByteReader

/-!
# Packed messages (`GossipMessage.pack`, `GossipMessage.unpack`)

`WireMessage` is a `GossipMessage` with its numbers as bytes: arrays are the memory behind them,
the timestamp is the bits of a double. `pack` is `none` where the source raises (`struct.error` for a
number that does not fit), and so is `unpack` (a read past the end, bytes that are not UTF-8, a
buffer that is not a whole number of items, an unknown type).
-/

namespace GossipRl
open Support

namespace MessageType

def value : MessageType → Nat
  | PING => 1
  | PING_REQ => 2
  | ACK => 3
  | SUSPECT => 4
  | ALIVE => 5
  | DEAD => 6
  | PUSH_GRADIENT => 10
  | PULL_GRADIENT => 11
  | PUSH_PULL_GRADIENT => 12
  | AGGREGATE_REQUEST => 20
  | AGGREGATE_RESPONSE => 21
  | MODEL_SYNC => 30
  | MODEL_REQUEST => 31
  | MODEL_RESPONSE => 32

/-- `MessageType(value)`. -/
def ofValue : Nat → Option MessageType
  | 1 => some PING
  | 2 => some PING_REQ
  | 3 => some ACK
  | 4 => some SUSPECT
  | 5 => some ALIVE
  | 6 => some DEAD
  | 10 => some PUSH_GRADIENT
  | 11 => some PULL_GRADIENT
  | 12 => some PUSH_PULL_GRADIENT
  | 20 => some AGGREGATE_REQUEST
  | 21 => some AGGREGATE_RESPONSE
  | 30 => some MODEL_SYNC
  | 31 => some MODEL_REQUEST
  | 32 => some MODEL_RESPONSE
  | _ => none

@[simp] theorem ofValue_value (t : MessageType) : ofValue t.value = some t := by cases t <;> rfl

theorem value_lt (t : MessageType) : t.value < 256 ^ 1 := by cases t <;> decide

end MessageType

inductive DType where
  | float32
  | int64
  /-- Any other, by its size. -/
  | other (itemsize : Nat)
deriving DecidableEq, Repr

def DType.itemsize : DType → Nat
  | float32 => 4
  | int64 => 8
  | other n => n

/-- An array of NumPy; `bytes` is what `tobytes` gives. Sizes are `Py_ssize_t`. -/
structure NpArray where
  dtype : DType
  shape : List Nat
  bytes : List UInt8
  size_eq : bytes.length = shape.prod * dtype.itemsize
  size_lt : bytes.length < 2 ^ 63
deriving DecidableEq

namespace NpArray

/-- `np.frombuffer`; no `bytes` object has `2 ^ 63` bytes. -/
def frombuffer (dtype : DType) (data : List UInt8) : Option NpArray :=
  if h : data.length % dtype.itemsize = 0 ∧ data.length < 2 ^ 63 then
    some {
      dtype := dtype
      shape := [data.length / dtype.itemsize]
      bytes := data
      size_eq := by
        rw [List.prod_singleton, Nat.div_mul_cancel (Nat.dvd_of_mod_eq_zero h.1)]
      size_lt := h.2 }
  else none

theorem frombuffer_eq_none_iff (a : NpArray) (dtype : DType) :
    frombuffer dtype a.bytes = none ↔ a.bytes.length % dtype.itemsize ≠ 0 := by
  rw [frombuffer, dite_eq_right_iff]
  simp only [reduceCtorEq, imp_false, not_and_or]
  exact or_iff_left (not_not.2 a.size_lt)

theorem frombuffer_bytes {a : NpArray} {n : Nat} (hshape : a.shape = [n])
    (hsize : 0 < a.dtype.itemsize) : frombuffer a.dtype a.bytes = some a := by
  have hbytes : a.bytes.length = n * a.dtype.itemsize := by
    rw [a.size_eq, hshape, List.prod_singleton]
  rw [frombuffer, dif_pos ⟨by rw [hbytes, Nat.mul_mod_left], a.size_lt⟩]
  obtain ⟨dtype, shape, bytes, h₁, h₂⟩ := a
  simp only [Option.some.injEq, mk.injEq, true_and, and_true]
  rw [hbytes, Nat.mul_div_cancel n hsize]
  exact hshape.symm

end NpArray

structure GradientFields where
  gradientData : Option NpArray := none
  indices : Option NpArray := none
  modelVersion : Int := 0
  step : Int := 0
deriving DecidableEq

structure WireMessage extends MessageHeader, GradientFields where
  timestamp : UInt64
  payload : Option (List UInt8) := none
deriving DecidableEq

/-- `struct.pack` of an unsigned number of `k` bytes. -/
def packInt (k : Nat) (n : Int) : Option (List UInt8) :=
  if 0 ≤ n ∧ n < 256 ^ k then some (beEncode k n.toNat) else none

def packTarget : Option String → Option (List UInt8)
  | none => some []
  | some targetId => do
    let length ← packInt 2 (utf8Encode targetId).length
    some (length ++ utf8Encode targetId)

def packIndices : Option NpArray → Option (List UInt8)
  | none => some []
  | some indices => do
    let length ← packInt 8 indices.bytes.length
    some (length ++ indices.bytes)

def GradientFields.packGradient (g : GradientFields) : Option (List UInt8) :=
  match g.gradientData with
  | none => some []
  | some gradients => do
    let modelVersion ← packInt 8 g.modelVersion
    let step ← packInt 8 g.step
    let length ← packInt 8 gradients.bytes.length
    let indices ← packIndices g.indices
    some (modelVersion ++ step ++ length ++ gradients.bytes ++ indices)

/-- The bits of `metadata_flags`. -/
def GradientFields.flags (g : GradientFields) : UInt8 :=
  match g.gradientData, g.indices with
  | none, _ => 0
  | some _, none => 0x02
  | some _, some _ => 0x02 ||| 0x04

namespace WireMessage

def metadataFlags (m : WireMessage) : UInt8 :=
  (if m.targetId.isSome then 0x01 else 0) ||| m.flags

def payloadBytes (m : WireMessage) : List UInt8 := m.payload.getD []

def pack (m : WireMessage) : Option (List UInt8) := do
  let senderBytes := utf8Encode m.senderId
  let senderLen ← packInt 2 senderBytes.length
  let sequence ← packInt 8 m.sequence
  let header :=
    beEncode 1 m.type.value ++ senderLen ++ senderBytes ++ sequence ++
      beEncode 8 m.timestamp.toNat
  let target ← packTarget m.targetId
  let gradient ← m.packGradient
  let incarnation ← packInt 4 m.incarnation
  let payloadLen ← packInt 4 m.payloadBytes.length
  some (header ++ [m.metadataFlags] ++ (target ++ gradient ++ incarnation) ++ payloadLen ++
    m.payloadBytes)

end WireMessage

/-- The target and the offset after it. -/
def unpackTarget (flags : UInt8) (data : List UInt8) (offset : Nat) :
    Option (Option String × Nat) :=
  if flags &&& 0x01 ≠ 0 then do
    let length ← beRead 2 data offset
    let targetId ← utf8Decode (slice data (offset + 2) length)
    some (some targetId, offset + 2 + length)
  else some (none, offset)

def unpackIndices (flags : UInt8) (data : List UInt8) (offset : Nat) :
    Option (Option NpArray × Nat) :=
  if flags &&& 0x04 ≠ 0 then do
    let length ← beRead 8 data offset
    let indices ← NpArray.frombuffer .int64 (slice data (offset + 8) length)
    some (some indices, offset + 8 + length)
  else some (none, offset)

def unpackGradient (flags : UInt8) (data : List UInt8) (offset : Nat) :
    Option (GradientFields × Nat) :=
  if flags &&& 0x02 ≠ 0 then do
    let modelVersion ← beRead 8 data offset
    let step ← beRead 8 data (offset + 8)
    let length ← beRead 8 data (offset + 16)
    let gradients ← NpArray.frombuffer .float32 (slice data (offset + 24) length)
    let (indices, offset) ← unpackIndices flags data (offset + 24 + length)
    some (⟨some gradients, indices, modelVersion, step⟩, offset)
  else some ({}, offset)

def unpack (data : List UInt8) : Option WireMessage := do
  let msgType ← beRead 1 data 0
  let senderLen ← beRead 2 data 1
  let senderId ← utf8Decode (slice data 3 senderLen)
  let offset := 3 + senderLen
  let sequence ← beRead 8 data offset
  let timestamp ← beRead 8 data (offset + 8)
  let flags ← data[offset + 16]?
  let (targetId, offset) ← unpackTarget flags data (offset + 17)
  let (gradient, offset) ← unpackGradient flags data offset
  let incarnation ← beRead 4 data offset
  let payloadLen ← beRead 4 data (offset + 4)
  let payload := if payloadLen > 0 then some (slice data (offset + 8) payloadLen) else none
  let type ← MessageType.ofValue msgType
  some {
    type := type
    senderId := senderId
    sequence := sequence
    targetId := targetId
    incarnation := incarnation
    toGradientFields := gradient
    timestamp := UInt64.ofNat timestamp
    payload := payload }

end GossipRl
