import GossipRl.Rpc.Serialization

/-!
# What is written and read part by part

Every function that writes hands parts to `write`, one after the other, and stops at the first that
does not fit (`writeAll`): so it succeeds exactly if all of them fit, and then has appended them
(`writeAll_of_le`); otherwise those before the first that does not fit stay (`writeAll_of_lt`). A
reader goes through the parts the same way, from what lies ahead of it (`Consumes`).
-/

namespace GossipRl
open Support TriviallyCopyable

theorem SizeT.mul_of_lt {a b : Nat} (h : a * b < SizeT.modulus) : SizeT.mul a b = a * b :=
  Nat.mod_eq_of_lt h

theorem SizeT.mul_le (a b : Nat) : SizeT.mul a b ≤ a * b := Nat.mod_le ..

namespace BufferWriter

/-- `write`, given what it copies. -/
def writeBytes (w : BufferWriter) (bs : List UInt8) : Bool × BufferWriter :=
  if w.remaining < bs.length then (false, w) else (true, w.extend bs)

def writeAll (w : BufferWriter) : List (List UInt8) → Bool × BufferWriter
  | [] => (true, w)
  | p :: ps => andThen (w.writeBytes p) fun w => w.writeAll ps

variable {w w' : BufferWriter} {bs bs' p : List UInt8} {ps qs : List (List UInt8)}

@[simp] theorem andThen_true (next : BufferWriter → Bool × BufferWriter) :
    andThen (true, w) next = next w := rfl

@[simp] theorem andThen_false (next : BufferWriter → Bool × BufferWriter) :
    andThen (false, w) next = (false, w) := rfl

/-! ### Extending a buffer -/

theorem bytes_extend (h : bs.length ≤ w.remaining) :
    (w.extend bs).buffer.bytes = w.buffer.bytes ++ bs := by
  have := w.buffer.size_le
  refine List.take_of_length_le ?_
  simp only [remaining, Buffer.remaining, Buffer.size] at h
  rw [List.length_append]
  omega

@[simp] theorem capacity_extend (w : BufferWriter) (bs : List UInt8) :
    (w.extend bs).buffer.capacity = w.buffer.capacity := rfl

theorem position_extend (h : bs.length ≤ w.remaining) :
    (w.extend bs).position = w.position + bs.length := by
  rw [position, Buffer.size, bytes_extend h, List.length_append, position, Buffer.size]

theorem remaining_extend (h : bs.length ≤ w.remaining) :
    (w.extend bs).remaining = w.remaining - bs.length := by
  have hpos := position_extend h
  simp only [remaining, Buffer.remaining, position, capacity_extend] at hpos ⊢
  omega

theorem extend_extend (h : bs.length ≤ w.remaining) :
    (w.extend bs).extend bs' = w.extend (bs ++ bs') := by
  have hbytes : (w.extend bs).buffer.bytes ++ bs' = w.buffer.bytes ++ (bs ++ bs') := by
    rw [bytes_extend h, List.append_assoc]
  simp only [extend, Buffer.extend] at hbytes ⊢
  simp only [hbytes]

theorem extend_nil (w : BufferWriter) : w.extend [] = w := by
  have hbytes : (w.buffer.bytes ++ []).take w.buffer.capacity = w.buffer.bytes := by
    rw [List.append_nil]
    exact List.take_of_length_le w.buffer.size_le
  simp only [extend, Buffer.extend, hbytes]

/-! ### Writing several parts -/

theorem writeBytes_of_le (h : bs.length ≤ w.remaining) : w.writeBytes bs = (true, w.extend bs) :=
  if_neg (Nat.not_lt.2 h)

theorem writeBytes_of_lt (h : w.remaining < bs.length) : w.writeBytes bs = (false, w) := if_pos h

theorem writeAll_singleton (w : BufferWriter) (p : List UInt8) : w.writeAll [p] = w.writeBytes p := by
  rcases Nat.lt_or_ge w.remaining p.length with hlt | hle
  · rw [writeAll, writeBytes_of_lt hlt, andThen_false]
  · rw [writeAll, writeBytes_of_le hle, andThen_true, writeAll]

theorem writeAll_append (w : BufferWriter) (ps qs : List (List UInt8)) :
    w.writeAll (ps ++ qs) = andThen (w.writeAll ps) fun w => w.writeAll qs := by
  induction ps generalizing w with
  | nil => rfl
  | cons p ps ih =>
    rw [List.cons_append, writeAll, writeAll]
    rcases Nat.lt_or_ge w.remaining p.length with hlt | hle
    · rw [writeBytes_of_lt hlt, andThen_false, andThen_false, andThen_false]
    · rw [writeBytes_of_le hle, andThen_true, andThen_true, ih]

theorem writeAll_of_le (h : ps.flatten.length ≤ w.remaining) :
    w.writeAll ps = (true, w.extend ps.flatten) := by
  induction ps generalizing w with
  | nil => rw [writeAll, List.flatten_nil, extend_nil]
  | cons p ps ih =>
    rw [List.flatten_cons, List.length_append] at h
    have hp : p.length ≤ w.remaining := by omega
    have hps : ps.flatten.length ≤ (w.extend p).remaining := by
      rw [remaining_extend hp]
      omega
    rw [writeAll, writeBytes_of_le hp, andThen_true, ih hps, extend_extend hp, List.flatten_cons]

theorem writeAll_of_lt (h : w.remaining < ps.flatten.length) : ∃ pre p post,
    ps = pre ++ p :: post ∧ pre.flatten.length ≤ w.remaining ∧
      w.remaining < pre.flatten.length + p.length ∧
      w.writeAll ps = (false, w.extend pre.flatten) := by
  induction ps generalizing w with
  | nil => simp at h
  | cons p ps ih =>
    rw [List.flatten_cons, List.length_append] at h
    rcases Nat.lt_or_ge w.remaining p.length with hlt | hle
    · refine ⟨[], p, ps, rfl, Nat.zero_le _, by simpa using hlt, ?_⟩
      rw [writeAll, writeBytes_of_lt hlt, andThen_false, List.flatten_nil, extend_nil]
    · have hrest : (w.extend p).remaining < ps.flatten.length := by
        rw [remaining_extend hle]
        omega
      obtain ⟨pre, q, post, rfl, hpre, hq, heq⟩ := ih hrest
      rw [remaining_extend hle] at hpre hq
      refine ⟨p :: pre, q, post, rfl, ?_, ?_, ?_⟩
      · rw [List.flatten_cons, List.length_append]
        omega
      · rw [List.flatten_cons, List.length_append]
        omega
      · rw [writeAll, writeBytes_of_le hle, andThen_true, heq, extend_extend hle,
          List.flatten_cons]

theorem writeAll_true_iff : (w.writeAll ps).1 = true ↔ ps.flatten.length ≤ w.remaining := by
  constructor
  · intro h
    by_contra hlt
    obtain ⟨pre, p, post, -, -, -, heq⟩ := writeAll_of_lt (Nat.lt_of_not_le hlt)
    rw [heq] at h
    cases h
  · intro h
    rw [writeAll_of_le h]

theorem writeAll_eq_true (h : w.writeAll ps = (true, w')) :
    ps.flatten.length ≤ w.remaining ∧ w' = w.extend ps.flatten := by
  have hle : ps.flatten.length ≤ w.remaining := writeAll_true_iff.1 (by rw [h])
  rw [writeAll_of_le hle] at h
  exact ⟨hle, (congrArg Prod.snd h).symm⟩

/-! ### What the functions write -/

theorem write_eq (w : BufferWriter) (data : Memory) (size : Nat) :
    w.write data size = w.writeBytes (data.load size) := by
  rw [write, writeBytes, Memory.length_load]

theorem writeValue_eq {T : Type*} [TriviallyCopyable T] (w : BufferWriter) (v : T) :
    w.writeValue v = w.writeBytes (toBytes v) := by
  have hload : (Memory.ofBytes (toBytes v)).load (sizeof T) = toBytes v := by
    rw [← length_toBytes v, Memory.load_length]
  rw [writeValue, write_eq, hload]

/-- What `write_span` copies; all of the span if its size in bytes is a `size_t`. -/
def spanBytes {T : Type*} [TriviallyCopyable T] (vs : List T) : List UInt8 :=
  (arrayBytes vs).take (SizeT.mul vs.length (sizeof T))

section
variable {T : Type*} [TriviallyCopyable T] {vs : List T}

theorem length_spanBytes (vs : List T) :
    (spanBytes vs).length = SizeT.mul vs.length (sizeof T) := by
  rw [spanBytes, List.length_take, length_arrayBytes, Nat.min_eq_left (SizeT.mul_le ..)]

theorem spanBytes_of_lt (h : vs.length * sizeof T < SizeT.modulus) : spanBytes vs = arrayBytes vs := by
  rw [spanBytes, SizeT.mul_of_lt h, ← length_arrayBytes, List.take_length]

theorem writeSpan_eq (w : BufferWriter) (vs : List T) :
    w.writeSpan vs = w.writeBytes (spanBytes vs) := by
  rw [writeSpan, write_eq, Memory.load_ofBytes, spanBytes]
  rw [length_arrayBytes]
  exact SizeT.mul_le ..

end

def stringParts (str : List UInt8) : List (List UInt8) :=
  [toBytes (UInt32.ofNat str.length), str]

theorem writeString_eq (w : BufferWriter) (str : List UInt8) :
    w.writeString str = w.writeAll (stringParts str) := by
  rw [stringParts, writeAll, writeString, writeValue_eq]
  congr 1
  funext w
  rw [write_eq, Memory.load_length, writeAll_singleton]

/-- The reserved space, as a part. -/
def reservedBytes (w : BufferWriter) (stale : Memory) (size : Nat) : List UInt8 :=
  Memory.load (fun i => stale (w.position + i)) size

theorem reserve_of_le {stale : Memory} {size : Nat} (h : size ≤ w.remaining) :
    w.reserve stale size = (some w.position, w.extend (w.reservedBytes stale size)) :=
  if_neg (Nat.not_lt.2 h)

theorem reserve_of_lt {stale : Memory} {size : Nat} (h : w.remaining < size) :
    w.reserve stale size = (none, w) := if_pos h

end BufferWriter

open BufferWriter

def tensorParts (reserved : UInt16) (dtype : TensorDtype) (dims : List UInt64) (data : Memory) :
    List (List UInt8) :=
  [toBytes (tensorHeader reserved dtype dims), spanBytes dims, data.load (dataSize dtype dims)]

theorem serializeTensor_eq (reserved : UInt16) (w : BufferWriter) (dtype : TensorDtype)
    (dims : List UInt64) (data : Memory) :
    serializeTensor reserved w dtype dims data =
      w.writeAll (tensorParts reserved dtype dims data) := by
  simp only [serializeTensor, tensorParts, writeValue_eq, writeSpan_eq, write_eq, writeAll]
  congr 1
  funext w
  congr 1
  funext w
  exact (writeAll_singleton w _).symm

def sparseParts (reserved : UInt16) (dtype : TensorDtype) (dims indices : List UInt64)
    (values : Memory) : List (List UInt8) :=
  [toBytes (sparseTensorHeader reserved dtype dims indices), spanBytes dims, spanBytes indices,
    values.load (valuesSize dtype indices)]

theorem serializeSparseTensor_eq (reserved : UInt16) (w : BufferWriter) (dtype : TensorDtype)
    (dims indices : List UInt64) (values : Memory) :
    serializeSparseTensor reserved w dtype dims indices values =
      w.writeAll (sparseParts reserved dtype dims indices values) := by
  simp only [serializeSparseTensor, sparseParts, writeValue_eq, writeSpan_eq, write_eq, writeAll]
  congr 1
  funext w
  congr 1
  funext w
  congr 1
  funext w
  exact (writeAll_singleton w _).symm

/-- The bytes of a tensor, header and dimensions included. -/
def tensorSize (tensor : Tensor) : Nat :=
  sizeof TensorHeader + SizeT.mul tensor.dims.length (sizeof UInt64) +
    dataSize tensor.dtype tensor.dims

theorem length_tensorParts (reserved : UInt16) (tensor : Tensor) :
    (tensorParts reserved tensor.dtype tensor.dims tensor.data).flatten.length =
      tensorSize tensor := by
  simp only [tensorParts, List.flatten_cons, List.flatten_nil, List.append_nil, List.length_append,
    length_toBytes, length_spanBytes, Memory.length_load, tensorSize]
  omega

/-- The parts of the tensors from the `k`-th on. -/
def tensorsParts (reserved : Nat → UInt16) : Nat → List Tensor → List (List UInt8)
  | _, [] => []
  | k, tensor :: tensors =>
    tensorParts (reserved k) tensor.dtype tensor.dims tensor.data ++
      tensorsParts reserved (k + 1) tensors

/-- Where the tensors start, the first one at `start`. -/
def startsFrom : Nat → List Tensor → List Nat
  | _, [] => []
  | start, tensor :: tensors => start :: startsFrom (start + tensorSize tensor) tensors

@[simp] theorem length_startsFrom (start : Nat) (tensors : List Tensor) :
    (startsFrom start tensors).length = tensors.length := by
  induction tensors generalizing start with
  | nil => rfl
  | cons tensor tensors ih => rw [startsFrom, List.length_cons, ih, List.length_cons]

section
variable {reserved : Nat → UInt16} {tensors : List Tensor} {offsets : List UInt64}
  {w : BufferWriter}

theorem serializeTensors_of_le
    (h : (tensorsParts reserved offsets.length tensors).flatten.length ≤ w.remaining) :
    serializeTensors reserved tensors offsets w =
      (some (offsets ++ (startsFrom w.position tensors).map UInt64.ofNat),
        w.extend (tensorsParts reserved offsets.length tensors).flatten) := by
  induction tensors generalizing offsets w with
  | nil => simp [serializeTensors, tensorsParts, startsFrom, extend_nil]
  | cons tensor tensors ih =>
    rw [tensorsParts, List.flatten_append, List.length_append] at h
    have hle : (tensorParts (reserved offsets.length) tensor.dtype tensor.dims
        tensor.data).flatten.length ≤ w.remaining := by omega
    have hrest : (tensorsParts reserved (offsets ++ [UInt64.ofNat w.position]).length
        tensors).flatten.length ≤ (w.extend (tensorParts (reserved offsets.length) tensor.dtype
          tensor.dims tensor.data).flatten).remaining := by
      rw [remaining_extend hle, List.length_append, List.length_singleton]
      omega
    rw [serializeTensors, serializeTensor_eq, writeAll_of_le hle]
    simp only [ih hrest]
    rw [position_extend hle, length_tensorParts, extend_extend hle, List.length_append,
      List.length_singleton, startsFrom, List.map_cons, List.append_assoc, List.singleton_append,
      tensorsParts, List.flatten_append]

theorem serializeTensors_of_lt
    (h : w.remaining < (tensorsParts reserved offsets.length tensors).flatten.length) :
    serializeTensors reserved tensors offsets w =
      (none, (w.writeAll (tensorsParts reserved offsets.length tensors)).2) := by
  induction tensors generalizing offsets w with
  | nil => simp [tensorsParts] at h
  | cons tensor tensors ih =>
    rw [tensorsParts, List.flatten_append, List.length_append] at h
    rw [serializeTensors, serializeTensor_eq, tensorsParts, writeAll_append]
    rcases Nat.lt_or_ge w.remaining (tensorParts (reserved offsets.length) tensor.dtype tensor.dims
      tensor.data).flatten.length with hlt | hle
    · obtain ⟨pre, p, post, -, -, -, heq⟩ := writeAll_of_lt hlt
      rw [heq, andThen_false]
    · have hrest : (w.extend (tensorParts (reserved offsets.length) tensor.dtype tensor.dims
          tensor.data).flatten).remaining < (tensorsParts reserved
            (offsets ++ [UInt64.ofNat w.position]).length tensors).flatten.length := by
        rw [remaining_extend hle, List.length_append, List.length_singleton]
        omega
      rw [writeAll_of_le hle, andThen_true]
      simp only [ih hrest]
      rw [List.length_append, List.length_singleton]

end

/-- The offset table for tensors of which the first one is at `start`. -/
def offsetsBytes (start : Nat) (tensors : List Tensor) : List UInt8 :=
  spanBytes ((startsFrom start tensors).map UInt64.ofNat)

theorem length_offsetsBytes (start : Nat) (tensors : List Tensor) :
    (offsetsBytes start tensors).length = offsetsSize tensors := by
  rw [offsetsBytes, length_spanBytes, List.length_map, length_startsFrom, offsetsSize]

theorem load_offsets (start : Nat) (tensors : List Tensor) :
    Memory.load (.ofBytes (arrayBytes ((startsFrom start tensors).map UInt64.ofNat)))
      (offsetsSize tensors) = offsetsBytes start tensors := by
  have hsize : offsetsSize tensors =
      SizeT.mul ((startsFrom start tensors).map UInt64.ofNat).length (sizeof UInt64) := by
    rw [List.length_map, length_startsFrom, offsetsSize]
  rw [offsetsBytes, spanBytes, ← hsize, Memory.load_ofBytes]
  rw [hsize, length_arrayBytes]
  exact SizeT.mul_le ..

/-- What is written behind the header, before the offsets are filled in. -/
def bodyParts (u : Indeterminate) (tensors : List Tensor) (w : BufferWriter) : List (List UInt8) :=
  w.reservedBytes u.stale (offsetsSize tensors) :: tensorsParts u.reserved 0 tensors

/-- What `serialize_gradients` writes, before the offsets are filled in. -/
def gradientsParts (u : Indeterminate) (w : BufferWriter) (step : UInt64) (tensors : List Tensor)
    (compressionType compressionRatio : UInt32) : List (List UInt8) :=
  let header := toBytes (gradientHeader u.totalSize step tensors compressionType compressionRatio)
  header :: bodyParts u tensors (w.extend header)

section
variable {u : Indeterminate} {w : BufferWriter} {step : UInt64} {tensors : List Tensor}
  {compressionType compressionRatio : UInt32}

theorem length_bodyParts (u : Indeterminate) (tensors : List Tensor) (w : BufferWriter) :
    (bodyParts u tensors w).flatten.length =
      offsetsSize tensors + (tensorsParts u.reserved 0 tensors).flatten.length := by
  rw [bodyParts, List.flatten_cons, List.length_append, reservedBytes, Memory.length_load]

theorem serializeOffsetsAndTensors_of_le (h : (bodyParts u tensors w).flatten.length ≤ w.remaining) :
    serializeOffsetsAndTensors u tensors w =
      (true, (w.extend (bodyParts u tensors w).flatten).overwrite w.position
        (offsetsBytes (w.position + offsetsSize tensors) tensors)) := by
  rw [length_bodyParts] at h
  have hstale : (w.reservedBytes u.stale (offsetsSize tensors)).length = offsetsSize tensors :=
    Memory.length_load ..
  have hroom : offsetsSize tensors ≤ w.remaining := by omega
  have hle : (w.reservedBytes u.stale (offsetsSize tensors)).length ≤ w.remaining := by omega
  have htensors : (tensorsParts u.reserved ([] : List UInt64).length tensors).flatten.length ≤
      (w.extend (w.reservedBytes u.stale (offsetsSize tensors))).remaining := by
    rw [remaining_extend hle, List.length_nil]
    omega
  rw [serializeOffsetsAndTensors, reserve_of_le hroom]
  simp only [serializeTensors_of_le htensors, List.nil_append]
  rw [position_extend hle, hstale, load_offsets, extend_extend hle, bodyParts, List.flatten_cons,
    List.length_nil]

theorem serializeOffsetsAndTensors_of_lt (h : w.remaining < (bodyParts u tensors w).flatten.length) :
    serializeOffsetsAndTensors u tensors w = w.writeAll (bodyParts u tensors w) := by
  rw [length_bodyParts] at h
  have hstale : (w.reservedBytes u.stale (offsetsSize tensors)).length = offsetsSize tensors :=
    Memory.length_load ..
  rw [serializeOffsetsAndTensors, bodyParts, writeAll]
  rcases Nat.lt_or_ge w.remaining (offsetsSize tensors) with hlt | hroom
  · rw [reserve_of_lt hlt, writeBytes_of_lt (by omega), andThen_false]
  have hle : (w.reservedBytes u.stale (offsetsSize tensors)).length ≤ w.remaining := by omega
  have htensors : (w.extend (w.reservedBytes u.stale (offsetsSize tensors))).remaining <
      (tensorsParts u.reserved ([] : List UInt64).length tensors).flatten.length := by
    rw [remaining_extend hle, List.length_nil]
    omega
  rw [reserve_of_le hroom, writeBytes_of_le hle, andThen_true]
  simp only [serializeTensors_of_lt htensors]
  obtain ⟨pre, p, post, -, -, -, heq⟩ := writeAll_of_lt htensors
  rw [List.length_nil] at heq
  rw [List.length_nil, heq]

theorem serializeGradients_of_le (h : (gradientsParts u w step tensors compressionType
    compressionRatio).flatten.length ≤ w.remaining) :
    serializeGradients u w step tensors compressionType compressionRatio =
      (true, (w.extend (gradientsParts u w step tensors compressionType
        compressionRatio).flatten).overwrite (w.position + sizeof GradientHeader)
          (offsetsBytes (w.position + sizeof GradientHeader + offsetsSize tensors) tensors)) := by
  rw [serializeGradients, writeValue_eq]
  rw [gradientsParts] at h ⊢
  generalize gradientHeader u.totalSize step tensors compressionType compressionRatio = header at h ⊢
  have hlen : (toBytes header).length = sizeof GradientHeader := length_toBytes header
  rw [List.flatten_cons, List.length_append] at h
  have hle : (toBytes header).length ≤ w.remaining := by omega
  have hbody : (bodyParts u tensors (w.extend (toBytes header))).flatten.length ≤
      (w.extend (toBytes header)).remaining := by
    rw [remaining_extend hle]
    omega
  rw [writeBytes_of_le hle, andThen_true, serializeOffsetsAndTensors_of_le hbody,
    extend_extend hle, position_extend hle, hlen, List.flatten_cons]

theorem serializeGradients_of_lt (h : w.remaining < (gradientsParts u w step tensors compressionType
    compressionRatio).flatten.length) :
    serializeGradients u w step tensors compressionType compressionRatio =
      w.writeAll (gradientsParts u w step tensors compressionType compressionRatio) := by
  rw [serializeGradients, writeValue_eq]
  rw [gradientsParts] at h ⊢
  generalize gradientHeader u.totalSize step tensors compressionType compressionRatio = header at h ⊢
  rw [List.flatten_cons, List.length_append] at h
  rw [writeAll]
  rcases Nat.lt_or_ge w.remaining (toBytes header).length with hlt | hle
  · rw [writeBytes_of_lt hlt, andThen_false, andThen_false]
  have hbody : (w.extend (toBytes header)).remaining <
      (bodyParts u tensors (w.extend (toBytes header))).flatten.length := by
    rw [remaining_extend hle]
    omega
  rw [writeBytes_of_le hle, andThen_true, andThen_true, serializeOffsetsAndTensors_of_lt hbody]

end

/-! ### Reading -/

namespace BufferReader

/-- `remaining_span`. -/
def remainingSpan (r : BufferReader) : List UInt8 := r.data.drop r.pos

/-- Reading `bs` leads from `r` to `r'`, and `rest` is ahead. -/
structure Consumes (r : BufferReader) (bs rest : List UInt8) (r' : BufferReader) : Prop where
  data : r'.data = r.data
  position : r'.position = r.position + bs.length
  span : r'.remainingSpan = rest

variable {r r' r'' : BufferReader} {bs bs' rest rest' : List UInt8}

theorem length_remainingSpan (r : BufferReader) : r.remainingSpan.length = r.remaining := by
  rw [remainingSpan, List.length_drop, remaining_eq]

theorem Consumes.trans (h : r.Consumes bs rest r') (h' : r'.Consumes bs' rest' r'') :
    r.Consumes (bs ++ bs') rest' r'' where
  data := h'.data.trans h.data
  position := by
    rw [h'.position, h.position, List.length_append]
    omega
  span := h'.span

theorem read_of_span (h : r.remainingSpan = bs ++ rest) :
    ∃ r', r.read bs.length = (some bs, r') ∧ r.Consumes bs rest r' := by
  have hlen := congrArg List.length h
  rw [length_remainingSpan, List.length_append] at hlen
  have hle : ¬ r.remaining < bs.length := by omega
  refine ⟨r.advance bs.length hle, ?_, rfl, rfl, ?_⟩
  · rw [read, dif_neg hle, ← remainingSpan, h, List.take_left]
  · rw [remainingSpan, advance, ← List.drop_drop, ← remainingSpan, h, List.drop_left]

theorem readValue_of_span {T : Type*} [TriviallyCopyable T] {v : T}
    (h : r.remainingSpan = toBytes v ++ rest) :
    ∃ r', r.readValue T = (some v, r') ∧ r.Consumes (toBytes v) rest r' := by
  obtain ⟨r', hread, hr'⟩ := read_of_span h
  refine ⟨r', ?_, hr'⟩
  rw [length_toBytes] at hread
  rw [readValue, hread, Option.map_some, ofBytes_toBytes]

theorem readArray_of_span {T : Type*} [TriviallyCopyable T] {vs : List T}
    (hlt : vs.length * sizeof T < SizeT.modulus) (h : r.remainingSpan = arrayBytes vs ++ rest) :
    ∃ r', r.readArray T vs.length = (some vs, r') ∧ r.Consumes (arrayBytes vs) rest r' := by
  obtain ⟨r', hread, hr'⟩ := read_of_span h
  refine ⟨r', ?_, hr'⟩
  rw [length_arrayBytes] at hread
  rw [readArray, SizeT.mul_of_lt hlt, hread, Option.map_some, ofArrayBytes_arrayBytes]

theorem readString_of_span {str : List UInt8} (hlt : str.length < 2 ^ 32)
    (h : r.remainingSpan = (stringParts str).flatten ++ rest) :
    ∃ r', r.readString = (some str, r') ∧ r.Consumes (stringParts str).flatten rest r' := by
  have hflat : (stringParts str).flatten = toBytes (UInt32.ofNat str.length) ++ str := by
    simp [stringParts]
  have hlen : (UInt32.ofNat str.length).toNat = str.length := by
    rw [UInt32.toNat_ofNat']
    exact Nat.mod_eq_of_lt hlt
  rw [hflat, List.append_assoc] at h
  obtain ⟨r₁, hread, hr₁⟩ := readValue_of_span h
  obtain ⟨r₂, hread', hr₂⟩ := read_of_span hr₁.span
  refine ⟨r₂, ?_, hflat ▸ hr₁.trans hr₂⟩
  rw [readString, hread]
  simp only [hlen, hread']

theorem seek_of_le {pos : Nat} (h : pos ≤ r.data.length) :
    ∃ r', r.seek pos = (true, r') ∧ r'.data = r.data ∧ r'.position = pos ∧
      r'.remainingSpan = r.data.drop pos := by
  refine ⟨{ r with pos := pos, pos_le := h }, ?_, rfl, rfl, rfl⟩
  rw [seek, dif_neg (Nat.not_lt.2 h)]

theorem seek_ofBuffer {w : BufferWriter} {pre : List UInt8} (h : w.buffer.bytes = pre ++ rest) :
    ∃ r, (ofBuffer w).seek pre.length = (true, r) ∧ r.data = w.buffer.bytes ∧
      r.position = pre.length ∧ r.remainingSpan = rest := by
  have hle : pre.length ≤ (ofBuffer w).data.length := by
    show _ ≤ w.buffer.bytes.length
    rw [h, List.length_append]
    exact Nat.le_add_right ..
  obtain ⟨r, hseek, hdata, hpos, hspan⟩ := seek_of_le hle
  have hdrop : (ofBuffer w).data.drop pre.length = rest := by
    show w.buffer.bytes.drop pre.length = rest
    rw [h, List.drop_left]
  exact ⟨r, hseek, hdata, hpos, hspan.trans hdrop⟩

theorem read_at_end (h : r.position = r.data.length) {n : Nat} (hn : n ≠ 0) :
    (r.read n).1 = none := by
  have hend : r.remaining < n := by
    rw [position] at h
    rw [remaining_eq]
    omega
  rw [read, dif_pos hend]

end BufferReader

end GossipRl
