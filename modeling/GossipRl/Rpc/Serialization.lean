import GossipRl.Rpc.BufferPool
import GossipRl.Support.TriviallyCopyable

/-!
# Serialization (`serialization.hpp`)

`BufferWriter` appends to a buffer, `BufferReader` has a position in one. A `const void *` argument
is the memory it points to, and writing copies as many bytes of it as it is told. What the code
leaves uninitialised is a parameter: `reserved` of a tensor header, and what `Indeterminate` has.
Records are copied as they lie in memory, on a little-endian machine, and have no padding.
-/

namespace GossipRl
open Support TriviallyCopyable

/-! ### Writing -/

/-- `bs` is copied behind the contents, then `set_size(size() + bs.size())`. -/
def Buffer.extend (b : Buffer) (bs : List UInt8) : Buffer :=
  { b with bytes := (b.bytes ++ bs).take b.capacity, size_le := List.length_take_le _ _ }

/-- `bs` is copied to `data() + offset`; the size stays. -/
def Buffer.overwrite (b : Buffer) (offset : Nat) (bs : List UInt8) : Buffer :=
  { b with
    bytes := (b.bytes.take offset ++ bs ++ b.bytes.drop (offset + bs.length)).take b.size
    size_le := (List.length_take_le _ _).trans b.size_le }

/-- `capacity_` is a `size_t`. -/
structure BufferWriter where
  buffer : Buffer
  capacity_lt : buffer.capacity < SizeT.modulus

namespace BufferWriter

def position (w : BufferWriter) : Nat := w.buffer.size

def remaining (w : BufferWriter) : Nat := w.buffer.remaining

def extend (w : BufferWriter) (bs : List UInt8) : BufferWriter := ⟨w.buffer.extend bs, w.capacity_lt⟩

def overwrite (w : BufferWriter) (offset : Nat) (bs : List UInt8) : BufferWriter :=
  ⟨w.buffer.overwrite offset bs, w.capacity_lt⟩

def write (w : BufferWriter) (data : Memory) (size : Nat) : Bool × BufferWriter :=
  if w.remaining < size then (false, w) else (true, w.extend (data.load size))

def writeValue {T : Type*} [TriviallyCopyable T] (w : BufferWriter) (value : T) :
    Bool × BufferWriter :=
  w.write (.ofBytes (toBytes value)) (sizeof T)

def writeSpan {T : Type*} [TriviallyCopyable T] (w : BufferWriter) (data : List T) :
    Bool × BufferWriter :=
  w.write (.ofBytes (arrayBytes data)) (SizeT.mul data.length (sizeof T))

/-- `if (!result) return false;`, then what follows. -/
def andThen (result : Bool × BufferWriter) (next : BufferWriter → Bool × BufferWriter) :
    Bool × BufferWriter :=
  if result.1 then next result.2 else result

def writeString (w : BufferWriter) (str : List UInt8) : Bool × BufferWriter :=
  andThen (w.writeValue (UInt32.ofNat str.length)) fun w => w.write (.ofBytes str) str.length

/-- The offset of the reserved space; `stale` is what is in memory from `data()` on. -/
def reserve (w : BufferWriter) (stale : Memory) (size : Nat) : Option Nat × BufferWriter :=
  if w.remaining < size then (none, w)
  else (some w.position, w.extend (Memory.load (fun i => stale (w.position + i)) size))

end BufferWriter

/-! ### Reading -/

/-- `size_` bytes at `data_`, and a position in them. -/
structure BufferReader where
  data : List UInt8
  pos : Nat
  size_lt : data.length < SizeT.modulus
  pos_le : pos ≤ data.length

namespace BufferReader

def ofBuffer (w : BufferWriter) : BufferReader where
  data := w.buffer.bytes
  pos := 0
  size_lt := w.buffer.size_le.trans_lt w.capacity_lt
  pos_le := Nat.zero_le _

def position (r : BufferReader) : Nat := r.pos

def remaining (r : BufferReader) : Nat := SizeT.sub r.data.length r.pos

theorem remaining_eq (r : BufferReader) : r.remaining = r.data.length - r.pos :=
  SizeT.sub_of_le r.pos_le r.size_lt

/-- `pos_ += n`, where `n` bytes remain. -/
def advance (r : BufferReader) (n : Nat) (h : ¬ r.remaining < n) : BufferReader where
  data := r.data
  pos := r.pos + n
  size_lt := r.size_lt
  pos_le := by
    have := r.pos_le
    rw [remaining_eq] at h
    omega

def read (r : BufferReader) (size : Nat) : Option (List UInt8) × BufferReader :=
  if h : r.remaining < size then (none, r)
  else (some ((r.data.drop r.pos).take size), r.advance size h)

def readValue (T : Type*) [TriviallyCopyable T] (r : BufferReader) : Option T × BufferReader :=
  ((r.read (sizeof T)).1.map ofBytes, (r.read (sizeof T)).2)

/-- Reading an array of `n` elements: `read(dest, n * sizeof(T))`. -/
def readArray (T : Type*) [TriviallyCopyable T] (r : BufferReader) (n : Nat) :
    Option (List T) × BufferReader :=
  ((r.read (SizeT.mul n (sizeof T))).1.map (ofArrayBytes n), (r.read (SizeT.mul n (sizeof T))).2)

def readString (r : BufferReader) : Option (List UInt8) × BufferReader :=
  match r.readValue UInt32 with
  | (none, r) => (none, r)
  | (some len, r) => r.read len.toNat

def skip (r : BufferReader) (bytes : Nat) : Bool × BufferReader :=
  if h : r.remaining < bytes then (false, r) else (true, r.advance bytes h)

def seek (r : BufferReader) (pos : Nat) : Bool × BufferReader :=
  if h : pos > r.data.length then (false, r)
  else (true, { r with pos := pos, pos_le := Nat.le_of_not_gt h })

end BufferReader

/-! ### Tensors and gradients -/

/-- A `uint8_t` with seven named values. -/
structure TensorDtype where
  code : UInt8
deriving DecidableEq, Repr

namespace TensorDtype

def FLOAT32 : TensorDtype := ⟨0⟩
def FLOAT16 : TensorDtype := ⟨1⟩
def BFLOAT16 : TensorDtype := ⟨2⟩
def INT32 : TensorDtype := ⟨3⟩
def INT64 : TensorDtype := ⟨4⟩
def UINT8 : TensorDtype := ⟨5⟩
def INT8 : TensorDtype := ⟨6⟩

def dtypeSize (dtype : TensorDtype) : Nat :=
  match dtype.code with
  | 0 => 4
  | 1 => 2
  | 2 => 2
  | 3 => 4
  | 4 => 8
  | 5 => 1
  | 6 => 1
  | _ => 0

theorem dtypeSize_le (dtype : TensorDtype) : dtype.dtypeSize ≤ 8 := by
  rw [dtypeSize]
  split <;> decide

end TensorDtype

structure TensorHeader where
  magic : UInt32 := 0x54454E53
  dtype : TensorDtype
  ndim : UInt8
  reserved : UInt16
  numel : UInt64
deriving DecidableEq, Repr

/-- `compressionRatio` are the bits of the `float`. -/
structure GradientHeader where
  magic : UInt32 := 0x47524144
  numTensors : UInt32
  step : UInt64
  totalSize : UInt64
  compressionType : UInt32
  compressionRatio : UInt32
deriving DecidableEq, Repr

structure SparseTensorHeader where
  magic : UInt32 := 0x53505253
  dtype : TensorDtype
  ndim : UInt8
  reserved : UInt16
  originalNumel : UInt64
  nnz : UInt64
deriving DecidableEq, Repr

instance : TriviallyCopyable TensorHeader :=
  ofInverse (fun h => (h.magic, h.dtype.code, h.ndim, h.reserved, h.numel))
    (fun (magic, dtype, ndim, reserved, numel) => ⟨magic, ⟨dtype⟩, ndim, reserved, numel⟩)
    fun _ => rfl

instance : TriviallyCopyable GradientHeader :=
  ofInverse
    (fun h => (h.magic, h.numTensors, h.step, h.totalSize, h.compressionType, h.compressionRatio))
    (fun (magic, numTensors, step, totalSize, compressionType, compressionRatio) =>
      ⟨magic, numTensors, step, totalSize, compressionType, compressionRatio⟩)
    fun _ => rfl

instance : TriviallyCopyable SparseTensorHeader :=
  ofInverse (fun h => (h.magic, h.dtype.code, h.ndim, h.reserved, h.originalNumel, h.nnz))
    (fun (magic, dtype, ndim, reserved, originalNumel, nnz) =>
      ⟨magic, ⟨dtype⟩, ndim, reserved, originalNumel, nnz⟩)
    fun _ => rfl

/-- The running product of the dimensions. -/
def numel (dims : List UInt64) : UInt64 := dims.foldl (· * ·) 1

def tensorHeader (reserved : UInt16) (dtype : TensorDtype) (dims : List UInt64) : TensorHeader where
  dtype := dtype
  ndim := UInt8.ofNat dims.length
  reserved := reserved
  numel := numel dims

/-- `data_size`. -/
def dataSize (dtype : TensorDtype) (dims : List UInt64) : Nat :=
  SizeT.mul (numel dims).toNat dtype.dtypeSize

open BufferWriter

def serializeTensor (reserved : UInt16) (w : BufferWriter) (dtype : TensorDtype)
    (dims : List UInt64) (data : Memory) : Bool × BufferWriter :=
  andThen (w.writeValue (tensorHeader reserved dtype dims)) fun w =>
    andThen (w.writeSpan dims) fun w => w.write data (dataSize dtype dims)

def sparseTensorHeader (reserved : UInt16) (dtype : TensorDtype) (dims indices : List UInt64) :
    SparseTensorHeader where
  dtype := dtype
  ndim := UInt8.ofNat dims.length
  reserved := reserved
  originalNumel := numel dims
  nnz := UInt64.ofNat indices.length

/-- `values_size`. -/
def valuesSize (dtype : TensorDtype) (indices : List UInt64) : Nat :=
  SizeT.mul (UInt64.ofNat indices.length).toNat dtype.dtypeSize

def serializeSparseTensor (reserved : UInt16) (w : BufferWriter) (dtype : TensorDtype)
    (dims indices : List UInt64) (values : Memory) : Bool × BufferWriter :=
  andThen (w.writeValue (sparseTensorHeader reserved dtype dims indices)) fun w =>
    andThen (w.writeSpan dims) fun w =>
      andThen (w.writeSpan indices) fun w => w.write values (valuesSize dtype indices)

/-- One entry of the list that `serialize_gradients` is given. -/
structure Tensor where
  dtype : TensorDtype
  dims : List UInt64
  data : Memory

/-- What `serialize_gradients` leaves as it is in memory: the `reserved` field of each tensor's
header, `total_size`, and what was in the buffer's memory before. -/
structure Indeterminate where
  reserved : Nat → UInt16
  totalSize : UInt64
  stale : Memory

/-- The loop over the tensors: the offsets, unless a tensor cannot be written. -/
def serializeTensors (reserved : Nat → UInt16) :
    List Tensor → List UInt64 → BufferWriter → Option (List UInt64) × BufferWriter
  | [], offsets, w => (some offsets, w)
  | tensor :: tensors, offsets, w =>
    match serializeTensor (reserved offsets.length) w tensor.dtype tensor.dims tensor.data with
    | (false, w') => (none, w')
    | (true, w') => serializeTensors reserved tensors (offsets ++ [UInt64.ofNat w.position]) w'

def gradientHeader (totalSize step : UInt64) (tensors : List Tensor)
    (compressionType compressionRatio : UInt32) : GradientHeader where
  numTensors := UInt32.ofNat tensors.length
  step := step
  totalSize := totalSize
  compressionType := compressionType
  compressionRatio := compressionRatio

/-- `offsets_size`. -/
def offsetsSize (tensors : List Tensor) : Nat := SizeT.mul tensors.length (sizeof UInt64)

/-- What follows the header: the space for the offsets, the tensors, and at last the offsets. -/
def serializeOffsetsAndTensors (u : Indeterminate) (tensors : List Tensor) (w : BufferWriter) :
    Bool × BufferWriter :=
  match w.reserve u.stale (offsetsSize tensors) with
  | (none, w) => (false, w)
  | (some offsetsPtr, w) =>
    match serializeTensors u.reserved tensors [] w with
    | (none, w) => (false, w)
    | (some offsets, w) =>
      (true, w.overwrite offsetsPtr
        (Memory.load (.ofBytes (arrayBytes offsets)) (offsetsSize tensors)))

def serializeGradients (u : Indeterminate) (w : BufferWriter) (step : UInt64) (tensors : List Tensor)
    (compressionType compressionRatio : UInt32) : Bool × BufferWriter :=
  andThen (w.writeValue (gradientHeader u.totalSize step tensors compressionType compressionRatio))
    (serializeOffsetsAndTensors u tensors)

end GossipRl
