import GossipRl.Rpc.SerializationParts

/-!
# The sizes in a tensor's header

The header has the rank in eight bits and the number of elements in 64, and the sizes in bytes are
computed in `size_t`. Each of them is the true one modulo its width, so that a call may find room for
a tensor that is not the one it is given. `TensorWritten` and `SparseTensorWritten` are what the
header and the bytes behind it say when nothing wraps around.
-/

namespace GossipRl
open Support TriviallyCopyable BufferWriter BufferReader

/-- The number of elements. -/
def elements (dims : List UInt64) : Nat := (dims.map UInt64.toNat).prod

/-- Neither the rank nor a running product wraps around. -/
structure DimsFit (dims : List UInt64) : Prop where
  rank : dims.length < 2 ^ 8
  products : ∀ ds, ds <+: dims → elements ds < 2 ^ 64

/-! ### Wrapped values -/

theorem toNat_foldl_mul (dims : List UInt64) (n : UInt64) :
    (dims.foldl (· * ·) n).toNat = n.toNat * elements dims % 2 ^ 64 := by
  induction dims generalizing n with
  | nil =>
    have := n.toNat_lt
    simp only [List.foldl_nil, elements, List.map_nil, List.prod_nil, Nat.mul_one]
    omega
  | cons d dims ih =>
    rw [List.foldl_cons, ih, UInt64.toNat_mul, Nat.mod_mul_mod, elements, elements, List.map_cons,
      List.prod_cons, Nat.mul_assoc]

theorem toNat_numel (dims : List UInt64) : (numel dims).toNat = elements dims % 2 ^ 64 := by
  rw [numel, toNat_foldl_mul]
  exact congrArg (· % 2 ^ 64) (Nat.one_mul _)

theorem dataSize_eq (dtype : TensorDtype) (dims : List UInt64) :
    dataSize dtype dims = elements dims * dtype.dtypeSize % 2 ^ 64 := by
  rw [dataSize, toNat_numel]
  exact Nat.mod_mul_mod ..

theorem valuesSize_eq (dtype : TensorDtype) (indices : List UInt64) :
    valuesSize dtype indices = indices.length * dtype.dtypeSize % 2 ^ 64 := by
  rw [valuesSize, UInt64.toNat_ofNat']
  exact Nat.mod_mul_mod ..

theorem toNat_ndim {dims : List UInt64} (h : dims.length < 2 ^ 8) :
    (UInt8.ofNat dims.length).toNat = dims.length := by
  rw [UInt8.toNat_ofNat']
  exact Nat.mod_eq_of_lt h

theorem DimsFit.toNat_numel {dims : List UInt64} (h : DimsFit dims) :
    (numel dims).toNat = elements dims := by
  rw [GossipRl.toNat_numel, Nat.mod_eq_of_lt (h.products dims (List.prefix_refl dims))]

/-! ### Dense tensors -/

/-- The header describes the tensor, and the buffer has all of it. -/
structure TensorWritten (w : BufferWriter) (dtype : TensorDtype) (dims : List UInt64)
    (w' : BufferWriter) : Prop where
  header : ∃ r r' header, (ofBuffer w').seek w.position = (true, r) ∧
    r.readValue TensorHeader = (some header, r') ∧ header.ndim.toNat = dims.length ∧
    header.numel.toNat = elements dims
  appended : ∃ bs, w'.buffer.bytes = w.buffer.bytes ++ bs ∧
    bs.length = 16 + 8 * dims.length + elements dims * dtype.dtypeSize
  dims_fit : DimsFit dims
  bytes_lt : elements dims * dtype.dtypeSize < 2 ^ 64

/-- The space that the call asks for. -/
def tensorRoom (dtype : TensorDtype) (dims : List UInt64) : Nat :=
  16 + 8 * dims.length % 2 ^ 64 + elements dims * dtype.dtypeSize % 2 ^ 64

variable {w w' : BufferWriter} {dtype : TensorDtype} {dims indices : List UInt64}

theorem length_dimsBytes (dims : List UInt64) :
    (spanBytes dims).length = 8 * dims.length % 2 ^ 64 := by
  rw [length_spanBytes, Nat.mul_comm]
  rfl

theorem length_tensorBytes (reserved : UInt16) (dtype : TensorDtype) (dims : List UInt64)
    (data : Memory) :
    (tensorParts reserved dtype dims data).flatten.length = tensorRoom dtype dims := by
  have hheader : (toBytes (tensorHeader reserved dtype dims)).length = 16 := length_toBytes _
  simp only [tensorParts, List.flatten_cons, List.flatten_nil, List.append_nil, List.length_append,
    hheader, length_dimsBytes, Memory.length_load, dataSize_eq, tensorRoom, Nat.add_assoc]

theorem readValue_behind {T : Type*} [TriviallyCopyable T] {v : T} {bs : List UInt8}
    (h : w'.buffer.bytes = w.buffer.bytes ++ (toBytes v ++ bs)) :
    ∃ r r', (ofBuffer w').seek w.position = (true, r) ∧ r.readValue T = (some v, r') := by
  obtain ⟨r, hseek, -, -, hspan⟩ := seek_ofBuffer h
  obtain ⟨r', hread, -⟩ := readValue_of_span hspan
  exact ⟨r, r', hseek, hread⟩

theorem tensorWritten_iff (reserved : UInt16) (w : BufferWriter) (dtype : TensorDtype)
    (dims : List UInt64) (data : Memory) :
    (∀ w', serializeTensor reserved w dtype dims data = (true, w') →
      TensorWritten w dtype dims w') ↔
    (tensorRoom dtype dims ≤ w.remaining →
      DimsFit dims ∧ elements dims * dtype.dtypeSize < 2 ^ 64) := by
  have hlen := length_tensorBytes reserved dtype dims data
  rw [serializeTensor_eq]
  constructor
  · intro h hroom
    have hw := h _ (writeAll_of_le (hlen.trans_le hroom))
    exact ⟨hw.dims_fit, hw.bytes_lt⟩
  · intro h w' hw
    obtain ⟨hle, rfl⟩ := writeAll_eq_true hw
    obtain ⟨hdims, hbytes⟩ := h (hlen ▸ hle)
    obtain ⟨r, r', hseek, hread⟩ :=
      readValue_behind (v := tensorHeader reserved dtype dims) (bytes_extend hle)
    refine ⟨⟨r, r', _, hseek, hread, toNat_ndim hdims.rank, hdims.toNat_numel⟩,
      ⟨_, bytes_extend hle, ?_⟩, hdims, hbytes⟩
    have hrank : 8 * dims.length < 2 ^ 64 := by
      have := hdims.rank
      omega
    rw [hlen, tensorRoom, Nat.mod_eq_of_lt hrank, Nat.mod_eq_of_lt hbytes]

/-! ### Sparse tensors -/

structure SparseTensorWritten (w : BufferWriter) (dtype : TensorDtype) (dims indices : List UInt64)
    (w' : BufferWriter) : Prop where
  header : ∃ r r' header, (ofBuffer w').seek w.position = (true, r) ∧
    r.readValue SparseTensorHeader = (some header, r') ∧ header.ndim.toNat = dims.length ∧
    header.originalNumel.toNat = elements dims ∧ header.nnz.toNat = indices.length
  appended : ∃ bs, w'.buffer.bytes = w.buffer.bytes ++ bs ∧
    bs.length = 24 + 8 * dims.length + indices.length * (8 + dtype.dtypeSize)
  dims_fit : DimsFit dims
  indices_lt : 8 * indices.length < 2 ^ 64
  bytes_lt : indices.length * dtype.dtypeSize < 2 ^ 64

def sparseTensorRoom (dtype : TensorDtype) (dims indices : List UInt64) : Nat :=
  24 + 8 * dims.length % 2 ^ 64 + 8 * indices.length % 2 ^ 64 +
    indices.length * dtype.dtypeSize % 2 ^ 64

theorem length_sparseTensorBytes (reserved : UInt16) (dtype : TensorDtype)
    (dims indices : List UInt64) (values : Memory) :
    (sparseParts reserved dtype dims indices values).flatten.length =
      sparseTensorRoom dtype dims indices := by
  have hheader : (toBytes (sparseTensorHeader reserved dtype dims indices)).length = 24 :=
    length_toBytes _
  simp only [sparseParts, List.flatten_cons, List.flatten_nil, List.append_nil, List.length_append,
    hheader, length_dimsBytes, Memory.length_load, valuesSize_eq, sparseTensorRoom, Nat.add_assoc]

theorem sparseTensorWritten_iff (reserved : UInt16) (w : BufferWriter) (dtype : TensorDtype)
    (dims indices : List UInt64) (values : Memory) :
    (∀ w', serializeSparseTensor reserved w dtype dims indices values = (true, w') →
      SparseTensorWritten w dtype dims indices w') ↔
    (sparseTensorRoom dtype dims indices ≤ w.remaining →
      DimsFit dims ∧ 8 * indices.length < 2 ^ 64) := by
  have hlen := length_sparseTensorBytes reserved dtype dims indices values
  rw [serializeSparseTensor_eq]
  constructor
  · intro h hroom
    have hw := h _ (writeAll_of_le (hlen.trans_le hroom))
    exact ⟨hw.dims_fit, hw.indices_lt⟩
  · intro h w' hw
    obtain ⟨hle, rfl⟩ := writeAll_eq_true hw
    obtain ⟨hdims, hindices⟩ := h (hlen ▸ hle)
    obtain ⟨r, r', hseek, hread⟩ :=
      readValue_behind (v := sparseTensorHeader reserved dtype dims indices) (bytes_extend hle)
    -- an element has at most the eight bytes of an index
    have hbytes : indices.length * dtype.dtypeSize < 2 ^ 64 := by
      have := Nat.mul_le_mul_left indices.length dtype.dtypeSize_le
      omega
    have hnnz : (UInt64.ofNat indices.length).toNat = indices.length := by
      rw [UInt64.toNat_ofNat']
      exact Nat.mod_eq_of_lt (by omega)
    refine ⟨⟨r, r', _, hseek, hread, toNat_ndim hdims.rank, hdims.toNat_numel, hnnz⟩,
      ⟨_, bytes_extend hle, ?_⟩, hdims, hindices, hbytes⟩
    have hrank : 8 * dims.length < 2 ^ 64 := by
      have := hdims.rank
      omega
    rw [hlen, sparseTensorRoom, Nat.mod_eq_of_lt hrank, Nat.mod_eq_of_lt hindices,
      Nat.mod_eq_of_lt hbytes, Nat.mul_add]
    omega

/-- A tensor that is written is the one that its header describes exactly if it has fewer than 256
dimensions and no size of it reaches 2^64, or the wrapped sizes leave no room for it. -/
theorem tensor_sizes_iff (reserved : UInt16) (w : BufferWriter) (dtype : TensorDtype)
    (dims indices : List UInt64) (data values : Memory) :
    ((∀ w', serializeTensor reserved w dtype dims data = (true, w') →
        TensorWritten w dtype dims w') ↔
      (tensorRoom dtype dims ≤ w.remaining →
        DimsFit dims ∧ elements dims * dtype.dtypeSize < 2 ^ 64)) ∧
    ((∀ w', serializeSparseTensor reserved w dtype dims indices values = (true, w') →
        SparseTensorWritten w dtype dims indices w') ↔
      (sparseTensorRoom dtype dims indices ≤ w.remaining →
        DimsFit dims ∧ 8 * indices.length < 2 ^ 64)) :=
  ⟨tensorWritten_iff .., sparseTensorWritten_iff ..⟩

section Example

/-- 2^32 times 2^32 floats. -/
def hugeDims : List UInt64 := [0x100000000, 0x100000000]

/-- An empty buffer of 32 bytes. -/
def smallWriter : BufferWriter :=
  ⟨⟨0, 0, 32, [], 0, false, by decide⟩, show (32 : Nat) < SizeT.modulus by decide⟩

/-- The number of elements wraps to zero: header and dimensions fit, and no data is written. -/
theorem huge_tensor_written :
    ∃ w', serializeTensor 0 smallWriter .FLOAT32 hugeDims (fun _ => 0) = (true, w') ∧
      w'.position = 32 ∧ (numel hugeDims).toNat = 0 ∧
      ¬ TensorWritten smallWriter .FLOAT32 hugeDims w' := by
  refine ⟨_, rfl, by decide, by decide, fun h => ?_⟩
  exact absurd h.bytes_lt (by decide)

end Example

end GossipRl
