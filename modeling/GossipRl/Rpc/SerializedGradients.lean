import GossipRl.Rpc.TensorSizes

/-!
# What `serialize_gradients` leaves in the buffer

The space for the offsets is filled in after the tensors: the contents are then the header, the
offset table and the tensors one after the other (`GradientsBytes`), and the offsets are where the
tensors start. The header is written before the total is known, and stays as it is.
-/

namespace GossipRl
open Support TriviallyCopyable BufferWriter BufferReader

/-! ### The contents -/

/-- Where the first tensor is. -/
def tensorsStart (w : BufferWriter) (tensors : List Tensor) : Nat :=
  w.position + sizeof GradientHeader + offsetsSize tensors

def tensorOffsets (w : BufferWriter) (tensors : List Tensor) : List UInt64 :=
  (startsFrom (tensorsStart w tensors) tensors).map UInt64.ofNat

/-- Behind what `w` has are the header, the offsets and the tensors. -/
structure GradientsBytes (u : Indeterminate) (w : BufferWriter) (step : UInt64)
    (tensors : List Tensor) (compressionType compressionRatio : UInt32) (w' : BufferWriter) :
    Prop where
  bytes : w'.buffer.bytes = w.buffer.bytes ++
    (toBytes (gradientHeader u.totalSize step tensors compressionType compressionRatio) ++
      (offsetsBytes (tensorsStart w tensors) tensors ++
        (tensorsParts u.reserved 0 tensors).flatten))
  size_lt : w'.buffer.size < SizeT.modulus

section
variable {u : Indeterminate} {w w' : BufferWriter} {step : UInt64} {tensors : List Tensor}
  {compressionType compressionRatio : UInt32}

theorem bytes_overwrite {pre old bs post : List UInt8}
    (h : w.buffer.bytes = pre ++ (old ++ post)) (hlen : bs.length = old.length) :
    (w.overwrite pre.length bs).buffer.bytes = pre ++ (bs ++ post) := by
  have hdrop : w.buffer.bytes.drop (pre.length + bs.length) = post := by
    rw [h, ← List.drop_drop, List.drop_left, hlen, List.drop_left]
  have hsize : w.buffer.size = (pre ++ bs ++ post).length := by
    rw [Buffer.size, h, List.length_append, List.length_append, List.length_append,
      List.length_append, hlen, Nat.add_assoc]
  show (w.buffer.bytes.take pre.length ++ bs ++ w.buffer.bytes.drop (pre.length + bs.length)).take
    w.buffer.size = _
  rw [hdrop, hsize, h, List.take_left, List.take_length, List.append_assoc]

theorem bytes_gradients (hle : (gradientsParts u w step tensors compressionType
    compressionRatio).flatten.length ≤ w.remaining) :
    ((w.extend (gradientsParts u w step tensors compressionType
      compressionRatio).flatten).overwrite (w.position + sizeof GradientHeader)
        (offsetsBytes (w.position + sizeof GradientHeader + offsetsSize tensors)
          tensors)).buffer.bytes = w.buffer.bytes ++
      (toBytes (gradientHeader u.totalSize step tensors compressionType compressionRatio) ++
        (offsetsBytes (w.position + sizeof GradientHeader + offsetsSize tensors) tensors ++
          (tensorsParts u.reserved 0 tensors).flatten)) := by
  rw [gradientsParts] at hle ⊢
  generalize gradientHeader u.totalSize step tensors compressionType compressionRatio = header
    at hle ⊢
  have hbytes := bytes_extend hle
  rw [bodyParts, List.flatten_cons, List.flatten_cons, ← List.append_assoc w.buffer.bytes] at hbytes
  have hpos : w.position + sizeof GradientHeader = (w.buffer.bytes ++ toBytes header).length := by
    rw [List.length_append, length_toBytes header]
    rfl
  rw [bodyParts, List.flatten_cons, List.flatten_cons, hpos, bytes_overwrite hbytes,
    List.append_assoc]
  rw [length_offsetsBytes, reservedBytes, Memory.length_load]

theorem serializeGradients_eq_true
    (h : serializeGradients u w step tensors compressionType compressionRatio = (true, w')) :
    (gradientsParts u w step tensors compressionType compressionRatio).flatten.length ≤
        w.remaining ∧
      GradientsBytes u w step tensors compressionType compressionRatio w' := by
  rcases Nat.lt_or_ge w.remaining
    (gradientsParts u w step tensors compressionType compressionRatio).flatten.length with hlt | hle
  · obtain ⟨pre, p, post, -, -, -, heq⟩ := writeAll_of_lt hlt
    rw [serializeGradients_of_lt hlt, heq] at h
    cases h
  · refine ⟨hle, ?_, w'.buffer.size_le.trans_lt w'.capacity_lt⟩
    rw [serializeGradients_of_le hle] at h
    obtain rfl := congrArg Prod.snd h
    exact bytes_gradients hle

end

/-! ### Where the tensors are -/

section
variable {reserved : Nat → UInt16} {tensor : Tensor} {tensors : List Tensor} {start k : Nat}

theorem length_tensorsParts (reserved : Nat → UInt16) (k : Nat) (tensors : List Tensor) :
    (tensorsParts reserved k tensors).flatten.length = (tensors.map tensorSize).sum := by
  induction tensors generalizing k with
  | nil => rfl
  | cons tensor tensors ih =>
    rw [tensorsParts, List.flatten_append, List.length_append, length_tensorParts, ih,
      List.map_cons, List.sum_cons]

theorem tensorSize_pos (tensor : Tensor) : 0 < tensorSize tensor := by
  have hheader : sizeof TensorHeader = 16 := rfl
  rw [tensorSize, hheader]
  omega

theorem mem_startsFrom {s : Nat} (h : s ∈ startsFrom start tensors) :
    start ≤ s ∧ s < start + (tensors.map tensorSize).sum := by
  induction tensors generalizing start with
  | nil => simp [startsFrom] at h
  | cons tensor tensors ih =>
    have := tensorSize_pos tensor
    rw [startsFrom] at h
    rw [List.map_cons, List.sum_cons]
    rcases List.mem_cons.1 h with rfl | h
    · omega
    · have := ih h
      omega

theorem pairwise_startsFrom (start : Nat) (tensors : List Tensor) :
    (startsFrom start tensors).Pairwise (· < ·) := by
  induction tensors generalizing start with
  | nil => exact .nil
  | cons tensor tensors ih =>
    refine .cons (fun s hs => ?_) (ih _)
    have := tensorSize_pos tensor
    have := (mem_startsFrom hs).1
    omega

/-- What is before and behind a tensor, where it starts, and where the next one does. -/
theorem tensorsParts_split (reserved : Nat → UInt16) (k start : Nat) {i : Nat}
    (hi : tensors[i]? = some tensor) :
    ∃ reserved' pre post, (tensorsParts reserved k tensors).flatten =
        pre ++ ((tensorParts reserved' tensor.dtype tensor.dims tensor.data).flatten ++ post) ∧
      (startsFrom start tensors)[i]? = some (start + pre.length) ∧
      (startsFrom start tensors)[i + 1]?.getD (start + (tensors.map tensorSize).sum) =
        start + pre.length + tensorSize tensor := by
  induction tensors generalizing i k start with
  | nil => simp at hi
  | cons first tensors ih =>
    cases i with
    | zero =>
      obtain rfl : first = tensor := Option.some.inj hi
      refine ⟨reserved k, [], (tensorsParts reserved (k + 1) tensors).flatten, ?_, rfl, ?_⟩
      · rw [tensorsParts, List.flatten_append, List.nil_append]
      · cases tensors with
        | nil => rfl
        | cons => rfl
    | succ i =>
      obtain ⟨reserved', pre, post, hflat, hstart, hnext⟩ :=
        ih (k + 1) (start + tensorSize first) hi
      refine ⟨reserved', (tensorParts (reserved k) first.dtype first.dims first.data).flatten ++ pre,
        post, ?_, ?_, ?_⟩
      · rw [tensorsParts, List.flatten_append, hflat, List.append_assoc]
      · rw [startsFrom, List.getElem?_cons_succ, hstart, List.length_append, length_tensorParts,
          Nat.add_assoc]
      · rw [startsFrom, List.getElem?_cons_succ, List.map_cons, List.sum_cons, ← Nat.add_assoc, hnext,
          List.length_append, length_tensorParts, Nat.add_assoc start]

end

/-! ### Reading a tensor -/

/-- A tensor whose header and size in bytes do not wrap around. -/
structure Tensor.Fits (tensor : Tensor) : Prop where
  rank : tensor.dims.length < 2 ^ 8
  bytes : elements tensor.dims * tensor.dtype.dtypeSize < 2 ^ 64

/-- The header is the tensor's; without a size of its elements their number is not bounded. -/
structure Describes (header : TensorHeader) (tensor : Tensor) : Prop where
  magic : header.magic = 0x54454E53
  dtype : header.dtype = tensor.dtype
  ndim : header.ndim.toNat = tensor.dims.length
  numel : tensor.dtype.dtypeSize ≠ 0 → header.numel.toNat = elements tensor.dims

/-- A reader finds the tensor at `start`, and is at `stop` when it has read it. -/
def TensorAt (w : BufferWriter) (tensor : Tensor) (start stop : Nat) : Prop :=
  ∃ r r₁ r₂ r₃ header, (ofBuffer w).seek start = (true, r) ∧
    r.readValue TensorHeader = (some header, r₁) ∧ Describes header tensor ∧
    r₁.readArray UInt64 header.ndim.toNat = (some tensor.dims, r₂) ∧
    r₂.read (header.numel.toNat * header.dtype.dtypeSize) =
      (some (tensor.data.load (elements tensor.dims * tensor.dtype.dtypeSize)), r₃) ∧
    r₃.position = stop

section
variable {tensor : Tensor} {w : BufferWriter}

theorem describes_tensorHeader (reserved : UInt16) (h : tensor.Fits) :
    Describes (tensorHeader reserved tensor.dtype tensor.dims) tensor where
  magic := rfl
  dtype := rfl
  ndim := toNat_ndim h.rank
  numel hsize := by
    have := Nat.le_mul_of_pos_right (elements tensor.dims) (Nat.pos_of_ne_zero hsize)
    have := h.bytes
    exact (toNat_numel _).trans (Nat.mod_eq_of_lt (by omega))

theorem Describes.bytes {header : TensorHeader} (h : Describes header tensor) :
    header.numel.toNat * header.dtype.dtypeSize =
      elements tensor.dims * tensor.dtype.dtypeSize := by
  rw [h.dtype]
  rcases Nat.eq_zero_or_pos tensor.dtype.dtypeSize with hzero | hpos
  · rw [hzero, Nat.mul_zero, Nat.mul_zero]
  · rw [h.numel (by omega)]

theorem tensorAt_of_bytes {pre post : List UInt8} {reserved : UInt16} (hfits : tensor.Fits)
    (h : w.buffer.bytes = pre ++
      ((tensorParts reserved tensor.dtype tensor.dims tensor.data).flatten ++ post)) :
    TensorAt w tensor pre.length (pre.length + tensorSize tensor) := by
  have hrank : tensor.dims.length * sizeof UInt64 < SizeT.modulus := by
    have hrank := hfits.rank
    show tensor.dims.length * 8 < 2 ^ 64
    omega
  have hdata : dataSize tensor.dtype tensor.dims =
      elements tensor.dims * tensor.dtype.dtypeSize :=
    (dataSize_eq ..).trans (Nat.mod_eq_of_lt hfits.bytes)
  have hdescribes := describes_tensorHeader reserved hfits
  have hlen := length_tensorParts reserved tensor
  rw [tensorParts, spanBytes_of_lt hrank, hdata] at h hlen
  simp only [List.flatten_cons, List.flatten_nil, List.append_nil, List.append_assoc] at h hlen
  obtain ⟨r, hseek, -, hpos, hspan⟩ := seek_ofBuffer h
  obtain ⟨r₁, hread₁, hr₁⟩ := readValue_of_span hspan
  obtain ⟨r₂, hread₂, hr₂⟩ := readArray_of_span hrank hr₁.span
  obtain ⟨r₃, hread₃, hr₃⟩ := read_of_span hr₂.span
  rw [Memory.length_load] at hread₃
  refine ⟨r, r₁, r₂, r₃, _, hseek, hread₁, hdescribes, ?_, ?_, ?_⟩
  · rw [hdescribes.ndim, hread₂]
  · rw [hdescribes.bytes, hread₃]
  · rw [((hr₁.trans hr₂).trans hr₃).position, hpos, ← hlen, List.append_assoc]

end

/-! ### The layout -/

/-- The buffer has the tensors behind the header and the offsets, and the offsets lead to them. -/
structure GradientsLaidOut (w : BufferWriter) (tensors : List Tensor) (w' : BufferWriter)
    (offsets : List UInt64) : Prop where
  kept : w'.buffer.bytes.take w.position = w.buffer.bytes
  table : ∃ r r', (ofBuffer w').seek (w.position + 32) = (true, r) ∧
    r.readArray UInt64 tensors.length = (some offsets, r')
  length : offsets.length = tensors.length
  first : ∀ offset ∈ offsets.head?, offset.toNat = w.position + 32 + 8 * tensors.length
  increasing : offsets.Pairwise (· < ·)
  tensor : ∀ i tensor offset, tensors[i]? = some tensor → offsets[i]? = some offset →
    TensorAt w' tensor offset.toNat ((offsets[i + 1]?.map UInt64.toNat).getD w'.buffer.size)

section
variable {u : Indeterminate} {w w' : BufferWriter} {step : UInt64} {tensors : List Tensor}
  {compressionType compressionRatio : UInt32}

namespace GradientsBytes
variable (h : GradientsBytes u w step tensors compressionType compressionRatio w')
include h

theorem size : w'.buffer.size = tensorsStart w tensors + (tensors.map tensorSize).sum := by
  rw [Buffer.size, h.bytes, List.length_append, List.length_append, List.length_append,
    length_toBytes, length_offsetsBytes, length_tensorsParts, tensorsStart, BufferWriter.position,
    Buffer.size]
  omega

theorem end_lt : tensorsStart w tensors + (tensors.map tensorSize).sum < SizeT.modulus :=
  h.size ▸ h.size_lt

theorem kept : w'.buffer.bytes.take w.position = w.buffer.bytes := by
  rw [h.bytes, BufferWriter.position, Buffer.size, List.take_left]

theorem toNat_offset {s : Nat} (hs : s ∈ startsFrom (tensorsStart w tensors) tensors) :
    (UInt64.ofNat s).toNat = s :=
  UInt64.toNat_ofNat_of_lt' ((mem_startsFrom hs).2.trans h.end_lt)

theorem toNat_tensorOffsets (i : Nat) : (tensorOffsets w tensors)[i]?.map UInt64.toNat =
    (startsFrom (tensorsStart w tensors) tensors)[i]? := by
  rw [tensorOffsets, List.getElem?_map, Option.map_map]
  rcases hi : (startsFrom (tensorsStart w tensors) tensors)[i]? with _ | s
  · rfl
  · exact congrArg some (h.toNat_offset (List.mem_of_getElem? hi))

theorem first_offset {offset : UInt64} (hoffset : offset ∈ (tensorOffsets w tensors).head?) :
    offset.toNat = tensorsStart w tensors := by
  cases tensors with
  | nil => simp [tensorOffsets, startsFrom] at hoffset
  | cons tensor tensors =>
    obtain rfl : UInt64.ofNat (tensorsStart w (tensor :: tensors)) = offset := by
      simpa [tensorOffsets, startsFrom] using hoffset
    exact h.toNat_offset (by simp [startsFrom])

theorem increasing_offsets : (tensorOffsets w tensors).Pairwise (· < ·) := by
  rw [tensorOffsets, List.pairwise_map]
  refine (pairwise_startsFrom (tensorsStart w tensors) tensors).imp_of_mem fun ha hb hab => ?_
  rw [UInt64.lt_iff_toNat_lt, h.toNat_offset ha, h.toNat_offset hb]
  exact hab

theorem offset_table (hcount : tensors.length * sizeof UInt64 < SizeT.modulus) :
    ∃ r r', (ofBuffer w').seek (w.position + sizeof GradientHeader) = (true, r) ∧
      r.readArray UInt64 tensors.length = (some (tensorOffsets w tensors), r') := by
  have hlen : (tensorOffsets w tensors).length = tensors.length := by
    rw [tensorOffsets, List.length_map, length_startsFrom]
  have hbytes := h.bytes
  rw [← List.append_assoc] at hbytes
  obtain ⟨r, hseek, -, -, hspan⟩ := seek_ofBuffer hbytes
  rw [List.length_append, length_toBytes] at hseek
  rw [offsetsBytes, ← tensorOffsets, spanBytes_of_lt (hlen ▸ hcount)] at hspan
  obtain ⟨r', hread, -⟩ := readArray_of_span (hlen ▸ hcount) hspan
  rw [hlen] at hread
  exact ⟨r, r', hseek, hread⟩

theorem tensorAt (hfits : ∀ tensor ∈ tensors, tensor.Fits) {i : Nat} {tensor : Tensor}
    {offset : UInt64} (hi : tensors[i]? = some tensor)
    (hoffset : (tensorOffsets w tensors)[i]? = some offset) :
    TensorAt w' tensor offset.toNat
      (((tensorOffsets w tensors)[i + 1]?.map UInt64.toNat).getD w'.buffer.size) := by
  obtain ⟨reserved', pre, post, hflat, hpre, hnext⟩ :=
    tensorsParts_split u.reserved 0 (tensorsStart w tensors) hi
  have htoNat : offset.toNat = tensorsStart w tensors + pre.length := by
    have hmap := h.toNat_tensorOffsets i
    rw [hoffset, hpre] at hmap
    exact Option.some.inj hmap
  have hbytes := h.bytes
  rw [hflat, ← List.append_assoc, ← List.append_assoc, ← List.append_assoc] at hbytes
  have hat := tensorAt_of_bytes (hfits tensor (List.mem_of_getElem? hi)) hbytes
  have hlen : (w.buffer.bytes ++ toBytes (gradientHeader u.totalSize step tensors compressionType
      compressionRatio) ++ offsetsBytes (tensorsStart w tensors) tensors).length =
        tensorsStart w tensors := by
    rw [List.length_append, List.length_append, length_toBytes, length_offsetsBytes]
    rfl
  rw [List.length_append, hlen] at hat
  rw [htoNat, h.toNat_tensorOffsets, h.size, hnext]
  exact hat

end GradientsBytes

theorem gradients_laid_out (hcount : tensors.length < 2 ^ 32)
    (hfits : ∀ tensor ∈ tensors, tensor.Fits)
    (h : serializeGradients u w step tensors compressionType compressionRatio = (true, w')) :
    ∃ offsets, GradientsLaidOut w tensors w' offsets := by
  obtain ⟨-, h⟩ := serializeGradients_eq_true h
  have hcount' : tensors.length * sizeof UInt64 < SizeT.modulus := by
    show tensors.length * 8 < 2 ^ 64
    omega
  have hstart : tensorsStart w tensors = w.position + 32 + 8 * tensors.length := by
    rw [tensorsStart, offsetsSize, SizeT.mul_of_lt hcount', Nat.mul_comm]
    rfl
  refine ⟨tensorOffsets w tensors, h.kept, h.offset_table hcount', ?_, fun offset hoffset => ?_,
    h.increasing_offsets, fun i tensor offset hi hoffset => h.tensorAt hfits hi hoffset⟩
  · rw [tensorOffsets, List.length_map, length_startsFrom]
  · rw [h.first_offset hoffset, hstart]

end

section Example

/-- Two bytes, and one float. -/
def twoTensors : List Tensor :=
  [⟨.UINT8, [2], .ofBytes [1, 2]⟩, ⟨.FLOAT32, [], .ofBytes [0, 0, 128, 63]⟩]

def zeroedMemory : Indeterminate := ⟨fun _ => 0, 0, fun _ => 0⟩

/-- A buffer that has one byte, and room for exactly the two tensors. -/
def gradientsWriter : BufferWriter :=
  ⟨⟨0, 0, 95, [9], 0, false, by decide⟩, show (95 : Nat) < SizeT.modulus by decide⟩

theorem gradients_laid_out_two : ∃ w', serializeGradients zeroedMemory gradientsWriter 3 twoTensors 0
    0x3F800000 = (true, w') ∧ w'.remaining = 0 ∧
    ∃ offsets, GradientsLaidOut gradientsWriter twoTensors w' offsets := by
  have hfits : ∀ tensor ∈ twoTensors, tensor.Fits := by
    intro tensor htensor
    simp only [twoTensors, List.mem_cons, List.not_mem_nil, or_false] at htensor
    rcases htensor with rfl | rfl
    · exact ⟨by decide, by decide⟩
    · exact ⟨by decide, by decide⟩
  obtain ⟨w', hw, hfull⟩ : ∃ w', serializeGradients zeroedMemory gradientsWriter 3 twoTensors 0
      0x3F800000 = (true, w') ∧ w'.remaining = 0 := ⟨_, rfl, by decide⟩
  exact ⟨w', hw, hfull, gradients_laid_out (by decide) hfits hw⟩

end Example

/-! ### The header -/

/-- The header says what follows and how much there is of it. -/
def HeaderDescribes (w : BufferWriter) (step : UInt64) (tensors : List Tensor)
    (compressionType compressionRatio : UInt32) (w' : BufferWriter) : Prop :=
  ∃ r r' header bs, (ofBuffer w').seek w.position = (true, r) ∧
    r.readValue GradientHeader = (some header, r') ∧
    w'.buffer.bytes = w.buffer.bytes ++ bs ∧ header.totalSize.toNat = bs.length ∧
    header.numTensors.toNat = tensors.length ∧ header.step = step ∧
    header.compressionType = compressionType ∧ header.compressionRatio = compressionRatio

/-- The space that the call asks for. -/
def gradientsRoom (tensors : List Tensor) : Nat :=
  32 + 8 * tensors.length % 2 ^ 64 +
    (tensors.map fun tensor => tensorRoom tensor.dtype tensor.dims).sum

section
variable {u : Indeterminate} {w w' : BufferWriter} {step : UInt64} {tensors : List Tensor}
  {compressionType compressionRatio : UInt32}

theorem tensorSize_eq (tensor : Tensor) :
    tensorSize tensor = tensorRoom tensor.dtype tensor.dims := by
  rw [← length_tensorParts 0, length_tensorBytes]

theorem gradientsRoom_eq (tensors : List Tensor) : gradientsRoom tensors =
    sizeof GradientHeader + (offsetsSize tensors + (tensors.map tensorSize).sum) := by
  have hoffsets : offsetsSize tensors = 8 * tensors.length % 2 ^ 64 := by
    rw [offsetsSize, Nat.mul_comm]
    rfl
  have htensors : tensors.map tensorSize =
      tensors.map fun tensor => tensorRoom tensor.dtype tensor.dims :=
    List.map_congr_left fun tensor _ => tensorSize_eq tensor
  rw [htensors, hoffsets, gradientsRoom, Nat.add_assoc]
  rfl

theorem length_gradientsParts (u : Indeterminate) (w : BufferWriter) (step : UInt64)
    (tensors : List Tensor) (compressionType compressionRatio : UInt32) :
    (gradientsParts u w step tensors compressionType compressionRatio).flatten.length =
      gradientsRoom tensors := by
  rw [gradientsParts, List.flatten_cons, List.length_append, length_toBytes, length_bodyParts,
    length_tensorsParts, gradientsRoom_eq]

theorem headerDescribes_iff
    (h : serializeGradients u w step tensors compressionType compressionRatio = (true, w')) :
    HeaderDescribes w step tensors compressionType compressionRatio w' ↔
      u.totalSize.toNat = gradientsRoom tensors ∧ tensors.length < 2 ^ 32 := by
  obtain ⟨-, h⟩ := serializeGradients_eq_true h
  have hcount : (UInt32.ofNat tensors.length).toNat = tensors.length ↔ tensors.length < 2 ^ 32 := by
    rw [UInt32.toNat_ofNat', Nat.mod_eq_iff_lt (by decide)]
  obtain ⟨r, r', hseek, hread⟩ := readValue_behind h.bytes
  have hroom : ∀ bs, w'.buffer.bytes = w.buffer.bytes ++ bs → bs.length = gradientsRoom tensors := by
    intro bs hbs
    rw [List.append_cancel_left (hbs.symm.trans h.bytes), List.length_append, List.length_append,
      length_toBytes, length_offsetsBytes, length_tensorsParts, gradientsRoom_eq]
  constructor
  · rintro ⟨r₁, r₁', header, bs, hseek₁, hread₁, hbs, htotal, hnum, -⟩
    obtain rfl : r = r₁ := congrArg Prod.snd (hseek.symm.trans hseek₁)
    rw [hread] at hread₁
    obtain rfl := Option.some.inj (congrArg Prod.fst hread₁)
    exact ⟨htotal.trans (hroom bs hbs), hcount.1 hnum⟩
  · rintro ⟨htotal, hlt⟩
    exact ⟨r, r', _, _, hseek, hread, h.bytes, htotal.trans (hroom _ h.bytes).symm, hcount.2 hlt, rfl,
      rfl, rfl⟩

/-- The total is never filled in: the header is right exactly if it was there before, and the
tensors can be counted in 32 bits. -/
theorem gradient_header_iff (u : Indeterminate) (w : BufferWriter) (step : UInt64)
    (tensors : List Tensor) (compressionType compressionRatio : UInt32) :
    (∀ w', serializeGradients u w step tensors compressionType compressionRatio = (true, w') →
      HeaderDescribes w step tensors compressionType compressionRatio w') ↔
    (gradientsRoom tensors ≤ w.remaining →
      u.totalSize.toNat = gradientsRoom tensors ∧ tensors.length < 2 ^ 32) := by
  have hlen := length_gradientsParts u w step tensors compressionType compressionRatio
  constructor
  · intro h hroom
    have heq := serializeGradients_of_le (hlen.trans_le hroom)
    exact (headerDescribes_iff heq).1 (h _ heq)
  · intro h w' hw
    have hle := (serializeGradients_eq_true hw).1
    exact (headerDescribes_iff hw).2 (h (hlen ▸ hle))

end

section Example

/-- 94 bytes are written, and the total says zero. -/
theorem total_size_not_written : ∃ w', serializeGradients zeroedMemory gradientsWriter 3 twoTensors 0
    0x3F800000 = (true, w') ∧ w'.position = gradientsWriter.position + 94 ∧
    ¬ HeaderDescribes gradientsWriter 3 twoTensors 0 0x3F800000 w' := by
  obtain ⟨w', hw, hpos⟩ : ∃ w', serializeGradients zeroedMemory gradientsWriter 3 twoTensors 0
      0x3F800000 = (true, w') ∧ w'.position = gradientsWriter.position + 94 := ⟨_, rfl, by decide⟩
  refine ⟨w', hw, hpos, ?_⟩
  rw [headerDescribes_iff hw]
  decide

end Example

end GossipRl
