import GossipRl.Rpc.SerializationParts

/-!
# Failed calls of the writer and the reader

A call whose parts are written one after the other leaves those before the one that does not fit.
So it is all or nothing exactly if its first part does not fit or all of them do (`FitsWhole`): the
calls of one part always are. A reader's calls keep their position when they fail, except that
`read_string` has consumed the length when the text is cut short.
-/

namespace GossipRl
open Support TriviallyCopyable

inductive WriterCall : Type 1
  | write (data : Memory) (size : Nat)
  | writeValue {T : Type} [TriviallyCopyable T] (value : T)
  | writeSpan {T : Type} [TriviallyCopyable T] (data : List T)
  | writeString (str : List UInt8)
  | reserve (stale : Memory) (size : Nat)
  | serializeTensor (reserved : UInt16) (dtype : TensorDtype) (dims : List UInt64) (data : Memory)
  | serializeSparseTensor (reserved : UInt16) (dtype : TensorDtype) (dims indices : List UInt64)
      (values : Memory)
  | serializeGradients (u : Indeterminate) (step : UInt64) (tensors : List Tensor)
      (compressionType compressionRatio : UInt32)

namespace WriterCall

/-- What the call reports, and the writer after it. -/
def perform (w : BufferWriter) : WriterCall → Bool × BufferWriter
  | write data size => w.write data size
  | writeValue value => w.writeValue value
  | writeSpan data => w.writeSpan data
  | writeString str => w.writeString str
  | reserve stale size => ((w.reserve stale size).1.isSome, (w.reserve stale size).2)
  | serializeTensor reserved dtype dims data => GossipRl.serializeTensor reserved w dtype dims data
  | serializeSparseTensor reserved dtype dims indices values =>
    GossipRl.serializeSparseTensor reserved w dtype dims indices values
  | serializeGradients u step tensors compressionType compressionRatio =>
    GossipRl.serializeGradients u w step tensors compressionType compressionRatio

def tensorSizes (dtype : TensorDtype) (dims : List UInt64) : List Nat :=
  [sizeof TensorHeader, SizeT.mul dims.length (sizeof UInt64), dataSize dtype dims]

/-- The sizes of the parts. -/
def sizes : WriterCall → List Nat
  | write _ size => [size]
  | @writeValue T _ _ => [sizeof T]
  | @writeSpan T _ data => [SizeT.mul data.length (sizeof T)]
  | writeString str => [sizeof UInt32, str.length]
  | reserve _ size => [size]
  | serializeTensor _ dtype dims _ => tensorSizes dtype dims
  | serializeSparseTensor _ dtype dims indices _ =>
    [sizeof SparseTensorHeader, SizeT.mul dims.length (sizeof UInt64),
      SizeT.mul indices.length (sizeof UInt64), valuesSize dtype indices]
  | serializeGradients _ _ tensors _ _ =>
    sizeof GradientHeader :: offsetsSize tensors ::
      tensors.flatMap fun tensor => tensorSizes tensor.dtype tensor.dims

/-- Failing changes nothing. -/
def KeepsOnFailure (w : BufferWriter) (c : WriterCall) : Prop :=
  (c.perform w).1 = false → (c.perform w).2.buffer.bytes = w.buffer.bytes

/-- The first part does not fit, or all do. -/
def FitsWhole (w : BufferWriter) (c : WriterCall) : Prop :=
  w.remaining < c.sizes.headD 0 ∨ c.sizes.sum ≤ w.remaining

instance (w : BufferWriter) (c : WriterCall) : Decidable (c.FitsWhole w) :=
  inferInstanceAs (Decidable (_ ∨ _))

/-- What is written. -/
def parts (w : BufferWriter) : WriterCall → List (List UInt8)
  | write data size => [data.load size]
  | writeValue value => [toBytes value]
  | writeSpan data => [BufferWriter.spanBytes data]
  | writeString str => BufferWriter.stringParts str
  | reserve stale size => [w.reservedBytes stale size]
  | serializeTensor reserved dtype dims data => tensorParts reserved dtype dims data
  | serializeSparseTensor reserved dtype dims indices values =>
    sparseParts reserved dtype dims indices values
  | serializeGradients u step tensors compressionType compressionRatio =>
    gradientsParts u w step tensors compressionType compressionRatio

variable {w : BufferWriter}

open BufferWriter

theorem map_length_tensorParts (reserved : UInt16) (dtype : TensorDtype) (dims : List UInt64)
    (data : Memory) :
    (tensorParts reserved dtype dims data).map List.length = tensorSizes dtype dims := by
  simp only [tensorParts, tensorSizes, List.map_cons, List.map_nil, length_toBytes,
    length_spanBytes, Memory.length_load]

theorem map_length_tensorsParts (reserved : Nat → UInt16) (k : Nat) (tensors : List Tensor) :
    (tensorsParts reserved k tensors).map List.length =
      tensors.flatMap fun tensor => tensorSizes tensor.dtype tensor.dims := by
  induction tensors generalizing k with
  | nil => rfl
  | cons tensor tensors ih =>
    rw [tensorsParts, List.map_append, map_length_tensorParts, ih, List.flatMap_cons]

theorem map_length_parts (w : BufferWriter) (c : WriterCall) :
    (c.parts w).map List.length = c.sizes := by
  cases c with
  | serializeTensor reserved dtype dims data => exact map_length_tensorParts ..
  | serializeGradients u step tensors compressionType compressionRatio =>
    simp only [parts, sizes, gradientsParts, bodyParts, List.map_cons, map_length_tensorsParts,
      length_toBytes, reservedBytes, Memory.length_load]
  | _ =>
    simp only [parts, sizes, stringParts, sparseParts, reservedBytes, List.map_cons, List.map_nil,
      length_toBytes, length_spanBytes, Memory.length_load]

theorem length_flatten_parts (w : BufferWriter) (c : WriterCall) :
    (c.parts w).flatten.length = c.sizes.sum := by
  rw [List.length_flatten, map_length_parts]

theorem sizes_cases (c : WriterCall) :
    (∃ n, c.sizes = [n]) ∨ ∃ n ns, c.sizes = (n + 1) :: ns := by
  cases c with
  | write | writeValue | writeSpan | reserve => exact .inl ⟨_, rfl⟩
  | writeString | serializeTensor | serializeSparseTensor | serializeGradients =>
    exact .inr ⟨_, _, rfl⟩

theorem perform_of_le {c : WriterCall} (h : (c.parts w).flatten.length ≤ w.remaining) :
    (c.perform w).1 = true := by
  have hall := writeAll_true_iff.2 h
  cases c with
  | write data size => rwa [perform, write_eq, ← writeAll_singleton]
  | writeValue value => rwa [perform, writeValue_eq, ← writeAll_singleton]
  | writeSpan data => rwa [perform, writeSpan_eq, ← writeAll_singleton]
  | writeString str => rwa [perform, writeString_eq]
  | reserve stale size =>
    have hsize : size ≤ w.remaining := by simpa [parts, reservedBytes] using h
    rw [perform, reserve_of_le hsize]
    rfl
  | serializeTensor reserved dtype dims data => rwa [perform, serializeTensor_eq]
  | serializeSparseTensor reserved dtype dims indices values =>
    rwa [perform, serializeSparseTensor_eq]
  | serializeGradients u step tensors compressionType compressionRatio =>
    rw [perform, serializeGradients_of_le h]

theorem perform_of_lt {c : WriterCall} (h : w.remaining < (c.parts w).flatten.length) :
    c.perform w = w.writeAll (c.parts w) := by
  cases c with
  | write data size => rw [perform, write_eq, parts, writeAll_singleton]
  | writeValue value => rw [perform, writeValue_eq, parts, writeAll_singleton]
  | writeSpan data => rw [perform, writeSpan_eq, parts, writeAll_singleton]
  | writeString str => rw [perform, writeString_eq, parts]
  | reserve stale size =>
    have hsize : w.remaining < size := by simpa [parts, reservedBytes] using h
    rw [perform, reserve_of_lt hsize, parts, writeAll_singleton, writeBytes_of_lt]
    · rfl
    · simpa [reservedBytes] using hsize
  | serializeTensor reserved dtype dims data => rw [perform, serializeTensor_eq, parts]
  | serializeSparseTensor reserved dtype dims indices values =>
    rw [perform, serializeSparseTensor_eq, parts]
  | serializeGradients u step tensors compressionType compressionRatio =>
    rw [perform, serializeGradients_of_lt h, parts]

/-- Parts that do not all fit: nothing of them stays if the first one does not fit. -/
theorem writeAll_keeps_iff {ps : List (List UInt8)} {n : Nat} {ns : List Nat}
    (hsizes : ps.map List.length = n :: ns) (hfirst : ns = [] ∨ n ≠ 0)
    (h : w.remaining < ps.flatten.length) :
    (w.writeAll ps).2.buffer.bytes = w.buffer.bytes ↔ w.remaining < n := by
  obtain ⟨pre, p, post, rfl, hpre, hp, heq⟩ := writeAll_of_lt h
  rw [heq]
  show (w.extend pre.flatten).buffer.bytes = w.buffer.bytes ↔ _
  rw [bytes_extend hpre, List.append_right_eq_self]
  cases pre with
  | nil =>
    obtain rfl : p.length = n := (List.cons.inj hsizes).1
    exact ⟨fun _ => by simpa using hp, fun _ => rfl⟩
  | cons q pre =>
    obtain ⟨rfl, hns⟩ := List.cons.inj hsizes
    have hq : q.length ≠ 0 := by
      rcases hfirst with rfl | hq
      · simp at hns
      · exact hq
    rw [List.flatten_cons, List.length_append] at hpre
    constructor
    · intro hnil
      rw [List.flatten_cons, List.append_eq_nil_iff] at hnil
      exact absurd (List.length_eq_zero_iff.2 hnil.1) hq
    · omega

theorem keepsOnFailure_iff (w : BufferWriter) (c : WriterCall) :
    c.KeepsOnFailure w ↔ c.FitsWhole w := by
  have hlen := c.length_flatten_parts w
  rcases Nat.lt_or_ge w.remaining (c.parts w).flatten.length with hlt | hle
  · obtain ⟨pre, p, post, -, -, -, heq⟩ := writeAll_of_lt hlt
    have hfails : (c.perform w).1 = false := by rw [perform_of_lt hlt, heq]
    have hkeeps : (w.writeAll (c.parts w)).2.buffer.bytes = w.buffer.bytes ↔
        w.remaining < c.sizes.headD 0 := by
      rcases c.sizes_cases with ⟨n, hn⟩ | ⟨n, ns, hn⟩
      · rw [hn]
        exact writeAll_keeps_iff ((c.map_length_parts w).trans hn) (.inl rfl) hlt
      · rw [hn]
        exact writeAll_keeps_iff ((c.map_length_parts w).trans hn) (.inr n.succ_ne_zero) hlt
    rw [KeepsOnFailure, FitsWhole, perform_of_lt hlt, hkeeps]
    rw [perform_of_lt hlt] at hfails
    constructor
    · exact fun h => .inl (h hfails)
    · rintro (h | h) -
      · exact h
      · omega
  · rw [KeepsOnFailure, perform_of_le hle]
    exact ⟨fun _ => .inr (hlen ▸ hle), fun _ => nofun⟩

end WriterCall

/-! ### Reading -/

inductive ReaderCall : Type 1
  | read (size : Nat)
  | readValue (T : Type) [TriviallyCopyable T]
  | readString
  | skip (bytes : Nat)
  | seek (pos : Nat)

namespace ReaderCall

def perform (r : BufferReader) : ReaderCall → Bool × BufferReader
  | read size => ((r.read size).1.isSome, (r.read size).2)
  | readValue T => ((r.readValue T).1.isSome, (r.readValue T).2)
  | readString => (r.readString.1.isSome, r.readString.2)
  | skip bytes => r.skip bytes
  | seek pos => r.seek pos

def KeepsOnFailure (r : BufferReader) (c : ReaderCall) : Prop :=
  (c.perform r).1 = false → (c.perform r).2.position = r.position

/-- The length prefix that is ahead. -/
def stringLength (r : BufferReader) : Nat :=
  (ofBytes (r.remainingSpan.take (sizeof UInt32)) : UInt32).toNat

/-- A string's length is not there, or all of the string is. -/
def FitsWhole (r : BufferReader) : ReaderCall → Prop
  | readString =>
    r.remaining < sizeof UInt32 ∨ sizeof UInt32 + stringLength r ≤ r.remaining
  | _ => True

variable {r : BufferReader} {n : Nat}

theorem read_of_lt (h : r.remaining < n) : r.read n = (none, r) := dif_pos h

theorem read_of_le (h : n ≤ r.remaining) : ∃ r' : BufferReader,
    r.read n = (some (r.remainingSpan.take n), r') ∧ r'.position = r.position + n ∧
      r'.remaining = r.remaining - n := by
  have hlt := Nat.not_lt.2 h
  refine ⟨r.advance n hlt, dif_neg hlt, rfl, ?_⟩
  rw [BufferReader.remaining_eq, BufferReader.remaining_eq]
  show r.data.length - (r.pos + n) = _
  omega

theorem readString_of_lt (h : r.remaining < sizeof UInt32) : r.readString = (none, r) := by
  rw [BufferReader.readString, BufferReader.readValue, read_of_lt h]
  rfl

theorem readString_of_le (h : sizeof UInt32 ≤ r.remaining) : ∃ r' : BufferReader,
    r.readString = r'.read (stringLength r) ∧ r'.position = r.position + sizeof UInt32 ∧
      r'.remaining = r.remaining - sizeof UInt32 := by
  obtain ⟨r', hread, hpos, hrem⟩ := read_of_le h
  refine ⟨r', ?_, hpos, hrem⟩
  rw [BufferReader.readString, BufferReader.readValue, hread]
  rfl

theorem readString_keepsOnFailure_iff (r : BufferReader) :
    KeepsOnFailure r .readString ↔ FitsWhole r .readString := by
  rw [KeepsOnFailure, FitsWhole, perform]
  rcases Nat.lt_or_ge r.remaining (sizeof UInt32) with hlt | hle
  · rw [readString_of_lt hlt]
    exact ⟨fun _ => .inl hlt, fun _ _ => rfl⟩
  obtain ⟨r', heq, hpos, hrem⟩ := readString_of_le hle
  rw [heq]
  rcases Nat.lt_or_ge r'.remaining (stringLength r) with hcut | hfits
  · -- the length is consumed, the text is not there
    rw [read_of_lt hcut]
    have hfour : 0 < sizeof UInt32 := by decide
    constructor
    · intro h
      have := hpos.symm.trans (h rfl)
      omega
    · omega
  · obtain ⟨r'', hread, -, -⟩ := read_of_le hfits
    rw [hread]
    exact ⟨fun _ => .inr (by omega), fun _ => nofun⟩

theorem keepsOnFailure_iff (r : BufferReader) (c : ReaderCall) :
    c.KeepsOnFailure r ↔ c.FitsWhole r := by
  cases c with
  | readString => exact readString_keepsOnFailure_iff r
  | read size =>
    refine ⟨fun _ => trivial, fun _ hfails => ?_⟩
    rcases Nat.lt_or_ge r.remaining size with hlt | hle
    · rw [perform, read_of_lt hlt]
    · obtain ⟨r', hread, -, -⟩ := read_of_le hle
      rw [perform, hread] at hfails
      cases hfails
  | readValue T =>
    refine ⟨fun _ => trivial, fun _ hfails => ?_⟩
    rcases Nat.lt_or_ge r.remaining (sizeof T) with hlt | hle
    · rw [perform, BufferReader.readValue, read_of_lt hlt]
    · obtain ⟨r', hread, -, -⟩ := read_of_le hle
      rw [perform, BufferReader.readValue, hread] at hfails
      cases hfails
  | skip bytes =>
    refine ⟨fun _ => trivial, fun _ hfails => ?_⟩
    rw [perform, BufferReader.skip] at hfails ⊢
    split at hfails
    · rename_i hlt
      rw [dif_pos hlt]
    · cases hfails
  | seek pos =>
    refine ⟨fun _ => trivial, fun _ hfails => ?_⟩
    rw [perform, BufferReader.seek] at hfails ⊢
    split at hfails
    · rename_i hlt
      rw [dif_pos hlt]
    · cases hfails

end ReaderCall

/-- A call that reports failure has changed nothing, exactly if it fits whole or its first part does
not fit. -/
theorem all_or_nothing_iff (w : BufferWriter) (c : WriterCall) (r : BufferReader) (d : ReaderCall) :
    (c.KeepsOnFailure w ↔ c.FitsWhole w) ∧ (d.KeepsOnFailure r ↔ d.FitsWhole r) :=
  ⟨c.keepsOnFailure_iff w, d.keepsOnFailure_iff r⟩

section Example

/-- An empty buffer of six bytes. -/
def sixBytes : BufferWriter := ⟨.create 0 0 6 0 false, by decide⟩

/-- Five bytes: the length of a text of three bytes, and the first of them. -/
def cutString : BufferReader := ⟨[3, 0, 0, 0, 97], 0, by decide, by decide⟩

/-- The text does not fit behind its length: the length stays. And reading a text that is cut short
consumes its length. -/
theorem length_prefix_stays :
    ((sixBytes.writeString [97, 98, 99]).1 = false ∧
      (sixBytes.writeString [97, 98, 99]).2.buffer.bytes = [3, 0, 0, 0] ∧
      ¬ (WriterCall.writeString [97, 98, 99]).KeepsOnFailure sixBytes) ∧
    cutString.readString.1 = none ∧ cutString.readString.2.position = 4 ∧
      ¬ ReaderCall.readString.KeepsOnFailure cutString := by
  refine ⟨⟨by decide, by decide, fun h => ?_⟩, by decide, by decide, fun h => ?_⟩
  · have hbytes := h (by decide)
    revert hbytes
    decide
  · have hpos := h (by decide)
    revert hpos
    decide

end Example

end GossipRl
