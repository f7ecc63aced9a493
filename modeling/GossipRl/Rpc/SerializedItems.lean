import GossipRl.Rpc.SerializationParts

/-!
# Items written and read back

An item is a fixed-width value, an array of such values or a text; its shape is what a reader has to
know of it. What is written item by item is read back in the same order.
-/

namespace GossipRl
open Support TriviallyCopyable

inductive Item : Type 1
  | value {T : Type} [TriviallyCopyable T] (v : T)
  | span {T : Type} [TriviallyCopyable T] (vs : List T)
  | string (str : List UInt8)

/-- Type and length of an item; a text brings its own length. -/
inductive Item.Shape : Type 1
  | value (T : Type) [TriviallyCopyable T]
  | span (T : Type) [TriviallyCopyable T] (length : Nat)
  | string

namespace Item

def shape : Item → Shape
  | @value T _ _ => .value T
  | @span T _ vs => .span T vs.length
  | string _ => .string

def bytes : Item → List UInt8
  | @value _ _ v => toBytes v
  | @span _ _ vs => arrayBytes vs
  | string str => (BufferWriter.stringParts str).flatten

/-- A span lies in memory, so that its size in bytes is a `size_t`; a text's length has 32 bits. -/
def Fits : Item → Prop
  | @value _ _ _ => True
  | @span T _ vs => vs.length * sizeof T < SizeT.modulus
  | string str => str.length < 2 ^ 32

/-- The bytes that reading an item of this shape asks for at first. -/
def Shape.size : Shape → Nat
  | @value T _ => sizeof T
  | @span T _ length => SizeT.mul length (sizeof T)
  | string => sizeof UInt32

end Item

namespace BufferWriter

def writeItem (w : BufferWriter) : Item → Bool × BufferWriter
  | @Item.value _ _ v => w.writeValue v
  | @Item.span _ _ vs => w.writeSpan vs
  | .string str => w.writeString str

def writeItems (w : BufferWriter) : List Item → Bool × BufferWriter
  | [] => (true, w)
  | item :: items => andThen (w.writeItem item) fun w => w.writeItems items

variable {w w' : BufferWriter} {item : Item} {items : List Item}

theorem writeItem_eq_true (hfits : item.Fits) (h : w.writeItem item = (true, w')) :
    item.bytes.length ≤ w.remaining ∧ w' = w.extend item.bytes := by
  obtain ⟨ps, hps, heq⟩ : ∃ ps, ps.flatten = item.bytes ∧ w.writeItem item = w.writeAll ps := by
    cases item with
    | @value T _ v =>
      exact ⟨[toBytes v], by simp [Item.bytes], by rw [writeItem, writeValue_eq, writeAll_singleton]⟩
    | @span T _ vs =>
      refine ⟨[arrayBytes vs], by simp [Item.bytes], ?_⟩
      rw [writeItem, writeSpan_eq, spanBytes_of_lt hfits, writeAll_singleton]
    | string str => exact ⟨stringParts str, rfl, by rw [writeItem, writeString_eq]⟩
  rw [heq] at h
  rw [← hps]
  exact writeAll_eq_true h

theorem writeItems_append (w : BufferWriter) (items items' : List Item) :
    w.writeItems (items ++ items') = andThen (w.writeItems items) fun w => w.writeItems items' := by
  induction items generalizing w with
  | nil => rfl
  | cons item items ih =>
    rw [List.cons_append, writeItems, writeItems]
    rcases w.writeItem item with ⟨_ | _, w₁⟩
    · rfl
    · exact ih w₁

theorem writeItems_eq_true (hfits : ∀ item ∈ items, item.Fits)
    (h : w.writeItems items = (true, w')) :
    (items.flatMap Item.bytes).length ≤ w.remaining ∧
      w' = w.extend (items.flatMap Item.bytes) := by
  induction items generalizing w with
  | nil =>
    refine ⟨Nat.zero_le _, ?_⟩
    rw [List.flatMap_nil, extend_nil]
    exact (congrArg Prod.snd h).symm
  | cons item items ih =>
    rw [writeItems] at h
    rcases hitem : w.writeItem item with ⟨_ | _, w₁⟩
    · simp [hitem] at h
    · rw [hitem, andThen_true] at h
      obtain ⟨hle, rfl⟩ := writeItem_eq_true (hfits item (by simp)) hitem
      obtain ⟨hrest, rfl⟩ := ih (fun i hi => hfits i (by simp [hi])) h
      rw [remaining_extend hle] at hrest
      rw [List.flatMap_cons, List.length_append, extend_extend hle]
      exact ⟨by omega, rfl⟩

end BufferWriter

namespace BufferReader

def readItem (r : BufferReader) : Item.Shape → Option Item × BufferReader
  | @Item.Shape.value T _ => ((r.readValue T).1.map .value, (r.readValue T).2)
  | @Item.Shape.span T _ length => ((r.readArray T length).1.map .span, (r.readArray T length).2)
  | .string => (r.readString.1.map .string, r.readString.2)

def readItems (r : BufferReader) : List Item.Shape → Option (List Item) × BufferReader
  | [] => (some [], r)
  | shape :: shapes =>
    match r.readItem shape with
    | (none, r) => (none, r)
    | (some item, r) => ((r.readItems shapes).1.map (item :: ·), (r.readItems shapes).2)

variable {r : BufferReader} {item : Item} {items : List Item} {rest : List UInt8}

theorem readItem_of_span (hfits : item.Fits) (h : r.remainingSpan = item.bytes ++ rest) :
    ∃ r', r.readItem item.shape = (some item, r') ∧ r.Consumes item.bytes rest r' := by
  cases item with
  | @value T _ v =>
    obtain ⟨r', hread, hr'⟩ := readValue_of_span h
    exact ⟨r', by rw [Item.shape, readItem, hread]; rfl, hr'⟩
  | @span T _ vs =>
    obtain ⟨r', hread, hr'⟩ := readArray_of_span hfits h
    exact ⟨r', by rw [Item.shape, readItem, hread]; rfl, hr'⟩
  | string str =>
    obtain ⟨r', hread, hr'⟩ := readString_of_span hfits h
    exact ⟨r', by rw [Item.shape, readItem, hread]; rfl, hr'⟩

theorem readItems_of_span (hfits : ∀ item ∈ items, item.Fits)
    (h : r.remainingSpan = items.flatMap Item.bytes ++ rest) :
    ∃ r', r.readItems (items.map Item.shape) = (some items, r') ∧
      r.Consumes (items.flatMap Item.bytes) rest r' := by
  induction items generalizing r with
  | nil => exact ⟨r, rfl, rfl, rfl, h⟩
  | cons item items ih =>
    rw [List.flatMap_cons, List.append_assoc] at h
    obtain ⟨r₁, hread, hr₁⟩ := readItem_of_span (hfits item (by simp)) h
    obtain ⟨r₂, hreads, hr₂⟩ := ih (fun i hi => hfits i (by simp [hi])) hr₁.span
    refine ⟨r₂, ?_, ?_⟩
    · rw [List.map_cons, readItems, hread]
      simp only [hreads, Option.map_some]
    · rw [List.flatMap_cons]
      exact hr₁.trans hr₂

theorem readItem_at_end (h : r.position = r.data.length) {shape : Item.Shape}
    (hsize : shape.size ≠ 0) : (r.readItem shape).1 = none := by
  have hread : (r.read shape.size).1 = none := read_at_end h hsize
  cases shape with
  | @value T _ =>
    rw [Item.Shape.size] at hread
    simp [readItem, readValue, hread]
  | @span T _ length =>
    rw [Item.Shape.size] at hread
    simp [readItem, readArray, hread]
  | string =>
    have hnone : (r.readValue UInt32).1 = none := by
      rw [Item.Shape.size] at hread
      rw [readValue, hread]
      rfl
    rcases hvalue : r.readValue UInt32 with ⟨_ | len, r'⟩
    · simp [readItem, readString, hvalue]
    · rw [hvalue] at hnone
      cases hnone

end BufferReader

open BufferReader

/-- Items that were written are read back from where they start, and then the buffer is at its end.
At every moment the positions are within the buffer, so that no difference of them wraps around. -/
theorem items_round_trip {w w' : BufferWriter} {items : List Item}
    (hfits : ∀ item ∈ items, item.Fits) (hw : w.writeItems items = (true, w')) :
    ∃ r r', (BufferReader.ofBuffer w').seek w.position = (true, r) ∧
      r.readItems (items.map Item.shape) = (some items, r') ∧
      r'.position = w'.buffer.size ∧
      (∀ n, n ≠ 0 → (r'.read n).1 = none ∧ (r'.skip n).1 = false) ∧
      (∀ shape : Item.Shape, shape.size ≠ 0 → (r'.readItem shape).1 = none) ∧
      ∀ done, done <+: items → ∃ w₁ r₁, w.writeItems done = (true, w₁) ∧
        w₁.buffer.size ≤ w₁.buffer.capacity ∧
        w₁.buffer.size + w₁.remaining = w₁.buffer.capacity ∧
        r.readItems (done.map Item.shape) = (some done, r₁) ∧
        r₁.position ≤ w'.buffer.size ∧ r₁.position + r₁.remaining = w'.buffer.size := by
  obtain ⟨hle, rfl⟩ := BufferWriter.writeItems_eq_true hfits hw
  obtain ⟨r, hseek, hrdata, hrpos, hspan⟩ := seek_ofBuffer (BufferWriter.bytes_extend hle)
  have hsize : (w.extend (items.flatMap Item.bytes)).buffer.size =
      w.position + (items.flatMap Item.bytes).length := BufferWriter.position_extend hle
  have hlen : ∀ r' : BufferReader, r'.data = r.data →
      r'.data.length = (w.extend (items.flatMap Item.bytes)).buffer.size := by
    intro r' hr'
    rw [hr', hrdata]
    rfl
  obtain ⟨r', hread, hr'⟩ := readItems_of_span hfits (hspan.trans (List.append_nil _).symm)
  have hend : r'.position = (w.extend (items.flatMap Item.bytes)).buffer.size := by
    rw [hr'.position, hrpos, hsize]
    rfl
  have hend' : r'.position = r'.data.length := by rw [hend, hlen r' hr'.data]
  refine ⟨r, r', hseek, hread, hend, fun n hn => ⟨read_at_end hend' hn, ?_⟩,
    fun shape => readItem_at_end hend', ?_⟩
  · rw [skip, dif_pos]
    rw [BufferReader.position] at hend'
    rw [remaining_eq]
    omega
  · rintro done ⟨rest, rfl⟩
    have hdone : ∀ item ∈ done, item.Fits := fun item hi => hfits item (by simp [hi])
    rcases hwrite : w.writeItems done with ⟨_ | _, w₁⟩
    · simp [BufferWriter.writeItems_append, hwrite] at hw
    · obtain ⟨r₁, hread₁, hr₁⟩ := readItems_of_span hdone (hspan.trans List.flatMap_append)
      have hcapacity := w₁.buffer.size_le
      have hpos := r₁.pos_le
      have hlen₁ := hlen r₁ hr₁.data
      refine ⟨w₁, r₁, rfl, w₁.buffer.size_le, ?_, hread₁, hlen₁ ▸ hpos, ?_⟩
      · rw [BufferWriter.remaining, Buffer.remaining, Buffer.size]
        omega
      · rw [remaining_eq, ← hlen₁, BufferReader.position]
        omega

section Example

/-- A number, two numbers and a text, which fill a buffer behind what it has. -/
def threeItems : List Item := [.value (7 : UInt32), .span [1, (2 : UInt16)], .string [104, 105]]

def filledBuffer : BufferWriter :=
  ⟨⟨0, 0, 16, [9, 9], 0, false, by decide⟩, show (16 : Nat) < SizeT.modulus by decide⟩

theorem items_round_trip_three : (∀ item ∈ threeItems, item.Fits) ∧
    ∃ w', filledBuffer.writeItems threeItems = (true, w') ∧ w'.remaining = 0 ∧
    ∃ r r', (BufferReader.ofBuffer w').seek 2 = (true, r) ∧
      r.readItems (threeItems.map Item.shape) = (some threeItems, r') ∧
      r'.position = w'.buffer.size := by
  have hfits : ∀ item ∈ threeItems, item.Fits := by
    intro item hi
    simp only [threeItems, List.mem_cons, List.not_mem_nil, or_false] at hi
    rcases hi with rfl | rfl | rfl
    · trivial
    · show 2 * 2 < 2 ^ 64
      decide
    · show 2 < 2 ^ 32
      decide
  obtain ⟨w', hw, hfull⟩ : ∃ w', filledBuffer.writeItems threeItems = (true, w') ∧
      w'.remaining = 0 := ⟨_, rfl, rfl⟩
  obtain ⟨r, r', hseek, hread, hend, -⟩ := items_round_trip hfits hw
  exact ⟨hfits, w', hw, hfull, r, r', hseek, hread, hend⟩

end Example

end GossipRl
