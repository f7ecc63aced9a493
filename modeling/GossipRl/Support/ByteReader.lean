import GossipRl.Support.LittleEndian

/-!
# Reading byte strings at an offset

`beRead k data off` is the big-endian number in the `k` bytes at `off`, if `data` is long enough, and
`slice data off k` is what `data` has of these bytes. What is read depends on `data.drop off` only:
the lemmas take it apart from the left, so that a reader is followed field by field (`drop_add`), and
`beRead_take` is what they say about a prefix of `data`.
-/

namespace Support

/-- The `k` low bytes of `n`, highest first. -/
def beEncode (k n : Nat) : List UInt8 := (leEncode k n).reverse

/-- The number whose bytes are `bs`, highest first. -/
def beDecode (bs : List UInt8) : Nat := leDecode bs.reverse

def slice (data : List UInt8) (off k : Nat) : List UInt8 := (data.drop off).take k

def beRead (k : Nat) (data : List UInt8) (off : Nat) : Option Nat :=
  if off + k ≤ data.length then some (beDecode (slice data off k)) else none

def utf8Encode (s : String) : List UInt8 := s.toUTF8.data.toList

def utf8Decode (bs : List UInt8) : Option String := String.fromUTF8? ⟨bs.toArray⟩

@[simp] theorem length_beEncode (k n : Nat) : (beEncode k n).length = k := by simp [beEncode]

theorem beDecode_beEncode {k n : Nat} (h : n < 256 ^ k) : beDecode (beEncode k n) = n := by
  rw [beDecode, beEncode, List.reverse_reverse, leDecode_leEncode, Nat.mod_eq_of_lt h]

theorem beEncode_beDecode (bs : List UInt8) : beEncode bs.length (beDecode bs) = bs := by
  rw [beEncode, beDecode, ← bs.length_reverse, leEncode_leDecode, List.reverse_reverse]

@[simp] theorem utf8Decode_utf8Encode (s : String) : utf8Decode (utf8Encode s) = some s :=
  dif_pos s.isValidUTF8

theorem utf8Encode_of_utf8Decode {bs : List UInt8} {s : String} (h : utf8Decode bs = some s) :
    utf8Encode s = bs := by
  unfold utf8Decode String.fromUTF8? at h
  split at h
  · obtain rfl := Option.some.inj h
    rfl
  · cases h

variable {data a rest : List UInt8} {off k n v : Nat}

theorem drop_add (h : data.drop off = a ++ rest) (hk : a.length = k) :
    data.drop (off + k) = rest := by
  rw [← List.drop_drop, h, ← hk, List.drop_left]

theorem slice_of_drop (h : data.drop off = a ++ rest) (hk : a.length = k) :
    slice data off k = a := by
  rw [slice, h, ← hk, List.take_left]

theorem beRead_of_drop (h : data.drop off = beEncode k n ++ rest) (hk : 0 < k) (hn : n < 256 ^ k) :
    beRead k data off = some n := by
  have hlen := congrArg List.length h
  rw [List.length_drop, List.length_append, length_beEncode] at hlen
  rw [beRead, if_pos (by omega), slice_of_drop h (length_beEncode k n), beDecode_beEncode hn]

theorem beRead_lt (h : beRead k data off = some n) : n < 256 ^ k := by
  unfold beRead at h
  split at h
  · rename_i hle
    obtain rfl := Option.some.inj h
    have hlen : (slice data off k).reverse.length = k := by
      rw [List.length_reverse, slice, List.length_take, List.length_drop]
      omega
    exact (leDecode_lt (slice data off k).reverse).trans_eq (congrArg (256 ^ ·) hlen)
  · cases h

theorem length_slice (h : off + k ≤ data.length) : (slice data off k).length = k := by
  rw [slice, List.length_take, List.length_drop]
  omega

theorem drop_eq_slice_append (data : List UInt8) (off k : Nat) :
    data.drop off = slice data off k ++ data.drop (off + k) := by
  rw [slice, ← List.drop_drop, List.take_append_drop]

theorem drop_of_beRead (h : beRead k data off = some n) :
    off + k ≤ data.length ∧ data.drop off = beEncode k n ++ data.drop (off + k) := by
  unfold beRead at h
  split at h
  · rename_i hle
    obtain rfl := Option.some.inj h
    refine ⟨hle, ?_⟩
    have hencode := beEncode_beDecode (slice data off k)
    rw [length_slice hle] at hencode
    rw [hencode]
    exact drop_eq_slice_append data off k
  · cases h

theorem getElem?_of_drop {b : UInt8} (h : data.drop off = b :: rest) : data[off]? = some b := by
  rw [← List.head?_drop, h, List.head?_cons]

/-- A number that a prefix has is the one that the whole has, and it ends within the prefix. -/
theorem beRead_take (h : beRead k (data.take n) off = some v) :
    beRead k data off = some v ∧ off + k ≤ n := by
  unfold beRead at h
  split at h
  · rename_i hle
    rw [List.length_take] at hle
    obtain rfl := Option.some.inj h
    refine ⟨?_, by omega⟩
    rw [beRead, if_pos (by omega), slice, slice, List.drop_take, List.take_take,
      Nat.min_eq_left (by omega)]
  · cases h

theorem bind_of_eq_some {α β : Type*} {x : Option α} {a : α} {f : α → Option β} (h : x = some a) :
    x.bind f = f a := by
  rw [h, Option.bind_some]

theorem getElem?_take {b : UInt8} (h : (data.take n)[off]? = some b) :
    data[off]? = some b ∧ off < n := by
  rw [List.getElem?_take] at h
  split at h
  · exact ⟨h, by assumption⟩
  · cases h

end Support
