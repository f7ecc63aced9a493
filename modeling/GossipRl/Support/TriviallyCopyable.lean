import GossipRl.Support.LittleEndian

/-!
# Values copied byte by byte

A trivially copyable type is one whose values `memcpy` takes to bytes and back: each value has an
image of `sizeof` bytes, from which it can be told again. An array is the images of its elements,
one after the other. `Memory` is what lies in memory from a pointer on; `load` copies from it.
-/

namespace Support

class TriviallyCopyable (T : Type*) where
  sizeof : Nat
  toBytes : T → List UInt8
  ofBytes : List UInt8 → T
  length_toBytes : ∀ v, (toBytes v).length = sizeof
  ofBytes_toBytes : ∀ v, ofBytes (toBytes v) = v

namespace TriviallyCopyable

attribute [simp] length_toBytes ofBytes_toBytes

section Array
variable {T : Type*} [TriviallyCopyable T] {vs : List T}

def arrayBytes (vs : List T) : List UInt8 := vs.flatMap toBytes

/-- The array of `n` elements that `bs` starts with. -/
def ofArrayBytes : Nat → List UInt8 → List T
  | 0, _ => []
  | n + 1, bs => ofBytes (bs.take (sizeof T)) :: ofArrayBytes n (bs.drop (sizeof T))

@[simp] theorem length_arrayBytes (vs : List T) :
    (arrayBytes vs).length = vs.length * sizeof T := by
  induction vs with
  | nil => simp [arrayBytes]
  | cons v vs ih =>
    rw [arrayBytes, List.flatMap_cons, List.length_append, length_toBytes, ← arrayBytes, ih,
      List.length_cons, Nat.succ_mul, Nat.add_comm]

@[simp] theorem ofArrayBytes_arrayBytes (vs : List T) :
    ofArrayBytes vs.length (arrayBytes vs) = vs := by
  induction vs with
  | nil => rfl
  | cons v vs ih =>
    have hv : (toBytes v).length = sizeof T := length_toBytes v
    rw [arrayBytes, List.flatMap_cons, List.length_cons, ofArrayBytes, ← hv, List.take_left,
      List.drop_left, ofBytes_toBytes, ← arrayBytes, ih]

end Array

instance : TriviallyCopyable UInt8 where
  sizeof := 1
  toBytes n := leEncode 1 n.toNat
  ofBytes bs := UInt8.ofNat (leDecode bs)
  length_toBytes _ := leEncode_length ..
  ofBytes_toBytes n := by
    rw [leDecode_leEncode, Nat.mod_eq_of_lt (by have := n.toNat_lt; omega), UInt8.ofNat_toNat]

instance : TriviallyCopyable UInt16 where
  sizeof := 2
  toBytes n := leEncode 2 n.toNat
  ofBytes bs := UInt16.ofNat (leDecode bs)
  length_toBytes _ := leEncode_length ..
  ofBytes_toBytes n := by
    rw [leDecode_leEncode, Nat.mod_eq_of_lt (by have := n.toNat_lt; omega), UInt16.ofNat_toNat]

instance : TriviallyCopyable UInt32 where
  sizeof := 4
  toBytes n := leEncode 4 n.toNat
  ofBytes bs := UInt32.ofNat (leDecode bs)
  length_toBytes _ := leEncode_length ..
  ofBytes_toBytes n := by
    rw [leDecode_leEncode, Nat.mod_eq_of_lt (by have := n.toNat_lt; omega), UInt32.ofNat_toNat]

instance : TriviallyCopyable UInt64 where
  sizeof := 8
  toBytes n := leEncode 8 n.toNat
  ofBytes bs := UInt64.ofNat (leDecode bs)
  length_toBytes _ := leEncode_length ..
  ofBytes_toBytes n := by
    rw [leDecode_leEncode, Nat.mod_eq_of_lt (by have := n.toNat_lt; omega), UInt64.ofNat_toNat]

/-- The fields of a record without padding: the first one, then the others. -/
instance {T U : Type*} [TriviallyCopyable T] [TriviallyCopyable U] : TriviallyCopyable (T × U) where
  sizeof := sizeof T + sizeof U
  toBytes v := toBytes v.1 ++ toBytes v.2
  ofBytes bs := (ofBytes (bs.take (sizeof T)), ofBytes (bs.drop (sizeof T)))
  length_toBytes v := by simp
  ofBytes_toBytes v := by
    have hv : (toBytes v.1).length = sizeof T := length_toBytes v.1
    rw [← hv, List.take_left, List.drop_left, ofBytes_toBytes, ofBytes_toBytes]

/-- A record with the given fields. -/
abbrev ofInverse {T U : Type*} [TriviallyCopyable U] (fields : T → U) (make : U → T)
    (h : ∀ v, make (fields v) = v) : TriviallyCopyable T where
  sizeof := sizeof U
  toBytes v := toBytes (fields v)
  ofBytes bs := make (ofBytes bs)
  length_toBytes v := length_toBytes (fields v)
  ofBytes_toBytes v := by rw [ofBytes_toBytes, h]

end TriviallyCopyable

/-- What lies in memory from a pointer on. -/
abbrev Memory := Nat → UInt8

namespace Memory

def load (m : Memory) (n : Nat) : List UInt8 := (List.range n).map m

/-- A pointer to `bs`; what lies behind it is nothing of ours. -/
def ofBytes (bs : List UInt8) : Memory := fun i => bs.getD i 0

@[simp] theorem length_load (m : Memory) (n : Nat) : (m.load n).length = n := by simp [load]

theorem load_ofBytes {bs : List UInt8} {n : Nat} (h : n ≤ bs.length) :
    (ofBytes bs).load n = bs.take n := by
  refine List.ext_getElem (by simp [h]) fun i hi hi' => ?_
  have hlt : i < bs.length := by simp at hi'; omega
  simp [load, ofBytes, List.getD_eq_getElem?_getD, hlt]

@[simp] theorem load_length (bs : List UInt8) : (ofBytes bs).load bs.length = bs := by
  rw [load_ofBytes le_rfl, List.take_length]

end Memory

end Support
