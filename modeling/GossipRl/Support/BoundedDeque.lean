import Mathlib.Data.List.Basic
import Mathlib.Data.List.DropRight

/-!
# Bounded deques

A deque of bounded length: an item that is appended to a full one pushes out the item at the other
end, and every item that stays moves one place down.
-/

namespace Support

structure BoundedDeque (α : Type*) (capacity : Nat) where
  items : List α
  length_le : items.length ≤ capacity

namespace BoundedDeque
variable {α β : Type*} {capacity : Nat}

def empty : BoundedDeque α capacity := ⟨[], Nat.zero_le _⟩

def Full (d : BoundedDeque α capacity) : Prop := d.items.length = capacity

instance (d : BoundedDeque α capacity) : Decidable d.Full := inferInstanceAs (Decidable (_ = _))

def append (x : α) (d : BoundedDeque α capacity) : BoundedDeque α capacity where
  items := (d.items ++ [x]).drop (d.items.length + 1 - capacity)
  length_le := by
    rw [List.length_drop, List.length_append, List.length_singleton]
    omega

/-- The item at `i` replaced, if there is one. -/
def modify (i : Nat) (f : α → α) (d : BoundedDeque α capacity) : BoundedDeque α capacity where
  items := d.items.modify i f
  length_le := by rw [List.length_modify]; exact d.length_le

variable {d : BoundedDeque α capacity} {x : α}

theorem items_append_of_not_full (h : ¬ d.Full) : (d.append x).items = d.items ++ [x] := by
  have hlt : d.items.length < capacity := Nat.lt_of_le_of_ne d.length_le h
  have hzero : d.items.length + 1 - capacity = 0 := by omega
  simp [append, hzero]

theorem items_append_of_full (h : d.Full) (hpos : 0 < capacity) :
    (d.append x).items = d.items.tail ++ [x] := by
  have hone : d.items.length + 1 - capacity = 1 := by rw [h]; omega
  have hlen : 0 < d.items.length := by rw [h]; exact hpos
  calc (d.append x).items = (d.items ++ [x]).drop 1 := congrArg (List.drop · _) hone
    _ = d.items.tail ++ [x] := by rw [List.drop_append_of_le_length hlen, List.drop_one]

theorem length_append (hpos : 0 < capacity) : (d.append x).items.length =
    if d.Full then capacity else d.items.length + 1 := by
  split
  · rename_i h
    rw [items_append_of_full h hpos, List.length_append, List.length_tail, List.length_singleton, h]
    omega
  · rename_i h
    simp [items_append_of_not_full h]

/-- What a map shows of an appended item is appended to what it shows of the others. -/
theorem map_items_append {f : α → β} {d' : BoundedDeque β capacity}
    (h : d.items.map f = d'.items) : (d.append x).items.map f = (d'.append (f x)).items := by
  have hlen : d.items.length = d'.items.length := by rw [← h, List.length_map]
  calc (d.append x).items.map f = (d.items.map f ++ [f x]).drop (d.items.length + 1 - capacity) := by
        simp [append, List.map_drop]
    _ = (d'.append (f x)).items := by rw [h, hlen]; rfl

/-- Of all items that were appended the deque has the last ones. -/
def HoldsLast (d : BoundedDeque α capacity) (xs : List α) : Prop := d.items = xs.rtake capacity

theorem holdsLast_empty : (empty : BoundedDeque α capacity).HoldsLast [] :=
  (List.rtake_nil capacity).symm

theorem HoldsLast.append {xs : List α} (h : d.HoldsLast xs) (x : α) :
    (d.append x).HoldsLast (xs ++ [x]) := by
  have hitems : d.items = xs.drop (xs.length - capacity) := h
  have hone : d.items ++ [x] = (xs ++ [x]).drop (xs.length - capacity) := by
    rw [hitems, List.drop_append_of_le_length (Nat.sub_le ..)]
  have hlen : xs.length - capacity + (d.items.length + 1 - capacity) =
      (xs ++ [x]).length - capacity := by
    rw [hitems, List.length_drop, List.length_append, List.length_singleton]
    omega
  show (d.items ++ [x]).drop (d.items.length + 1 - capacity) = _
  rw [hone, List.drop_drop, hlen]
  rfl

theorem HoldsLast.mem {xs : List α} (h : d.HoldsLast xs) : x ∈ d.items ↔ x ∈ xs.rtake capacity := by
  rw [h]

theorem getElem?_modify (i j : Nat) (f : α → α) : (d.modify i f).items[j]? =
    if i = j then d.items[j]?.map f else d.items[j]? := by
  rw [modify, List.getElem?_modify]
  split <;> simp

theorem map_items_modify {g : α → β} {f : α → α} (h : ∀ a, g (f a) = g a) (i : Nat) :
    (d.modify i f).items.map g = d.items.map g := by
  refine List.ext_getElem? fun j => ?_
  rw [List.getElem?_map, List.getElem?_map, getElem?_modify]
  split
  · rw [Option.map_map, show g ∘ f = g from funext h]
  · rfl

end BoundedDeque

end Support
