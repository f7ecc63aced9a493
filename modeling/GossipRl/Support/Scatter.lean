import Mathlib.Data.List.GetD
import Mathlib.Data.List.Basic

/-!
# Reading and writing an array at a list of indices

`take xs indices` are the entries at `indices`, and `assign xs indices values` writes `values` there,
one after the other, so that an index that comes twice keeps the value that comes last. `scatter` is
`assign` as an array has it: an index counts from the end if it is negative, one out of range is an
error, and a single value is written everywhere.
-/

namespace Support

variable {α : Type*}

/-- The entries of `xs` at `indices`; `d` for those past the end. -/
def take (xs : List α) (d : α) (indices : List Nat) : List α := indices.map (xs.getD · d)

def assign : List α → List Nat → List α → List α
  | xs, i :: indices, v :: values => assign (xs.set i v) indices values
  | xs, _, _ => xs

/-- The position that the index `i` stands for. -/
def position (size : Nat) (i : Int) : Option Nat :=
  if 0 ≤ i ∧ i < size then some i.toNat
  else if -size ≤ i ∧ i < 0 then some (i + size).toNat
  else none

/-- `values` as long as `size`, if it is that long or a single value. -/
def broadcast (size : Nat) (values : List α) : Option (List α) :=
  if values.length = size then some values
  else match values with
    | [v] => some (List.replicate size v)
    | _ => none

/-- `xs[indices] = values` -/
def scatter (xs : List α) (indices : List Int) (values : List α) : Option (List α) :=
  (indices.mapM (position xs.length)).bind fun positions =>
    (broadcast indices.length values).map (assign xs positions)

variable {xs : List α} {indices : List Nat} {i : Nat} {d : α}

theorem getD_map_of_lt {β : Type*} {f : α → β} (x : β) (hi : i < xs.length) :
    (xs.map f).getD i x = f (xs.getD i d) := by
  rw [List.getD_eq_getElem _ _ (by rwa [List.length_map]), List.getD_eq_getElem _ _ hi,
    List.getElem_map]

theorem take_reverse : take xs d indices.reverse = (take xs d indices).reverse := List.map_reverse

theorem take_perm (h : indices.Perm (List.range xs.length)) : (take xs d indices).Perm xs := by
  have hall : take xs d (List.range xs.length) = xs := by
    refine List.ext_getElem (by simp [take]) fun i hi _ => ?_
    have hi : i < xs.length := by simpa [take] using hi
    simp [take, hi]
  have hperm : (take xs d indices).Perm (take xs d (List.range xs.length)) := h.map _
  rwa [hall] at hperm

theorem take_take {order : List Nat} (j : Nat) (h : ∀ i ∈ order, i < indices.length) :
    take (take xs d indices) d order = take xs d (take indices j order) := by
  rw [take, take, take, take, List.map_map]
  exact List.map_congr_left fun i hi => getD_map_of_lt d (h i hi)

@[simp] theorem length_take : (take xs d indices).length = indices.length := List.length_map ..

theorem getD_set (v : α) (j : Nat) : (xs.set j v).getD i d =
    if i = j ∧ j < xs.length then v else xs.getD i d := by
  rcases eq_or_ne i j with rfl | hne
  · rcases Nat.lt_or_ge i xs.length with hlt | hge
    · simp [hlt]
    · rw [List.set_eq_of_length_le hge, if_neg (by omega)]
  · rw [if_neg fun h => hne h.1]
    simp only [List.getD_eq_getElem?_getD, List.getElem?_set_ne hne.symm]

@[simp] theorem length_assign (xs : List α) (indices : List Nat) (values : List α) :
    (assign xs indices values).length = xs.length := by
  induction indices generalizing xs values with
  | nil => simp [assign]
  | cons i indices ih =>
    cases values with
    | nil => simp [assign]
    | cons v values => simp [assign, ih]

theorem getD_assign_map (f : Nat → α) (hi : i < xs.length) :
    (assign xs indices (indices.map f)).getD i d = if i ∈ indices then f i else xs.getD i d := by
  induction indices generalizing xs with
  | nil => simp [assign]
  | cons j indices ih =>
    rw [List.map_cons, assign, ih (by simpa using hi), getD_set]
    rcases eq_or_ne i j with rfl | hne
    · simp [hi]
    · simp [hne]

theorem position_natCast {size : Nat} (hi : i < size) : position size (i : Int) = some i := by
  rw [position, if_pos ⟨by omega, by omega⟩, Int.toNat_natCast]

theorem mapM_position {size : Nat} (h : ∀ i ∈ indices, i < size) :
    (indices.map (Nat.cast : Nat → Int)).mapM (position size) = some indices := by
  induction indices with
  | nil => rfl
  | cons i indices ih =>
    rw [List.map_cons, List.mapM_cons, position_natCast (h i (List.mem_cons_self ..)),
      ih fun j hj => h j (List.mem_cons_of_mem i hj)]
    rfl

theorem broadcast_of_length {values : List α} {size : Nat} (h : values.length = size) :
    broadcast size values = some values := by
  unfold broadcast
  rw [if_pos h]

theorem scatter_natCast {values : List α} (h : ∀ i ∈ indices, i < xs.length)
    (hlength : values.length = indices.length) :
    scatter xs (indices.map Nat.cast) values = some (assign xs indices values) := by
  rw [scatter, mapM_position h, Option.bind_some, broadcast_of_length (by simp [hlength]),
    Option.map_some]

end Support
