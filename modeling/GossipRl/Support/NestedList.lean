import GossipRl.Support.NdArray
import Mathlib.Data.List.Range

/-!
# Nested lists and arrays

`tolist` writes an array as nested lists, one level for each dimension, and `np.array` reads one
back: the shape is that of the first item at each level, which all the others have to agree with
(`NestedList.shape`). A dimension of length 0 leaves nothing to tell those below it by, so what comes
back is the array without them (`array_ofArray`), the same one exactly if there are none
(`visible_eq_self_iff`).
-/

namespace Support

inductive NestedList (K : Type*) where
  | leaf (x : K)
  | node (xs : List (NestedList K))

namespace NestedList
variable {K : Type*}

mutual

/-- The shape of nested lists, if they are not ragged. -/
def shape : NestedList K → Option (List Nat)
  | leaf _ => some []
  | node xs => shapeAll xs

/-- The shape of a list of nested lists that all have one shape. -/
def shapeAll : List (NestedList K) → Option (List Nat)
  | [] => some [0]
  | [x] => (shape x).map (1 :: ·)
  | x :: y :: ys =>
    match shape x, shapeAll (y :: ys) with
    | some s, some (n :: t) => if s = t then some ((n + 1) :: s) else none
    | _, _ => none

end

mutual

/-- The leaves, from left to right. -/
def leaves : NestedList K → List K
  | leaf x => [x]
  | node xs => leavesAll xs

def leavesAll : List (NestedList K) → List K
  | [] => []
  | x :: xs => leaves x ++ leavesAll xs

end

mutual

def decEq [DecidableEq K] : ∀ x y : NestedList K, Decidable (x = y)
  | leaf a, leaf b => decidable_of_iff (a = b) ⟨congrArg leaf, leaf.inj⟩
  | node xs, node ys =>
    have := decEqAll xs ys
    decidable_of_iff (xs = ys) ⟨congrArg node, node.inj⟩
  | leaf _, node _ => .isFalse (by simp)
  | node _, leaf _ => .isFalse (by simp)

def decEqAll [DecidableEq K] : ∀ xs ys : List (NestedList K), Decidable (xs = ys)
  | [], [] => .isTrue rfl
  | x :: xs, y :: ys =>
    have := decEq x y
    have := decEqAll xs ys
    decidable_of_iff (x = y ∧ xs = ys) (by simp)
  | [], _ :: _ => .isFalse (by simp)
  | _ :: _, [] => .isFalse (by simp)

end

instance [DecidableEq K] : DecidableEq (NestedList K) := decEq

/-- `np.array`. -/
def array (x : NestedList K) : Option (NdArray K) := x.shape.bind fun s => NdArray.reshape s x.leaves

/-- The nested lists for the entries `f` of an array of this shape. -/
def ofShape : List Nat → (Nat → K) → NestedList K
  | [], f => leaf (f 0)
  | n :: s, f => node ((List.range n).map fun i => ofShape s fun j => f (i * s.prod + j))

/-- `a.tolist()`. -/
def ofArray [Zero K] (a : NdArray K) : NestedList K := ofShape a.shape a.get

/-- What can be told of a shape by nested lists. -/
def visible : List Nat → List Nat
  | [] => []
  | 0 :: _ => [0]
  | (n + 1) :: s => (n + 1) :: visible s

theorem prod_visible (s : List Nat) : (visible s).prod = s.prod := by
  induction s with
  | nil => rfl
  | cons n s ih =>
    cases n with
    | zero => simp [visible]
    | succ n => rw [visible, List.prod_cons, List.prod_cons, ih]

theorem visible_eq_self_iff {s : List Nat} : visible s = s ↔ 0 ∉ s.dropLast := by
  induction s with
  | nil => simp [visible]
  | cons n s ih =>
    cases s with
    | nil => cases n <;> simp [visible]
    | cons k s =>
      cases n with
      | zero => simp [visible]
      | succ n => simp [visible, ih]

theorem shapeAll_replicate {s : List Nat} {xs : List (NestedList K)}
    (h : ∀ x ∈ xs, x.shape = some s) (hne : xs ≠ []) : shapeAll xs = some (xs.length :: s) := by
  induction xs with
  | nil => exact absurd rfl hne
  | cons x xs ih =>
    have hx := h x List.mem_cons_self
    cases xs with
    | nil => simp [shapeAll, hx]
    | cons y ys =>
      have hrest := ih (fun z hz => h z (List.mem_cons_of_mem x hz)) (List.cons_ne_nil y ys)
      simp [shapeAll, hx, hrest]

theorem shape_ofShape (s : List Nat) (f : Nat → K) : (ofShape s f).shape = some (visible s) := by
  induction s generalizing f with
  | nil => rfl
  | cons n s ih =>
    rw [ofShape, shape]
    cases n with
    | zero => rfl
    | succ n =>
      rw [shapeAll_replicate (s := visible s)]
      · simp [visible]
      · intro x hx
        obtain ⟨i, -, rfl⟩ := List.mem_map.1 hx
        exact ih _
      · simp

theorem leavesAll_eq (xs : List (NestedList K)) : leavesAll xs = xs.flatMap leaves := by
  induction xs with
  | nil => rfl
  | cons x xs ih => rw [leavesAll, ih, List.flatMap_cons]

theorem flatMap_range_block (n k : Nat) (f : Nat → K) :
    ((List.range n).flatMap fun i => (List.range k).map fun j => f (i * k + j)) =
      (List.range (n * k)).map f := by
  induction n with
  | zero => simp
  | succ n ih =>
    rw [List.range_succ, List.flatMap_append, ih, Nat.succ_mul, List.range_add, List.map_append]
    simp

theorem leaves_ofShape (s : List Nat) (f : Nat → K) :
    (ofShape s f).leaves = (List.range s.prod).map f := by
  induction s generalizing f with
  | nil => rfl
  | cons n s ih =>
    rw [ofShape, leaves, leavesAll_eq, List.flatMap_map, List.prod_cons, ← flatMap_range_block]
    exact List.flatMap_congr fun i _ => ih _

end NestedList

namespace NdArray
variable {K : Type*} [Zero K]

/-- The array without the dimensions below one of length 0. -/
def visible (a : NdArray K) : NdArray K := ⟨NestedList.visible a.shape, fun i => a.get i⟩

theorem toList_eq_map_get (a : NdArray K) : a.toList = (List.range a.shape.prod).map a.get := by
  refine List.ext_getElem (by simp) fun i hi _ => ?_
  have hi : i < a.shape.prod := by simpa using hi
  simp [toList, get, hi]

theorem get_visible (a : NdArray K) : a.visible.get = a.get := by
  funext i
  by_cases hi : i < a.shape.prod
  · exact dif_pos ((NestedList.prod_visible a.shape).symm ▸ hi)
  · rw [get, get, dif_neg hi]
    exact dif_neg ((NestedList.prod_visible a.shape).symm ▸ hi)

theorem visible_eq_self_iff {a : NdArray K} : a.visible = a ↔ 0 ∉ a.shape.dropLast := by
  rw [← NestedList.visible_eq_self_iff]
  constructor
  · exact congrArg shape
  · intro h
    refine ext_get h fun i _ => ?_
    rw [get_visible]

theorem map_visible_eq_self_iff {f : K → K} {a : NdArray K} :
    a.visible.map f = a ↔ 0 ∉ a.shape.dropLast ∧ ∀ x ∈ a.toList, f x = x := by
  constructor
  · intro h
    have hshape := visible_eq_self_iff.2 (NestedList.visible_eq_self_iff.1 (congrArg shape h))
    rw [hshape] at h
    exact ⟨visible_eq_self_iff.1 hshape, map_eq_self_iff.1 h⟩
  · rintro ⟨hshape, hf⟩
    rw [visible_eq_self_iff.2 hshape]
    exact map_eq_self_iff.2 hf

end NdArray

theorem NestedList.array_leaf {K : Type*} (x : K) : (leaf x).array = some ⟨[], fun _ => x⟩ := by
  have h : NdArray.reshape [] [x] = some ⟨[], fun _ => x⟩ :=
    NdArray.reshape_eq_some_iff.2 ⟨rfl, by simp [NdArray.toList]⟩
  simpa [array, shape, leaves] using h

theorem NestedList.array_ofArray {K : Type*} [Zero K] (a : NdArray K) :
    (ofArray a).array = some a.visible := by
  rw [array, ofArray, shape_ofShape, Option.bind_some, NdArray.reshape_eq_some_iff]
  refine ⟨rfl, ?_⟩
  rw [leaves_ofShape, NdArray.toList_eq_map_get, NdArray.get_visible]
  exact congrArg (fun n => (List.range n).map a.get) (prod_visible a.shape)

end Support
