import Mathlib.Algebra.BigOperators.Group.List.Basic
import Mathlib.Algebra.CharZero.Defs
import Mathlib.Algebra.Field.Basic
import Mathlib.Data.Rat.Defs

/-!
# Arrays

An array is a shape and as many entries as the shape asks for, in row-major order. `get` reads an
entry by its flat index, `0` past the end, so arrays of one shape can be combined without a cast.
-/

namespace Support

structure NdArray (K : Type*) where
  shape : List Nat
  data : Fin shape.prod → K

namespace NdArray
variable {K : Type*}

/-- The empty one-dimensional array. -/
def empty : NdArray K := ⟨[0], fun i => absurd i.2 (by simp)⟩

/-- The one-dimensional array of a list. -/
def ofList (xs : List K) : NdArray K := ⟨[xs.length], fun i => xs.get ⟨i, by simpa using i.2⟩⟩

def get [Zero K] (a : NdArray K) (i : Nat) : K := if h : i < a.shape.prod then a.data ⟨i, h⟩ else 0

theorem get_coe [Zero K] (a : NdArray K) (i : Fin a.shape.prod) : a.get i = a.data i :=
  dif_pos i.2

theorem ext_get [Zero K] {a b : NdArray K} (hs : a.shape = b.shape)
    (h : ∀ i < a.shape.prod, a.get i = b.get i) : a = b := by
  obtain ⟨s, f⟩ := a
  obtain ⟨t, g⟩ := b
  obtain rfl : s = t := hs
  congr 1
  funext i
  have := h i i.2
  rwa [get_coe, get_coe] at this

/-- The entries in order, `view(-1)`. -/
def toList (a : NdArray K) : List K := List.ofFn a.data

/-- The array of shape `shape` with the entries `xs`, if their number is right. -/
def reshape (shape : List Nat) (xs : List K) : Option (NdArray K) :=
  if h : xs.length = shape.prod then some ⟨shape, fun i => xs.get (i.cast h.symm)⟩ else none

@[simp] theorem length_toList (a : NdArray K) : a.toList.length = a.shape.prod := by simp [toList]

theorem reshape_eq_some_iff {shape : List Nat} {xs : List K} {a : NdArray K} :
    reshape shape xs = some a ↔ a.shape = shape ∧ a.toList = xs := by
  unfold reshape
  constructor
  · intro h
    split at h
    · rename_i hlen
      obtain rfl := Option.some.inj h
      exact ⟨rfl, List.ext_getElem (by simp [hlen]) fun i _ _ => by simp [toList]⟩
    · cases h
  · rintro ⟨rfl, rfl⟩
    rw [dif_pos (length_toList a)]
    simp [toList]
    rfl

theorem reshape_eq_none_iff {shape : List Nat} {xs : List K} :
    reshape shape xs = none ↔ xs.length ≠ shape.prod := by
  unfold reshape
  rw [dite_eq_right_iff]
  simp

/-- The array with `f` of each entry. -/
def map (f : K → K) (a : NdArray K) : NdArray K := ⟨a.shape, f ∘ a.data⟩

theorem map_eq_self_iff {f : K → K} {a : NdArray K} : a.map f = a ↔ ∀ x ∈ a.toList, f x = x := by
  obtain ⟨shape, data⟩ := a
  simp only [map, toList, NdArray.mk.injEq, heq_eq_eq, true_and, List.mem_ofFn,
    forall_exists_index, forall_apply_eq_imp_iff]
  exact funext_iff

def add [Add K] [Zero K] (a b : NdArray K) : NdArray K := ⟨a.shape, fun i => a.data i + b.get i⟩

def smul [Mul K] (c : K) (a : NdArray K) : NdArray K := ⟨a.shape, fun i => c * a.data i⟩

/-- The entrywise arithmetic mean of arrays of shape `shape`. -/
def mean [Field K] (shape : List Nat) (arrays : List (NdArray K)) : NdArray K :=
  ⟨shape, fun i => (arrays.map (·.get i)).sum / arrays.length⟩

variable [Field K]

theorem get_mean {shape : List Nat} (arrays : List (NdArray K)) {i : Nat} (h : i < shape.prod) :
    (mean shape arrays).get i = (arrays.map (·.get i)).sum / arrays.length :=
  dif_pos h

theorem mean_perm {arrays arrays' : List (NdArray K)} (shape : List Nat) (h : arrays.Perm arrays') :
    mean shape arrays = mean shape arrays' := by
  unfold mean
  rw [h.length_eq]
  congr 1
  funext i
  rw [(h.map _).sum_eq]

/-- The mean of `a` and `as` is `a` if `as` alone average to `a`, or there are none. -/
theorem mean_cons_eq_self_iff [CharZero K] {a : NdArray K} {as : List (NdArray K)} :
    mean a.shape (a :: as) = a ↔
      ∀ i < a.shape.prod, (as.map (·.get i)).sum = as.length * a.get i := by
  have hlen : (as.length : K) + 1 ≠ 0 := Nat.cast_add_one_ne_zero as.length
  have entry : ∀ i < a.shape.prod, (mean a.shape (a :: as)).get i = a.get i ↔
      (as.map (·.get i)).sum = as.length * a.get i := by
    intro i hi
    rw [get_mean _ hi, List.map_cons, List.sum_cons, List.length_cons, Nat.cast_succ,
      div_eq_iff hlen, mul_add, mul_one, add_comm, add_right_cancel_iff, mul_comm]
  constructor
  · intro h i hi
    exact (entry i hi).1 (by rw [h])
  · intro h
    exact ext_get rfl fun i hi => (entry i hi).2 (h i hi)

end NdArray

end Support
