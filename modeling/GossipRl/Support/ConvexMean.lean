import GossipRl.Support.NdArray
import Mathlib.Algebra.BigOperators.Fin
import Mathlib.Analysis.Convex.Combination

/-!
# Means and convex sets

The mean of arrays of one shape is, as a function of the index, the mean of these functions
(`NdArray.get_mean_eq_smul`). So what holds of every array of a list holds of the mean as soon as it
is convex: a bound on an entry or on a norm, a fixed sum, a zero.
-/

namespace Support
variable {K : Type*} [Field K]

theorem smul_sum_mem {E : Type*} [LinearOrder K] [IsStrictOrderedRing K] [AddCommGroup E]
    [Module K E] {C : Set E} (hC : Convex K C) {l : List E} (hl : l ≠ []) (h : ∀ x ∈ l, x ∈ C) :
    (l.length : K)⁻¹ • l.sum ∈ C := by
  have hpos : (0 : K) < l.length := Nat.cast_pos.2 (List.length_pos_iff.2 hl)
  rw [← Fin.sum_univ_getElem, Finset.smul_sum]
  refine hC.sum_mem (fun _ _ => (inv_pos.2 hpos).le) ?_ fun i _ => h _ (List.getElem_mem i.2)
  simp [hpos.ne']

namespace NdArray
variable {shape : List Nat} {arrays : List (NdArray K)}

theorem get_of_le {a : NdArray K} {i : Nat} (h : a.shape.prod ≤ i) : a.get i = 0 :=
  dif_neg (Nat.not_lt.2 h)

theorem get_mean_eq_smul (h : ∀ a ∈ arrays, a.shape = shape) :
    (mean shape arrays).get = ((arrays.map get).length : K)⁻¹ • (arrays.map get).sum := by
  funext i
  have hsum : (arrays.map get).sum i = (arrays.map (·.get i)).sum := by
    clear h
    induction arrays with
    | nil => rfl
    | cons a arrays ih =>
      simp only [List.map_cons, List.sum_cons, Pi.add_apply, ih]
  rw [Pi.smul_apply, hsum, smul_eq_mul, List.length_map]
  by_cases hi : i < shape.prod
  · rw [get_mean _ hi, div_eq_inv_mul]
  · have hzero : (arrays.map (·.get i)).sum = 0 := by
      refine List.sum_eq_zero fun x hx => ?_
      obtain ⟨a, ha, rfl⟩ := List.mem_map.1 hx
      exact get_of_le (by rw [h a ha]; omega)
    rw [hzero, mul_zero]
    exact get_of_le (Nat.not_lt.1 hi)

theorem mean_mem [LinearOrder K] [IsStrictOrderedRing K] {C : Set (Nat → K)} (hC : Convex K C)
    (hne : arrays ≠ []) (hshape : ∀ a ∈ arrays, a.shape = shape)
    (h : ∀ a ∈ arrays, a.get ∈ C) : (mean shape arrays).get ∈ C := by
  rw [get_mean_eq_smul hshape]
  refine smul_sum_mem hC (by simpa using hne) fun x hx => ?_
  obtain ⟨a, ha, rfl⟩ := List.mem_map.1 hx
  exact h a ha

theorem mean_singleton (a : NdArray K) : mean a.shape [a] = a := by
  refine ext_get rfl fun i hi => ?_
  have hi : i < a.shape.prod := hi
  simp [get_mean _ hi]

end NdArray
end Support
