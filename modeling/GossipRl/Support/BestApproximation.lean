import Mathlib.Algebra.BigOperators.Group.Finset.Piecewise
import Mathlib.Algebra.Order.BigOperators.Group.Finset
import Mathlib.Algebra.Order.Field.Basic
import Mathlib.Algebra.Order.Ring.Abs
import Mathlib.Data.Finset.Max
import Mathlib.Data.List.GetD
import Mathlib.Tactic.Linarith
import Mathlib.Tactic.Ring

/-!
# The best approximation with few entries

Of all sets with no more members, one that has the heaviest of them weighs most
(`sum_le_sum_of_heaviest`). So to keep the entries of greatest absolute value, and put zeros for the
others, is to come as near as a vector with that many entries can (`sqDist_le_of_largest`).
-/

namespace Support

section Heaviest
variable {ι K : Type*} [DecidableEq ι] [AddCommGroup K] [LinearOrder K] [IsOrderedAddMonoid K]
  {w : ι → K} {U S T : Finset ι}

/-- The members of `T` outside of `S` are exchanged for members of `S` outside of `T`. -/
theorem sum_le_sum_of_heaviest (hT : T ⊆ U) (hw : ∀ i ∈ S, 0 ≤ w i) (hcard : T.card ≤ S.card)
    (hheavy : ∀ i ∈ U, i ∉ S → ∀ j ∈ S, w i ≤ w j) : ∑ i ∈ T, w i ≤ ∑ i ∈ S, w i := by
  have hcommon : (S ∩ T).card + (T \ S).card ≤ (S ∩ T).card + (S \ T).card := by
    have hSsplit := Finset.card_inter_add_card_sdiff S T
    have hTsplit := Finset.card_inter_add_card_sdiff T S
    rw [Finset.inter_comm] at hTsplit
    omega
  have hdiff : ∑ i ∈ T \ S, w i ≤ ∑ i ∈ S \ T, w i := by
    rcases (S \ T).eq_empty_or_nonempty with hempty | hne
    · have hempty' : T \ S = ∅ := by
        rw [hempty, Finset.card_empty] at hcommon
        exact Finset.card_eq_zero.1 (by omega)
      rw [hempty, hempty']
    obtain ⟨m, hm, hmin⟩ := Finset.exists_min_image (S \ T) w hne
    have hmS := (Finset.mem_sdiff.1 hm).1
    calc ∑ i ∈ T \ S, w i ≤ (T \ S).card • w m := by
          refine Finset.sum_le_card_nsmul _ _ _ fun i hi => ?_
          obtain ⟨hiT, hiS⟩ := Finset.mem_sdiff.1 hi
          exact hheavy i (hT hiT) hiS m hmS
      _ ≤ (S \ T).card • w m := nsmul_le_nsmul_left (hw m hmS) (by omega)
      _ ≤ ∑ i ∈ S \ T, w i := Finset.card_nsmul_le_sum _ _ _ hmin
  rw [← Finset.sum_inter_add_sum_sdiff T S w, ← Finset.sum_inter_add_sum_sdiff S T w,
    Finset.inter_comm T S]
  exact add_le_add_right hdiff _

end Heaviest

section SqDist
variable {K : Type*} [Field K] {xs ys zs : List K} {n : Nat} {S : Finset Nat}

/-- The squared Euclidean distance of vectors of one length. -/
def sqDist (xs ys : List K) : K := (List.zipWith (fun x y => (x - y) ^ 2) xs ys).sum

theorem sqDist_eq_sum (hx : xs.length = n) (hy : ys.length = n) :
    sqDist xs ys = ∑ i ∈ Finset.range n, (xs.getD i 0 - ys.getD i 0) ^ 2 := by
  subst hx
  induction xs generalizing ys with
  | nil => simp [sqDist]
  | cons x xs ih =>
    cases ys with
    | nil => simp at hy
    | cons y ys =>
      have htail : ys.length = xs.length := by simpa using hy
      rw [List.length_cons, Finset.sum_range_succ', add_comm, sqDist, List.zipWith_cons_cons,
        List.sum_cons]
      exact congrArg₂ (· + ·) rfl (ih htail)

/-- The indices of the entries of `xs` that are not zero. -/
def nonzeros [DecidableEq K] (xs : List K) : Finset Nat :=
  {i ∈ Finset.range xs.length | xs.getD i 0 ≠ 0}

theorem sqDist_of_kept (hlength : ys.length = xs.length)
    (hkept : ∀ i < xs.length, ys.getD i 0 = if i ∈ S then xs.getD i 0 else 0) :
    sqDist xs ys = ∑ i ∈ Finset.range xs.length \ S, xs.getD i 0 ^ 2 := by
  rw [sqDist_eq_sum rfl hlength]
  symm
  have hout : ∀ i ∈ Finset.range xs.length \ S,
      xs.getD i 0 ^ 2 = (xs.getD i 0 - ys.getD i 0) ^ 2 := by
    intro i hi
    obtain ⟨hlt, hi⟩ := Finset.mem_sdiff.1 hi
    rw [hkept i (Finset.mem_range.1 hlt), if_neg hi, sub_zero]
  rw [Finset.sum_congr rfl hout]
  refine Finset.sum_subset Finset.sdiff_subset fun i hlt hi => ?_
  have hS : i ∈ S := by
    by_contra hS
    exact hi (Finset.mem_sdiff.2 ⟨hlt, hS⟩)
  rw [hkept i (Finset.mem_range.1 hlt), if_pos hS, sub_self]
  ring

variable [LinearOrder K] [IsStrictOrderedRing K]

theorem sqDist_ge (hlength : zs.length = xs.length) :
    ∑ i ∈ Finset.range xs.length \ nonzeros zs, xs.getD i 0 ^ 2 ≤ sqDist xs zs := by
  rw [sqDist_eq_sum rfl hlength]
  calc ∑ i ∈ Finset.range xs.length \ nonzeros zs, xs.getD i 0 ^ 2
      = ∑ i ∈ Finset.range xs.length \ nonzeros zs, (xs.getD i 0 - zs.getD i 0) ^ 2 := by
        refine Finset.sum_congr rfl fun i hi => ?_
        obtain ⟨hlt, hi⟩ := Finset.mem_sdiff.1 hi
        have hzero : zs.getD i 0 = 0 := by
          by_contra hne
          exact hi (Finset.mem_filter.2 ⟨hlength ▸ hlt, hne⟩)
        rw [hzero, sub_zero]
    _ ≤ ∑ i ∈ Finset.range xs.length, (xs.getD i 0 - zs.getD i 0) ^ 2 :=
        Finset.sum_le_sum_of_subset_of_nonneg Finset.sdiff_subset fun i _ _ => sq_nonneg _

theorem sqDist_le_of_largest (hy : ys.length = xs.length) (hz : zs.length = xs.length)
    (hS : S ⊆ Finset.range xs.length)
    (hkept : ∀ i < xs.length, ys.getD i 0 = if i ∈ S then xs.getD i 0 else 0)
    (hlarge : ∀ i < xs.length, i ∉ S → ∀ j ∈ S, |xs.getD i 0| ≤ |xs.getD j 0|)
    (hcard : (nonzeros zs).card ≤ S.card) : sqDist xs ys ≤ sqDist xs zs := by
  have hT : nonzeros zs ⊆ Finset.range xs.length := hz ▸ Finset.filter_subset _ _
  have hexchange : ∑ i ∈ nonzeros zs, xs.getD i 0 ^ 2 ≤ ∑ i ∈ S, xs.getD i 0 ^ 2 :=
    sum_le_sum_of_heaviest hT (fun i _ => sq_nonneg _) hcard fun i hi hiS j hj =>
      sq_le_sq.2 (hlarge i (Finset.mem_range.1 hi) hiS j hj)
  have hrest : ∑ i ∈ Finset.range xs.length \ S, xs.getD i 0 ^ 2 ≤
      ∑ i ∈ Finset.range xs.length \ nonzeros zs, xs.getD i 0 ^ 2 := by
    have hSsplit := Finset.sum_sdiff (f := fun i => xs.getD i 0 ^ 2) hS
    have hTsplit := Finset.sum_sdiff (f := fun i => xs.getD i 0 ^ 2) hT
    linarith
  exact (sqDist_of_kept hy hkept).trans_le (hrest.trans (sqDist_ge hz))

end SqDist

end Support
