import GossipRl.Gossip.Compression
import GossipRl.Support.BestApproximation
import Mathlib.Data.List.Sort
import Mathlib.Data.Rat.Floor
import Mathlib.Tactic.NormNum

/-!
# Top-K sparsification

`topIndices_isTop` is what the two sorts come to. The values that are sent and the residual that is
kept are the accumulated gradient, at the indices and elsewhere (`compress_spec`): so nothing is lost
from one call to the next, and what is sent is as near to the gradient as `k` entries can be.
-/

namespace GossipRl
open Support

variable {K : Type*} [Field K] [LinearOrder K]

omit [LinearOrder K] in
theorem npAdd_of_length {xs ys : List K} (h : xs.length = ys.length) :
    npAdd xs ys = some (List.zipWith (· + ·) xs ys) := by
  unfold npAdd
  rw [if_pos h]

namespace TopKCompressor
variable {a gradients values : List K} {top indices order : List Nat} {k n i : Nat}

/-- The indices of `k` entries that none of the others exceeds. -/
structure IsLargest (a : List K) (k : Nat) (indices : List Nat) : Prop where
  nodup : indices.Nodup
  length_eq : indices.length = k
  lt_length : ∀ i ∈ indices, i < a.length
  largest : ∀ i < a.length, i ∉ indices → ∀ j ∈ indices, a.getD i 0 ≤ a.getD j 0

theorem isLargest_drop (np : NumPySort K) (hk : 1 ≤ k) (hka : k ≤ a.length) :
    IsLargest a k ((np.argpartition a (a.length - k)).drop (a.length - k)) := by
  have hkth : a.length - k < a.length := by omega
  have hperm := np.argpartition_perm a _ hkth
  have hlt : ∀ i ∈ (np.argpartition a (a.length - k)).drop (a.length - k), i < a.length :=
    fun i hi => List.mem_range.1 (hperm.subset (List.mem_of_mem_drop hi))
  refine ⟨(List.drop_sublist _ _).nodup (hperm.nodup_iff.2 List.nodup_range), ?_, hlt, ?_⟩
  · rw [List.length_drop, hperm.length_eq, List.length_range]
    omega
  · intro i hi hout j hj
    have hin : i ∈ (np.argpartition a (a.length - k)).take (a.length - k) := by
      have hmem := hperm.symm.subset (List.mem_range.2 hi)
      rw [← List.take_append_drop (a.length - k) (np.argpartition _ _)] at hmem
      exact (List.mem_append.1 hmem).resolve_right hout
    exact (np.argpartition_before a _ hkth i hin).trans (np.argpartition_after a _ hkth j hj)

/-- The greatest one first. -/
structure IsTop (a : List K) (k : Nat) (indices : List Nat) : Prop extends IsLargest a k indices where
  sorted : indices.Pairwise fun i j => a.getD j 0 ≤ a.getD i 0

theorem IsLargest.isTop (h : IsLargest a k top) (horder : order.Perm (List.range top.length))
    (hsorted : (Support.take (Support.take a 0 top) 0 order).Pairwise (· ≤ ·)) :
    IsTop a k (Support.take top 0 order.reverse) := by
  have hperm : (Support.take top 0 order.reverse).Perm top :=
    take_perm ((List.reverse_perm order).trans horder)
  refine ⟨⟨hperm.nodup_iff.2 h.nodup, hperm.length_eq.trans h.length_eq,
    fun i hi => h.lt_length i (hperm.subset hi), fun i hi hout j hj => ?_⟩, ?_⟩
  · exact h.largest i hi (fun hin => hout (hperm.symm.subset hin)) j (hperm.subset hj)
  · have hlt : ∀ o ∈ order, o < top.length := fun o ho => List.mem_range.1 (horder.subset ho)
    rw [take_take 0 hlt, Support.take, List.pairwise_map] at hsorted
    rwa [take_reverse, List.pairwise_reverse]

theorem topIndices_isTop (np : NumPySort K) (hk : 1 ≤ k) (hka : k ≤ a.length) :
    IsTop a k (topIndices np a k) := by
  refine (isLargest_drop np hk hka).isTop ?_ (np.argsort_sorted _)
  have horder := np.argsort_perm
    (Support.take a 0 ((np.argpartition a (a.length - k)).drop (a.length - k)))
  rwa [length_take] at horder

omit [LinearOrder K] in
theorem decompress_take (gradients : List K) (hlt : ∀ i ∈ indices, i < n) :
    ∃ dense : List K,
      decompress (Support.take gradients 0 indices) (indices.map Nat.cast) n = some dense ∧
      dense.length = n ∧
      ∀ i < n, dense.getD i 0 = if i ∈ indices then gradients.getD i 0 else 0 := by
  have hzeros : (List.replicate n (0 : K)).length = n := List.length_replicate
  refine ⟨_, scatter_natCast (fun i hi => hzeros.symm ▸ hlt i hi) length_take, ?_, fun i hi => ?_⟩
  · rw [length_assign, hzeros]
  · rw [Support.take, getD_assign_map _ (hzeros.symm ▸ hi)]
    simp [hi]

theorem one_le_computeK [FloorSemiring K] (size : Nat) (ratio : K) : 1 ≤ computeK size ratio :=
  le_max_left ..

variable [IsStrictOrderedRing K] [FloorRing K] {ratio : K} {c : TopKCompressor K}
  {useErrorFeedback : Bool}

theorem computeK_le {size : Nat} (hsize : 1 ≤ size) (hratio : ratio ≤ 1) :
    computeK size ratio ≤ size :=
  max_le hsize (Nat.floor_le_of_le (mul_le_of_le_one_right (Nat.cast_nonneg size) hratio))

omit [FloorRing K] in
theorem abs_getD (gradients : List K) (i : Nat) :
    (gradients.map abs).getD i 0 = |gradients.getD i 0| := by
  rw [← abs_zero, List.getD_map, abs_zero]

theorem compress_spec (np : NumPySort K) (itemsize : Nat)
    (hacc : c.applyErrorFeedback gradients useErrorFeedback = some a)
    (ha : 1 ≤ a.length) (hratio : c.ratio ≤ 1) :
    ∃ indices stats, IsTop (a.map abs) (computeK a.length c.ratio) indices ∧
      c.compress np itemsize gradients useErrorFeedback =
        some ((Support.take a 0 indices, indices.map Nat.cast, stats),
          c.storeErrorFeedback a indices useErrorFeedback) := by
  have hk := computeK_le ha hratio
  have htop : IsTop (a.map abs) (computeK a.length c.ratio)
      (topIndices np (a.map abs) (computeK a.length c.ratio)) :=
    topIndices_isTop np (one_le_computeK _ _) (by rwa [List.length_map])
  rw [compress, hacc, Option.bind_some]
  dsimp only
  rw [if_neg (by omega)]
  exact ⟨_, _, htop, rfl⟩

end TopKCompressor

open TopKCompressor

/-- Without feedback the result is a best approximation with `k` entries. -/
theorem compress_best_approximation [IsStrictOrderedRing K] [FloorRing K] (np : NumPySort K)
    (itemsize : Nat) {c : TopKCompressor K} {gradients : List K} (useErrorFeedback : Bool)
    (hfresh : c.errorFeedback = none) (hlength : 1 ≤ gradients.length) (hratio : c.ratio ≤ 1) :
    ∃ values indices stats c' dense,
      c.compress np itemsize gradients useErrorFeedback = some ((values, indices, stats), c') ∧
      indices.length = max 1 ⌊gradients.length * c.ratio⌋₊ ∧ indices.Nodup ∧
      (∀ i ∈ indices, 0 ≤ i ∧ i < gradients.length) ∧
      (indices.Pairwise fun i j => |gradients.getD j.toNat 0| ≤ |gradients.getD i.toNat 0|) ∧
      decompress values indices gradients.length = some dense ∧
      ∀ h : List K, h.length = gradients.length →
        (nonzeros h).card ≤ max 1 ⌊gradients.length * c.ratio⌋₊ →
        sqDist gradients dense ≤ sqDist gradients h := by
  have hacc : c.applyErrorFeedback gradients useErrorFeedback = some gradients := by
    unfold applyErrorFeedback
    rw [hfresh]
    cases useErrorFeedback <;> rfl
  obtain ⟨indices, stats, htop, hcompress⟩ :=
    compress_spec np itemsize hacc hlength hratio
  have hlt : ∀ i ∈ indices, i < gradients.length := fun i hi => by
    simpa using htop.lt_length i hi
  obtain ⟨dense, hdense, hlen, hkept⟩ := decompress_take gradients hlt
  refine ⟨_, _, stats, _, dense, hcompress, ?_, ?_, ?_, ?_, hdense, fun h hh hcard => ?_⟩
  · rw [List.length_map, htop.length_eq, computeK]
  · exact htop.nodup.map Nat.cast_injective
  · intro i hi
    obtain ⟨j, hj, rfl⟩ := List.mem_map.1 hi
    exact ⟨Int.natCast_nonneg j, Int.ofNat_lt.2 (hlt j hj)⟩
  · rw [List.pairwise_map]
    refine htop.sorted.imp fun {i j} hij => ?_
    rwa [abs_getD, abs_getD] at hij
  · refine sqDist_le_of_largest (S := indices.toFinset) hlen hh ?_ ?_ ?_ ?_
    · exact fun i hi => Finset.mem_range.2 (hlt i (List.mem_toFinset.1 hi))
    · intro i hi
      rw [hkept i hi]
      simp only [List.mem_toFinset]
    · intro i hi hout j hj
      rw [List.mem_toFinset] at hout hj
      have hle := htop.largest i (by rwa [List.length_map]) hout j hj
      rwa [abs_getD, abs_getD] at hle
    · rwa [List.toFinset_card_of_nodup htop.nodup, htop.length_eq, computeK]

section Example

/-- The indices in the order of the entries. -/
def sortedIndices (a : List K) : List Nat :=
  (List.range a.length).insertionSort fun i j => a.getD i 0 ≤ a.getD j 0

theorem sortedIndices_perm (a : List K) : (sortedIndices a).Perm (List.range a.length) :=
  List.perm_insertionSort _ _

theorem sortedIndices_pairwise (a : List K) :
    (sortedIndices a).Pairwise fun i j => a.getD i 0 ≤ a.getD j 0 := by
  have htotal : Std.Total fun i j : Nat => a.getD i 0 ≤ a.getD j 0 := ⟨fun i j => le_total _ _⟩
  have htrans : IsTrans Nat fun i j => a.getD i 0 ≤ a.getD j 0 := ⟨fun i j k => le_trans⟩
  exact List.pairwise_insertionSort _ _

theorem sortedIndices_drop (a : List K) {kth : Nat} (hkth : kth < a.length) :
    (sortedIndices a).drop kth =
      (sortedIndices a).getD kth 0 :: (sortedIndices a).drop (kth + 1) := by
  have hlt : kth < (sortedIndices a).length := by
    rw [(sortedIndices_perm a).length_eq, List.length_range]
    exact hkth
  rw [List.drop_eq_getElem_cons hlt, List.getD_eq_getElem _ _ hlt]

/-- A complete sort is a partition at every place. -/
def NumPySort.sorting : NumPySort K where
  argpartition a _ := sortedIndices a
  argsort := sortedIndices
  argpartition_perm a _ _ := sortedIndices_perm a
  argpartition_before a kth hkth i hi := by
    have hsorted := sortedIndices_pairwise a
    rw [← List.take_append_drop kth (sortedIndices a)] at hsorted
    refine (List.pairwise_append.1 hsorted).2.2 i hi _ ?_
    rw [sortedIndices_drop a hkth]
    exact List.mem_cons_self ..
  argpartition_after a kth hkth i hi := by
    have hsorted := (sortedIndices_pairwise a).drop (i := kth)
    rw [sortedIndices_drop a hkth] at hi hsorted
    rcases List.mem_cons.1 hi with rfl | hi
    · exact le_rfl
    · exact (List.pairwise_cons.1 hsorted).1 i hi
  argsort_perm := sortedIndices_perm
  argsort_sorted a := List.pairwise_map.2 (sortedIndices_pairwise a)

/-- Half of the gradients. -/
def halfTopK : TopKCompressor ℚ := { ratio := 1 / (2 : ℕ) }

theorem half_best_approximation : ∃ values indices stats c' dense,
    halfTopK.compress .sorting 4 [3, -5, 1, 4] =
      some ((values, indices, stats), c') ∧
    indices.length = max 1 ⌊([3, -5, 1, 4] : List ℚ).length * halfTopK.ratio⌋₊ ∧ indices.Nodup ∧
    (∀ i ∈ indices, 0 ≤ i ∧ i < ([3, -5, 1, 4] : List ℚ).length) ∧
    (indices.Pairwise fun i j =>
      |([3, -5, 1, 4] : List ℚ).getD j.toNat 0| ≤ |([3, -5, 1, 4] : List ℚ).getD i.toNat 0|) ∧
    decompress values indices ([3, -5, 1, 4] : List ℚ).length = some dense ∧
    ∀ h : List ℚ, h.length = ([3, -5, 1, 4] : List ℚ).length →
      (nonzeros h).card ≤ max 1 ⌊([3, -5, 1, 4] : List ℚ).length * halfTopK.ratio⌋₊ →
      sqDist [3, -5, 1, 4] dense ≤ sqDist [3, -5, 1, 4] h :=
  compress_best_approximation .sorting 4 true rfl (by decide) (by norm_num [halfTopK])

end Example

end GossipRl
