import GossipRl.Gossip.Aggregation
import Mathlib.Tactic.LinearCombination

/-!
# The average of sparse gradients

`_aggregate_gradients` averages place by place, whatever the coordinates are that the places stand
for. What the indices ask for is `RespectsIndices`: at each place of the local gradients the mean of
the values at its coordinate, and nothing of the others.
-/

namespace GossipRl
open Support

variable {K : Type*}

/-- The last place of the coordinate `c`. -/
def lastPlace (indices : List Int) (c : Int) : Option Nat :=
  ((List.range indices.length).filter fun j => indices[j]? = some c).getLast?

/-- The value at the coordinate `c`, as a scatter leaves it: `0` if there is none. -/
def valueAt [Zero K] (indices : List Int) (gradients : NdArray K) (c : Int) : K :=
  match lastPlace indices c with
  | none => 0
  | some j => gradients.get j

section Places
variable {indices : List Int} {c : Int} {i j : Nat}

theorem mem_places : i ∈ (List.range indices.length).filter (fun j => indices[j]? = some c) ↔
    indices[i]? = some c := by
  rw [List.mem_filter, List.mem_range, decide_eq_true_eq, and_iff_right_iff_imp]
  exact fun h => (List.getElem?_eq_some_iff.1 h).1

theorem lastPlace_spec (h : lastPlace indices c = some j) :
    indices[j]? = some c ∧ ∀ i, indices[i]? = some c → i ≤ j := by
  obtain ⟨before, heq⟩ := List.getLast?_eq_some_iff.1 h
  have hsorted := (List.pairwise_lt_range (n := indices.length)).sublist
    (List.filter_sublist (p := fun j => indices[j]? = some c))
  rw [heq] at hsorted
  refine ⟨mem_places.1 (heq ▸ List.mem_concat_self ..), fun i hi => ?_⟩
  have hmem := mem_places.2 hi
  rw [heq] at hmem
  rcases List.mem_append.1 hmem with hmem | hmem
  · exact (List.pairwise_append.1 hsorted).2.2 i hmem j (List.mem_singleton_self j) |>.le
  · exact (List.mem_singleton.1 hmem).le

theorem lastPlace_of_nodup (hnodup : indices.Nodup) (hi : indices[i]? = some c) :
    lastPlace indices c = some i := by
  have hne : lastPlace indices c ≠ none := fun h =>
    List.ne_nil_of_mem (mem_places.2 hi) (List.getLast?_eq_none_iff.1 h)
  obtain ⟨j, hj⟩ := Option.ne_none_iff_exists'.1 hne
  have hlt := (List.getElem?_eq_some_iff.1 hi).1
  rw [hj, (List.getElem?_inj hlt hnodup).1 (hi.trans (lastPlace_spec hj).1.symm)]

end Places

/-- One more at the place `i`. -/
def bump [One K] [Add K] (i : Nat) (gradients : NdArray K) : NdArray K :=
  ⟨gradients.shape, fun j => if j = i then gradients.data j + 1 else gradients.data j⟩

section Bump
variable [Field K] {indices : List Int} {gradients : NdArray K} {c : Int} {i j : Nat}

theorem get_bump (hi : i < gradients.shape.prod) :
    (bump i gradients).get i = gradients.get i + 1 := by
  unfold bump NdArray.get
  simp [hi]

theorem get_bump_of_ne (hne : j ≠ i) : (bump i gradients).get j = gradients.get j := by
  unfold bump NdArray.get
  simp [hne]

theorem valueAt_bump (h : lastPlace indices c ≠ some i) :
    valueAt indices (bump i gradients) c = valueAt indices gradients c := by
  unfold valueAt
  cases hlast : lastPlace indices c with
  | none => rfl
  | some j => exact get_bump_of_ne fun heq => h (heq ▸ hlast)

theorem valueAt_of_nodup (hnodup : indices.Nodup) (hi : indices[i]? = some c) :
    valueAt indices gradients c = gradients.get i := by
  rw [valueAt, lastPlace_of_nodup hnodup hi]

end Bump

/-- The value at `c` of a cached contribution. -/
def GradientState.valueAt [Zero K] (st : GradientState K) (c : Int) : K :=
  GossipRl.valueAt (st.indices.getD []) st.gradients c

namespace GossipProtocol
variable [Field K] {p p' : GossipProtocol K} {gradients gradients' aggregate : NdArray K}
  {indices : List Int} {modelVersion step : Int} {c : Int} {i size : Nat}

/-- Every cached contribution has `size` values, and an index for each. -/
def SparseCache (size : Nat) (p : GossipProtocol K) : Prop :=
  ∀ st ∈ p.gradientCache.values, st.gradients.shape = [size] ∧
    ∃ indices, st.indices = some indices ∧ indices.length = size

/-- The aggregate, once `set_gradients` and `_aggregate_gradients` are through. -/
def sparseAggregate (gradients : NdArray K) (indices : List Int) (modelVersion step : Int)
    (p : GossipProtocol K) : Option (NdArray K) :=
  (p.setGradients gradients (some indices) modelVersion step).aggregateGradients.aggregatedGradients

theorem sparseAggregate_spec (indices : List Int) (modelVersion step : Int)
    (hshape : gradients.shape = [size]) (hcache : SparseCache size p) :
    ∃ aggregate, p.sparseAggregate gradients indices modelVersion step = some aggregate ∧
      ∀ i < size, aggregate.get i =
        (gradients.get i + (p.gradientCache.values.map (·.gradients.get i)).sum) /
          (p.gradientCache.size + 1) := by
  have hagree : (p.setGradients gradients (some indices) modelVersion step).ShapesAgree gradients :=
    fun st hst => (hcache st hst).1.trans hshape.symm
  have hall := allGradients_of_shapesAgree hagree
  rcases Nat.eq_zero_or_pos p.gradientCache.size with hzero | hpos
  · have hvalues : p.gradientCache.values = [] := List.length_eq_zero_iff.1 (by simp [hzero])
    refine ⟨gradients, ?_, fun i _ => by simp [hvalues, hzero]⟩
    simp [sparseAggregate, aggregateGradients, setGradients, hzero]
  · have hlength : 1 < ((p.setGradients gradients (some indices) modelVersion step).allGradients
        gradients).length := by
      rw [length_allGradients_eq_iff.2 hagree]
      exact Nat.lt_add_of_pos_left hpos
    refine ⟨_, aggregateGradients_aggregated rfl hpos.ne' hlength, fun i hi => ?_⟩
    rw [NdArray.get_mean _ (by simpa [hshape] using hi), hall, List.map_cons, List.sum_cons,
      List.length_cons, List.map_map, List.length_map, Nat.cast_succ]
    rw [Dict.length_values]
    rfl

theorem sparseAggregate_get (hshape : gradients.shape = [size]) (hcache : SparseCache size p)
    (haggregate : p.sparseAggregate gradients indices modelVersion step = some aggregate)
    (hi : i < size) : aggregate.get i =
      (gradients.get i + (p.gradientCache.values.map (·.gradients.get i)).sum) /
        (p.gradientCache.size + 1) := by
  obtain ⟨aggregate', haggregate', hget⟩ :=
    sparseAggregate_spec indices modelVersion step hshape hcache
  obtain rfl := Option.some.inj (haggregate.symm.trans haggregate')
  exact hget i hi

/-- The same indices, and the same values at the coordinate `c`. -/
structure SameAt (c : Int) (indices : List Int) (gradients gradients' : NdArray K)
    (p p' : GossipProtocol K) : Prop where
  shape : gradients'.shape = gradients.shape
  value : GossipRl.valueAt indices gradients' c = GossipRl.valueAt indices gradients c
  cache : List.Forall₂ (fun st st' => st'.indices = st.indices ∧
    st'.gradients.shape = st.gradients.shape ∧ st'.valueAt c = st.valueAt c)
    p.gradientCache.values p'.gradientCache.values

/-- At each place of the local gradients there is the mean of the values at its coordinate, and
values at other coordinates make no difference to it. -/
structure RespectsIndices (gradients : NdArray K) (indices : List Int) (modelVersion step : Int)
    (p : GossipProtocol K) (aggregate : NdArray K) : Prop where
  mean : ∀ i c, indices[i]? = some c → aggregate.get i =
    (GossipRl.valueAt indices gradients c + (p.gradientCache.values.map (·.valueAt c)).sum) /
      (p.gradientCache.size + 1)
  separate : ∀ i c, indices[i]? = some c → ∀ gradients' p' aggregate',
    SameAt c indices gradients gradients' p p' →
    p'.sparseAggregate gradients' indices modelVersion step = some aggregate' →
    aggregate'.get i = aggregate.get i

/-- The indices are distinct, and those of every cached contribution. -/
structure SameIndices (indices : List Int) (p : GossipProtocol K) : Prop where
  nodup : indices.Nodup
  cache : ∀ st ∈ p.gradientCache.values, st.indices = some indices

theorem SameAt.exists_of_mem (h : SameAt c indices gradients gradients' p p')
    {st' : GradientState K} (hst' : st' ∈ p'.gradientCache.values) :
    ∃ st ∈ p.gradientCache.values, st'.indices = st.indices ∧
      st'.gradients.shape = st.gradients.shape := by
  have hcache := h.cache
  revert hst' hcache
  generalize p.gradientCache.values = sts, p'.gradientCache.values = sts'
  intro hst' hcache
  induction hcache with
  | nil => cases hst'
  | cons hst _ ih =>
    rcases List.mem_cons.1 hst' with rfl | hst'
    · exact ⟨_, List.mem_cons_self .., hst.1, hst.2.1⟩
    · obtain ⟨st, hmem, hsame⟩ := ih hst'
      exact ⟨st, List.mem_cons_of_mem _ hmem, hsame⟩

theorem SameAt.sparseCache (h : SameAt c indices gradients gradients' p p')
    (hcache : SparseCache size p) : SparseCache size p' := by
  intro st' hst'
  obtain ⟨st, hst, hindices, hshape⟩ := h.exists_of_mem hst'
  rw [hindices, hshape]
  exact hcache st hst

theorem SameAt.sameIndices (h : SameAt c indices gradients gradients' p p')
    (hsame : SameIndices indices p) : SameIndices indices p' := by
  refine ⟨hsame.nodup, fun st' hst' => ?_⟩
  obtain ⟨st, hst, hindices, -⟩ := h.exists_of_mem hst'
  rw [hindices, hsame.cache st hst]

theorem SameAt.size_eq (h : SameAt c indices gradients gradients' p p') :
    p'.gradientCache.size = p.gradientCache.size := by
  rw [← Dict.length_values, ← Dict.length_values, h.cache.length_eq]

theorem SameAt.map_valueAt (h : SameAt c indices gradients gradients' p p') :
    p'.gradientCache.values.map (·.valueAt c) = p.gradientCache.values.map (·.valueAt c) := by
  have hcache := h.cache
  revert hcache
  generalize p.gradientCache.values = sts, p'.gradientCache.values = sts'
  intro hcache
  induction hcache with
  | nil => rfl
  | cons hst _ ih => rw [List.map_cons, List.map_cons, hst.2.2, ih]

theorem SameIndices.map_valueAt (h : SameIndices indices p) (hi : indices[i]? = some c) :
    p.gradientCache.values.map (·.valueAt c) = p.gradientCache.values.map (·.gradients.get i) := by
  refine List.map_congr_left fun st hst => ?_
  rw [GradientState.valueAt, h.cache st hst, Option.getD_some, valueAt_of_nodup h.nodup hi]

/-- If the places stand for the same coordinates the mean is that of the coordinates. -/
theorem SameIndices.aggregate_get (h : SameIndices indices p) (hshape : gradients.shape = [size])
    (hsize : indices.length = size) (hcache : SparseCache size p)
    (haggregate : p.sparseAggregate gradients indices modelVersion step = some aggregate)
    (hi : indices[i]? = some c) :
    aggregate.get i =
      (GossipRl.valueAt indices gradients c + (p.gradientCache.values.map (·.valueAt c)).sum) /
        (p.gradientCache.size + 1) := by
  have hlt := (List.getElem?_eq_some_iff.1 hi).1
  rw [sparseAggregate_get hshape hcache haggregate (hsize ▸ hlt), h.map_valueAt hi,
    valueAt_of_nodup h.nodup hi]

theorem SameIndices.respects (h : SameIndices indices p) (hshape : gradients.shape = [size])
    (hsize : indices.length = size) (hcache : SparseCache size p)
    (haggregate : p.sparseAggregate gradients indices modelVersion step = some aggregate) :
    RespectsIndices gradients indices modelVersion step p aggregate := by
  constructor
  · intro i c hi
    exact h.aggregate_get hshape hsize hcache haggregate hi
  · intro i c hi gradients' p' aggregate' hsame haggregate'
    rw [(hsame.sameIndices h).aggregate_get (hsame.shape.trans hshape) hsize
      (hsame.sparseCache hcache) haggregate' hi, h.aggregate_get hshape hsize hcache haggregate hi,
      hsame.value, hsame.map_valueAt, hsame.size_eq]

/-- One more at the place `i` of a contribution for which it is not the place of `c`. -/
def bumpOther (i : Nat) (c : Int) (st : GradientState K) : GradientState K :=
  if (st.indices.getD [])[i]? = some c then st else { st with gradients := bump i st.gradients }

theorem bumpOther_same {st : GradientState K} :
    (bumpOther i c st).indices = st.indices ∧
      (bumpOther i c st).gradients.shape = st.gradients.shape ∧
      (bumpOther i c st).valueAt c = st.valueAt c := by
  unfold bumpOther
  split_ifs with hplace
  · exact ⟨rfl, rfl, rfl⟩
  · exact ⟨rfl, rfl, valueAt_bump fun hlast => hplace (lastPlace_spec hlast).1⟩

theorem sum_bumpOther (c : Int) {sts : List (GradientState K)}
    (hlt : ∀ st ∈ sts, i < st.gradients.shape.prod) :
    ((sts.map (bumpOther i c)).map (·.gradients.get i)).sum =
      (sts.map (·.gradients.get i)).sum +
        (sts.countP fun st => (st.indices.getD [])[i]? ≠ some c : Nat) := by
  induction sts with
  | nil => simp
  | cons st sts ih =>
    have hst := hlt st (List.mem_cons_self ..)
    rw [List.map_cons, List.map_cons, List.sum_cons, List.map_cons, List.sum_cons, List.countP_cons,
      ih fun st hst => hlt st (List.mem_cons_of_mem _ hst), bumpOther]
    by_cases hplace : (st.indices.getD [])[i]? = some c
    · simp [hplace, add_assoc]
    · rw [if_neg hplace]
      simp only [hplace, ne_eq, not_false_eq_true, decide_true, if_true, get_bump hst]
      push_cast
      ring

variable [CharZero K]

theorem size_add_one_ne_zero (p : GossipProtocol K) : (p.gradientCache.size : K) + 1 ≠ 0 :=
  Nat.cast_add_one_ne_zero _

/-- An index that comes twice: what is sent at the first of its places should not count. -/
theorem RespectsIndices.nodup (h : RespectsIndices gradients indices modelVersion step p aggregate)
    (hshape : gradients.shape = [size]) (hsize : indices.length = size)
    (hcache : SparseCache size p)
    (haggregate : p.sparseAggregate gradients indices modelVersion step = some aggregate) :
    indices.Nodup := by
  rw [List.nodup_iff_getElem?_ne_getElem?]
  intro i j hij hj heq
  have hjc : indices[j]? = some indices[j] := List.getElem?_eq_getElem hj
  have hic := heq.trans hjc
  have hfirst : lastPlace indices indices[j] ≠ some i := fun hlast =>
    absurd ((lastPlace_spec hlast).2 j hjc) (by omega)
  have hsame : SameAt indices[j] indices gradients (bump i gradients) p p := by
    refine ⟨rfl, valueAt_bump hfirst, List.forall₂_same.2 fun st _ => ⟨rfl, rfl, rfl⟩⟩
  have hbump : (bump i gradients).shape = [size] := hshape
  obtain ⟨bumped, hbumped, hget⟩ := sparseAggregate_spec indices modelVersion step hbump hcache
  have hi : i < size := by omega
  have hfixed := h.separate i _ hic _ p bumped hsame hbumped
  rw [hget i hi, sparseAggregate_get hshape hcache haggregate hi, get_bump (by simpa [hshape] using hi),
    div_left_inj' (size_add_one_ne_zero p)] at hfixed
  exact one_ne_zero (by linear_combination hfixed)

/-- A contribution with another coordinate at the place: its value there should not count. -/
theorem RespectsIndices.cache (h : RespectsIndices gradients indices modelVersion step p aggregate)
    (hshape : gradients.shape = [size]) (hsize : indices.length = size)
    (hcache : SparseCache size p)
    (haggregate : p.sparseAggregate gradients indices modelVersion step = some aggregate)
    {st : GradientState K} (hst : st ∈ p.gradientCache.values) : st.indices = some indices := by
  obtain ⟨-, sent, hsent, hlength⟩ := hcache st hst
  rw [hsent]
  congr 1
  refine List.ext_getElem? fun i => ?_
  rcases Nat.lt_or_ge i size with hi | hi
  swap
  · rw [List.getElem?_eq_none (by omega), List.getElem?_eq_none (by omega)]
  obtain ⟨c, hic⟩ : ∃ c, indices[i]? = some c := ⟨_, List.getElem?_eq_getElem (by omega)⟩
  by_contra hne
  rw [hic] at hne
  have hsame : SameAt c indices gradients gradients p
      { p with gradientCache := p.gradientCache.mapValues (bumpOther i c) } := by
    refine ⟨rfl, rfl, ?_⟩
    rw [Dict.values_mapValues, List.forall₂_map_right_iff]
    exact List.forall₂_same.2 fun st _ => bumpOther_same
  obtain ⟨bumped, hbumped, hget⟩ :=
    sparseAggregate_spec indices modelVersion step hshape (hsame.sparseCache hcache)
  have hfixed := h.separate i c hic _ _ bumped hsame hbumped
  have hothers : 0 < p.gradientCache.values.countP
      fun st => (st.indices.getD [])[i]? ≠ some c := by
    rw [List.countP_pos_iff]
    exact ⟨st, hst, by simpa [hsent] using hne⟩
  rw [hget i hi, sparseAggregate_get hshape hcache haggregate hi, hsame.size_eq,
    div_left_inj' (size_add_one_ne_zero p), Dict.values_mapValues] at hfixed
  have hsum := sum_bumpOther c fun st (hst : st ∈ p.gradientCache.values) =>
    show i < st.gradients.shape.prod by simpa [(hcache st hst).1] using hi
  have hzero : ((p.gradientCache.values.countP
      fun st => (st.indices.getD [])[i]? ≠ some c : Nat) : K) = 0 := by
    linear_combination hfixed - hsum
  exact hothers.ne' (Nat.cast_eq_zero.1 hzero)

end GossipProtocol

open GossipProtocol

/-- The aggregate of sparse gradients goes by their indices if and only if these are distinct and the
same ones, in the same order, for every cached contribution. -/
theorem respects_indices_iff [Field K] [CharZero K] {p : GossipProtocol K} {gradients : NdArray K}
    {indices : List Int} (modelVersion step : Int) (hshape : gradients.shape = [indices.length])
    (hcache : SparseCache indices.length p) :
    (∃ aggregate, p.sparseAggregate gradients indices modelVersion step = some aggregate ∧
      RespectsIndices gradients indices modelVersion step p aggregate) ↔ SameIndices indices p := by
  constructor
  · rintro ⟨aggregate, haggregate, h⟩
    exact ⟨h.nodup hshape rfl hcache haggregate,
      fun st hst => h.cache hshape rfl hcache haggregate hst⟩
  · intro h
    obtain ⟨aggregate, haggregate, -⟩ :=
      sparseAggregate_spec indices modelVersion step hshape hcache
    exact ⟨aggregate, haggregate, h.respects hshape rfl hcache haggregate⟩

section Example

/-- A peer's gradients at other coordinates than the local ones are cached. -/
def otherCoordinates : GossipProtocol ℚ :=
  ({ localPeer := peerA, membership := membershipA } : GossipProtocol ℚ).storeGradient 0 "b"
    (.ofList [3, 4]) (some [5, 6]) 0 0

theorem otherCoordinates_sparse : SparseCache 2 otherCoordinates := by
  intro st hst
  obtain rfl := List.mem_singleton.1 hst
  exact ⟨rfl, [5, 6], rfl, rfl⟩

theorem respects_indices_iff_other :
    (∃ aggregate, otherCoordinates.sparseAggregate (.ofList [1, 2]) [0, 1] 0 0 = some aggregate ∧
      RespectsIndices (.ofList [1, 2]) [0, 1] 0 0 otherCoordinates aggregate) ↔
        SameIndices [0, 1] otherCoordinates :=
  respects_indices_iff 0 0 rfl otherCoordinates_sparse

/-- The value 1 at coordinate 0 is averaged with the value 3 at coordinate 5. -/
theorem other_coordinates_averaged : ∃ aggregate,
    otherCoordinates.sparseAggregate (.ofList [1, 2]) [0, 1] 0 0 = some aggregate ∧
    aggregate.get 0 = 2 ∧
    ¬ RespectsIndices (.ofList [1, 2]) [0, 1] 0 0 otherCoordinates aggregate := by
  have hshape : (NdArray.ofList [(1 : ℚ), 2]).shape = [2] := rfl
  obtain ⟨aggregate, haggregate, hget⟩ :=
    sparseAggregate_spec [0, 1] 0 0 hshape otherCoordinates_sparse
  have htwo : aggregate.get 0 = 2 := by
    rw [hget 0 (by decide)]
    decide +kernel
  refine ⟨aggregate, haggregate, htwo, fun h => ?_⟩
  have hmean := h.mean 0 0 rfl
  rw [htwo] at hmean
  revert hmean
  decide +kernel

end Example

end GossipRl
