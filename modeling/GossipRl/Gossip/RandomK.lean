import GossipRl.Gossip.TopK
import Mathlib.Data.Finset.Powerset
import Mathlib.Data.Finset.Sort
import Mathlib.Data.Nat.Choose.Basic
import Mathlib.Tactic.LinearCombination

/-!
# Random sparsification

What `compress` divides by the ratio, `decompress` multiplies by it again, so a gradient that is sent
arrives as it is, and one that is not as zero. `average_eq` is the average over the choices: of each
gradient the part that `k` is of all the indices.
-/

namespace GossipRl
open Support

theorem card_powersetCard_mem {n k i : Nat} (hi : i < n) (hk : 1 ≤ k) :
    {S ∈ Finset.powersetCard k (Finset.range n) | i ∈ S}.card * n =
      k * (Finset.powersetCard k (Finset.range n)).card := by
  have hcard := Finset.card_filter_powersetCard_subset {i} (Finset.range n) k
    (Finset.singleton_subset_iff.2 (Finset.mem_range.2 hi)) (by rwa [Finset.card_singleton])
  simp only [Finset.singleton_subset_iff, Finset.card_singleton, Finset.card_range] at hcard
  obtain ⟨m, rfl⟩ := Nat.exists_eq_add_of_le' (Nat.one_le_of_lt hi)
  obtain ⟨j, rfl⟩ := Nat.exists_eq_add_of_le' hk
  rw [hcard, Finset.card_powersetCard, Finset.card_range, Nat.add_sub_cancel, Nat.add_sub_cancel,
    mul_comm, Nat.add_one_mul_choose_eq, mul_comm]

namespace RandomKCompressor
variable {K : Type*} [Field K] [LinearOrder K] [IsStrictOrderedRing K] [FloorRing K]
  {c : RandomKCompressor K} {gradients : List K} {choice : List Nat} {i : Nat}

/-- `decompress(compress(gradients))`, for a choice of indices. -/
def roundTrip (itemsize : Nat) (c : RandomKCompressor K) (gradients : List K) (choice : List Nat) :
    Option (List K) :=
  (c.compress itemsize gradients choice).bind fun (values, indices, _) =>
    c.decompress values indices gradients.length

theorem roundTrip_spec (itemsize : Nat) (hpos : 0 < c.ratio) (hratio : c.ratio ≤ 1)
    (hlength : 1 ≤ gradients.length) (hchoice : ∀ i ∈ choice, i < gradients.length) :
    ∃ dense, c.roundTrip itemsize gradients choice = some dense ∧
      ∀ i < gradients.length, dense.getD i 0 = if i ∈ choice then gradients.getD i 0 else 0 := by
  have hk := TopKCompressor.computeK_le hlength hratio
  have hscale : ((take gradients 0 choice).map (· / c.ratio)).map (· * c.ratio) =
      take gradients 0 choice := by
    rw [List.map_map]
    refine (List.map_congr_left fun x _ => ?_).trans (List.map_id _)
    exact div_mul_cancel₀ x hpos.ne'
  obtain ⟨dense, hdense, -, hkept⟩ := TopKCompressor.decompress_take gradients hchoice
  refine ⟨dense, ?_, hkept⟩
  unfold roundTrip compress decompress
  dsimp only
  rw [if_neg (by omega), Option.bind_some, hscale]
  exact hdense

/-- The choices of `k` indices. -/
def choices (c : RandomKCompressor K) (size : Nat) : Finset (Finset Nat) :=
  Finset.powersetCard (computeK size c.ratio) (Finset.range size)

omit [IsStrictOrderedRing K] in
theorem card_choices_mem {size : Nat} (hi : i < size) :
    {S ∈ c.choices size | i ∈ S}.card * size = computeK size c.ratio * (c.choices size).card :=
  card_powersetCard_mem hi (TopKCompressor.one_le_computeK size c.ratio)

theorem card_choices_pos {size : Nat} (hratio : c.ratio ≤ 1) (hsize : 1 ≤ size) :
    0 < (c.choices size).card := by
  have hchoose := Nat.choose_pos (TopKCompressor.computeK_le hsize hratio)
  rwa [choices, Finset.card_powersetCard, Finset.card_range]

/-- The average at `i` over the choices, each drawn in the order that `order` gives. -/
def average (itemsize : Nat) (order : Finset Nat → List Nat) (c : RandomKCompressor K)
    (gradients : List K) (i : Nat) : K :=
  (∑ S ∈ c.choices gradients.length,
    ((c.roundTrip itemsize gradients (order S)).getD []).getD i 0) /
      (c.choices gradients.length).card

variable {order : Finset Nat → List Nat}

theorem roundTrip_choice (itemsize : Nat) (hpos : 0 < c.ratio) (hratio : c.ratio ≤ 1)
    (hlength : 1 ≤ gradients.length) (horder : ∀ S, (order S).toFinset = S) {S : Finset Nat}
    (hS : S ∈ c.choices gradients.length) :
    ∃ dense, c.roundTrip itemsize gradients (order S) = some dense ∧
      ∀ i < gradients.length, dense.getD i 0 = if i ∈ S then gradients.getD i 0 else 0 := by
  have hmem : ∀ i, i ∈ order S ↔ i ∈ S := fun i => by rw [← List.mem_toFinset, horder]
  obtain ⟨hsub, -⟩ := Finset.mem_powersetCard.1 hS
  obtain ⟨dense, hdense, hkept⟩ := roundTrip_spec itemsize hpos hratio hlength
    fun i hi => Finset.mem_range.1 (hsub ((hmem i).1 hi))
  refine ⟨dense, hdense, fun i hi => ?_⟩
  rw [hkept i hi]
  simp only [hmem]

theorem average_eq (itemsize : Nat) (hpos : 0 < c.ratio) (hratio : c.ratio ≤ 1)
    (hlength : 1 ≤ gradients.length) (horder : ∀ S, (order S).toFinset = S)
    (hi : i < gradients.length) :
    c.average itemsize order gradients i =
      computeK gradients.length c.ratio / gradients.length * gradients.getD i 0 := by
  have hsum : ∑ S ∈ c.choices gradients.length,
      ((c.roundTrip itemsize gradients (order S)).getD []).getD i 0 =
        {S ∈ c.choices gradients.length | i ∈ S}.card * gradients.getD i 0 := by
    rw [← nsmul_eq_mul, ← Finset.sum_const, Finset.sum_filter]
    refine Finset.sum_congr rfl fun S hS => ?_
    obtain ⟨dense, hdense, hkept⟩ := roundTrip_choice itemsize hpos hratio hlength horder hS
    rw [hdense, Option.getD_some, hkept i hi]
  have hshare : ({S ∈ c.choices gradients.length | i ∈ S}.card : K) * gradients.length =
      computeK gradients.length c.ratio * (c.choices gradients.length).card := by
    rw [← Nat.cast_mul, card_choices_mem hi, Nat.cast_mul]
  have hcard : ((c.choices gradients.length).card : K) ≠ 0 :=
    Nat.cast_ne_zero.2 (card_choices_pos hratio hlength).ne'
  have hsize : (gradients.length : K) ≠ 0 := by exact_mod_cast (by omega : gradients.length ≠ 0)
  rw [average, hsum, div_mul_eq_mul_div, div_eq_div_iff hcard hsize]
  linear_combination gradients.getD i 0 * hshare

theorem computeK_eq_iff {ratio : K} {size : Nat} (hratio : ratio ≤ 1) (hsize : 1 ≤ size) :
    computeK size ratio = size ↔ ratio = 1 ∨ size = 1 := by
  constructor
  · intro h
    rcases Nat.eq_or_lt_of_le hsize with hone | hlt
    · exact .inr hone.symm
    · have hfloor : ⌊size * ratio⌋₊ = size := by
        rw [computeK] at h
        omega
      have hle : (size : K) ≤ size * ratio := by
        rw [← Nat.le_floor_iff' (by omega), hfloor]
      have hpos : (0 : K) < size := by exact_mod_cast hsize
      exact .inl (le_antisymm hratio (le_of_mul_le_mul_left (by rwa [mul_one]) hpos))
  · rintro (rfl | rfl)
    · rw [computeK, mul_one, Nat.floor_natCast, max_eq_right hsize]
    · exact le_antisymm (TopKCompressor.computeK_le le_rfl hratio)
        (TopKCompressor.one_le_computeK _ _)

end RandomKCompressor

open RandomKCompressor

/-- Every choice of indices goes through, and the average is the gradient if and only if all the
indices are chosen or all the gradients are zero. -/
theorem average_eq_gradients_iff {K : Type*} [Field K] [LinearOrder K] [IsStrictOrderedRing K]
    [FloorRing K] (itemsize : Nat) {c : RandomKCompressor K} {gradients : List K}
    {order : Finset Nat → List Nat} (hpos : 0 < c.ratio) (hratio : c.ratio ≤ 1)
    (hlength : 1 ≤ gradients.length) (horder : ∀ S, (order S).toFinset = S) :
    (∀ S ∈ c.choices gradients.length, (c.roundTrip itemsize gradients (order S)).isSome) ∧
    ((∀ i < gradients.length, c.average itemsize order gradients i = gradients.getD i 0) ↔
      c.ratio = 1 ∨ gradients.length = 1 ∨ ∀ i < gradients.length, gradients.getD i 0 = 0) := by
  have hsize : (gradients.length : K) ≠ 0 := by exact_mod_cast (by omega : gradients.length ≠ 0)
  have hentry : ∀ i < gradients.length,
      (c.average itemsize order gradients i = gradients.getD i 0 ↔
        computeK gradients.length c.ratio = gradients.length ∨ gradients.getD i 0 = 0) := by
    intro i hi
    rw [average_eq itemsize hpos hratio hlength horder hi, mul_left_eq_self₀, div_eq_one_iff_eq hsize,
      Nat.cast_inj]
  refine ⟨fun S hS => ?_, ?_⟩
  · obtain ⟨dense, hdense, -⟩ := roundTrip_choice itemsize hpos hratio hlength horder hS
    rw [hdense]
    rfl
  · rw [← or_assoc, ← computeK_eq_iff hratio hlength]
    constructor
    · intro h
      rcases eq_or_ne (computeK gradients.length c.ratio) gradients.length with hk | hk
      · exact .inl hk
      · exact .inr fun i hi => ((hentry i hi).1 (h i hi)).resolve_left hk
    · rintro (hk | hzero) i hi
      · exact (hentry i hi).2 (.inl hk)
      · exact (hentry i hi).2 (.inr (hzero i hi))

section Example

def halfRandomK : RandomKCompressor ℚ := { ratio := 1 / (2 : ℕ) }

def twoOnes : List ℚ := [1, 1]

theorem average_of_two_iff :
    (∀ S ∈ halfRandomK.choices twoOnes.length, (halfRandomK.roundTrip 4 twoOnes S.sort).isSome) ∧
    ((∀ i < twoOnes.length, halfRandomK.average 4 (·.sort) twoOnes i = twoOnes.getD i 0) ↔
      halfRandomK.ratio = 1 ∨ twoOnes.length = 1 ∨ ∀ i < twoOnes.length, twoOnes.getD i 0 = 0) :=
  average_eq_gradients_iff 4 (by norm_num [halfRandomK]) (by norm_num [halfRandomK]) (by decide)
    fun S => Finset.sort_toFinset S _

/-- One of two gradients is sent, as it is. -/
theorem average_of_two : halfRandomK.average 4 (·.sort) twoOnes 0 = 1 / 2 ∧
    ¬ ∀ i < twoOnes.length, halfRandomK.average 4 (·.sort) twoOnes i = twoOnes.getD i 0 := by
  have hpos : 0 < halfRandomK.ratio := by norm_num [halfRandomK]
  have hratio : halfRandomK.ratio ≤ 1 := by norm_num [halfRandomK]
  have hk : computeK twoOnes.length halfRandomK.ratio = 1 := by
    norm_num [computeK, halfRandomK, twoOnes]
  have haverage : halfRandomK.average 4 (·.sort) twoOnes 0 = 1 / 2 := by
    rw [average_eq 4 hpos hratio (by decide) (fun S => Finset.sort_toFinset S _) (by decide), hk]
    norm_num [twoOnes]
  refine ⟨haverage, fun h => ?_⟩
  have hone := h 0 (by decide)
  rw [haverage] at hone
  norm_num [twoOnes] at hone

end Example

end GossipRl
