import Mathlib.Algebra.BigOperators.Group.Finset.Sigma
import Mathlib.Algebra.BigOperators.NatAntidiagonal
import Mathlib.Algebra.BigOperators.Ring.Finset
import Mathlib.Algebra.BigOperators.Ring.List
import Mathlib.Data.List.GetD
import Mathlib.Tactic.Abel
import Mathlib.Tactic.Ring

/-!
# Finite laws

A law is a list of values, each with its weight; a value may stand there more than once. `weigh f`
adds up what `f` makes of the values: the expected value of `f`, if the weights add up to 1. So two
laws that agree on all `f` are the law of the same random variable. `sumLaw` is the law of a sum of
independent variables, one for each law. On grids of the same step width, `gridLaw`, the weights of
a sum are the convolution, and the grid starts at the sum of the starts (`weigh_convolve`).
-/

namespace Support

section Law
variable {M K : Type*} [CommSemiring K] {f : M → K} {law law' : List (M × K)}

def weigh (f : M → K) (law : List (M × K)) : K := (law.map fun e => f e.1 * e.2).sum

@[simp] theorem weigh_nil : weigh f [] = 0 := rfl

@[simp] theorem weigh_cons (e : M × K) : weigh f (e :: law) = f e.1 * e.2 + weigh f law := rfl

@[simp] theorem weigh_append : weigh f (law ++ law') = weigh f law + weigh f law' := by
  simp [weigh]

open Classical in
/-- The weight of the values that satisfy `P`. -/
noncomputable def mass (P : M → Prop) (law : List (M × K)) : K :=
  weigh (fun x => if P x then 1 else 0) law

variable [AddCommMonoid M]

/-- The law of the sum of two independent variables. -/
def addLaw (law law' : List (M × K)) : List (M × K) :=
  law.flatMap fun e => law'.map fun e' => (e.1 + e'.1, e.2 * e'.2)

theorem weigh_addLaw :
    weigh f (addLaw law law') = weigh (fun x => weigh (fun y => f (x + y)) law') law := by
  induction law with
  | nil => rfl
  | cons e law ih =>
    have hhead : weigh f (law'.map fun e' => (e.1 + e'.1, e.2 * e'.2)) =
        weigh (fun y => f (e.1 + y)) law' * e.2 := by
      rw [weigh, weigh, ← List.sum_map_mul_right, List.map_map]
      refine congrArg List.sum (List.map_congr_left fun e' _ => ?_)
      show f (e.1 + e'.1) * (e.2 * e'.2) = f (e.1 + e'.1) * e'.2 * e.2
      ring
    rw [addLaw, List.flatMap_cons, weigh_append, hhead, weigh_cons, ← ih]
    rfl

/-- The law of the sum of independent variables. -/
def sumLaw (laws : List (List (M × K))) : List (M × K) := laws.foldl addLaw [(0, 1)]

theorem sumLaw_concat (laws : List (List (M × K))) :
    sumLaw (laws ++ [law]) = addLaw (sumLaw laws) law :=
  List.foldl_concat ..

theorem sumLaw_singleton : sumLaw [law] = law := by
  show [(0, 1)].flatMap (fun e => law.map fun e' => (e.1 + e'.1, e.2 * e'.2)) = law
  simp

end Law

section Grid
variable {M K : Type*} [AddCommMonoid M] [CommSemiring K] {f : M → K} {x y step : M} {a v : List K}

/-- The weights `p` on the values `start`, `start + step`, and so on. -/
def gridLaw (start step : M) (p : List K) : List (M × K) :=
  (List.range p.length).map fun k => (start + k • step, p.getD k 0)

theorem weigh_gridLaw (p : List K) : weigh f (gridLaw x step p) =
    ∑ k ∈ Finset.range p.length, f (x + k • step) * p.getD k 0 := by
  rw [weigh, gridLaw, List.map_map]
  rfl

/-- `np.convolve` in its full mode, for lists that are not empty. -/
def convolve (a v : List K) : List K :=
  (List.range (a.length + v.length - 1)).map fun k =>
    ((List.range (k + 1)).map fun i => a.getD i 0 * v.getD (k - i) 0).sum

@[simp] theorem length_convolve : (convolve a v).length = a.length + v.length - 1 := by
  simp [convolve]

theorem getD_convolve {k : ℕ} (hk : k < a.length + v.length - 1) :
    (convolve a v).getD k 0 = ∑ i ∈ Finset.range (k + 1), a.getD i 0 * v.getD (k - i) 0 := by
  simp [convolve, List.getD_eq_getElem?_getD, hk]
  rfl

theorem convolve_one (v : List K) : convolve [1] v = v := by
  refine List.ext_getElem (by simp) fun k hk _ => ?_
  have hk : k < ([1] : List K).length + v.length - 1 := by rwa [length_convolve] at hk
  have hlt : k < v.length := by simpa using hk
  have h := getD_convolve hk
  rw [Finset.sum_eq_single_of_mem 0 (by simp)] at h
  · simpa [List.getD_eq_getElem?_getD, hlt] using h
  · intro i _ hi
    rw [List.getD_eq_default _ _ (by simpa [Nat.one_le_iff_ne_zero] using hi), zero_mul]

theorem sum_fiber (k : ℕ) :
    ∑ i ∈ Finset.range (k + 1), a.getD i 0 * v.getD (k - i) 0 =
      ∑ e ∈ Finset.range a.length ×ˢ Finset.range v.length with e.1 + e.2 = k,
        a.getD e.1 0 * v.getD e.2 0 := by
  rw [← Finset.Nat.sum_antidiagonal_eq_sum_range_succ fun i j => a.getD i 0 * v.getD j 0]
  symm
  refine Finset.sum_subset (fun e he => ?_) fun e he hout => ?_
  · exact Finset.HasAntidiagonal.mem_antidiagonal.2 (Finset.mem_filter.1 he).2
  · rw [Finset.HasAntidiagonal.mem_antidiagonal] at he
    -- one of the factors lies past the end of its list
    rcases Nat.lt_or_ge e.1 a.length with hleft | hleft
    · have hright : v.length ≤ e.2 := by
        by_contra hlt
        exact hout (Finset.mem_filter.2 ⟨Finset.mem_product.2
          ⟨Finset.mem_range.2 hleft, Finset.mem_range.2 (not_le.1 hlt)⟩, he⟩)
      rw [List.getD_eq_default v 0 hright, mul_zero]
    · rw [List.getD_eq_default a 0 hleft, zero_mul]

theorem sum_convolve (F : ℕ → K) :
    ∑ k ∈ Finset.range (a.length + v.length - 1), F k * (convolve a v).getD k 0 =
      ∑ i ∈ Finset.range a.length, ∑ j ∈ Finset.range v.length,
        F (i + j) * (a.getD i 0 * v.getD j 0) := by
  have hmaps : ∀ e ∈ Finset.range a.length ×ˢ Finset.range v.length,
      e.1 + e.2 ∈ Finset.range (a.length + v.length - 1) := by
    rintro ⟨i, j⟩ he
    simp only [Finset.mem_product, Finset.mem_range] at he ⊢
    omega
  rw [← Finset.sum_product', ← Finset.sum_fiberwise_of_maps_to hmaps]
  refine Finset.sum_congr rfl fun k hk => ?_
  rw [getD_convolve (Finset.mem_range.1 hk), sum_fiber, Finset.mul_sum]
  refine Finset.sum_congr rfl fun e he => ?_
  rw [(Finset.mem_filter.1 he).2]

theorem weigh_convolve : weigh f (gridLaw (x + y) step (convolve a v)) =
    weigh f (addLaw (gridLaw x step a) (gridLaw y step v)) := by
  rw [weigh_addLaw, weigh_gridLaw, weigh_gridLaw, length_convolve,
    sum_convolve fun k => f (x + y + k • step)]
  refine Finset.sum_congr rfl fun i _ => ?_
  rw [weigh_gridLaw, Finset.sum_mul]
  refine Finset.sum_congr rfl fun j _ => ?_
  rw [show x + i • step + (y + j • step) = x + y + (i + j) • step by rw [add_nsmul]; abel]
  ring

theorem sum_eq_sum_range (p : List K) : p.sum = ∑ k ∈ Finset.range p.length, p.getD k 0 := by
  induction p with
  | nil => rfl
  | cons w p ih =>
    rw [List.sum_cons, List.length_cons, Finset.sum_range_succ', ih, add_comm]
    simp

theorem convolve_sum : (convolve a v).sum = a.sum * v.sum := by
  have h := sum_convolve (a := a) (v := v) fun _ => 1
  simp only [one_mul] at h
  rw [sum_eq_sum_range, length_convolve, h, sum_eq_sum_range a, sum_eq_sum_range v,
    Finset.sum_mul_sum]

theorem mass_gridLaw_eq {p : List K} {i : ℕ} (hi : i < p.length)
    (hinj : ∀ k < p.length, x + k • step = x + i • step ↔ k = i) :
    mass (· = x + i • step) (gridLaw x step p) = p.getD i 0 := by
  rw [mass, weigh_gridLaw, Finset.sum_eq_single_of_mem i (Finset.mem_range.2 hi)]
  · rw [if_pos rfl, one_mul]
  · intro k hk hne
    rw [if_neg (mt (hinj k (Finset.mem_range.1 hk)).1 hne), zero_mul]

theorem mass_gridLaw_lt [LT M] {p : List K} {i : ℕ} (hi : i < p.length)
    (hlt : ∀ k < p.length, x + i • step < x + k • step ↔ i < k) :
    mass (x + i • step < ·) (gridLaw x step p) + (p.take (i + 1)).sum = p.sum := by
  have hsplit : mass (x + i • step < ·) (gridLaw x step p) =
      ∑ k ∈ Finset.range p.length, if k < i + 1 then 0 else p.getD k 0 := by
    rw [mass, weigh_gridLaw]
    refine Finset.sum_congr rfl fun k hk => ?_
    have := hlt k (Finset.mem_range.1 hk)
    rcases Nat.lt_or_ge i k with h | h
    · rw [if_pos (this.2 h), if_neg (by omega), one_mul]
    · rw [if_neg (mt this.1 (by omega)), if_pos (by omega), zero_mul]
  have htake : (p.take (i + 1)).sum =
      ∑ k ∈ Finset.range p.length, if k < i + 1 then p.getD k 0 else 0 := by
    have hlength : (p.take (i + 1)).length = i + 1 := by
      rw [List.length_take]
      omega
    rw [sum_eq_sum_range, hlength, ← Finset.sum_filter]
    refine Finset.sum_congr ?_ fun k hk => ?_
    · ext k
      simp only [Finset.mem_filter, Finset.mem_range]
      omega
    · have hk : k < i + 1 := (Finset.mem_filter.1 hk).2
      simp [List.getD_eq_getElem?_getD, hk]
  rw [hsplit, htake, ← Finset.sum_add_distrib, sum_eq_sum_range p]
  refine Finset.sum_congr rfl fun k _ => ?_
  split_ifs <;> simp

end Grid

end Support
