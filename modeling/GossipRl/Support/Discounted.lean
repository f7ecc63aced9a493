import Mathlib.Algebra.BigOperators.Group.Finset.Basic
import Mathlib.Algebra.BigOperators.Ring.Finset
import Mathlib.Algebra.Ring.Nat
import Mathlib.Data.List.Range
import Mathlib.Tactic.LinearCombination

/-!
# Discounted sums

`discounted c δ t n` is the sum of the `n` terms of `δ` from number `t` on, each of them times the
factors `c` of the terms before it. A loop that goes through the terms backwards computes all of
these sums at once: what it has in the end is what `foldl_reverse_range` carries from each term to
the one before it.
-/

namespace Support

/-- What holds after the last position, and is kept from each position to the one before, holds when
a loop over `n` positions has gone through them backwards. -/
theorem foldl_reverse_range {β : Type*} {f : β → ℕ → β} {P : ℕ → β → Prop} {n : ℕ} {b : β}
    (init : P n b) (step : ∀ k < n, ∀ b, P (k + 1) b → P k (f b k)) :
    P 0 ((List.range n).reverse.foldl f b) := by
  induction n generalizing b with
  | zero => exact init
  | succ n ih =>
    rw [List.range_succ, List.reverse_append, List.reverse_singleton, List.singleton_append,
      List.foldl_cons]
    exact ih (step n (Nat.lt_succ_self n) b init) fun k hk => step k (Nat.lt_succ_of_lt hk)

variable {R : Type*} [CommSemiring R] {c c' δ δ' : ℕ → R} {t n : ℕ}

def discounted (c δ : ℕ → R) (t n : ℕ) : R :=
  ∑ l ∈ Finset.range n, (∏ k ∈ Finset.range l, c (t + k)) * δ (t + l)

@[simp] theorem discounted_zero : discounted c δ t 0 = 0 := rfl

theorem discounted_succ : discounted c δ t (n + 1) = δ t + c t * discounted c δ (t + 1) n := by
  rw [discounted, Finset.sum_range_succ', discounted, Finset.mul_sum, add_comm]
  congr 1
  · simp
  · refine Finset.sum_congr rfl fun l _ => ?_
    rw [Finset.prod_range_succ', Nat.add_zero, ← mul_assoc, mul_comm (c t)]
    simp only [Nat.add_right_comm t _ 1, ← Nat.add_assoc]

theorem discounted_congr (hc : ∀ l < n, c (t + l) = c' (t + l))
    (hδ : ∀ l < n, δ (t + l) = δ' (t + l)) : discounted c δ t n = discounted c' δ' t n := by
  refine Finset.sum_congr rfl fun l hl => ?_
  have hl := Finset.mem_range.1 hl
  rw [hδ l hl]
  congr 1
  exact Finset.prod_congr rfl fun k hk => hc k (by have := Finset.mem_range.1 hk; omega)

theorem discounted_of_eq_zero {m : ℕ} (h : c (t + m) = 0) (hm : m < n) :
    discounted c δ t n = discounted c δ t (m + 1) := by
  symm
  refine Finset.sum_subset (Finset.range_mono (Nat.succ_le_of_lt hm)) fun l _ hl => ?_
  rw [Finset.mem_range, not_lt] at hl
  have hzero : ∏ k ∈ Finset.range l, c (t + k) = 0 :=
    Finset.prod_eq_zero (Finset.mem_range.2 (Nat.lt_of_succ_le hl)) h
  rw [hzero, zero_mul]

theorem discounted_const {x : R} (h : ∀ l, l + 1 < n → c (t + l) = x) :
    discounted c δ t n = ∑ l ∈ Finset.range n, x ^ l * δ (t + l) := by
  refine Finset.sum_congr rfl fun l hl => ?_
  have hl := Finset.mem_range.1 hl
  have hprod : ∏ k ∈ Finset.range l, c (t + k) = ∏ _k ∈ Finset.range l, x :=
    Finset.prod_congr rfl fun k hk => h k (by have := Finset.mem_range.1 hk; omega)
  rw [hprod, Finset.prod_const, Finset.card_range]

theorem backward_discounted {f : R × List R → ℕ → R × List R}
    (hf : ∀ t < n, ∀ s, f s t = (δ t + c t * s.1, (δ t + c t * s.1) :: s.2)) :
    ((List.range n).reverse.foldl f (0, [])).2 =
      (List.range n).map fun t => discounted c δ t (n - t) := by
  have hloop := foldl_reverse_range (f := f) (n := n) (b := ((0 : R), ([] : List R)))
    (P := fun t s => s = (discounted c δ t (n - t),
      (List.range' t (n - t)).map fun t => discounted c δ t (n - t))) (by simp) ?_
  · rw [hloop, List.range_eq_range', Nat.sub_zero]
  · rintro t ht _ rfl
    have hlen : n - t = n - (t + 1) + 1 := by omega
    rw [hf t ht, hlen, List.range'_succ, List.map_cons, hlen, discounted_succ]

theorem discounted_telescope {R : Type*} [CommRing R] {c δ v : ℕ → R} (t n : ℕ) :
    discounted c (fun k => δ k + c k * v (k + 1) - v k) t n + v t =
      discounted c δ t n + (∏ k ∈ Finset.range n, c (t + k)) * v (t + n) := by
  induction n generalizing t with
  | zero => simp
  | succ n ih =>
    have hprod : ∏ k ∈ Finset.range (n + 1), c (t + k) =
        c t * ∏ k ∈ Finset.range n, c (t + 1 + k) := by
      rw [Finset.prod_range_succ', Nat.add_zero, mul_comm]
      simp only [Nat.add_right_comm t _ 1, ← Nat.add_assoc]
    have hlast : t + (n + 1) = t + 1 + n := by omega
    rw [discounted_succ, discounted_succ, hprod, hlast]
    linear_combination c t * ih (t + 1)

end Support
