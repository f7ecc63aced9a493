import GossipRl.Gossip.TopK
import GossipRl.Support.Run
import Mathlib.Tactic.LinearCombination

/-!
# Error feedback

Each call of `compress` divides what has accumulated between the vector that is sent and the residual
(`compress_split`). So what went in, over a run, is what was sent and what is left (`run_next`).
-/

namespace GossipRl
open Support

namespace TopKCompressor

section Residual
variable {K : Type*} [Field K] {c : TopKCompressor K} {gradients : List K} {n : Nat}

/-- `error_feedback[i]`; nothing before the first call. -/
def residual (c : TopKCompressor K) (i : Nat) : K := (c.errorFeedback.getD []).getD i 0

/-- The residual is one of vectors of length `n`. -/
def Fits (n : Nat) (c : TopKCompressor K) : Prop :=
  ∀ errorFeedback, c.errorFeedback = some errorFeedback → errorFeedback.length = n

/-- Every entry of what has accumulated is sent or kept, all of it. -/
structure Split (n : Nat) (c : TopKCompressor K) (gradients : List K) (indices : List Int)
    (dense : List K) (c' : TopKCompressor K) : Prop where
  length_eq : dense.length = n
  entry : ∀ i < n,
    ((i : Int) ∈ indices ∧ dense.getD i 0 = gradients.getD i 0 + c.residual i ∧ c'.residual i = 0) ∨
    ((i : Int) ∉ indices ∧ dense.getD i 0 = 0 ∧ c'.residual i = gradients.getD i 0 + c.residual i)

theorem Split.conserves {indices : List Int} {dense : List K} {c' : TopKCompressor K}
    (h : Split n c gradients indices dense c') {i : Nat} (hi : i < n) :
    gradients.getD i 0 + c.residual i = dense.getD i 0 + c'.residual i := by
  rcases h.entry i hi with ⟨-, hsent, hkept⟩ | ⟨-, hsent, hkept⟩
  · rw [hsent, hkept, add_zero]
  · rw [hsent, hkept, zero_add]

theorem applyErrorFeedback_spec (hfits : Fits n c) (hlength : gradients.length = n) :
    ∃ a, c.applyErrorFeedback gradients true = some a ∧ a.length = n ∧
      ∀ i < n, a.getD i 0 = gradients.getD i 0 + c.residual i := by
  unfold applyErrorFeedback residual
  cases hfeedback : c.errorFeedback with
  | none => exact ⟨gradients, rfl, hlength, fun i _ => by simp⟩
  | some errorFeedback =>
    have heq := hfits errorFeedback hfeedback
    refine ⟨_, npAdd_of_length (hlength.trans heq.symm), by simp [hlength, heq], fun i hi => ?_⟩
    have hlt : i < (List.zipWith (· + ·) gradients errorFeedback).length := by
      simp [hlength, heq, hi]
    rw [List.getD_eq_getElem _ _ hlt, List.getElem_zipWith, Option.getD_some,
      List.getD_eq_getElem _ _ (by omega), List.getD_eq_getElem _ _ (by omega)]

theorem residual_storeErrorFeedback {a : List K} {i : Nat} (indices : List Nat) (hi : i < a.length) :
    (c.storeErrorFeedback a indices true).residual i = if i ∈ indices then 0 else a.getD i 0 := by
  rw [storeErrorFeedback, if_pos rfl, residual, Option.getD_some, getD_assign_map _ hi]

theorem fits_storeErrorFeedback (a : List K) (indices : List Nat) :
    Fits a.length (c.storeErrorFeedback a indices true) := by
  rintro errorFeedback heq
  rw [storeErrorFeedback, if_pos rfl] at heq
  rw [← Option.some.inj heq, length_assign]

end Residual

variable {K : Type*} [Field K] [LinearOrder K] [IsStrictOrderedRing K] [FloorRing K]
  {n : Nat} {c c' : TopKCompressor K} {gradients : List K} {inputs : List (List K)}

/-- A call, for what it leaves behind. -/
def next (np : NumPySort K) (itemsize : Nat) (c : TopKCompressor K) (gradients : List K) :
    Option (TopKCompressor K) :=
  (c.compress np itemsize gradients).map Prod.snd

/-- What a call sends, decompressed. -/
def sent (np : NumPySort K) (itemsize n : Nat) (c : TopKCompressor K) (gradients : List K) :
    Option (List K) :=
  (c.compress np itemsize gradients).bind fun ((values, indices, _), _) =>
    decompress values indices n

theorem compress_split (np : NumPySort K) (itemsize : Nat) (hn : 1 ≤ n) (hratio : c.ratio ≤ 1)
    (hfits : Fits n c) (hlength : gradients.length = n) :
    ∃ values indices stats c' dense,
      c.compress np itemsize gradients = some ((values, indices, stats), c') ∧
      decompress values indices n = some dense ∧ Split n c gradients indices dense c' ∧
      c'.ratio = c.ratio ∧ Fits n c' := by
  obtain ⟨a, hacc, ha, hsum⟩ := applyErrorFeedback_spec hfits hlength
  subst ha
  obtain ⟨indices, stats, htop, hcompress⟩ :=
    compress_spec np itemsize hacc hn hratio
  have hlt : ∀ i ∈ indices, i < a.length := fun i hi => by simpa using htop.lt_length i hi
  obtain ⟨dense, hdense, hlen, hkept⟩ := decompress_take a hlt
  refine ⟨_, _, stats, _, dense, hcompress, hdense, ⟨hlen, fun i hi => ?_⟩, rfl,
    fits_storeErrorFeedback a indices⟩
  rw [hkept i hi, residual_storeErrorFeedback indices hi, ← hsum i hi]
  have hcast : (i : Int) ∈ indices.map Nat.cast ↔ i ∈ indices :=
    List.mem_map_of_injective Nat.cast_injective
  by_cases hin : i ∈ indices
  · exact .inl ⟨hcast.2 hin, if_pos hin, if_pos hin⟩
  · exact .inr ⟨fun h => hin (hcast.1 h), if_neg hin, if_neg hin⟩

theorem run_next (np : NumPySort K) (itemsize : Nat) (hn : 1 ≤ n) (hratio : c.ratio ≤ 1)
    (hfits : Fits n c) (hinputs : ∀ gradients ∈ inputs, gradients.length = n) :
    ∃ c', run (next np itemsize) c inputs = some c' ∧ c'.ratio = c.ratio ∧ Fits n c' ∧
      (observe (next np itemsize) (sent np itemsize n) c inputs).length = inputs.length ∧
      ∀ i < n, (inputs.map (·.getD i 0)).sum + c.residual i =
        ((observe (next np itemsize) (sent np itemsize n) c inputs).map (·.getD i 0)).sum +
          c'.residual i := by
  induction inputs generalizing c with
  | nil => exact ⟨c, rfl, rfl, hfits, rfl, fun i _ => rfl⟩
  | cons gradients inputs ih =>
    obtain ⟨values, indices, stats, c₁, dense, hcompress, hdense, hsplit, hratio₁, hfits₁⟩ :=
      compress_split np itemsize hn hratio hfits
        (hinputs gradients (List.mem_cons_self ..))
    have hnext : next np itemsize c gradients = some c₁ := by rw [next, hcompress]; rfl
    have hsent : sent np itemsize n c gradients = some dense := by
      rw [sent, hcompress, Option.bind_some]
      exact hdense
    obtain ⟨c', hrun, hratio', hfits', hlength, hsum⟩ := ih (hratio₁ ▸ hratio) hfits₁
      fun gradients hmem => hinputs gradients (List.mem_cons_of_mem _ hmem)
    rw [run_cons, hnext, observe, hsent, hnext]
    refine ⟨c', hrun, hratio'.trans hratio₁, hfits', by simp [hlength], fun i hi => ?_⟩
    simp only [Option.toList_some, List.singleton_append, List.map_cons, List.sum_cons]
    have hstep := hsplit.conserves hi
    have hrest := hsum i hi
    linear_combination hstep + hrest

end TopKCompressor

open TopKCompressor

/-- Nothing of the gradients is lost, from the first call on, and each call sends an entry as a whole
or keeps it. -/
theorem error_feedback_conserves {K : Type*} [Field K] [LinearOrder K] [IsStrictOrderedRing K]
    [FloorRing K] (np : NumPySort K) (itemsize : Nat) {ratio : K} (hratio : ratio ≤ 1) {n : Nat}
    (hn : 1 ≤ n) {inputs : List (List K)} (hinputs : ∀ gradients ∈ inputs, gradients.length = n) :
    ∃ c', run (next np itemsize) ⟨ratio, none⟩ inputs = some c' ∧
      (observe (next np itemsize) (sent np itemsize n) ⟨ratio, none⟩ inputs).length =
        inputs.length ∧
      (∀ i < n, (inputs.map (·.getD i 0)).sum =
        ((observe (next np itemsize) (sent np itemsize n) ⟨ratio, none⟩ inputs).map
          (·.getD i 0)).sum + c'.residual i) ∧
      ∀ before gradients after c, inputs = before ++ gradients :: after →
        run (next np itemsize) ⟨ratio, none⟩ before = some c →
        ∃ values indices stats c₁ dense,
          c.compress np itemsize gradients = some ((values, indices, stats), c₁) ∧
          decompress values indices n = some dense ∧ Split n c gradients indices dense c₁ := by
  have hfresh : Fits n (⟨ratio, none⟩ : TopKCompressor K) := by
    rintro errorFeedback heq
    cases heq
  obtain ⟨c', hrun, -, -, hlength, hsum⟩ :=
    run_next (c := ⟨ratio, none⟩) np itemsize hn hratio hfresh hinputs
  refine ⟨c', hrun, hlength, fun i hi => ?_, ?_⟩
  · rw [← hsum i hi]
    simp [TopKCompressor.residual]
  · rintro before gradients after c rfl hbefore
    obtain ⟨c₀, hrun₀, hratio₀, hfits₀, -⟩ :=
      run_next (c := ⟨ratio, none⟩) np itemsize hn hratio hfresh
        fun gradients hmem => hinputs gradients (List.mem_append_left _ hmem)
    obtain rfl := Option.some.inj (hbefore.symm.trans hrun₀)
    obtain ⟨values, indices, stats, c₁, dense, hcompress, hdense, hsplit, -⟩ :=
      compress_split np itemsize hn (hratio₀ ▸ hratio) hfits₀
        (hinputs gradients (by simp))
    exact ⟨values, indices, stats, c₁, dense, hcompress, hdense, hsplit⟩

section Example

/-- The second call sends what the first one kept. -/
def twoGradients : List (List ℚ) := [[3, -5, 1, 4], [3, 1, 0, 0]]

theorem two_gradients_conserved :
    ∃ c', run (next .sorting 4) ⟨1 / 2, none⟩ twoGradients = some c' ∧
      (observe (next .sorting 4) (sent .sorting 4 4) ⟨1 / 2, none⟩ twoGradients).length =
        twoGradients.length ∧
      (∀ i < 4, (twoGradients.map (·.getD i 0)).sum =
        ((observe (next .sorting 4) (sent .sorting 4 4) ⟨1 / 2, none⟩ twoGradients).map
          (·.getD i 0)).sum + c'.residual i) ∧
      ∀ before gradients after c, twoGradients = before ++ gradients :: after →
        run (next .sorting 4) ⟨1 / 2, none⟩ before = some c →
        ∃ values indices stats c₁ dense,
          c.compress .sorting 4 gradients = some ((values, indices, stats), c₁) ∧
          decompress values indices 4 = some dense ∧ Split 4 c gradients indices dense c₁ :=
  error_feedback_conserves .sorting 4 (by norm_num) (by decide) (by decide)

end Example

end GossipRl
