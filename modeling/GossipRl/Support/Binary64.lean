import Mathlib.Algebra.Order.Archimedean.Real.Basic
import Mathlib.Data.Int.Log
import Mathlib.Tactic.Linarith
import Mathlib.Tactic.NormNum
import Mathlib.Tactic.Ring

/-!
# Rounding to binary64

`roundBinary64 x` is the multiple of a unit in the last place that is nearest to `x`, the even one of
two: 53 significant bits, and no bit below `2 ^ (-1074)`. It keeps what is in the format, so that it
stays on the side of such a number where `x` is (`le_roundBinary64`, `roundBinary64_le`); where a
result is decided between two numbers of the format, by which half of the gap `x` is in
(`roundBinary64_le_one_iff`, `roundBinary64_pos_iff`, `roundBinary64_lt_overflow_iff`).
-/

namespace Support

noncomputable section

/-- The nearest integer, of two the even one. -/
def roundHalfEven (x : ℝ) : ℤ :=
  if Int.fract x < 1 / (2 : ℕ) ∨ Int.fract x = 1 / (2 : ℕ) ∧ Even ⌊x⌋ then ⌊x⌋ else ⌊x⌋ + 1

section Integer
variable {x : ℝ} {k : ℤ}

theorem roundHalfEven_le (h : x < k + 1 / 2) : roundHalfEven x ≤ k := by
  have hfloor := Int.floor_add_fract x
  unfold roundHalfEven
  split_ifs with hfract
  · have hlt : (⌊x⌋ : ℝ) < (k + 1 : ℤ) := by
      push_cast
      linarith [Int.fract_nonneg x]
    exact Int.lt_add_one_iff.1 (Int.cast_lt.1 hlt)
  · have hhalf : 1 / 2 ≤ Int.fract x := by
      rw [not_or, not_lt] at hfract
      exact_mod_cast hfract.1
    have hlt : (⌊x⌋ : ℝ) < k := by linarith
    exact Int.add_one_le_iff.2 (Int.cast_lt.1 hlt)

theorem le_roundHalfEven (h : k - 1 / 2 < x) : k ≤ roundHalfEven x := by
  have hfloor := Int.floor_add_fract x
  unfold roundHalfEven
  split_ifs with hfract
  · have hhalf : Int.fract x ≤ 1 / 2 := by
      rcases hfract with hfract | ⟨hfract, -⟩
      · exact_mod_cast hfract.le
      · exact_mod_cast hfract.le
    have hlt : (k : ℝ) < (⌊x⌋ + 1 : ℤ) := by
      push_cast
      linarith
    exact Int.lt_add_one_iff.1 (Int.cast_lt.1 hlt)
  · have hlt : (k : ℝ) < (⌊x⌋ + 1 + 1 : ℤ) := by
      push_cast
      linarith [Int.fract_lt_one x]
    exact Int.lt_add_one_iff.1 (Int.cast_lt.1 hlt)

theorem roundHalfEven_half (k : ℤ) :
    roundHalfEven (k + 1 / 2) = if Even k then k else k + 1 := by
  have hfloor : ⌊(k : ℝ) + 1 / 2⌋ = k := by
    rw [Int.floor_intCast_add]
    norm_num
  have hfract : Int.fract ((k : ℝ) + 1 / 2) = 1 / (2 : ℕ) := by
    rw [← Int.self_sub_floor, hfloor]
    norm_num
  rw [roundHalfEven, hfloor, hfract]
  simp

/-- Half way above an even number is rounded down, -/
theorem roundHalfEven_le_iff (hk : Even k) : roundHalfEven x ≤ k ↔ x ≤ k + 1 / 2 := by
  constructor
  · intro h
    by_contra hlt
    have hle : k + 1 ≤ roundHalfEven x := le_roundHalfEven (by push_cast; linarith)
    omega
  · intro h
    rcases h.lt_or_eq with hlt | rfl
    · exact roundHalfEven_le hlt
    · rw [roundHalfEven_half, if_pos hk]

/-- and half way above an odd one up. -/
theorem roundHalfEven_le_iff_of_odd (hk : ¬ Even k) : roundHalfEven x ≤ k ↔ x < k + 1 / 2 := by
  refine ⟨fun h => ?_, roundHalfEven_le⟩
  by_contra hle
  rcases (not_lt.1 hle).lt_or_eq with hlt | rfl
  · have hle : k + 1 ≤ roundHalfEven x := le_roundHalfEven (by push_cast; linarith)
    omega
  · rw [roundHalfEven_half, if_neg hk] at h
    omega

end Integer

/-- The unit in the last place has this exponent. -/
def ulpExponent (x : ℝ) : ℤ := if x = 0 then -1074 else max (Int.log 2 |x| - 52) (-1074)

def pow2 (e : ℤ) : ℝ := ((2 : ℕ) : ℝ) ^ e

theorem pow2_pos (e : ℤ) : 0 < pow2 e := zpow_pos (by norm_num) e

theorem pow2_add (e e' : ℤ) : pow2 (e + e') = pow2 e * pow2 e' := zpow_add₀ (by norm_num) e e'

theorem pow2_le_pow2 {e e' : ℤ} (h : e ≤ e') : pow2 e ≤ pow2 e' :=
  zpow_le_zpow_right₀ (by norm_num) h

theorem pow2_lt_pow2 {e e' : ℤ} (h : e < e') : pow2 e < pow2 e' :=
  zpow_lt_zpow_right₀ (by norm_num) h

theorem pow2_natCast (n : ℕ) : pow2 n = ((2 ^ n : ℤ) : ℝ) := by
  rw [pow2, zpow_natCast]
  push_cast
  rfl

theorem pow2_mul_natCast {e : ℤ} {n : ℕ} (h : e + n = 0) : pow2 e * ((2 ^ n : ℕ) : ℝ) = 1 := by
  have hcast : ((2 ^ n : ℕ) : ℝ) = pow2 n := by rw [pow2, zpow_natCast, Nat.cast_pow]
  rw [hcast, ← pow2_add, h]
  simp [pow2]

theorem pow2_eq_two_mul {e e' : ℤ} (h : e = e' + 1) : pow2 e = 2 * pow2 e' := by
  rw [h, pow2_add, mul_comm]
  simp [pow2]

def roundBinary64 (x : ℝ) : ℝ := roundHalfEven (x / pow2 (ulpExponent x)) * pow2 (ulpExponent x)

/-- 53 significant bits, none of them below `2 ^ (-1074)`. -/
def InBinary64 (x : ℝ) : Prop := ∃ m e : ℤ, |m| ≤ 2 ^ 53 ∧ -1074 ≤ e ∧ x = m * pow2 e

section Round
variable {x y : ℝ}

theorem inBinary64_pow2 {e : ℤ} (he : -1074 ≤ e) : InBinary64 (pow2 e) :=
  ⟨1, e, by norm_num, he, by simp⟩

theorem inBinary64_zero : InBinary64 0 := ⟨0, 0, by norm_num, by norm_num, by simp⟩

theorem inBinary64_one : InBinary64 1 := ⟨1, 0, by norm_num, by norm_num, by simp [pow2]⟩

theorem InBinary64.neg (h : InBinary64 x) : InBinary64 (-x) := by
  obtain ⟨m, e, hm, he, rfl⟩ := h
  exact ⟨-m, e, by rwa [abs_neg], he, by push_cast; ring⟩

theorem le_ulpExponent (x : ℝ) : -1074 ≤ ulpExponent x := by
  unfold ulpExponent
  split_ifs
  · exact le_rfl
  · exact le_max_right ..

theorem abs_lt_pow2 (x : ℝ) : |x| < pow2 (ulpExponent x + 53) := by
  by_cases hx : x = 0
  · rw [hx, abs_zero]
    exact pow2_pos _
  · refine (Int.lt_zpow_succ_log_self one_lt_two |x|).trans_le (pow2_le_pow2 ?_)
    rw [ulpExponent, if_neg hx]
    omega

theorem pow2_le_abs (h : -1074 < ulpExponent x) : pow2 (ulpExponent x + 52) ≤ |x| := by
  have hx : x ≠ 0 := by
    rintro rfl
    simp [ulpExponent] at h
  have hlog : ulpExponent x + 52 = Int.log 2 |x| := by
    rw [ulpExponent, if_neg hx] at h ⊢
    omega
  rw [hlog]
  exact Int.zpow_log_le_self one_lt_two (abs_pos.2 hx)

theorem ulpExponent_eq {e : ℤ} (hlow : pow2 (e + 52) ≤ x) (hhigh : x < pow2 (e + 53))
    (he : -1074 ≤ e) : ulpExponent x = e := by
  have hx : 0 < x := (pow2_pos _).trans_le hlow
  have hle : e + 52 ≤ Int.log 2 x := (Int.zpow_le_iff_le_log one_lt_two hx).1 hlow
  have hlt : Int.log 2 x < e + 53 := (Int.lt_zpow_iff_log_lt one_lt_two hx).1 hhigh
  rw [ulpExponent, if_neg hx.ne', abs_of_pos hx]
  omega

theorem ulpExponent_of_small (h : |x| < pow2 (-1021)) : ulpExponent x = -1074 := by
  by_contra hne
  have hlt : -1074 < ulpExponent x := lt_of_le_of_ne (le_ulpExponent x) (Ne.symm hne)
  exact absurd ((pow2_le_pow2 (by omega)).trans (pow2_le_abs hlt)) (not_le.2 h)

theorem inBinary64_roundBinary64 (x : ℝ) : InBinary64 (roundBinary64 x) := by
  refine ⟨_, _, ?_, le_ulpExponent x, rfl⟩
  have hpos := pow2_pos (ulpExponent x)
  have hlt : |x / pow2 (ulpExponent x)| < ((2 ^ 53 : ℤ) : ℝ) := by
    rw [abs_div, abs_of_pos hpos, div_lt_iff₀ hpos, ← pow2_natCast, ← pow2_add, add_comm]
    exact abs_lt_pow2 x
  obtain ⟨hlow, hhigh⟩ := abs_lt.1 hlt
  refine abs_le.2 ⟨le_roundHalfEven ?_, roundHalfEven_le ?_⟩
  · push_cast at hlow ⊢
    linarith
  · linarith

theorem exists_mul_pow2 (m : ℤ) {e e' : ℤ} (h : e ≤ e') :
    ∃ k : ℤ, (m : ℝ) * pow2 e' = k * pow2 e := by
  obtain ⟨n, hn⟩ := Int.eq_ofNat_of_zero_le (sub_nonneg.2 h)
  refine ⟨m * 2 ^ n, ?_⟩
  have hsplit : pow2 e' = pow2 n * pow2 e := by
    rw [← pow2_add]
    congr 1
    omega
  rw [hsplit, pow2_natCast]
  push_cast
  ring

theorem InBinary64.least_le_sub (hx : InBinary64 x) (hy : InBinary64 y) (h : x < y) :
    pow2 (-1074) ≤ y - x := by
  obtain ⟨m, e, -, he, rfl⟩ := hx
  obtain ⟨m', e', -, he', rfl⟩ := hy
  obtain ⟨k, hk⟩ := exists_mul_pow2 m he
  obtain ⟨k', hk'⟩ := exists_mul_pow2 m' he'
  have hpos := pow2_pos (-1074)
  rw [hk, hk'] at h ⊢
  have hlt : k + 1 ≤ k' := Int.cast_lt.1 ((mul_lt_mul_iff_left₀ hpos).1 h)
  have hcast : (k : ℝ) + 1 ≤ k' := by exact_mod_cast hlt
  rw [← sub_mul]
  exact le_mul_of_one_le_left hpos.le (by linarith)

theorem InBinary64.least_le_abs (hx : InBinary64 x) (h : x ≠ 0) : pow2 (-1074) ≤ |x| := by
  rcases lt_or_gt_of_ne h with hneg | hpos
  · have hle := hx.least_le_sub inBinary64_zero hneg
    rwa [zero_sub, ← abs_of_neg hneg] at hle
  · have hle := inBinary64_zero.least_le_sub hx hpos
    rwa [sub_zero, ← abs_of_pos hpos] at hle

/-- A number of the format is a whole number of the units of `x`, or no greater than `x`. -/
theorem InBinary64.eq_mul_or_le (h : InBinary64 y) (x : ℝ) :
    (∃ k : ℤ, y = k * pow2 (ulpExponent x)) ∨ |y| ≤ pow2 (ulpExponent x + 52) ∧
      pow2 (ulpExponent x + 52) ≤ |x| := by
  obtain ⟨m, e, hm, he, rfl⟩ := h
  rcases le_or_gt (ulpExponent x) e with hle | hlt
  · exact .inl (exists_mul_pow2 m hle)
  · refine .inr ⟨?_, pow2_le_abs (he.trans_lt hlt)⟩
    have hm' : |(m : ℝ)| ≤ pow2 53 := by
      have hcast : ((|m| : ℤ) : ℝ) ≤ ((2 ^ 53 : ℤ) : ℝ) := Int.cast_le.2 hm
      have hpow := pow2_natCast 53
      push_cast at hcast hpow
      rw [hpow]
      exact hcast
    calc |(m : ℝ) * pow2 e| = |(m : ℝ)| * pow2 e := by rw [abs_mul, abs_of_pos (pow2_pos e)]
      _ ≤ pow2 53 * pow2 e := mul_le_mul_of_nonneg_right hm' (pow2_pos e).le
      _ = pow2 (53 + e) := (pow2_add _ _).symm
      _ ≤ pow2 (ulpExponent x + 52) := pow2_le_pow2 (by omega)

theorem pow2_ulp_add (x : ℝ) (n : ℕ) :
    pow2 (ulpExponent x + n) = ((2 ^ n : ℤ) : ℝ) * pow2 (ulpExponent x) := by
  rw [pow2_add, pow2_natCast, mul_comm]

theorem mul_le_roundBinary64 {k : ℤ} (h : k * pow2 (ulpExponent x) ≤ x) :
    k * pow2 (ulpExponent x) ≤ roundBinary64 x := by
  refine mul_le_mul_of_nonneg_right (Int.cast_le.2 (le_roundHalfEven ?_)) (pow2_pos _).le
  linarith [(le_div_iff₀ (pow2_pos (ulpExponent x))).2 h]

theorem roundBinary64_le_mul {k : ℤ} (h : x ≤ k * pow2 (ulpExponent x)) :
    roundBinary64 x ≤ k * pow2 (ulpExponent x) := by
  refine mul_le_mul_of_nonneg_right (Int.cast_le.2 (roundHalfEven_le ?_)) (pow2_pos _).le
  linarith [(div_le_iff₀ (pow2_pos (ulpExponent x))).2 h]

theorem le_roundBinary64 (hy : InBinary64 y) (h : y ≤ x) : y ≤ roundBinary64 x := by
  rcases hy.eq_mul_or_le x with ⟨k, rfl⟩ | ⟨hsmall, hgreat⟩
  · exact mul_le_roundBinary64 h
  · have hpow := pow2_ulp_add x 52
    rcases le_abs.1 hgreat with hx | hx
    · refine ((le_abs_self y).trans hsmall).trans ?_
      rw [show ulpExponent x + 52 = ulpExponent x + (52 : ℕ) from rfl, hpow] at hx
      exact hpow.trans_le (mul_le_roundBinary64 hx)
    · have heq : y = ((-2 ^ 52 : ℤ) : ℝ) * pow2 (ulpExponent x) := by
        push_cast at hpow ⊢
        linarith [neg_le_of_abs_le hsmall]
      rw [heq] at h ⊢
      exact mul_le_roundBinary64 h

theorem roundBinary64_le (hy : InBinary64 y) (h : x ≤ y) : roundBinary64 x ≤ y := by
  rcases hy.eq_mul_or_le x with ⟨k, rfl⟩ | ⟨hsmall, hgreat⟩
  · exact roundBinary64_le_mul h
  · have hpow := pow2_ulp_add x 52
    rcases le_abs.1 hgreat with hx | hx
    · have heq : y = ((2 ^ 52 : ℤ) : ℝ) * pow2 (ulpExponent x) := by
        push_cast at hpow ⊢
        linarith [le_of_abs_le hsmall]
      rw [heq] at h ⊢
      exact roundBinary64_le_mul h
    · have hx' : x ≤ ((-2 ^ 52 : ℤ) : ℝ) * pow2 (ulpExponent x) := by
        push_cast at hpow ⊢
        linarith
      refine (roundBinary64_le_mul hx').trans ?_
      push_cast at hpow ⊢
      linarith [neg_le_of_abs_le hsmall]

theorem roundBinary64_eq (hx : InBinary64 x) : roundBinary64 x = x :=
  le_antisymm (roundBinary64_le hx le_rfl) (le_roundBinary64 hx le_rfl)

/-- Of small numbers nothing is left, -/
theorem roundBinary64_pos_iff : 0 < roundBinary64 x ↔ pow2 (-1075) < x := by
  have hhalf : pow2 (-1074) = 2 * pow2 (-1075) := pow2_eq_two_mul (by norm_num)
  rcases le_or_gt (pow2 (-1074)) x with hle | hlt
  · have hpos := (pow2_pos _).trans_le (le_roundBinary64 (inBinary64_pow2 le_rfl) hle)
    exact iff_of_true hpos (by linarith [pow2_pos (-1075)])
  · rcases le_or_gt x 0 with hnonpos | hpos
    · exact iff_of_false (not_lt.2 (roundBinary64_le inBinary64_zero hnonpos))
        (not_lt.2 (hnonpos.trans (pow2_pos _).le))
    · have hsmall : |x| < pow2 (-1021) := by
        rw [abs_of_pos hpos]
        exact hlt.trans_le (pow2_le_pow2 (by norm_num))
      have hround := roundHalfEven_le_iff (x := x / pow2 (-1074)) (k := 0) (by decide)
      rw [roundBinary64, ulpExponent_of_small hsmall, mul_pos_iff_of_pos_right (pow2_pos _),
        Int.cast_pos, ← not_le, hround, Int.cast_zero, zero_add, div_le_iff₀ (pow2_pos _), hhalf,
        ← not_le]
      refine not_congr (iff_of_eq (congrArg _ ?_))
      ring

/-- just above 1 the rest is cut, -/
theorem roundBinary64_le_one_iff : roundBinary64 x ≤ 1 ↔ x ≤ 1 + pow2 (-53) := by
  have hone : pow2 0 = 1 := by simp [pow2]
  have htwo : pow2 1 = 2 := by simp [pow2]
  have hsmall : pow2 (-53) < 1 := hone ▸ pow2_lt_pow2 (by norm_num)
  rcases le_or_gt x 1 with hle | hgt
  · exact iff_of_true (roundBinary64_le inBinary64_one hle) (by linarith [pow2_pos (-53)])
  · rcases le_or_gt 2 x with hle | hlt
    · have htwo' : (2 : ℝ) ≤ roundBinary64 x :=
        htwo ▸ le_roundBinary64 (inBinary64_pow2 (by norm_num)) (htwo.trans_le hle)
      exact iff_of_false (by linarith) (by linarith)
    · have hexp : ulpExponent x = -52 :=
        ulpExponent_eq (by norm_num; linarith) (by norm_num; linarith) (by norm_num)
      have hunit : ((2 ^ 52 : ℤ) : ℝ) * pow2 (-52) = 1 := by
        rw [← pow2_natCast, ← pow2_add]
        exact hone
      have hhalf : pow2 (-52) = 2 * pow2 (-53) := pow2_eq_two_mul (by norm_num)
      have hround := roundHalfEven_le_iff (x := x / pow2 (-52)) (k := 2 ^ 52) (by decide)
      have hle : roundBinary64 x ≤ 1 ↔ roundHalfEven (x / pow2 (-52)) ≤ 2 ^ 52 := by
        rw [roundBinary64, hexp]
        nth_rewrite 1 [← hunit]
        rw [mul_le_mul_iff_left₀ (pow2_pos (-52)), Int.cast_le]
      rw [hle, hround, div_le_iff₀ (pow2_pos _), add_mul, hunit, hhalf]
      refine iff_of_eq (congrArg _ ?_)
      ring

/-- and half a unit below `2 ^ 1024` everything is too great. -/
theorem roundBinary64_lt_overflow_iff :
    roundBinary64 x < pow2 1024 ↔ x < pow2 1024 - pow2 970 := by
  have hunit : ((2 ^ 53 : ℤ) : ℝ) * pow2 971 = pow2 1024 := by
    rw [← pow2_natCast, ← pow2_add]
    norm_num
  have hhalf : pow2 971 = 2 * pow2 970 := pow2_eq_two_mul (by norm_num)
  have hlow : pow2 1024 = 2 * pow2 1023 := pow2_eq_two_mul (by norm_num)
  have hgap : pow2 970 < pow2 1023 := pow2_lt_pow2 (by norm_num)
  rcases le_or_gt (pow2 1024) x with hle | hgt
  · exact iff_of_false (not_lt.2 (le_roundBinary64 (inBinary64_pow2 (by norm_num)) hle))
      (by linarith [pow2_pos 970])
  · rcases le_or_gt x (pow2 1023) with hle | hlt
    · refine iff_of_true ?_ (by linarith)
      exact (roundBinary64_le (inBinary64_pow2 (by norm_num)) hle).trans_lt (pow2_lt_pow2 (by norm_num))
    · have hexp : ulpExponent x = 971 :=
        ulpExponent_eq (by norm_num; exact hlt.le) (by norm_num; exact hgt) (by norm_num)
      have hround := roundHalfEven_le_iff_of_odd (x := x / pow2 971) (k := 2 ^ 53 - 1) (by decide)
      have hlt' : roundBinary64 x < pow2 1024 ↔ roundHalfEven (x / pow2 971) ≤ 2 ^ 53 - 1 := by
        rw [Int.le_sub_one_iff, roundBinary64, hexp, ← hunit,
          mul_lt_mul_iff_left₀ (pow2_pos 971), Int.cast_lt]
      rw [hlt', hround, div_lt_iff₀ (pow2_pos _), add_mul, Int.cast_sub, sub_mul, hunit, hhalf]
      refine iff_of_eq (congrArg _ ?_)
      push_cast
      ring

end Round

end

end Support
