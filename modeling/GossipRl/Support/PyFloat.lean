import GossipRl.Support.Binary64
import GossipRl.Support.Run
import Mathlib.Analysis.SpecialFunctions.Log.Basic

/-!
# Floats of Python and NumPy

`PyFloat` has the numbers of binary64, two infinities and `nan`; that zero has a sign is left out,
since no zero with a minus sign is divided by here. Arithmetic rounds to nearest, and never raises in
NumPy (`FloatKind.numpy`). Python's own floats raise where they are divided by 0 and where the square
of a number overflows, and `math` does for the logarithm of what is not positive and where `exp`
overflows: `none`. A comparison with `nan` is false, so that "not below 0" is said of `nan` as well.
-/

namespace Support

noncomputable section

abbrev Binary64 := {x : ℝ // InBinary64 x ∧ |x| < pow2 1024}

inductive PyFloat
  | nan
  | inf (negative : Bool)
  | finite (x : Binary64)

/-- The type that a result has: `float`, or `np.float64`. -/
inductive FloatKind
  | python
  | numpy
deriving DecidableEq

namespace PyFloat

def ofReal (x : ℝ) : PyFloat :=
  if h : |roundBinary64 x| < pow2 1024 then
    finite ⟨roundBinary64 x, inBinary64_roundBinary64 x, h⟩
  else inf (decide (x < 0))

instance : Zero PyFloat := ⟨finite ⟨0, inBinary64_zero, by simpa using pow2_pos 1024⟩⟩

theorem one_lt_pow2 : |(1 : ℝ)| < pow2 1024 := by
  rw [abs_one]
  exact (by simp [pow2] : (1 : ℝ) = pow2 0).trans_lt (pow2_lt_pow2 (by norm_num))

instance : One PyFloat := ⟨finite ⟨1, inBinary64_one, one_lt_pow2⟩⟩

theorem one_eq : (1 : PyFloat) = finite ⟨1, inBinary64_one, one_lt_pow2⟩ := rfl

def ofNat (n : ℕ) : PyFloat := ofReal n

def add : PyFloat → PyFloat → PyFloat
  | nan, _ | _, nan => nan
  | inf a, inf b => if a = b then inf a else nan
  | inf a, finite _ => inf a
  | finite _, inf b => inf b
  | finite x, finite y => ofReal (x + y)

def sub : PyFloat → PyFloat → PyFloat
  | nan, _ | _, nan => nan
  | inf a, inf b => if a = b then nan else inf a
  | inf a, finite _ => inf a
  | finite _, inf b => inf !b
  | finite x, finite y => ofReal (x - y)

def mul : PyFloat → PyFloat → PyFloat
  | nan, _ | _, nan => nan
  | inf a, inf b => inf (xor a b)
  | inf a, finite y => if (y : ℝ) = 0 then nan else inf (xor a (decide ((y : ℝ) < 0)))
  | finite x, inf b => if (x : ℝ) = 0 then nan else inf (xor (decide ((x : ℝ) < 0)) b)
  | finite x, finite y => ofReal (x * y)

def div : PyFloat → PyFloat → PyFloat
  | nan, _ | _, nan => nan
  | inf _, inf _ => nan
  | inf a, finite y => inf (xor a (decide ((y : ℝ) < 0)))
  | finite _, inf _ => 0
  | finite x, finite y =>
    if (y : ℝ) = 0 then if (x : ℝ) = 0 then nan else inf (decide ((x : ℝ) < 0))
    else ofReal (x / y)

/-- What comes of a number is not one. -/
def overflows : PyFloat → PyFloat → Bool
  | finite _, inf _ => true
  | _, _ => false

def lt : PyFloat → PyFloat → Prop
  | nan, _ | _, nan => False
  | inf a, inf b => a = true ∧ b = false
  | inf a, finite _ => a = true
  | finite _, inf b => b = false
  | finite x, finite y => (x : ℝ) < y

instance : LT PyFloat := ⟨lt⟩

instance : DecidableLT PyFloat := Classical.decRel _

instance : DecidableEq PyFloat := Classical.decEq _

/-- Python's `max`, which keeps the first of those that are not below another. -/
def max : List PyFloat → Option PyFloat
  | [] => none
  | x :: xs => some (xs.foldl (fun m x => if m < x then x else m) x)

def sum (xs : List PyFloat) : PyFloat := xs.foldl add 0

/-- `math.log` -/
def log : PyFloat → Option PyFloat
  | nan => some nan
  | inf negative => if negative then none else some (inf false)
  | finite x => if (x : ℝ) ≤ 0 then none else some (ofReal (Real.log x))

/-- `math.exp` -/
def exp : PyFloat → Option PyFloat
  | nan => some nan
  | inf negative => some (if negative then 0 else inf false)
  | finite x =>
    match ofReal (Real.exp x) with
    | inf _ => none
    | y => some y

/-- `int`, of a number that is not negative. -/
def toNat : PyFloat → Option ℕ
  | finite x => some ⌊(x : ℝ)⌋₊
  | _ => none

/-- The quotient of two `int`s, which is rounded once. -/
def divNat (m n : ℕ) : Option PyFloat :=
  if n = 0 then none
  else
    match ofReal (m / n) with
    | inf _ => none
    | x => some x

/-- The logarithm of the sum of the numbers that have these logarithms, relative to the greatest. -/
def logSumExp (terms : List PyFloat) : Option PyFloat :=
  (max terms).bind fun m =>
    (terms.mapM fun t => exp (t.sub m)).bind fun exps => (log (sum exps)).map m.add

end PyFloat

namespace FloatKind
open PyFloat

/-- `x ** 2` -/
def square (kind : FloatKind) (x : PyFloat) : Option PyFloat :=
  if kind = python ∧ x.overflows (x.mul x) = true then none else some (x.mul x)

def div (kind : FloatKind) (x y : PyFloat) : Option PyFloat :=
  if kind = python ∧ y = 0 then none else some (x.div y)

end FloatKind

namespace PyFloat

section Compare
variable {x y z m : PyFloat}

@[simp] theorem finite_lt_finite {x y : Binary64} : finite x < finite y ↔ (x : ℝ) < y := Iff.rfl

@[simp] theorem finite_lt_one {x : Binary64} : finite x < 1 ↔ (x : ℝ) < 1 := Iff.rfl

@[simp] theorem finite_lt_zero {x : Binary64} : finite x < 0 ↔ (x : ℝ) < 0 := Iff.rfl

@[simp] theorem zero_lt_finite {x : Binary64} : 0 < finite x ↔ 0 < (x : ℝ) := Iff.rfl

@[simp] theorem one_lt_finite {x : Binary64} : 1 < finite x ↔ 1 < (x : ℝ) := Iff.rfl

@[simp] theorem not_nan_lt : ¬ nan < x := fun h => h

@[simp] theorem not_lt_nan : ¬ x < nan := by cases x <;> exact fun h => h

@[simp] theorem inf_lt_finite {a : Bool} {x : Binary64} : inf a < finite x ↔ a = true := Iff.rfl

@[simp] theorem finite_lt_inf {x : Binary64} {b : Bool} : finite x < inf b ↔ b = false := Iff.rfl

@[simp] theorem inf_lt_inf {a b : Bool} : inf a < inf b ↔ a = true ∧ b = false := Iff.rfl

theorem not_lt_trans (hxy : ¬ m < x) (h : m < y) : ¬ y < x := by
  cases m <;> cases x <;> cases y <;> simp_all
  order

protected theorem lt_irrefl (x : PyFloat) : ¬ x < x := by
  cases x <;> simp

protected theorem lt_trans (h : x < y) (h' : y < z) : x < z := by
  cases x <;> cases y <;> cases z <;> simp_all
  order

@[simp] theorem nan_ne_zero : nan ≠ 0 := PyFloat.noConfusion

@[simp] theorem inf_ne_zero {a : Bool} : inf a ≠ 0 := PyFloat.noConfusion

@[simp] theorem inf_lt_zero {a : Bool} : inf a < 0 ↔ a = true := Iff.rfl

@[simp] theorem zero_lt_inf {a : Bool} : 0 < inf a ↔ a = false := Iff.rfl

@[simp] theorem one_lt_inf {a : Bool} : 1 < inf a ↔ a = false := Iff.rfl

theorem finite_eq_finite_iff {x y : Binary64} : finite x = finite y ↔ (x : ℝ) = y :=
  ⟨fun h => congrArg Subtype.val (PyFloat.finite.inj h), fun h => congrArg finite (Subtype.ext h)⟩

@[simp] theorem finite_eq_zero_iff {x : Binary64} : finite x = 0 ↔ (x : ℝ) = 0 := finite_eq_finite_iff

@[simp] theorem finite_eq_one_iff {x : Binary64} : finite x = 1 ↔ (x : ℝ) = 1 := finite_eq_finite_iff

end Compare

section OfReal
variable {x y : ℝ}

theorem ofReal_of_lt (h : |roundBinary64 x| < pow2 1024) :
    ofReal x = finite ⟨roundBinary64 x, inBinary64_roundBinary64 x, h⟩ := dif_pos h

theorem ofReal_coe (x : Binary64) : ofReal x = finite x := by
  have heq := roundBinary64_eq x.2.1
  rw [ofReal_of_lt (by rw [heq]; exact x.2.2)]
  exact congrArg finite (Subtype.ext heq)

theorem not_ofReal_lt {y : Binary64} (h : (y : ℝ) ≤ x) : ¬ ofReal x < finite y := by
  have hround := le_roundBinary64 y.2.1 h
  unfold ofReal
  split_ifs with hlt
  · exact not_lt.2 hround
  · rw [inf_lt_finite, decide_eq_true_iff]
    intro hneg
    have hnonpos := roundBinary64_le inBinary64_zero hneg.le
    rw [abs_of_nonpos hnonpos] at hlt
    have hy := y.2.2
    rw [abs_of_nonpos (by linarith)] at hy
    linarith

theorem not_lt_ofReal {y : Binary64} (h : x ≤ y) : ¬ finite y < ofReal x := by
  have hround := roundBinary64_le y.2.1 h
  unfold ofReal
  split_ifs with hlt
  · exact not_lt.2 hround
  · rw [finite_lt_inf, decide_eq_false_iff_not, not_lt]
    intro hnonneg
    have hround' := le_roundBinary64 inBinary64_zero hnonneg
    rw [abs_of_nonneg hround'] at hlt
    have hy := y.2.2
    rw [abs_of_nonneg (by linarith)] at hy
    linarith

theorem ofReal_eq_finite {y : Binary64} (hx : 0 ≤ x) (h : x ≤ y) :
    ∃ z : Binary64, ofReal x = finite z ∧ (z : ℝ) = roundBinary64 x ∧ 0 ≤ (z : ℝ) ∧ (z : ℝ) ≤ y := by
  have hlow := le_roundBinary64 inBinary64_zero hx
  have hhigh := roundBinary64_le y.2.1 h
  have hlt : |roundBinary64 x| < pow2 1024 := by
    rw [abs_of_nonneg hlow]
    exact hhigh.trans_lt ((le_abs_self _).trans_lt y.2.2)
  exact ⟨_, ofReal_of_lt hlt, rfl, hlow, hhigh⟩

end OfReal

section Domain
variable {x y : PyFloat}

/-- The square neither overflows, -/
def SquareFinite (x : PyFloat) : Prop :=
  ∀ y : Binary64, x = finite y → (y : ℝ) * y < pow2 1024 - pow2 970

instance : DecidablePred SquareFinite := Classical.decPred _

/-- nor is it rounded to 0. -/
def SquareNonzero (x : PyFloat) : Prop := ∀ y : Binary64, x = finite y → pow2 (-1075) < (y : ℝ) * y

theorem ofReal_eq_zero_iff {x : ℝ} (hx : 0 ≤ x) : ofReal x = 0 ↔ x ≤ pow2 (-1075) := by
  have hnonneg := le_roundBinary64 inBinary64_zero hx
  rw [← not_lt, ← roundBinary64_pos_iff, not_lt]
  by_cases hlt : |roundBinary64 x| < pow2 1024
  · rw [ofReal_of_lt hlt, finite_eq_zero_iff]
    exact ⟨fun h => h.le, fun h => le_antisymm h hnonneg⟩
  · rw [ofReal, dif_neg hlt]
    refine iff_of_false inf_ne_zero fun h => hlt ?_
    rw [le_antisymm h hnonneg, abs_zero]
    exact pow2_pos _

theorem ofReal_ne_inf_iff {x : ℝ} (hx : 0 ≤ x) :
    (∀ a, ofReal x ≠ inf a) ↔ x < pow2 1024 - pow2 970 := by
  rw [← roundBinary64_lt_overflow_iff, ← abs_of_nonneg (le_roundBinary64 inBinary64_zero hx)]
  by_cases hlt : |roundBinary64 x| < pow2 1024
  · rw [ofReal_of_lt hlt]
    exact iff_of_true (fun a => PyFloat.noConfusion) hlt
  · rw [ofReal, dif_neg hlt]
    exact iff_of_false (fun h => h _ rfl) hlt

/-- The least number that is positive. -/
def least : Binary64 :=
  ⟨pow2 (-1074), inBinary64_pow2 le_rfl, by
    rw [abs_of_pos (pow2_pos _)]
    exact pow2_lt_pow2 (by norm_num)⟩

theorem ofReal_ne_zero {x : ℝ} (h : pow2 (-1074) ≤ |x|) : ofReal x ≠ 0 := by
  intro heq
  rcases le_abs.1 h with hle | hle
  · have hlt : ¬ ofReal x < finite least := not_ofReal_lt hle
    rw [heq] at hlt
    exact hlt (pow2_pos (-1074))
  · let y : Binary64 := ⟨-pow2 (-1074), least.2.1.neg, by
      rw [abs_neg]
      exact least.2.2⟩
    have hlt : ¬ finite y < ofReal x := not_lt_ofReal (by linarith)
    rw [heq] at hlt
    exact hlt (neg_lt_zero.2 (pow2_pos (-1074)))

theorem ofReal_nonpos {x : ℝ} (hx : x ≤ 0) : ofReal x < 0 ∨ ofReal x = 0 := by
  have hround := roundBinary64_le inBinary64_zero hx
  by_cases hlt : |roundBinary64 x| < pow2 1024
  · rw [ofReal_of_lt hlt, finite_lt_zero, finite_eq_zero_iff]
    exact hround.lt_or_eq
  · rw [ofReal, dif_neg hlt]
    refine .inl (decide_eq_true (lt_of_le_of_ne hx ?_))
    rintro rfl
    rw [roundBinary64_eq inBinary64_zero, abs_zero] at hlt
    exact hlt (pow2_pos _)

theorem ofNat_eq_finite {n : ℕ} (h : n ≤ 2 ^ 53) :
    ∃ x : Binary64, ofNat n = finite x ∧ (x : ℝ) = n := by
  have hle : |(n : ℤ)| ≤ 2 ^ 53 := by
    rw [abs_of_nonneg (Int.natCast_nonneg n)]
    exact_mod_cast h
  have hn : InBinary64 n := ⟨n, 0, hle, by norm_num, by simp [pow2]⟩
  have hlt : |(n : ℝ)| < pow2 1024 := by
    have hcast : |(n : ℝ)| ≤ ((2 ^ 53 : ℤ) : ℝ) := by exact_mod_cast hle
    refine hcast.trans_lt ?_
    rw [← pow2_natCast]
    exact pow2_lt_pow2 (by norm_num)
  exact ⟨⟨n, hn, hlt⟩, ofReal_coe ⟨n, hn, hlt⟩, rfl⟩

theorem overflows_mul_self_iff : x.overflows (x.mul x) = true ↔ ¬ x.SquareFinite := by
  cases x with
  | nan => simp [overflows, SquareFinite]
  | inf a => simp [overflows, SquareFinite]
  | finite x =>
    have hiff := ofReal_ne_inf_iff (mul_self_nonneg (x : ℝ))
    have hfinite : (finite x).SquareFinite ↔ (x : ℝ) * x < pow2 1024 - pow2 970 := by
      simp [SquareFinite]
    rw [hfinite, ← hiff]
    show overflows (finite x) (ofReal (x * x)) = true ↔ _
    cases ofReal ((x : ℝ) * x) <;> simp [overflows]

theorem mul_self_eq_zero_iff : x.mul x = 0 ↔ ¬ x.SquareNonzero := by
  cases x with
  | nan => simp [SquareNonzero, mul]
  | inf a => simp [SquareNonzero, mul]
  | finite x =>
    rw [mul, ofReal_eq_zero_iff (mul_self_nonneg _)]
    simp [SquareNonzero]

theorem two_mul_eq_zero_iff : (ofNat 2).mul x = 0 ↔ x = 0 := by
  obtain ⟨two, htwo, hval⟩ := ofNat_eq_finite (n := 2) (by norm_num)
  rw [htwo]
  cases x with
  | nan => simp [mul]
  | inf a =>
    rw [mul, if_neg (by rw [hval]; norm_num)]
    simp
  | finite x =>
    rw [mul, finite_eq_zero_iff, hval]
    refine ⟨fun h => ?_, fun h => ?_⟩
    · by_contra hne
      refine ofReal_ne_zero ((x.2.1.least_le_abs hne).trans ?_) h
      rw [abs_mul, Nat.cast_ofNat, abs_two]
      linarith [abs_nonneg (x : ℝ)]
    · rw [h, mul_zero, ofReal_eq_zero_iff le_rfl]
      exact (pow2_pos _).le

theorem log_eq_none_iff : log x = none ↔ x < 0 ∨ x = 0 := by
  cases x with
  | nan => simp [log]
  | inf a => simp [log]
  | finite x =>
    rw [finite_lt_zero, finite_eq_zero_iff, ← le_iff_lt_or_eq, log]
    split_ifs with h <;> simp [h]

theorem log_one_sub_eq_none_iff : log (sub 1 x) = none ↔ x = 1 ∨ 1 < x := by
  rw [log_eq_none_iff]
  cases x with
  | nan => exact iff_of_false (by simp [sub]) (by simp)
  | inf a => cases a <;> simp [sub, one_eq]
  | finite x =>
    rw [finite_eq_one_iff, one_lt_finite]
    show ofReal (1 - x) < 0 ∨ ofReal (1 - x) = 0 ↔ _
    constructor
    · intro h
      by_contra hnot
      have hlt : (x : ℝ) < 1 := by
        rw [not_or, not_lt] at hnot
        exact lt_of_le_of_ne hnot.2 hnot.1
      rcases h with h | h
      · exact not_ofReal_lt (y := ⟨0, inBinary64_zero, by simpa using pow2_pos 1024⟩)
          (by linarith : (0 : ℝ) ≤ 1 - x) h
      · refine ofReal_ne_zero ?_ h
        exact (x.2.1.least_le_sub inBinary64_one hlt).trans (le_abs_self _)
    · intro h
      refine ofReal_nonpos ?_
      rcases h with h | h <;> linarith

theorem sub_one_ne_zero (h : 1 < x) : x.sub 1 ≠ 0 := by
  cases x with
  | nan => exact absurd h not_lt_nan
  | inf a => exact inf_ne_zero
  | finite x =>
    exact ofReal_ne_zero ((inBinary64_one.least_le_sub x.2.1 h).trans (le_abs_self _))

theorem divNat_eq {m n : ℕ} (hn : 1 ≤ n) {q : Binary64} (h : ofReal (m / n) = finite q) :
    divNat m n = some (finite q) := by
  rw [divNat, if_neg (by omega), h]

/-- A quotient is in the unit interval if it is not rounded to 0, nor to more than 1. -/
theorem divNat_mem_Ioc_iff {m n : ℕ} (hm : 1 ≤ m) (hn : 1 ≤ n) :
    (∃ q : Binary64, divNat m n = some (finite q) ∧ 0 < (q : ℝ) ∧ (q : ℝ) ≤ 1) ↔
      n < m * 2 ^ 1075 ∧ m * 2 ^ 53 ≤ n * (2 ^ 53 + 1) := by
  have hm' : (0 : ℝ) < m := Nat.cast_pos.2 hm
  have hn' : (0 : ℝ) < n := Nat.cast_pos.2 hn
  have hlow : pow2 (-1075) < (m : ℝ) / n ↔ n < m * 2 ^ 1075 := by
    rw [lt_div_iff₀ hn', ← mul_lt_mul_iff_left₀ (by positivity : (0 : ℝ) < ((2 ^ 1075 : ℕ) : ℝ)),
      mul_right_comm, pow2_mul_natCast (by norm_num), one_mul, ← Nat.cast_mul, Nat.cast_lt]
  have hhigh : (m : ℝ) / n ≤ 1 + pow2 (-53) ↔ m * 2 ^ 53 ≤ n * (2 ^ 53 + 1) := by
    rw [div_le_iff₀ hn', ← mul_le_mul_iff_left₀ (by positivity : (0 : ℝ) < ((2 ^ 53 : ℕ) : ℝ)),
      mul_right_comm, add_mul, pow2_mul_natCast (by norm_num), one_mul, mul_comm _ (n : ℝ),
      ← Nat.cast_mul, ← Nat.cast_add_one, ← Nat.cast_mul, Nat.cast_le]
  rw [← hlow, ← hhigh, ← roundBinary64_pos_iff, ← roundBinary64_le_one_iff]
  constructor
  · rintro ⟨q, hq, hpos, hle⟩
    rw [divNat, if_neg (by omega)] at hq
    by_cases hlt : |roundBinary64 ((m : ℝ) / n)| < pow2 1024
    · rw [ofReal_of_lt hlt] at hq
      obtain rfl := PyFloat.finite.inj (Option.some.inj hq)
      exact ⟨hpos, hle⟩
    · rw [ofReal, dif_neg hlt] at hq
      cases hq
  · rintro ⟨hpos, hle⟩
    have hlt : |roundBinary64 ((m : ℝ) / n)| < pow2 1024 := by
      rw [abs_of_pos hpos]
      exact hle.trans_lt ((le_abs_self 1).trans_lt one_lt_pow2)
    exact ⟨_, divNat_eq hn (ofReal_of_lt hlt), hpos, hle⟩

end Domain

section LogSumExp
variable {x y m : PyFloat} {xs : List PyFloat}

theorem not_add_lt_of_nonneg {z : Binary64} (hx : ¬ x < finite z) (hy : ¬ y < 0) :
    ¬ add x y < finite z := by
  cases x <;> cases y <;> simp only [add, not_nan_lt, not_false_eq_true] <;>
    simp only [inf_lt_finite, finite_lt_finite, finite_lt_zero, not_lt] at hx hy
  · split_ifs
    · exact hx
    · exact not_nan_lt
  · exact hx
  · exact hy
  · exact not_ofReal_lt (by linarith)

theorem add_symm (x y : PyFloat) : add x y = add y x := by
  cases x <;> cases y <;> simp only [add]
  · split_ifs with h₁ h₂ h₂ <;> simp_all
  · rw [add_comm]

theorem not_foldl_add_lt {z : Binary64} (hx : ¬ x < 0) (hxs : ∀ y ∈ xs, ¬ y < 0)
    (h : ¬ x < finite z ∨ ∃ y ∈ xs, ¬ y < finite z) : ¬ xs.foldl add x < finite z := by
  induction xs generalizing x with
  | nil => simpa using h
  | cons y xs ih =>
    obtain ⟨hy, hxs⟩ := List.forall_mem_cons.1 hxs
    refine ih (not_add_lt_of_nonneg hx hy) hxs ?_
    rcases h with h | ⟨y', hmem, h⟩
    · exact .inl (not_add_lt_of_nonneg h hy)
    · rcases List.mem_cons.1 hmem with rfl | hmem
      · rw [add_symm]
        exact .inl (not_add_lt_of_nonneg h hx)
      · exact .inr ⟨y', hmem, h⟩

theorem not_lt_sub (h : ¬ m < x) : ¬ 0 < x.sub m := by
  cases x <;> cases m <;> simp only [sub, not_lt_nan, not_false_eq_true]
  case inf.inf a b =>
    rw [inf_lt_inf] at h
    split_ifs
    · exact not_lt_nan
    · cases a <;> cases b <;> simp_all [show ¬ (0 : PyFloat) < inf true from Bool.noConfusion]
  case inf.finite a x =>
    cases a
    · exact absurd rfl h
    · exact Bool.noConfusion
  case finite.inf x b =>
    cases b
    · exact Bool.noConfusion
    · exact absurd rfl h
  case finite.finite x m => exact not_lt_ofReal (sub_nonpos.2 (not_lt.1 h))

theorem not_sub_self_lt : ¬ m.sub m < 0 := by
  cases m with
  | nan => exact not_nan_lt
  | inf a =>
    rw [sub, if_pos rfl]
    exact not_nan_lt
  | finite x => exact not_ofReal_lt (sub_self (x : ℝ)).ge

/-- `exp` is below 1 where its argument is not positive, -/
theorem exp_of_not_pos (h : ¬ 0 < x) : ∃ y, exp x = some y ∧ ¬ y < 0 := by
  cases x with
  | nan => exact ⟨nan, rfl, not_nan_lt⟩
  | inf a =>
    cases a
    · exact absurd rfl h
    · exact ⟨0, rfl, PyFloat.lt_irrefl 0⟩
  | finite x =>
    have hle : Real.exp x ≤ ((⟨1, inBinary64_one, one_lt_pow2⟩ : Binary64) : ℝ) :=
      Real.exp_le_one_iff.2 (not_lt.1 h)
    obtain ⟨z, hz, -, hnonneg, -⟩ := ofReal_eq_finite (Real.exp_pos x).le hle
    exact ⟨finite z, by rw [exp, hz], not_lt.2 hnonneg⟩

/-- and not where it is not negative. -/
theorem not_exp_lt_one (h : ¬ x < 0) (hy : exp x = some y) : ¬ y < 1 := by
  cases x with
  | nan =>
    obtain rfl := Option.some.inj hy
    exact not_nan_lt
  | inf a =>
    cases a
    · obtain rfl := Option.some.inj hy
      exact Bool.noConfusion
    · exact absurd rfl h
  | finite x =>
    have hround : ¬ ofReal (Real.exp x) < 1 := not_ofReal_lt (Real.one_le_exp (not_lt.1 h))
    rw [exp] at hy
    split at hy
    · cases hy
    · obtain rfl := Option.some.inj hy
      exact hround

theorem log_ne_none (h : ¬ x < 1) : log x ≠ none := by
  cases x with
  | nan => exact Option.some_ne_none _
  | inf a =>
    cases a
    · exact Option.some_ne_none _
    · exact absurd rfl h
  | finite x =>
    rw [log, if_neg (by linarith [not_lt.1 (finite_lt_one.not.1 h)] : ¬ (x : ℝ) ≤ 0)]
    exact Option.some_ne_none _

theorem foldl_max (x : PyFloat) (xs : List PyFloat) :
    let m := xs.foldl (fun m x => if m < x then x else m) x
    m ∈ x :: xs ∧ (m = x ∨ x < m) ∧ ∀ y ∈ xs, ¬ m < y := by
  induction xs generalizing x with
  | nil => simp
  | cons y xs ih =>
    obtain ⟨hmem, hge, hall⟩ := ih (if x < y then y else x)
    rw [List.foldl_cons]
    split_ifs at hmem hge hall ⊢ with hlt
    · refine ⟨List.mem_cons_of_mem _ hmem, .inr ?_, List.forall_mem_cons.2 ⟨?_, hall⟩⟩
      · rcases hge with heq | hlt'
        · rw [heq]
          exact hlt
        · exact PyFloat.lt_trans hlt hlt'
      · rcases hge with heq | hlt'
        · rw [heq]
          exact PyFloat.lt_irrefl y
        · exact not_lt_trans (PyFloat.lt_irrefl _) hlt'
    · refine ⟨?_, hge, List.forall_mem_cons.2 ⟨?_, hall⟩⟩
      · rcases List.mem_cons.1 hmem with heq | hmem
        · rw [heq]
          exact List.mem_cons_self
        · exact List.mem_cons_of_mem _ (List.mem_cons_of_mem _ hmem)
      · rcases hge with heq | hlt'
        · rw [heq]
          exact hlt
        · exact not_lt_trans hlt hlt'

/-- None of this raises: the greatest term is left as 0, and its exponential as 1. -/
theorem logSumExp_ne_none (h : xs ≠ []) : logSumExp xs ≠ none := by
  obtain ⟨x, xs, rfl⟩ := List.exists_cons_of_ne_nil h
  obtain ⟨hmem, hge, hall⟩ := foldl_max x xs
  set m := xs.foldl (fun m x => if m < x then x else m) x with hm
  have hall' : ∀ y ∈ x :: xs, ¬ m < y := by
    refine List.forall_mem_cons.2 ⟨?_, hall⟩
    rcases hge with heq | hlt
    · exact heq ▸ PyFloat.lt_irrefl _
    · exact not_lt_trans (PyFloat.lt_irrefl _) hlt
  have hexp : ∀ y ∈ x :: xs, ∃ e, exp (y.sub m) = some e ∧ ¬ e < 0 := fun y hy =>
    exp_of_not_pos (not_lt_sub (hall' y hy))
  choose! f hf hnonneg using hexp
  have hexps : (x :: xs).mapM (fun t => exp (t.sub m)) = some ((x :: xs).map f) :=
    mapM_of_forall_some hf
  have hone : ¬ sum ((x :: xs).map f) < 1 := by
    refine not_foldl_add_lt (PyFloat.lt_irrefl 0) (by simpa using hnonneg) (.inr ⟨f m, ?_, ?_⟩)
    · exact List.mem_map_of_mem hmem
    · exact not_exp_lt_one not_sub_self_lt (hf m hmem)
  obtain ⟨l, hl⟩ := Option.ne_none_iff_exists'.1 (log_ne_none hone)
  rw [logSumExp, max, Option.bind_some, ← hm, hexps, Option.bind_some, hl]
  exact Option.some_ne_none _

end LogSumExp

end PyFloat

namespace FloatKind
open PyFloat
variable {kind : FloatKind} {x y : PyFloat}

theorem square_eq :
    kind.square x = if kind = python ∧ ¬ x.SquareFinite then none else some (x.mul x) := by
  have hiff : x.overflows (x.mul x) = true ↔ ¬ x.SquareFinite := overflows_mul_self_iff
  simp only [square, hiff]

theorem div_eq_none_iff : kind.div x y = none ↔ kind = python ∧ y = 0 := by
  simp [div]

end FloatKind

end

end Support
