import GossipRl.Gossip.Compression
import Mathlib.Data.Rat.Floor
import Mathlib.Tactic.FieldSimp
import Mathlib.Tactic.Linarith
import Mathlib.Tactic.LinearCombination
import Mathlib.Tactic.NormNum
import Mathlib.Tactic.Ring

/-!
# Quantization

The codes are the points of a grid of `levels` points from the least gradient to the greatest one.
`quantize` goes to a nearest point, `dequantize` to the number it stands for. The two ends are points
of the grid, so the grid of the numbers that come back is the same one.
-/

namespace GossipRl

variable {K : Type*} [Field K] [LinearOrder K]

section Round
variable [FloorRing K] {x y : K}

theorem npRound_cases (x : K) :
    npRound x = ⌊x⌋ ∧ Int.fract x ≤ 1 / 2 ∨ npRound x = ⌊x⌋ + 1 ∧ 1 / 2 ≤ Int.fract x := by
  unfold npRound
  push_cast
  split_ifs with hlow hhigh heven
  · exact .inl ⟨rfl, hlow.le⟩
  · exact .inr ⟨rfl, hhigh.le⟩
  · exact .inl ⟨rfl, not_lt.1 hhigh⟩
  · exact .inr ⟨rfl, not_lt.1 hlow⟩

variable [IsStrictOrderedRing K]

theorem abs_npRound_sub_le (x : K) : |(npRound x : K) - x| ≤ 1 / 2 := by
  have hfloor := Int.floor_add_fract x
  have hnonneg := Int.fract_nonneg x
  have hlt := Int.fract_lt_one x
  rw [abs_le]
  rcases npRound_cases x with ⟨hround, hfract⟩ | ⟨hround, hfract⟩
  · rw [hround]
    constructor <;> linarith
  · rw [hround]
    push_cast
    constructor <;> linarith

theorem npRound_intCast (n : Int) : npRound (n : K) = n := by
  rw [npRound, Int.fract_intCast, if_pos (by norm_num), Int.floor_intCast]

theorem npRound_mono (h : x ≤ y) : npRound x ≤ npRound y := by
  by_contra hlt
  rw [not_le] at hlt
  have hx := abs_le.1 (abs_npRound_sub_le x)
  have hy := abs_le.1 (abs_npRound_sub_le y)
  have hstep : (npRound y : K) + 1 ≤ npRound x := by exact_mod_cast hlt
  -- there is no room but for one number, halfway between the two
  obtain rfl : x = y := le_antisymm h (by linarith)
  exact lt_irrefl _ hlt

end Round

namespace QuantizationCompressor
variable {c : QuantizationCompressor} {minVal maxVal x y : K} {q : Int}

/-- What a code stands for. -/
def dequantize (c : QuantizationCompressor) (minVal maxVal : K) (q : Int) : K :=
  q / (c.levels - 1) * (maxVal - minVal) + minVal

omit [LinearOrder K] in
theorem dequantize_zero : c.dequantize minVal maxVal 0 = minVal := by
  rw [dequantize, Int.cast_zero, zero_div, zero_mul, zero_add]

omit [LinearOrder K] in
theorem cast_levels_sub_one (c : QuantizationCompressor) :
    (c.levels : K) - 1 = ((c.levels - 1 : Int) : K) := by
  push_cast
  rfl

variable [IsStrictOrderedRing K]

theorem levels_sub_one_pos (hbits : 1 ≤ c.bits) : (0 : K) < c.levels - 1 := by
  have hlevels : 1 < c.levels := Nat.one_lt_two_pow (by omega)
  have hcast : (1 : K) < c.levels := by exact_mod_cast hlevels
  linarith

theorem normalized_nonneg (maxVal : K) (hx : minVal ≤ x) : 0 ≤ normalized minVal maxVal x := by
  unfold normalized
  split_ifs with hwidth
  · exact div_nonneg (by linarith) hwidth.le
  · exact le_rfl

theorem normalized_le_one (minVal : K) (hx : x ≤ maxVal) : normalized minVal maxVal x ≤ 1 := by
  unfold normalized
  split_ifs with hwidth
  · exact (div_le_one hwidth).2 (by linarith)
  · exact zero_le_one

theorem normalized_mono (h : x ≤ y) : normalized minVal maxVal x ≤ normalized minVal maxVal y := by
  unfold normalized
  split_ifs with hwidth
  · exact div_le_div_of_nonneg_right (by linarith) hwidth.le
  · exact le_rfl

theorem normalized_mul (hmin : minVal ≤ x) (hmax : x ≤ maxVal) :
    normalized minVal maxVal x * (maxVal - minVal) + minVal = x := by
  unfold normalized
  split_ifs with hwidth
  · rw [div_mul_cancel₀ _ hwidth.ne']
    ring
  · linarith

theorem dequantize_mono {q' : Int} (hbits : 1 ≤ c.bits) (hle : minVal ≤ maxVal) (h : q ≤ q') :
    c.dequantize minVal maxVal q ≤ c.dequantize minVal maxVal q' := by
  have hpos := levels_sub_one_pos (K := K) hbits
  have hcast : (q : K) ≤ q' := by exact_mod_cast h
  have hdiv := div_le_div_of_nonneg_right hcast hpos.le
  exact add_le_add_left (mul_le_mul_of_nonneg_right hdiv (by linarith)) _

theorem dequantize_top (hbits : 1 ≤ c.bits) :
    c.dequantize minVal maxVal (c.levels - 1) = maxVal := by
  have hpos := levels_sub_one_pos (K := K) hbits
  rw [dequantize]
  push_cast
  rw [div_self hpos.ne']
  ring

variable [FloorRing K]

theorem quantize_mono (hbits : 1 ≤ c.bits) (h : x ≤ y) :
    c.quantize minVal maxVal x ≤ c.quantize minVal maxVal y :=
  npRound_mono (mul_le_mul_of_nonneg_right (normalized_mono h) (levels_sub_one_pos hbits).le)

theorem quantize_nonneg (maxVal : K) (hbits : 1 ≤ c.bits) (hx : minVal ≤ x) :
    0 ≤ c.quantize minVal maxVal x := by
  have hle := npRound_mono (mul_nonneg (normalized_nonneg maxVal hx)
    (levels_sub_one_pos (c := c) hbits).le)
  rwa [← Int.cast_zero, npRound_intCast] at hle

theorem quantize_le (minVal : K) (hbits : 1 ≤ c.bits) (hx : x ≤ maxVal) :
    c.quantize minVal maxVal x ≤ c.levels - 1 := by
  have hle := npRound_mono (mul_le_of_le_one_left (levels_sub_one_pos (c := c) hbits).le
    (normalized_le_one minVal hx))
  rw [cast_levels_sub_one, npRound_intCast] at hle
  rwa [quantize, cast_levels_sub_one]

theorem abs_dequantize_sub_le (hbits : 1 ≤ c.bits) (hmin : minVal ≤ x) (hmax : x ≤ maxVal) :
    |c.dequantize minVal maxVal (c.quantize minVal maxVal x) - x| ≤
      (maxVal - minVal) / (2 * (c.levels - 1)) := by
  have hpos := levels_sub_one_pos (K := K) hbits
  have hwidth : 0 ≤ maxVal - minVal := by linarith
  have hround := abs_npRound_sub_le (normalized minVal maxVal x * (c.levels - 1))
  have hdiff : c.dequantize minVal maxVal (c.quantize minVal maxVal x) - x =
      (c.quantize minVal maxVal x - normalized minVal maxVal x * (c.levels - 1)) *
        ((maxVal - minVal) / (c.levels - 1)) := by
    have hx := normalized_mul hmin hmax
    rw [dequantize]
    field_simp
    linear_combination ((c.levels : K) - 1) * hx
  rw [hdiff, abs_mul, abs_of_nonneg (div_nonneg hwidth hpos.le)]
  calc |(c.quantize minVal maxVal x : K) - normalized minVal maxVal x * (c.levels - 1)| *
        ((maxVal - minVal) / (c.levels - 1))
      ≤ 1 / 2 * ((maxVal - minVal) / (c.levels - 1)) :=
        mul_le_mul_of_nonneg_right hround (div_nonneg hwidth hpos.le)
    _ = (maxVal - minVal) / (2 * (c.levels - 1)) := by
        field_simp

theorem quantize_dequantize (hbits : 1 ≤ c.bits) (hwidth : minVal < maxVal) :
    c.quantize minVal maxVal (c.dequantize minVal maxVal q) = q := by
  have hpos := levels_sub_one_pos (K := K) hbits
  have hne : maxVal - minVal ≠ 0 := (sub_pos.2 hwidth).ne'
  rw [quantize, normalized, if_pos (sub_pos.2 hwidth), dequantize, add_sub_cancel_right,
    mul_div_cancel_right₀ _ hne, div_mul_cancel₀ _ hpos.ne', npRound_intCast]

/-- The least gradient and the greatest one. -/
structure Spans (minVal maxVal : K) (gradients : List K) : Prop where
  min_mem : minVal ∈ gradients
  max_mem : maxVal ∈ gradients
  bounds : ∀ x ∈ gradients, minVal ≤ x ∧ x ≤ maxVal

omit [Field K] [IsStrictOrderedRing K] [FloorRing K] in
theorem exists_spans {gradients : List K} (hne : gradients ≠ []) :
    ∃ minVal maxVal, Spans minVal maxVal gradients := by
  obtain ⟨minVal, hmin⟩ := Option.isSome_iff_exists.1 (List.isSome_min?_of_ne_nil hne)
  obtain ⟨maxVal, hmax⟩ := Option.isSome_iff_exists.1 (List.isSome_max?_of_ne_nil hne)
  obtain ⟨hminmem, hminle⟩ := List.min?_eq_some_iff.1 hmin
  obtain ⟨hmaxmem, hlemax⟩ := List.max?_eq_some_iff.1 hmax
  exact ⟨minVal, maxVal, hminmem, hmaxmem, fun x hx => ⟨hminle x hx, hlemax x hx⟩⟩

/-- The byte for a gradient. -/
def code (c : QuantizationCompressor) (minVal maxVal x : K) : UInt8 :=
  UInt8.ofNat (c.quantize minVal maxVal x).toNat

omit [IsStrictOrderedRing K] in
theorem compress_of_spans {gradients : List K} (itemsize : Nat)
    (h : Spans minVal maxVal gradients) : ∃ stats, c.compress itemsize gradients =
      some (gradients.map (c.code minVal maxVal), (minVal, maxVal), stats) := by
  have hmin : gradients.min? = some minVal :=
    List.min?_eq_some_iff.2 ⟨h.min_mem, fun x hx => (h.bounds x hx).1⟩
  have hmax : gradients.max? = some maxVal :=
    List.max?_eq_some_iff.2 ⟨h.max_mem, fun x hx => (h.bounds x hx).2⟩
  unfold compress
  rw [hmin, hmax, Option.bind_some, Option.map_some]
  exact ⟨_, rfl⟩

theorem toNat_code (hbits : 1 ≤ c.bits) (hbits' : c.bits ≤ 8) (hmin : minVal ≤ x)
    (hmax : x ≤ maxVal) : ((c.code minVal maxVal x).toNat : Int) = c.quantize minVal maxVal x := by
  have hnonneg := quantize_nonneg maxVal hbits hmin
  have hle := quantize_le minVal hbits hmax
  have hlevels : c.levels ≤ 256 := Nat.pow_le_pow_right (by decide) hbits'
  rw [code, UInt8.toNat_ofNat', Nat.mod_eq_of_lt (by omega), Int.toNat_of_nonneg hnonneg]

theorem toNat_code_le (hbits : 1 ≤ c.bits) (hbits' : c.bits ≤ 8) (hmin : minVal ≤ x)
    (hmax : x ≤ maxVal) : (c.code minVal maxVal x).toNat ≤ 2 ^ c.bits - 1 := by
  have hle := quantize_le minVal hbits hmax
  rw [← toNat_code hbits hbits' hmin hmax, levels] at hle
  have hpos := Nat.one_le_two_pow (n := c.bits)
  omega

/-- What comes back for a gradient. -/
def restored (c : QuantizationCompressor) (minVal maxVal x : K) : K :=
  c.dequantize minVal maxVal (c.quantize minVal maxVal x)

theorem restored_min : c.restored minVal maxVal minVal = minVal := by
  have hzero : normalized minVal maxVal minVal = 0 := by
    rw [normalized, sub_self, zero_div, ite_self]
  rw [restored, quantize, hzero, zero_mul, ← Int.cast_zero, npRound_intCast, dequantize_zero]

theorem restored_max (hbits : 1 ≤ c.bits) (hle : minVal ≤ maxVal) :
    c.restored minVal maxVal maxVal = maxVal := by
  rcases hle.eq_or_lt with rfl | hlt
  · exact restored_min
  · have hone : normalized minVal maxVal maxVal = 1 := by
      rw [normalized, if_pos (sub_pos.2 hlt), div_self (sub_pos.2 hlt).ne']
    rw [restored, quantize, hone, one_mul, cast_levels_sub_one, npRound_intCast,
      dequantize_top hbits]

theorem restored_mono (hbits : 1 ≤ c.bits) (hle : minVal ≤ maxVal) (h : x ≤ y) :
    c.restored minVal maxVal x ≤ c.restored minVal maxVal y :=
  dequantize_mono hbits hle (quantize_mono hbits h)

theorem quantize_restored (hbits : 1 ≤ c.bits) (hmin : minVal ≤ x) (hmax : x ≤ maxVal) :
    c.quantize minVal maxVal (c.restored minVal maxVal x) = c.quantize minVal maxVal x := by
  rcases (hmin.trans hmax).eq_or_lt with rfl | hlt
  · obtain rfl := le_antisymm hmin hmax
    rw [restored_min]
  · exact quantize_dequantize hbits hlt

theorem map_code_restored {gradients : List K} (h : Spans minVal maxVal gradients)
    (hbits : 1 ≤ c.bits) :
    (gradients.map (c.restored minVal maxVal)).map (c.code minVal maxVal) =
      gradients.map (c.code minVal maxVal) := by
  rw [List.map_map]
  refine List.map_congr_left fun x hx => ?_
  obtain ⟨hmin, hmax⟩ := h.bounds x hx
  rw [Function.comp_apply, code, code, quantize_restored hbits hmin hmax]

theorem Spans.restored {gradients : List K} (h : Spans minVal maxVal gradients)
    (hbits : 1 ≤ c.bits) : Spans minVal maxVal (gradients.map (c.restored minVal maxVal)) := by
  have hle : minVal ≤ maxVal := (h.bounds minVal h.min_mem).2
  refine ⟨List.mem_map.2 ⟨minVal, h.min_mem, restored_min⟩,
    List.mem_map.2 ⟨maxVal, h.max_mem, restored_max hbits hle⟩, fun y hy => ?_⟩
  obtain ⟨x, hx, rfl⟩ := List.mem_map.1 hy
  obtain ⟨hmin, hmax⟩ := h.bounds x hx
  have hlow := restored_mono hbits hle hmin
  have hhigh := restored_mono hbits hle hmax
  rw [restored_min] at hlow
  rw [restored_max hbits hle] at hhigh
  exact ⟨hlow, hhigh⟩

theorem decompress_codes {gradients : List K} (h : Spans minVal maxVal gradients)
    (hbits : 1 ≤ c.bits) (hbits' : c.bits ≤ 8) :
    c.decompress (gradients.map (c.code minVal maxVal)) (minVal, maxVal) =
      gradients.map (c.restored minVal maxVal) := by
  rw [decompress, List.map_map]
  refine List.map_congr_left fun x hx => ?_
  obtain ⟨hmin, hmax⟩ := h.bounds x hx
  have hcode := congrArg (Int.cast : Int → K) (toNat_code hbits hbits' hmin hmax)
  rw [Int.cast_natCast] at hcode
  rw [Function.comp_apply, hcode]
  rfl

end QuantizationCompressor

open QuantizationCompressor

/-- The codes are those of the points of the grid, what comes back is within half a step of the
gradients and in their order, and compressed again it gives the same. -/
theorem quantization_round_trip [IsStrictOrderedRing K] [FloorRing K] (itemsize : Nat)
    {c : QuantizationCompressor} (hbits : 1 ≤ c.bits) (hbits' : c.bits ≤ 8) {gradients : List K}
    (hne : gradients ≠ []) :
    ∃ codes minVal maxVal stats,
      c.compress itemsize gradients = some (codes, (minVal, maxVal), stats) ∧
      Spans minVal maxVal gradients ∧
      codes.map (fun code => (code.toNat : Int)) = gradients.map (c.quantize minVal maxVal) ∧
      (∀ code ∈ codes, code.toNat ≤ 2 ^ c.bits - 1) ∧
      (c.decompress codes (minVal, maxVal)).length = gradients.length ∧
      (∀ i < gradients.length,
        |(c.decompress codes (minVal, maxVal)).getD i 0 - gradients.getD i 0| ≤
          (maxVal - minVal) / (2 * (2 ^ c.bits - 1))) ∧
      (∀ i < gradients.length, ∀ j < gradients.length, gradients.getD i 0 ≤ gradients.getD j 0 →
        (c.decompress codes (minVal, maxVal)).getD i 0 ≤
          (c.decompress codes (minVal, maxVal)).getD j 0) ∧
      ∃ stats', c.compress itemsize (c.decompress codes (minVal, maxVal)) =
        some (codes, (minVal, maxVal), stats') := by
  obtain ⟨minVal, maxVal, hspans⟩ := exists_spans hne
  obtain ⟨stats, hcompress⟩ := compress_of_spans (c := c) itemsize hspans
  obtain ⟨stats', hagain⟩ := compress_of_spans (c := c) itemsize (hspans.restored hbits)
  have hle : minVal ≤ maxVal := (hspans.bounds minVal hspans.min_mem).2
  have hcodes := decompress_codes hspans hbits hbits'
  have hget : ∀ i < gradients.length,
      (gradients.map (c.restored minVal maxVal)).getD i 0 =
        c.restored minVal maxVal (gradients.getD i 0) := fun i hi => Support.getD_map_of_lt 0 hi
  have hbounds : ∀ i < gradients.length,
      minVal ≤ gradients.getD i 0 ∧ gradients.getD i 0 ≤ maxVal := by
    intro i hi
    rw [List.getD_eq_getElem _ _ hi]
    exact hspans.bounds _ (List.getElem_mem hi)
  have hlevels : (c.levels : K) = 2 ^ c.bits := by rw [levels]; push_cast; rfl
  refine ⟨_, minVal, maxVal, stats, hcompress, hspans, ?_, ?_, ?_, ?_, ?_, stats', ?_⟩
  · rw [List.map_map]
    refine List.map_congr_left fun x hx => ?_
    exact toNat_code hbits hbits' (hspans.bounds x hx).1 (hspans.bounds x hx).2
  · intro code hcode
    obtain ⟨x, hx, rfl⟩ := List.mem_map.1 hcode
    exact toNat_code_le hbits hbits' (hspans.bounds x hx).1 (hspans.bounds x hx).2
  · rw [hcodes, List.length_map]
  · intro i hi
    rw [hcodes, hget i hi, ← hlevels]
    exact abs_dequantize_sub_le hbits (hbounds i hi).1 (hbounds i hi).2
  · intro i hi j hj hij
    rw [hcodes, hget i hi, hget j hj]
    exact restored_mono hbits hle hij
  · rw [hcodes, hagain, map_code_restored hspans hbits]

section Example

def fourLevels : QuantizationCompressor := { bits := 2 }

def fourGradients : List ℚ := [1, 2, 4, 7]

example : (fourLevels.compress 4 fourGradients).map (fun (codes, params, _) => (codes, params)) =
    some ([0, 0, 2, 3], (1, 7)) := by
  decide +kernel

theorem four_levels_round_trip : ∃ codes minVal maxVal stats,
    fourLevels.compress 4 fourGradients = some (codes, (minVal, maxVal), stats) ∧
    Spans minVal maxVal fourGradients ∧
    codes.map (fun code => (code.toNat : Int)) =
      fourGradients.map (fourLevels.quantize minVal maxVal) ∧
    (∀ code ∈ codes, code.toNat ≤ 2 ^ fourLevels.bits - 1) ∧
    (fourLevels.decompress codes (minVal, maxVal)).length = fourGradients.length ∧
    (∀ i < fourGradients.length,
      |(fourLevels.decompress codes (minVal, maxVal)).getD i 0 - fourGradients.getD i 0| ≤
        (maxVal - minVal) / (2 * (2 ^ fourLevels.bits - 1))) ∧
    (∀ i < fourGradients.length, ∀ j < fourGradients.length,
      fourGradients.getD i 0 ≤ fourGradients.getD j 0 →
      (fourLevels.decompress codes (minVal, maxVal)).getD i 0 ≤
        (fourLevels.decompress codes (minVal, maxVal)).getD j 0) ∧
    ∃ stats', fourLevels.compress 4 (fourLevels.decompress codes (minVal, maxVal)) =
      some (codes, (minVal, maxVal), stats') :=
  quantization_round_trip 4 (by decide) (by decide) (by decide)

end Example

end GossipRl
