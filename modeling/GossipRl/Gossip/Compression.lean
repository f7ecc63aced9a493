import GossipRl.Support.Scatter
import Mathlib.Algebra.Order.Floor.Semiring
import Mathlib.Algebra.Order.Round
import Mathlib.Algebra.Order.Ring.Abs

/-!
# Gradient compression (`gossip/compression.py`)

Arithmetic is exact, and `none` is an exception. `itemsize` is the number of bytes of an entry of the
gradients that are given, what `nbytes` counts; the values are sent in four bytes each and the indices
in eight. The sorting functions of NumPy are those of `NumPySort`, which may break ties in any way, and
the random choice of indices is an argument.
-/

namespace GossipRl
open Support

variable {K : Type*} [Field K] [LinearOrder K]

/-- `np.argpartition` and `np.argsort`, on one-dimensional arrays. -/
structure NumPySort (K : Type*) [Zero K] [LE K] where
  argpartition : List K → Nat → List Nat
  argsort : List K → List Nat
  argpartition_perm : ∀ a kth, kth < a.length → (argpartition a kth).Perm (List.range a.length)
  /-- Before the `kth` place there is nothing greater than what is there. -/
  argpartition_before : ∀ a kth, kth < a.length → ∀ i ∈ (argpartition a kth).take kth,
    a.getD i 0 ≤ a.getD ((argpartition a kth).getD kth 0) 0
  /-- From the `kth` place on there is nothing less. -/
  argpartition_after : ∀ a kth, kth < a.length → ∀ i ∈ (argpartition a kth).drop kth,
    a.getD ((argpartition a kth).getD kth 0) 0 ≤ a.getD i 0
  argsort_perm : ∀ a, (argsort a).Perm (List.range a.length)
  argsort_sorted : ∀ a, (take a 0 (argsort a)).Pairwise (· ≤ ·)

/-- The sum of two one-dimensional arrays; one with a single entry is added to every entry. -/
def npAdd (xs ys : List K) : Option (List K) :=
  if xs.length = ys.length then some (List.zipWith (· + ·) xs ys)
  else match xs, ys with
    | [x], ys => some (ys.map (x + ·))
    | xs, [y] => some (xs.map (· + y))
    | _, _ => none

structure CompressionStats (K : Type*) where
  originalSize : Nat
  compressedSize : Nat
  compressionRatio : K
  nnz : Nat

/-- `k`, for `size` gradients. -/
def computeK [FloorSemiring K] (size : Nat) (ratio : K) : Nat := max 1 ⌊size * ratio⌋₊

structure TopKCompressor (K : Type*) [Field K] where
  ratio : K := 1 / (100 : ℕ)
  errorFeedback : Option (List K) := none

namespace TopKCompressor

/-- Apply error feedback -/
def applyErrorFeedback (c : TopKCompressor K) (gradients : List K) (useErrorFeedback : Bool) :
    Option (List K) :=
  match useErrorFeedback, c.errorFeedback with
  | true, some errorFeedback => npAdd gradients errorFeedback
  | _, _ => some gradients

/-- Get top-K indices by magnitude -/
def topIndices (np : NumPySort K) (absGrads : List K) (k : Nat) : List Nat :=
  let indices := (np.argpartition absGrads (absGrads.length - k)).drop (absGrads.length - k)
  take indices 0 (np.argsort (take absGrads 0 indices)).reverse

/-- Store error feedback (residual) -/
def storeErrorFeedback (c : TopKCompressor K) (gradients : List K) (indices : List Nat)
    (useErrorFeedback : Bool) : TopKCompressor K :=
  if useErrorFeedback then
    { c with errorFeedback := some (assign gradients indices (indices.map fun _ => 0)) }
  else c

def compress [FloorSemiring K] (np : NumPySort K) (itemsize : Nat) (c : TopKCompressor K)
    (gradients : List K) (useErrorFeedback : Bool := true) :
    Option ((List K × List Int × CompressionStats K) × TopKCompressor K) :=
  (c.applyErrorFeedback gradients useErrorFeedback).bind fun gradients =>
    let k := computeK gradients.length c.ratio
    -- `np.argpartition` raises if `-k` is out of bounds
    if gradients.length < k then none
    else
      let indices := topIndices np (gradients.map abs) k
      let values := take gradients 0 indices
      let stats : CompressionStats K :=
        { originalSize := itemsize * gradients.length
          compressedSize := 4 * values.length + 8 * indices.length
          compressionRatio := values.length / gradients.length
          nnz := values.length }
      some ((values, indices.map Nat.cast, stats),
        c.storeErrorFeedback gradients indices useErrorFeedback)

omit [LinearOrder K] in
def decompress (values : List K) (indices : List Int) (size : Nat) : Option (List K) :=
  scatter (List.replicate size 0) indices values

def resetErrorFeedback (c : TopKCompressor K) : TopKCompressor K := { c with errorFeedback := none }

end TopKCompressor

structure RandomKCompressor (K : Type*) [Field K] where
  ratio : K := 1 / (100 : ℕ)

namespace RandomKCompressor

/-- `choice` is what `np.random.choice` returns: `k` indices in range, no two of them the same. -/
def compress [FloorSemiring K] (itemsize : Nat) (c : RandomKCompressor K) (gradients : List K)
    (choice : List Nat) : Option (List K × List Int × CompressionStats K) :=
  let k := computeK gradients.length c.ratio
  -- a sample larger than the population
  if gradients.length < k then none
  else
    -- Scale to maintain expectation
    let values := (take gradients 0 choice).map (· / c.ratio)
    let stats : CompressionStats K :=
      { originalSize := itemsize * gradients.length
        compressedSize := itemsize * values.length + 8 * choice.length
        compressionRatio := values.length / gradients.length
        nnz := values.length }
    some (values, choice.map Nat.cast, stats)

def decompress (c : RandomKCompressor K) (values : List K) (indices : List Int) (size : Nat) :
    Option (List K) :=
  -- Unscale
  scatter (List.replicate size 0) indices (values.map (· * c.ratio))

end RandomKCompressor

/-- `np.round`, which rounds a half to the even neighbour. -/
def npRound [FloorRing K] (x : K) : Int :=
  if Int.fract x < 1 / (2 : ℕ) then ⌊x⌋
  else if 1 / (2 : ℕ) < Int.fract x then ⌊x⌋ + 1
  else if Even ⌊x⌋ then ⌊x⌋
  else ⌊x⌋ + 1

structure QuantizationCompressor where
  bits : Nat := 8

namespace QuantizationCompressor

def levels (c : QuantizationCompressor) : Nat := 2 ^ c.bits

/-- Normalize to [0, 1] -/
def normalized (minVal maxVal gradient : K) : K :=
  if 0 < maxVal - minVal then (gradient - minVal) / (maxVal - minVal) else 0

/-- What a gradient is rounded to. -/
def quantize [FloorRing K] (c : QuantizationCompressor) (minVal maxVal gradient : K) : Int :=
  npRound (normalized minVal maxVal gradient * (c.levels - 1))

def compress [FloorRing K] (itemsize : Nat) (c : QuantizationCompressor) (gradients : List K) :
    Option (List UInt8 × (K × K) × CompressionStats K) :=
  gradients.min?.bind fun minVal => gradients.max?.map fun maxVal =>
    let quantized := gradients.map fun gradient =>
      UInt8.ofNat (c.quantize minVal maxVal gradient).toNat
    let stats : CompressionStats K :=
      { originalSize := itemsize * gradients.length
        -- +16 for min/max
        compressedSize := quantized.length + 16
        compressionRatio := quantized.length / (itemsize * gradients.length : Nat)
        nnz := gradients.length }
    (quantized, (minVal, maxVal), stats)

def decompress (c : QuantizationCompressor) (quantized : List UInt8) (params : K × K) : List K :=
  quantized.map fun code =>
    let normalized : K := code.toNat / (c.levels - 1)
    normalized * (params.2 - params.1) + params.1

end QuantizationCompressor

end GossipRl
