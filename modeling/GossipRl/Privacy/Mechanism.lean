import Mathlib.Algebra.Order.Field.Basic

/-!
# Gradient perturbation (`privacy/mechanism.py`)

`norm` stands for `np.linalg.norm`, and the noise that was drawn is an argument.
-/

namespace GossipRl

structure DPParams (K : Type*) where
  clipNorm : K

namespace DPParams
variable {K : Type*} [Field K] [LinearOrder K]

def clipGradients (norm : List K → K) (gradients : List K) (dp : DPParams K) : List K :=
  if norm gradients > dp.clipNorm then gradients.map (· * (dp.clipNorm / norm gradients))
  else gradients

def addNoise (noise gradients : List K) : List K := List.zipWith (· + ·) gradients noise

def privatize (norm : List K → K) (noise gradients : List K) (dp : DPParams K) : List K :=
  addNoise noise (dp.clipGradients norm gradients)

theorem length_clipGradients {norm : List K → K} {gradients : List K} (dp : DPParams K) :
    (dp.clipGradients norm gradients).length = gradients.length := by
  unfold clipGradients
  split <;> simp

theorem length_privatize {norm : List K → K} {noise gradients : List K} (dp : DPParams K)
    (h : noise.length = gradients.length) :
    (dp.privatize norm noise gradients).length = gradients.length := by
  simp [privatize, addNoise, length_clipGradients, h]

end DPParams

end GossipRl
