import GossipRl.Privacy.AccountantRun
import GossipRl.Training.MechanismPrivacy

/-!
# The noisy gradients of `train_step`

What the updates of a `train_step` show of a rollout is their noisy gradients: the parameters follow
from them. `TrainingSetup.releases` draws them one after the other, each from the clipped gradient at
the parameters to which the ones before have led, and `TrainingSetup.training` repeats this with
rollouts that may depend on all that was released before. If clipped gradients for the one rollout and
for the other are never further apart than a multiple of the clip norm (`Adjacent`), the Rényi
divergence of all noisy gradients is bounded by the square of the factor times what the accountant
adds up for the updates.
-/

namespace GossipRl
open Support

noncomputable section

/-- What two agents have in common that differ in their rollouts. -/
structure TrainingSetup where
  torch : Torch ℝ
  backward : Backward ℝ
  config : TrainingConfig ℝ
  clipNorm : ℝ
  noiseMultiplier : ℝ

/-- Where the noisy gradients have led so far. -/
structure Released where
  /-- The parameters that the `train_step` started from. -/
  start : List (NdArray ℝ)
  parameters : List (NdArray ℝ)
  /-- The state of the optimizer. -/
  optimizer : List (AdamState ℝ)
  gradients : List (List ℝ) := []

namespace TrainingSetup

/-- What `backward` leaves in the model. -/
def lossGradients (c : TrainingSetup) (rollout : RolloutBuffer ℝ) (r : Released)
    (indices : List Nat) : List (Param ℝ) :=
  DistributedPPO.backwardPass c.torch c.backward r.start indices
    { config := c.config
      params := r.parameters.map fun data => { data := data }
      buffer := rollout }

def clipped (c : TrainingSetup) (rollout : RolloutBuffer ℝ) (r : Released)
    (indices : List Nat) : List ℝ :=
  DPParams.clipGradients c.torch.norm (getGradientVector (c.lossGradients rollout r indices))
    ⟨c.clipNorm⟩

def next (c : TrainingSetup) (rollout : RolloutBuffer ℝ) (indices : List Nat) (noisy : List ℝ)
    (r : Released) : Released :=
  let t : DistributedPPO ℝ :=
    { config := c.config
      params := (setGradientVector noisy (c.lossGradients rollout r indices)).1
      optimizer := r.optimizer }
  { r with
    parameters := (t.applyStep c.torch).parameters
    optimizer := (t.applyStep c.torch).optimizer
    gradients := r.gradients ++ [noisy] }

/-- The updates with the minibatches. -/
def releases (c : TrainingSetup) (rollout : RolloutBuffer ℝ) :
    List (List Nat) → Released → RandomValue Released
  | [], r => .pure r
  | indices :: batches, r =>
    (RandomValue.normal.noised (c.noiseMultiplier * c.clipNorm) (c.clipped rollout r indices)).bind fun noisy =>
      c.releases rollout batches (c.next rollout indices noisy r)

/-- Repeated `train_step`s, each with a rollout that `collect` finds for what is released by then. -/
def training (c : TrainingSetup) (collect : List (List ℝ) → RolloutBuffer ℝ) :
    List (List (List Nat)) → Released → RandomValue Released
  | [], r => .pure r
  | perms :: rest, r =>
    (c.releases (collect r.gradients) (perms.flatMap (minibatches c.config.batchSize))
      { r with start := r.parameters }).bind (c.training collect rest)

/-- `backward` reaches the same parameters with both rollouts. -/
def SameReach (c : TrainingSetup) (rollout rollout' : RolloutBuffer ℝ) : Prop :=
  ∀ start parameters indices i, (c.backward start parameters rollout indices i).isSome =
    (c.backward start parameters rollout' indices i).isSome

/-- And the clipped gradients are never further apart than this many times the clip norm. -/
structure Adjacent (c : TrainingSetup) (factor : ℝ) (rollout rollout' : RolloutBuffer ℝ) : Prop where
  reached : c.SameReach rollout rollout'
  close : ∀ r indices, l2Dist (c.clipped rollout r indices) (c.clipped rollout' r indices) ≤
    factor * c.clipNorm

end TrainingSetup

/-! ### Setting the noisy gradients -/

/-- What matters of a parameter when its gradient is overwritten. -/
def Param.slot (p : Param ℝ) : NdArray ℝ × Bool := (p.data, p.grad.isSome)

/-- A vector that is long enough replaces all gradients, so of those before it only matters where
there are any. -/
theorem setGradientVectorFrom_congr {noisy : List ℝ} {params params' : List (Param ℝ)} {offset : Nat}
    (h : params.map Param.slot = params'.map Param.slot)
    (hlen : offset + gradNumel params ≤ noisy.length) :
    (setGradientVectorFrom noisy offset params).1 =
      (setGradientVectorFrom noisy offset params').1 := by
  induction params generalizing params' offset with
  | nil =>
    obtain rfl := List.map_eq_nil_iff.1 h.symm
    rfl
  | cons p params ih =>
    cases params' with
    | nil => cases h
    | cons p' params' =>
      obtain ⟨hslot, hrest⟩ := List.cons.inj h
      obtain ⟨data, grad⟩ := p
      obtain ⟨data', grad'⟩ := p'
      obtain ⟨rfl, hsome⟩ := Prod.mk.inj hslot
      cases grad with
      | none =>
        obtain rfl := Option.not_isSome_iff_eq_none.1 (by simpa using hsome.symm)
        have hlen' : offset + gradNumel params ≤ noisy.length := by
          simpa [gradNumel] using hlen
        simp only [setGradientVectorFrom]
        rw [ih hrest hlen']
      | some g =>
        obtain ⟨g', rfl⟩ := Option.isSome_iff_exists.1 hsome.symm
        have hnumel : offset + (data.shape.prod + gradNumel params) ≤ noisy.length := by
          simpa [gradNumel, Param.numel] using hlen
        simp only [setGradientVectorFrom, Param.numel]
        cases hb : NdArray.reshape data.shape ((noisy.drop offset).take data.shape.prod) with
        | none =>
          rw [NdArray.reshape_eq_none_iff, List.length_take, List.length_drop] at hb
          omega
        | some b =>
          simp only
          rw [ih hrest (by omega)]

theorem slots_backwardPass {torch : Torch ℝ} {backward : Backward ℝ}
    {start : List (NdArray ℝ)} {indices : List Nat} {t t' : DistributedPPO ℝ}
    (hconfig : t'.config = t.config) (hparams : t'.params = t.params)
    (h : ∀ i, (backward start t.parameters t.buffer indices i).isSome =
      (backward start t'.parameters t'.buffer indices i).isSome) :
    (t.backwardPass torch backward start indices).map Param.slot =
      (t'.backwardPass torch backward start indices).map Param.slot := by
  have hclip : ∀ params : List (Param ℝ), (torch.clipGradNorm t.config.maxGradNorm params).map
      Param.slot = params.map Param.slot := by
    intro params
    simp [Torch.clipGradNorm, Param.slot, Function.comp_def]
  have hslots : (accumulate (backward start t.parameters t.buffer indices)
      (zeroGrad t.params)).map Param.slot = (accumulate
        (backward start t'.parameters t'.buffer indices) (zeroGrad t'.params)).map Param.slot := by
    rw [hparams]
    refine List.ext_getElem (by simp [accumulate]) fun i hi _ => ?_
    have hi' := h i
    simp only [accumulate, zeroGrad, Param.slot, List.getElem_map, List.getElem_mapIdx]
    cases hg : backward start t.parameters t.buffer indices i <;>
      cases hg' : backward start t'.parameters t'.buffer indices i <;> simp_all
  unfold DistributedPPO.backwardPass
  dsimp only
  rw [hconfig]
  split
  · rw [hclip, hclip, hslots]
  · exact hslots

theorem gradNumel_congr {params params' : List (Param ℝ)}
    (h : params.map Param.slot = params'.map Param.slot) : gradNumel params = gradNumel params' := by
  have of_slots : ∀ ps : List (Param ℝ), gradNumel ps =
      ((ps.map Param.slot).map fun slot => if slot.2 then slot.1.shape.prod else 0).sum := by
    intro ps
    rw [List.map_map]
    rfl
  rw [of_slots, of_slots, h]

namespace TrainingSetup
variable {c : TrainingSetup} {factor : ℝ} {rollout rollout' : RolloutBuffer ℝ} {r : Released}
  {indices : List Nat} {α : ℝ}

theorem length_clipped (hshape : ShapedBackward c.backward) :
    (c.clipped rollout r indices).length = gradNumel (c.lossGradients rollout r indices) := by
  rw [clipped, DPParams.length_clipGradients]
  exact length_getGradientVector (shape_backwardPass hshape)

theorem SameReach.slots (h : c.SameReach rollout rollout') (r : Released) (indices : List Nat) :
    (c.lossGradients rollout r indices).map Param.slot =
      (c.lossGradients rollout' r indices).map Param.slot :=
  slots_backwardPass rfl rfl fun i => h _ _ indices i

theorem SameReach.length_clipped (h : c.SameReach rollout rollout')
    (hshape : ShapedBackward c.backward) (r : Released) (indices : List Nat) :
    (c.clipped rollout r indices).length = (c.clipped rollout' r indices).length := by
  rw [TrainingSetup.length_clipped hshape, TrainingSetup.length_clipped hshape,
    gradNumel_congr (h.slots r indices)]

theorem SameReach.next_eq (h : c.SameReach rollout rollout') {noisy : List ℝ}
    (hlen : noisy.length = gradNumel (c.lossGradients rollout r indices)) :
    c.next rollout indices noisy r = c.next rollout' indices noisy r := by
  have hset := setGradientVectorFrom_congr (h.slots r indices)
    (show 0 + gradNumel (c.lossGradients rollout r indices) ≤ noisy.length by omega)
  unfold next setGradientVector
  rw [hset]

/-- Whatever the rollouts are, clipping keeps the gradients within twice the clip norm. -/
theorem SameReach.adjacent (h : c.SameReach rollout rollout') (hshape : ShapedBackward c.backward)
    (hnorm : c.torch.norm = l2Norm) (hclip : 0 ≤ c.clipNorm) : c.Adjacent 2 rollout rollout' where
  reached := h
  close := by
    intro r indices
    have hlen := h.length_clipped hshape r indices
    rw [clipped, clipped, DPParams.length_clipGradients, DPParams.length_clipGradients] at hlen
    rw [clipped, clipped, hnorm]
    exact l2Dist_clipGradients_le hclip hlen

theorem Adjacent.renyiLE_noisy (h : c.Adjacent factor rollout rollout') (hα : 1 < α)
    (hfactor : 0 ≤ factor) (hshape : ShapedBackward c.backward) (hclip : 0 < c.clipNorm)
    (hnoise : 0 < c.noiseMultiplier) (r : Released) (indices : List Nat) :
    RenyiLE α (factor ^ 2 * stepCost (c.noiseMultiplier, 1) α)
      (RandomValue.normal.noised (c.noiseMultiplier * c.clipNorm) (c.clipped rollout r indices))
      (RandomValue.normal.noised (c.noiseMultiplier * c.clipNorm) (c.clipped rollout' r indices)) := by
  rw [stepCost, if_pos rfl, Nat.cast_ofNat]
  exact renyiLE_of_l2Dist_le hα hnoise hclip hfactor (h.reached.length_clipped hshape r indices)
    (h.close r indices)

theorem Adjacent.renyiLE_releases (h : c.Adjacent factor rollout rollout') (hα : 1 < α)
    (hfactor : 0 ≤ factor) (hshape : ShapedBackward c.backward) (hclip : 0 < c.clipNorm)
    (hnoise : 0 < c.noiseMultiplier) (batches : List (List Nat)) (r : Released) :
    RenyiLE α (factor ^ 2 *
        RDPAccountant.totalCost (.replicate batches.length (c.noiseMultiplier, 1)) α)
      (c.releases rollout batches r) (c.releases rollout' batches r) := by
  induction batches generalizing r with
  | nil =>
    rw [List.length_nil, List.replicate_zero, RDPAccountant.totalCost, List.map_nil, List.sum_nil,
      mul_zero]
    exact .pure hα r
  | cons indices batches ih =>
    have hlen : ∀ {rollout}, (RandomValue.normal.noised (c.noiseMultiplier * c.clipNorm)
        (c.clipped rollout r indices)).Surely fun noisy =>
          noisy.length = gradNumel (c.lossGradients rollout r indices) := by
      intro rollout
      rw [← length_clipped hshape]
      exact RandomValue.surely_noised _ _
    have hrest : ∀ noisy : List ℝ, noisy.length = gradNumel (c.lossGradients rollout r indices) →
        RenyiLE α (factor ^ 2 *
            RDPAccountant.totalCost (.replicate batches.length (c.noiseMultiplier, 1)) α)
          (c.releases rollout batches (c.next rollout indices noisy r))
          (c.releases rollout' batches (c.next rollout' indices noisy r)) := by
      intro noisy hnoisy
      rw [← h.reached.next_eq hnoisy]
      exact ih _
    rw [List.length_cons, List.replicate_succ, RDPAccountant.totalCost, List.map_cons, List.sum_cons,
      mul_add]
    exact (h.renyiLE_noisy hα hfactor hshape hclip hnoise r indices).bind hα hlen
      (gradNumel_congr (h.reached.slots r indices) ▸ hlen) hrest

/-- The noise multiplier and the sample rate of all updates, where all of a rollout is one batch. -/
def wholeCalls (c : TrainingSetup) (permss : List (List (List Nat))) : List (ℝ × ℝ) :=
  permss.flatMap fun perms =>
    .replicate (perms.flatMap (minibatches c.config.batchSize)).length (c.noiseMultiplier, 1)

theorem renyiLE_training {collect collect' : List (List ℝ) → RolloutBuffer ℝ}
    (h : ∀ gradients, c.Adjacent factor (collect gradients) (collect' gradients)) (hα : 1 < α)
    (hfactor : 0 ≤ factor) (hshape : ShapedBackward c.backward) (hclip : 0 < c.clipNorm)
    (hnoise : 0 < c.noiseMultiplier) (permss : List (List (List Nat))) (r : Released) :
    RenyiLE α (factor ^ 2 * RDPAccountant.totalCost (c.wholeCalls permss) α)
      (c.training collect permss r) (c.training collect' permss r) := by
  induction permss generalizing r with
  | nil =>
    rw [wholeCalls, List.flatMap_nil, RDPAccountant.totalCost, List.map_nil, List.sum_nil, mul_zero]
    exact .pure hα r
  | cons perms permss ih =>
    have hstep := (h r.gradients).renyiLE_releases hα hfactor hshape hclip hnoise
      (perms.flatMap (minibatches c.config.batchSize)) { r with start := r.parameters }
    rw [wholeCalls, List.flatMap_cons, RDPAccountant.totalCost, List.map_append, List.sum_append,
      mul_add]
    exact hstep.bind hα RandomValue.surely_true RandomValue.surely_true fun r' _ => ih r'

end TrainingSetup

end

end GossipRl
