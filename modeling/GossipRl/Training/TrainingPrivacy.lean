import GossipRl.Training.ReleasedGradients

/-!
# How private training is

`np.random.normal` draws standard normal numbers and multiplies them by the scale, so training is a
random value. Without a scheduler the noise multiplier is fixed, and what training makes public is
what `TrainingSetup.training` releases (`At.training`). Where all of a rollout is one batch the
accountant is told the sample rate 1, and the epsilon that it reports is one that training has.
-/

namespace GossipRl
open Support

noncomputable section

namespace PrivateTrainer
variable {σ : Type*}

section Random
variable (torch : Torch ℝ) (backward : Backward ℝ) (getNoiseMultiplier : Nat → ℝ → σ → ℝ × σ)

def randomUpdate (start : List (NdArray ℝ)) (s : PrivateTrainer σ) (indices : List Nat) :
    RandomValue (Option (PrivateTrainer σ)) :=
  let gradients := getGradientVector (s.backwardPass torch backward start indices).trainer.params
  (RandomValue.normal.draws gradients.length).map fun z =>
    s.update torch backward getNoiseMultiplier (fun scale _ => drawn z scale) start indices

/-- `trainLoop`, with noise that is drawn in each update. -/
def randomLoop (start : List (NdArray ℝ)) :
    List (List Nat) → PrivateTrainer σ → RandomValue (Option (PrivateTrainer σ))
  | [], s => .pure (some s)
  | indices :: batches, s =>
    (s.randomUpdate torch backward getNoiseMultiplier start indices).bind fun s =>
      s.elim (.pure none) (randomLoop start batches)

/-- What follows the loop of `train_step`. -/
def finish (s : PrivateTrainer σ) : Option (PrivateTrainer σ) :=
  if s.trainer.config.nEpochs = 0 then none
  else some { s with trainer := { s.trainer with step := s.trainer.step + 1 } }

def randomTrainStep (perms : List (List Nat)) (s : PrivateTrainer σ) :
    RandomValue (Option (PrivateTrainer σ)) :=
  if s.trainer.buffer.observations.length = 0 ∨ s.trainer.config.batchSize = 0 then .pure none
  else
    (randomLoop torch backward getNoiseMultiplier s.trainer.parameters
      (perms.flatMap (minibatches s.trainer.config.batchSize)) s).map (Option.bind · finish)

end Random

/-- After `collect_rollout`. -/
def withRollout (rollout : RolloutBuffer ℝ) (s : PrivateTrainer σ) : PrivateTrainer σ :=
  { s with trainer := s.trainer.withRollout rollout }

/-- The noisy gradients of the updates, which also go to the other agents. -/
def noisyGradients (s : PrivateTrainer σ) : List (List ℝ) := s.updates.map Update.fed

/-- What is made public. -/
def published (s : PrivateTrainer σ) : List (NdArray ℝ) × List (List ℝ) :=
  (s.trainer.parameters, s.noisyGradients)

section Training
variable (torch : Torch ℝ) (backward : Backward ℝ) (getNoiseMultiplier : Nat → ℝ → σ → ℝ × σ)
  (collect : List (List ℝ) → RolloutBuffer ℝ)

/-- `collect_rollout`, which may depend on all noisy gradients before, and `train_step`. -/
def train (normal : ℝ → Nat → (size : Nat) → Fin size → ℝ) (s : PrivateTrainer σ)
    (perms : List (List Nat)) : Option (PrivateTrainer σ) :=
  (s.withRollout (collect s.noisyGradients)).trainStep torch backward getNoiseMultiplier normal perms

/-- Repeated `train`, with noise that is drawn. -/
def randomTraining :
    List (List (List Nat)) → PrivateTrainer σ → RandomValue (Option (PrivateTrainer σ))
  | [], s => .pure (some s)
  | perms :: rest, s =>
    ((s.withRollout (collect s.noisyGradients)).randomTrainStep torch backward getNoiseMultiplier
      perms).bind fun s => s.elim (.pure none) (randomTraining rest)

end Training

def setup (torch : Torch ℝ) (backward : Backward ℝ) (noiseMultiplier : ℝ) (s : PrivateTrainer σ) :
    TrainingSetup where
  torch := torch
  backward := backward
  config := s.trainer.config
  clipNorm := s.mechanism.clipNorm
  noiseMultiplier := noiseMultiplier

/-- Without a scheduler, the trainer is where these noisy gradients have led. -/
structure At (c : TrainingSetup) (a : RDPAccountant) (r : Released) (s : PrivateTrainer σ) :
    Prop where
  scheduler : s.scheduler = none
  reads : ∃ m, s.mechanism.noiseMultiplier = some (c.noiseMultiplier, m)
  clipNorm : s.mechanism.clipNorm = c.clipNorm
  config : s.trainer.config = c.config
  parameters : s.trainer.parameters = r.parameters
  optimizer : s.trainer.optimizer = r.optimizer
  gradients : s.noisyGradients = r.gradients
  accountant : s.accountant = a

section Fixed
variable {s : PrivateTrainer σ} {m : GaussianMechanism} {x : ℝ} {gradients : List ℝ}
  {a : RDPAccountant} (torch : Torch ℝ) (getNoiseMultiplier : Nat → ℝ → σ → ℝ × σ)
  (normal : ℝ → Nat → (size : Nat) → Fin size → ℝ)

theorem applyDpNoise_fixed (hscheduler : s.scheduler = none)
    (hread : s.mechanism.noiseMultiplier = some (x, m)) (hscale : 0 ≤ x * s.mechanism.clipNorm)
    (hlen : gradients.length = gradNumel s.trainer.params)
    (ha : s.accountant.step
      (x, s.trainer.config.batchSize / s.trainer.buffer.observations.length) = some a) :
    ∃ out, s.applyDpNoise torch getNoiseMultiplier normal gradients = some (out,
        { s with
          trainer := { s.trainer with
            params := (setGradientVector out.noisy s.trainer.params).1
            localGradients := some out.noisy }
          mechanism := m
          accountant := a }) ∧
      out.noisy = DPParams.privatize torch.norm
        (List.ofFn (normal (x * s.mechanism.clipNorm) s.updates.length gradients.length)) gradients
        ⟨s.mechanism.clipNorm⟩ := by
  obtain ⟨hagain, -⟩ := GaussianMechanism.noiseMultiplier_again hread
  have hnoisy : (DPParams.privatize torch.norm
      (List.ofFn (normal (x * s.mechanism.clipNorm) s.updates.length gradients.length)) gradients
      ⟨s.mechanism.clipNorm⟩).length = gradNumel s.trainer.params :=
    (DPParams.length_privatize _ (List.length_ofFn ..)).trans hlen
  obtain ⟨hset, -⟩ := getGradientVector_setGradientVector hnoisy
  unfold applyDpNoise
  simp only [schedule_of_none hscheduler, GaussianMechanism.privatize_eq_some hread,
    if_neg (not_lt.2 hscale), Option.bind_some, hset, if_true, track, hagain, ha, Option.map_some]
  exact ⟨_, rfl, rfl⟩

end Fixed

namespace At
variable {c : TrainingSetup} {a a' : RDPAccountant} {r : Released} {s : PrivateTrainer σ}
  {collect : List (List ℝ) → RolloutBuffer ℝ} {indices : List Nat} {batches : List (List Nat)}
  {permss : List (List (List Nat))} (getNoiseMultiplier : Nat → ℝ → σ → ℝ × σ)

theorem withRollout (h : s.At c a r) (rollout : RolloutBuffer ℝ) :
    (s.withRollout rollout).At c a { r with start := r.parameters } :=
  ⟨h.scheduler, h.reads, h.clipNorm, h.config, h.parameters, h.optimizer, h.gradients,
    h.accountant⟩

theorem finish (h : s.At c a r) (hepochs : c.config.nEpochs ≠ 0) :
    ∃ s', s.finish = some s' ∧ s'.At c a r := by
  rw [PrivateTrainer.finish, h.config, if_neg hepochs]
  exact ⟨_, rfl, h.scheduler, h.reads, h.clipNorm, h.config, h.parameters, h.optimizer, h.gradients,
    h.accountant⟩

theorem published_eq (h : s.At c a r) : s.published = (r.parameters, r.gradients) := by
  rw [published, h.parameters, h.gradients]

theorem backwardPass (h : s.At c a r) (indices : List Nat) :
    s.trainer.backwardPass c.torch c.backward r.start indices =
      c.lossGradients s.trainer.buffer r indices := by
  have hzero : zeroGrad s.trainer.params =
      zeroGrad (r.parameters.map fun data => ({ data := data } : Param ℝ)) := by
    rw [zeroGrad_eq_iff, ← h.parameters]
    simp [DistributedPPO.parameters, Function.comp_def]
  have hparameters : DistributedPPO.parameters
      { config := c.config
        params := r.parameters.map fun data => ({ data := data } : Param ℝ)
        buffer := s.trainer.buffer } = s.trainer.parameters := by
    rw [h.parameters]
    simp [DistributedPPO.parameters, Function.comp_def]
  unfold TrainingSetup.lossGradients DistributedPPO.backwardPass
  dsimp only
  rw [hparameters, hzero, h.config]

/-- An update returns whatever is drawn, and its noisy gradient says where it leads to. -/
theorem update (h : s.At c a r) (hshape : ShapedBackward c.backward) (hclip : 0 ≤ c.clipNorm)
    (hnoise : 0 ≤ c.noiseMultiplier) (hsize : s.trainer.buffer.observations.length =
      c.config.batchSize) (hbatch : 0 < c.config.batchSize)
    (ha : a.step (c.noiseMultiplier, 1) = some a')
    (normal : ℝ → Nat → (size : Nat) → Fin size → ℝ) (indices : List Nat) :
    ∃ s', s.update c.torch c.backward getNoiseMultiplier normal r.start indices = some s' ∧
      s'.trainer.buffer = s.trainer.buffer ∧
      s'.At c a' (c.next s.trainer.buffer indices (DPParams.addNoise
        (List.ofFn (normal (c.noiseMultiplier * c.clipNorm) s.updates.length
          (c.clipped s.trainer.buffer r indices).length)) (c.clipped s.trainer.buffer r indices)) r) := by
  obtain ⟨m, hread⟩ := h.reads
  obtain ⟨hagain, hclip'⟩ := GaussianMechanism.noiseMultiplier_again hread
  let params := c.lossGradients s.trainer.buffer r indices
  let s₀ := s.backwardPass c.torch c.backward r.start indices
  have hparams : s₀.trainer.params = params := h.backwardPass indices
  have hlen : (getGradientVector params).length = gradNumel s₀.trainer.params := by
    rw [hparams]
    exact length_getGradientVector (shape_backwardPass hshape)
  have hclipped : (c.clipped s.trainer.buffer r indices).length =
      (getGradientVector params).length := DPParams.length_clipGradients _
  have hscale : 0 ≤ c.noiseMultiplier * s₀.mechanism.clipNorm := by
    rw [show s₀.mechanism = s.mechanism from rfl, h.clipNorm]
    exact mul_nonneg hnoise hclip
  have hrate : s₀.accountant.step (c.noiseMultiplier,
      s₀.trainer.config.batchSize / s₀.trainer.buffer.observations.length) = some a' := by
    show s.accountant.step (_, s.trainer.config.batchSize / s.trainer.buffer.observations.length) = _
    rw [h.accountant, h.config, hsize, div_self (by exact_mod_cast hbatch.ne')]
    exact ha
  obtain ⟨out, hout, hnoisy⟩ := applyDpNoise_fixed (s := s₀) c.torch getNoiseMultiplier normal
    h.scheduler hread hscale hlen hrate
  have hclipNorm : s₀.mechanism.clipNorm = c.clipNorm := h.clipNorm
  have hprivate : out.noisy = DPParams.addNoise (List.ofFn (normal (c.noiseMultiplier * c.clipNorm)
      s.updates.length (c.clipped s.trainer.buffer r indices).length))
      (c.clipped s.trainer.buffer r indices) := by
    rw [hnoisy, hclipNorm, hclipped]
    rfl
  have hlenNoisy : out.noisy.length = gradNumel params := by
    rw [hnoisy, DPParams.length_privatize _ (List.length_ofFn ..), hlen, hparams]
  obtain ⟨-, hget⟩ := getGradientVector_setGradientVector hlenNoisy
  rw [← hprivate]
  unfold PrivateTrainer.update
  show ∃ s', Option.map _ (s₀.applyDpNoise c.torch getNoiseMultiplier normal
    (getGradientVector s₀.trainer.params)) = some s' ∧ _
  rw [hparams, hout, Option.map_some]
  have hoptimizer : s₀.trainer.optimizer = r.optimizer := h.optimizer
  refine ⟨_, rfl, rfl, h.scheduler, ⟨m, hagain⟩, hclip'.trans h.clipNorm, h.config, ?_, ?_, ?_, rfl⟩
  · simp only [DistributedPPO.parameters, DistributedPPO.applyStep, hparams, hoptimizer]
    rfl
  · simp only [DistributedPPO.applyStep, hparams, hoptimizer]
    rfl
  · show (s.updates ++ [_]).map Update.fed = r.gradients ++ [out.noisy]
    rw [List.map_append, ← h.gradients, List.map_singleton]
    show _ ++ [getGradientVector (setGradientVector out.noisy s₀.trainer.params).1] = _
    rw [hparams, hget]
    rfl

theorem bind_loop {Y : Type*} (k : Option (PrivateTrainer σ) → RandomValue Y)
    (k' : Released → RandomValue Y) (h : s.At c a r) (hshape : ShapedBackward c.backward)
    (hclip : 0 ≤ c.clipNorm) (hnoise : 0 ≤ c.noiseMultiplier)
    (hsize : s.trainer.buffer.observations.length = c.config.batchSize)
    (hbatch : 0 < c.config.batchSize)
    (ha : run RDPAccountant.step a (.replicate batches.length (c.noiseMultiplier, 1)) = some a')
    (hk : ∀ s r, s.At c a' r → k (some s) = k' r) :
    (s.randomLoop c.torch c.backward getNoiseMultiplier r.start batches).bind k =
      (c.releases s.trainer.buffer batches r).bind k' := by
  induction batches generalizing s a r with
  | nil =>
    obtain rfl := Option.some.inj ha
    exact hk s r h
  | cons indices batches ih =>
    obtain ⟨a₁, ha₁, hrest⟩ := Option.bind_eq_some_iff.1 ha
    have hn : (getGradientVector (s.backwardPass c.torch c.backward r.start
        indices).trainer.params).length = (c.clipped s.trainer.buffer r indices).length := by
      show (getGradientVector (s.trainer.backwardPass c.torch c.backward r.start indices)).length = _
      rw [h.backwardPass, TrainingSetup.clipped, DPParams.length_clipGradients]
    unfold randomLoop randomUpdate
    dsimp only
    rw [hn]
    show (RandomValue.normal.draws _).bind (fun z =>
        ((s.update c.torch c.backward getNoiseMultiplier (fun scale _ => drawn z scale) r.start indices).elim (.pure none)
          (randomLoop c.torch c.backward getNoiseMultiplier r.start batches)).bind k) =
      (RandomValue.normal.draws _).bind fun z => (c.releases s.trainer.buffer batches
        (c.next s.trainer.buffer indices (List.zipWith (· + ·) (c.clipped s.trainer.buffer r indices)
          (z.map (c.noiseMultiplier * c.clipNorm * ·))) r)).bind k'
    refine (RandomValue.surely_draws _).bind_congr fun z hz => ?_
    obtain ⟨s', hs', hbuffer, hat⟩ := h.update getNoiseMultiplier hshape hclip hnoise hsize hbatch
      ha₁ (fun scale _ => drawn z scale) indices
    rw [ofFn_drawn hz] at hat
    rw [← hbuffer] at hat hsize
    rw [hs', ← hbuffer]
    exact ih hat hsize hrest

theorem training (h : s.At c a r) (hshape : ShapedBackward c.backward) (hclip : 0 ≤ c.clipNorm)
    (hnoise : 0 ≤ c.noiseMultiplier)
    (hsize : ∀ gradients, (collect gradients).observations.length = c.config.batchSize)
    (hbatch : 0 < c.config.batchSize) (hepochs : c.config.nEpochs ≠ 0)
    (ha : run RDPAccountant.step a (c.wholeCalls permss) = some a') :
    (s.randomTraining c.torch c.backward getNoiseMultiplier collect permss).map
        (Option.map published) =
      (c.training collect permss r).map fun r => some (r.parameters, r.gradients) := by
  induction permss generalizing s a r with
  | nil =>
    show RandomValue.pure (some s.published) = RandomValue.pure _
    rw [h.published_eq]
  | cons perms permss ih =>
    rw [TrainingSetup.wholeCalls, List.flatMap_cons, run_append] at ha
    obtain ⟨a₁, ha₁, hrest⟩ := Option.bind_eq_some_iff.1 ha
    let s₁ := s.withRollout (collect s.noisyGradients)
    have hat : s₁.At c a { r with start := r.parameters } := h.withRollout _
    have hlast : ¬ (s₁.trainer.buffer.observations.length = 0 ∨ s₁.trainer.config.batchSize = 0) := by
      rw [show s₁.trainer.buffer = collect s.noisyGradients from rfl, hsize, hat.config]
      omega
    have hloop := hat.bind_loop getNoiseMultiplier
      (fun s => ((s.bind PrivateTrainer.finish).elim (.pure none) (randomTraining c.torch c.backward
        getNoiseMultiplier collect permss)).map (Option.map published))
      (fun r => (c.training collect permss r).map fun r => some (r.parameters, r.gradients))
      hshape hclip hnoise (hsize _) hbatch ha₁
    unfold randomTraining randomTrainStep
    rw [if_neg hlast, hat.config, hat.parameters, TrainingSetup.training, ← h.gradients]
    refine (hloop fun s' r' hs' => ?_).trans (by rw [← h.gradients]; rfl)
    obtain ⟨s₂, hs₂, hat₂⟩ := hs'.finish hepochs
    rw [Option.bind_some, hs₂]
    exact ih hat₂ hrest

theorem run_update (h : s.At c a r) (hshape : ShapedBackward c.backward) (hclip : 0 ≤ c.clipNorm)
    (hnoise : 0 ≤ c.noiseMultiplier)
    (hsize : s.trainer.buffer.observations.length = c.config.batchSize)
    (hbatch : 0 < c.config.batchSize)
    (ha : run RDPAccountant.step a (.replicate batches.length (c.noiseMultiplier, 1)) = some a')
    (normal : ℝ → Nat → (size : Nat) → Fin size → ℝ) : ∃ s' r',
      run (PrivateTrainer.update c.torch c.backward getNoiseMultiplier normal r.start) s batches =
        some s' ∧ s'.At c a' r' := by
  induction batches generalizing s a r with
  | nil =>
    obtain rfl := Option.some.inj ha
    exact ⟨s, r, rfl, h⟩
  | cons indices batches ih =>
    obtain ⟨a₁, ha₁, hrest⟩ := Option.bind_eq_some_iff.1 ha
    obtain ⟨s₁, hs₁, hbuffer, hat⟩ := h.update getNoiseMultiplier hshape hclip hnoise hsize hbatch
      ha₁ normal indices
    obtain ⟨s', r', hs', hat'⟩ := ih hat (hbuffer ▸ hsize) hrest
    refine ⟨s', r', ?_, hat'⟩
    rw [run_cons, hs₁, Option.bind_some]
    exact hs'

/-- Whatever is drawn, training returns, and the accountant is the same. -/
theorem run_train (h : s.At c a r) (hshape : ShapedBackward c.backward) (hclip : 0 ≤ c.clipNorm)
    (hnoise : 0 ≤ c.noiseMultiplier)
    (hsize : ∀ gradients, (collect gradients).observations.length = c.config.batchSize)
    (hbatch : 0 < c.config.batchSize) (hepochs : c.config.nEpochs ≠ 0)
    (ha : run RDPAccountant.step a (c.wholeCalls permss) = some a')
    (normal : ℝ → Nat → (size : Nat) → Fin size → ℝ) : ∃ s',
      run (train c.torch c.backward getNoiseMultiplier collect normal) s permss = some s' ∧
        s'.accountant = a' := by
  induction permss generalizing s a r with
  | nil => exact ⟨s, rfl, h.accountant.trans (Option.some.inj ha)⟩
  | cons perms permss ih =>
    rw [TrainingSetup.wholeCalls, List.flatMap_cons, run_append] at ha
    obtain ⟨a₁, ha₁, hrest⟩ := Option.bind_eq_some_iff.1 ha
    have hat := h.withRollout (collect s.noisyGradients)
    obtain ⟨s₁, r₁, hs₁, hat₁⟩ := hat.run_update getNoiseMultiplier hshape hclip hnoise (hsize _)
      hbatch ha₁ normal
    obtain ⟨s₂, hs₂, hat₂⟩ := hat₁.finish hepochs
    obtain ⟨s', hs', haccountant⟩ := ih hat₂ hrest
    refine ⟨s', ?_, haccountant⟩
    have hlast : ¬ ((s.withRollout (collect s.noisyGradients)).trainer.buffer.observations.length = 0 ∨
        (s.withRollout (collect s.noisyGradients)).trainer.config.batchSize = 0) := by
      rw [hat.config, show (s.withRollout _).trainer.buffer = collect s.noisyGradients from rfl, hsize]
      omega
    have hstep : s.train c.torch c.backward getNoiseMultiplier collect normal perms = some s₂ := by
      unfold train trainStep trainLoop
      rw [if_neg hlast, hat.config, hat.parameters]
      exact (congrArg (Option.bind · PrivateTrainer.finish) hs₁).trans hs₂
    rw [run_cons, hstep]
    exact hs'

end At

/-- The noise multiplier is fixed, and the accountant new. -/
structure FixedNoise (multiplier : ℝ) (orders : List ℝ) (s : PrivateTrainer σ) : Prop where
  scheduler : s.scheduler = none
  reads : ∃ m, s.mechanism.noiseMultiplier = some (multiplier, m)
  positive : 0 < multiplier
  clipNorm : 0 < s.mechanism.clipNorm
  batchSize : 0 < s.trainer.config.batchSize
  nEpochs : s.trainer.config.nEpochs ≠ 0
  accountant : s.accountant = .init orders

section Privacy
variable {torch : Torch ℝ} {backward : Backward ℝ} {multiplier factor : ℝ} {orders : List ℝ}
  {s : PrivateTrainer σ} {collect collect' : List (List ℝ) → RolloutBuffer ℝ}
  (getNoiseMultiplier : Nat → ℝ → σ → ℝ × σ)

/-- The accountant's figures, times the square of the factor, bound how far training is apart. -/
theorem FixedNoise.renyiLE (hs : s.FixedNoise multiplier orders) (hshape : ShapedBackward backward)
    (hsize : ∀ gradients, (collect gradients).observations.length = s.trainer.config.batchSize)
    (hsize' : ∀ gradients, (collect' gradients).observations.length = s.trainer.config.batchSize)
    (hfactor : 0 ≤ factor) (hadj : ∀ gradients, (s.setup torch backward multiplier).Adjacent factor
      (collect gradients) (collect' gradients)) (permss : List (List (List Nat))) :
    ∃ a, run RDPAccountant.step (.init orders)
        ((s.setup torch backward multiplier).wholeCalls permss) = some a ∧
      (∀ normal, ∃ s', run (train torch backward getNoiseMultiplier collect normal) s permss =
        some s' ∧ s'.accountant = a) ∧
      ∀ α, 1 < α → RenyiLE α (factor ^ 2 *
          RDPAccountant.totalCost ((s.setup torch backward multiplier).wholeCalls permss) α)
        ((s.randomTraining torch backward getNoiseMultiplier collect permss).map
          (Option.map published))
        ((s.randomTraining torch backward getNoiseMultiplier collect' permss).map
          (Option.map published)) := by
  let c := s.setup torch backward multiplier
  let r : Released :=
    ⟨s.trainer.parameters, s.trainer.parameters, s.trainer.optimizer, s.noisyGradients⟩
  have haccepted : ∀ call ∈ c.wholeCalls permss, ∀ order ∈ orders, Accepted call order := by
    intro call hcall order _
    obtain ⟨perms, -, hmem⟩ := List.mem_flatMap.1 hcall
    obtain rfl := List.eq_of_mem_replicate hmem
    rw [Accepted, if_pos rfl]
    exact hs.positive.ne'
  obtain ⟨a, ha⟩ := RDPAccountant.run_of_accepted haccepted
  have hat : s.At c (.init orders) r :=
    ⟨hs.scheduler, hs.reads, rfl, rfl, rfl, rfl, rfl, hs.accountant⟩
  refine ⟨a, ha, fun normal => hat.run_train getNoiseMultiplier hshape hs.clipNorm.le hs.positive.le
    hsize hs.batchSize hs.nEpochs ha normal, fun α hα => ?_⟩
  have htraining : ∀ collect : List (List ℝ) → RolloutBuffer ℝ,
      (∀ gradients, (collect gradients).observations.length = s.trainer.config.batchSize) →
      (s.randomTraining torch backward getNoiseMultiplier collect permss).map (Option.map published) =
        (c.training collect permss r).map fun r => some (r.parameters, r.gradients) :=
    fun _ hsize => hat.training getNoiseMultiplier hshape hs.clipNorm.le hs.positive.le hsize
      hs.batchSize hs.nEpochs ha
  rw [htraining collect hsize, htraining collect' hsize']
  exact (TrainingSetup.renyiLE_training hadj hα hfactor hshape hs.clipNorm hs.positive permss r).map
    hα _

/-- If the rollouts move no clipped gradient further than the clip norm, training is as private as
the accountant says. -/
theorem training_private (hs : s.FixedNoise multiplier orders) (hshape : ShapedBackward backward)
    (hsize : ∀ gradients, (collect gradients).observations.length = s.trainer.config.batchSize)
    (hsize' : ∀ gradients, (collect' gradients).observations.length = s.trainer.config.batchSize)
    (hadj : ∀ gradients, (s.setup torch backward multiplier).Adjacent 1
      (collect gradients) (collect' gradients)) (permss : List (List (List Nat))) :
    ∃ a : RDPAccountant,
      (∀ normal, ∃ s', run (train torch backward getNoiseMultiplier collect normal) s permss =
        some s' ∧ s'.accountant = a) ∧
      ∀ maxEpsilon delta, ¬ a.isBudgetExhausted maxEpsilon delta → Private maxEpsilon delta
        ((s.randomTraining torch backward getNoiseMultiplier collect permss).map
          (Option.map published))
        ((s.randomTraining torch backward getNoiseMultiplier collect' permss).map
          (Option.map published)) := by
  obtain ⟨a, ha, hruns, hrenyi⟩ := hs.renyiLE getNoiseMultiplier hshape hsize hsize' zero_le_one hadj
    permss
  refine ⟨a, hruns, fun maxEpsilon delta hbudget => ?_⟩
  obtain ⟨hdelta, order, -, horder, -, hle⟩ :=
    (RDPAccountant.getEpsilon_run_le_coe_iff ha).1 (not_lt.1 hbudget)
  have hone := hrenyi order horder
  rw [one_pow, one_mul] at hone
  exact hone.isPrivate horder (RenyiLE.failure_le horder hdelta hle)

/-- Whatever the rollouts are, training is private with four times the epsilon. -/
theorem training_private_any (hs : s.FixedNoise multiplier orders) (hshape : ShapedBackward backward)
    (hnorm : torch.norm = l2Norm)
    (hsize : ∀ gradients, (collect gradients).observations.length = s.trainer.config.batchSize)
    (hsize' : ∀ gradients, (collect' gradients).observations.length = s.trainer.config.batchSize)
    (hreach : ∀ gradients, (s.setup torch backward multiplier).SameReach
      (collect gradients) (collect' gradients)) (permss : List (List (List Nat))) :
    ∃ a : RDPAccountant,
      (∀ normal, ∃ s', run (train torch backward getNoiseMultiplier collect normal) s permss =
        some s' ∧ s'.accountant = a) ∧
      ∀ maxEpsilon delta, ¬ a.isBudgetExhausted maxEpsilon delta →
        (∀ order ∈ orders, delta * order ≤ 1) → Private (4 * maxEpsilon) delta
          ((s.randomTraining torch backward getNoiseMultiplier collect permss).map
            (Option.map published))
          ((s.randomTraining torch backward getNoiseMultiplier collect' permss).map
            (Option.map published)) := by
  have hadj : ∀ gradients, (s.setup torch backward multiplier).Adjacent 2 (collect gradients)
      (collect' gradients) := fun gradients =>
    (hreach gradients).adjacent hshape hnorm hs.clipNorm.le
  obtain ⟨a, ha, hruns, hrenyi⟩ := hs.renyiLE getNoiseMultiplier hshape hsize hsize' zero_le_two hadj
    permss
  refine ⟨a, hruns, fun maxEpsilon delta hbudget hsmall => ?_⟩
  obtain ⟨hdelta, order, hmem, horder, -, hle⟩ :=
    (RDPAccountant.getEpsilon_run_le_coe_iff ha).1 (not_lt.1 hbudget)
  refine (hrenyi order horder).isPrivate horder (RenyiLE.failure_le horder hdelta ?_)
  -- the conversion adds to the accountant's figure, so four times the sum is more than enough
  have hlog : Real.log delta + Real.log order ≤ 0 := by
    rw [← Real.log_mul hdelta.ne' (by linarith)]
    exact Real.log_nonpos (mul_pos hdelta (by linarith)).le (hsmall order hmem)
  have hconversion : 0 ≤ (Real.log delta + Real.log order) / (1 - order) :=
    div_nonneg_of_nonpos hlog (by linarith)
  unfold RDPAccountant.valueAfter RDPAccountant.epsilonAt at hle
  linarith

end Privacy

section Example

/-- All numbers of a gradient are the first reward. -/
def rewardBackward : Backward ℝ := fun _ current rollout _ i =>
  (current[i]?).map fun data => ⟨data.shape, fun _ => rollout.rewards.headD 0⟩

def exactTorch : Torch ℝ := { plainTorch with norm := l2Norm }

def oneEpoch : PrivateTrainer Unit where
  trainer :=
    { config := { nEpochs := 1, batchSize := 1, maxGradNorm := 0 }
      params := [{ data := .ofList [1] }]
      buffer := {} }
  mechanism := { epsilon := 1, delta := 1, clipNorm := 1, override := some 1 }
  scheduler := none
  accountant := .init

def rewarded (reward : ℝ) : RolloutBuffer ℝ := { observations := [.empty], rewards := [reward] }

theorem shaped_rewardBackward : ShapedBackward rewardBackward := by
  intro start current rollout indices i g d hg hd
  rw [rewardBackward, hd, Option.map_some, Option.some.injEq] at hg
  rw [← hg]

theorem fixedNoise_oneEpoch : oneEpoch.FixedNoise 1 defaultOrders where
  scheduler := rfl
  reads := ⟨_, rfl⟩
  positive := zero_lt_one
  clipNorm := zero_lt_one
  batchSize := zero_lt_one
  nEpochs := one_ne_zero
  accountant := rfl

theorem sameReach_rewarded (rollout rollout' : RolloutBuffer ℝ) :
    (oneEpoch.setup exactTorch rewardBackward 1).SameReach rollout rollout' := by
  intro start parameters indices i
  simp [setup, rewardBackward]

theorem lossGradients_rewarded (reward : ℝ) (r : Released) (indices : List Nat) :
    (oneEpoch.setup exactTorch rewardBackward 1).lossGradients (rewarded reward) r indices =
      r.parameters.map fun data => ⟨data, some ⟨data.shape, fun _ => reward⟩⟩ := by
  unfold TrainingSetup.lossGradients DistributedPPO.backwardPass
  rw [if_neg (by simp [setup, oneEpoch])]
  refine List.ext_getElem (by simp [accumulate, zeroGrad]) fun i hi _ => ?_
  have hi' : i < r.parameters.length := by simpa [accumulate, zeroGrad] using hi
  simp [accumulate, zeroGrad, setup, rewardBackward, rewarded, DistributedPPO.parameters, hi']

theorem eq_zero_of_mem_clipped {r : Released} {indices : List Nat} {x : ℝ} (hx : x ∈
    (oneEpoch.setup exactTorch rewardBackward 1).clipped (rewarded 0) r indices) : x = 0 := by
  have hgradient : ∀ y ∈ getGradientVector ((oneEpoch.setup exactTorch rewardBackward 1).lossGradients
      (rewarded 0) r indices), y = 0 := by
    intro y hy
    rw [lossGradients_rewarded] at hy
    obtain ⟨p, hp, hmem⟩ := List.mem_flatMap.1 hy
    obtain ⟨data, -, rfl⟩ := List.mem_map.1 hp
    exact ((List.mem_ofFn' _ _).1 hmem).elim fun _ h => h.symm
  rw [TrainingSetup.clipped, DPParams.clipGradients] at hx
  split at hx
  · obtain ⟨y, hy, rfl⟩ := List.mem_map.1 hx
    rw [hgradient y hy, zero_mul]
  · exact hgradient x hx

theorem l2Norm_clipGradients_le {dp : DPParams ℝ} (hC : 0 ≤ dp.clipNorm) (g : List ℝ) :
    l2Norm (dp.clipGradients l2Norm g) ≤ dp.clipNorm := by
  obtain ⟨n, v, -, rfl, -⟩ := exists_ofFn (rfl : g.length = g.length)
  rw [clipGradients_ofFn, l2Norm_ofFn]
  exact norm_clip_le hC _

/-- Without a reward there is no gradient, so clipping keeps the other within the clip norm. -/
theorem adjacent_rewarded (reward : ℝ) : (oneEpoch.setup exactTorch rewardBackward 1).Adjacent 1
    (rewarded 0) (rewarded reward) where
  reached := sameReach_rewarded _ _
  close := by
    intro r indices
    have hlen := (sameReach_rewarded (rewarded 0) (rewarded reward)).length_clipped
      shaped_rewardBackward r indices
    have hdist : List.zipWith (· - ·) ((oneEpoch.setup exactTorch rewardBackward 1).clipped
        (rewarded 0) r indices) ((oneEpoch.setup exactTorch rewardBackward 1).clipped
          (rewarded reward) r indices) = ((oneEpoch.setup exactTorch rewardBackward 1).clipped
            (rewarded reward) r indices).map (- ·) := by
      refine List.ext_getElem (by simp [hlen]) fun i hi _ => ?_
      have hi' : i < ((oneEpoch.setup exactTorch rewardBackward 1).clipped
        (rewarded 0) r indices).length := by simp at hi; omega
      simp [eq_zero_of_mem_clipped (List.getElem_mem hi')]
    rw [l2Dist, hdist, l2Norm, List.map_map]
    simp only [Function.comp_def, neg_sq]
    exact (l2Norm_clipGradients_le zero_le_one _).trans (one_mul _).ge

theorem training_private_rewarded : ∃ a : RDPAccountant,
    (∀ normal, ∃ s', run (train exactTorch rewardBackward (fun _ _ u => (1, u))
      (fun _ => rewarded 0) normal) oneEpoch [[[0]], [[0]]] = some s' ∧ s'.accountant = a) ∧
    ∀ maxEpsilon delta, ¬ a.isBudgetExhausted maxEpsilon delta → Private maxEpsilon delta
      ((oneEpoch.randomTraining exactTorch rewardBackward (fun _ _ u => (1, u))
        (fun _ => rewarded 0) [[[0]], [[0]]]).map (Option.map published))
      ((oneEpoch.randomTraining exactTorch rewardBackward (fun _ _ u => (1, u))
        (fun gradients => rewarded gradients.length) [[[0]], [[0]]]).map (Option.map published)) :=
  training_private (fun _ _ u => (1, u)) fixedNoise_oneEpoch shaped_rewardBackward (fun _ => rfl)
    (fun _ => rfl) (fun _ => adjacent_rewarded _) _

theorem training_private_any_rewarded : ∃ a : RDPAccountant,
    (∀ normal, ∃ s', run (train exactTorch rewardBackward (fun _ _ u => (1, u))
      (fun _ => rewarded 2) normal) oneEpoch [[[0]], [[0]]] = some s' ∧ s'.accountant = a) ∧
    ∀ maxEpsilon delta, ¬ a.isBudgetExhausted maxEpsilon delta →
      (∀ order ∈ defaultOrders, delta * order ≤ 1) → Private (4 * maxEpsilon) delta
        ((oneEpoch.randomTraining exactTorch rewardBackward (fun _ _ u => (1, u))
          (fun _ => rewarded 2) [[[0]], [[0]]]).map (Option.map published))
        ((oneEpoch.randomTraining exactTorch rewardBackward (fun _ _ u => (1, u))
          (fun _ => rewarded (-2)) [[[0]], [[0]]]).map (Option.map published)) :=
  training_private_any (fun _ _ u => (1, u)) fixedNoise_oneEpoch shaped_rewardBackward rfl
    (fun _ => rfl) (fun _ => rfl) (fun _ => sameReach_rewarded _ _) _

end Example

end PrivateTrainer

end

end GossipRl
