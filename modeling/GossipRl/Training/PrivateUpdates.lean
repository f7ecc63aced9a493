import GossipRl.Privacy.AccountantRun
import GossipRl.Training.PrivacyLedger
import GossipRl.Training.PrivateTrainer
import Mathlib.Algebra.Order.Floor.Div

/-!
# The updates of a private `train_step`

The gradient that is set in the model is read back by `optimizer.step` as it is, since `privatize`
keeps its length, and the parameters are taken from it where the optimizer takes them (`Steps`). The
noise multiplier is read twice in an update, by `add_noise` and for the
accountant, and the second read gives what the first one did. An epoch's batches are its shuffle, cut
to pieces.
-/

namespace GossipRl
open Support

noncomputable section

/-- A gradient has the shape of its parameter. -/
def ShapedBackward (backward : Backward ℝ) : Prop :=
  ∀ start current rollout indices i g d, backward start current rollout indices i = some g →
    current[i]? = some d → g.shape = d.shape

theorem shape_accumulate {grads : Nat → Option (NdArray ℝ)} {params : List (Param ℝ)}
    (h : ∀ i g p, grads i = some g → params[i]? = some p → g.shape = p.data.shape) :
    ∀ p ∈ accumulate grads (zeroGrad params), ∀ g, p.grad = some g → g.shape = p.data.shape := by
  intro p hp g hg
  obtain ⟨i, hi, rfl⟩ := List.mem_mapIdx.1 hp
  have hi' : i < params.length := by simpa [zeroGrad] using hi
  refine h i g params[i] ?_ (List.getElem?_eq_getElem hi') |>.trans ?_
  · cases hgrads : grads i with
    | none => simp [zeroGrad, hgrads] at hg
    | some g' => simpa [zeroGrad, hgrads] using hg
  · simp [zeroGrad]

theorem shape_backwardPass {torch : Torch ℝ} {backward : Backward ℝ} {start : List (NdArray ℝ)}
    {indices : List Nat} {t : DistributedPPO ℝ} (h : ShapedBackward backward) :
    ∀ p ∈ t.backwardPass torch backward start indices, ∀ g, p.grad = some g →
      g.shape = p.data.shape := by
  have hgrads : ∀ i g p, backward start t.parameters t.buffer indices i = some g →
      t.params[i]? = some p → g.shape = p.data.shape := by
    intro i g p hg hp
    refine h _ _ _ _ i g p.data hg ?_
    rw [DistributedPPO.parameters, List.getElem?_map, hp, Option.map_some]
  have hshape := shape_accumulate hgrads
  unfold DistributedPPO.backwardPass
  dsimp only
  split
  · intro p hp g hg
    obtain ⟨q, hq, rfl⟩ := List.mem_map.1 hp
    obtain ⟨g', hg', rfl⟩ := Option.map_eq_some_iff.1 hg
    exact hshape q hq g' hg'
  · exact hshape

namespace GaussianMechanism
variable {m m' : GaussianMechanism} {x : ℝ}

theorem noiseMultiplier_again (h : m.noiseMultiplier = some (x, m')) :
    m'.noiseMultiplier = some (x, m') ∧ m'.clipNorm = m.clipNorm := by
  unfold noiseMultiplier at h
  split at h
  · rename_i hoverride
    obtain ⟨rfl, rfl⟩ := Prod.mk.inj (Option.some.inj h)
    exact ⟨by rw [noiseMultiplier, hoverride], rfl⟩
  · rename_i hoverride hcomputed
    obtain ⟨rfl, rfl⟩ := Prod.mk.inj (Option.some.inj h)
    exact ⟨by rw [noiseMultiplier, hoverride, hcomputed], rfl⟩
  · rename_i hoverride _
    obtain ⟨y, -, heq⟩ := Option.map_eq_some_iff.1 h
    obtain ⟨rfl, rfl⟩ := Prod.mk.inj heq
    exact ⟨by rw [noiseMultiplier, hoverride], rfl⟩

theorem privatize_eq_some {norm : List ℝ → ℝ} {normal : ℝ → (size : Nat) → Fin size → ℝ}
    {gradients : List ℝ} (hx : m.noiseMultiplier = some (x, m')) :
    m.privatize norm normal gradients = if x * m.clipNorm < 0 then none else
      some (⟨DPParams.privatize norm (List.ofFn (normal (x * m.clipNorm) gradients.length))
        gradients ⟨m.clipNorm⟩, x, List.ofFn (normal (x * m.clipNorm) gradients.length)⟩, m') := by
  rw [privatize, hx, Option.bind_some, DPParams.length_clipGradients]
  dsimp only
  rw [(noiseMultiplier_again hx).2]
  rfl

end GaussianMechanism

/-- The update's gradient is an output of `privatize`, with noise of the recorded multiplier. -/
structure Update.Private (norm : List ℝ → ℝ) (normal : ℝ → Nat → (size : Nat) → Fin size → ℝ)
    (clipNorm : ℝ) (u : Update) : Prop where
  fed : u.fed = DPParams.privatize norm u.noise u.gradients ⟨clipNorm⟩
  noise : ∃ k, u.noise = List.ofFn (normal (u.multiplier * clipNorm) k u.gradients.length)

/-- The values of the parameters, and the state of the optimizer. -/
abbrev Policy := List (NdArray ℝ) × List (AdamState ℝ)

/-- Each update takes the policy where the optimizer takes parameters with the gradient it is fed. -/
def Steps (torch : Torch ℝ) : Policy → List Update → Policy → Prop
  | policy, [], policy' => policy' = policy
  | policy, u :: updates, policy' =>
    u.params.map (·.data) = policy.1 ∧ getGradientVector u.params = u.fed ∧
      Steps torch
        ((List.range policy.1.length).map (torch.optimizerStep policy.2 u.params).1,
          (torch.optimizerStep policy.2 u.params).2) updates policy'

theorem Steps.append {torch : Torch ℝ} {policy policy₁ policy₂ : Policy} {new new' : List Update}
    (h : Steps torch policy new policy₁) (h' : Steps torch policy₁ new' policy₂) :
    Steps torch policy (new ++ new') policy₂ := by
  induction new generalizing policy with
  | nil =>
    obtain rfl : policy₁ = policy := h
    exact h'
  | cons u new ih =>
    obtain ⟨hparams, hfed, hrest⟩ := h
    exact ⟨hparams, hfed, ih hrest⟩

namespace DistributedPPO

def policy (t : DistributedPPO ℝ) : Policy := (t.parameters, t.optimizer)

theorem steps_applyStep (torch : Torch ℝ) {t : DistributedPPO ℝ} {u : Update}
    (hparams : u.params = t.params) (hfed : u.fed = getGradientVector t.params) :
    Steps torch t.policy [u] (t.applyStep torch).policy := by
  refine ⟨by rw [hparams]; rfl, by rw [hparams, hfed], ?_⟩
  rw [hparams]
  refine Prod.ext (List.ext_getElem ?_ ?_) rfl
  · simp [policy, parameters, applyStep]
  · intro i h₁ h₂
    simp [policy, parameters, applyStep]

end DistributedPPO

namespace PrivateTrainer
variable {σ : Type*} {torch : Torch ℝ} {backward : Backward ℝ}
  {getNoiseMultiplier : Nat → ℝ → σ → ℝ × σ} {normal : ℝ → Nat → (size : Nat) → Fin size → ℝ}
  {start : List (NdArray ℝ)} {s s' s₀ : PrivateTrainer σ}

/-- Whatever the scheduler gives at the trainer's step, or without one the mechanism's own noise
multiplier, is positive. -/
def PositiveMultipliers (getNoiseMultiplier : Nat → ℝ → σ → ℝ × σ) (s : PrivateTrainer σ) : Prop :=
  match s.scheduler with
  | some _ => ∀ norm scheduler, 0 < (getNoiseMultiplier s.trainer.step norm scheduler).1
  | none => ∃ x m, s.mechanism.noiseMultiplier = some (x, m) ∧ 0 < x

theorem schedule_of_none (h : s.scheduler = none) (gradients : List ℝ) :
    s.schedule torch getNoiseMultiplier gradients = s := by simp [schedule, h]

theorem schedule_of_some {scheduler : σ} (h : s.scheduler = some scheduler) (gradients : List ℝ) :
    s.schedule torch getNoiseMultiplier gradients =
      let next := getNoiseMultiplier s.trainer.step (torch.norm gradients) scheduler
      { s with
        mechanism := { s.mechanism with override := some next.1 }
        scheduler := some next.2 } := by simp [schedule, h]

theorem schedule_spec (torch : Torch ℝ) (h : s.PositiveMultipliers getNoiseMultiplier)
    (gradients : List ℝ) :
    ∃ mechanism scheduler,
      s.schedule torch getNoiseMultiplier gradients =
        { s with mechanism := mechanism, scheduler := scheduler } ∧
      mechanism.clipNorm = s.mechanism.clipNorm ∧
      ∃ x m, mechanism.noiseMultiplier = some (x, m) ∧ 0 < x ∧
        ∀ s' : PrivateTrainer σ, s'.trainer.step = s.trainer.step → s'.scheduler = scheduler →
          s'.mechanism = m → s'.PositiveMultipliers getNoiseMultiplier := by
  unfold PositiveMultipliers at h
  cases hs : s.scheduler with
  | none =>
    rw [hs] at h
    obtain ⟨x, m, hread, hx⟩ := h
    refine ⟨s.mechanism, none, by rw [schedule_of_none hs, ← hs], rfl, x, m, hread, hx, ?_⟩
    intro s' _ hscheduler hmechanism
    unfold PositiveMultipliers
    rw [hscheduler, hmechanism]
    exact ⟨x, m, (GaussianMechanism.noiseMultiplier_again hread).1, hx⟩
  | some scheduler =>
    rw [hs] at h
    let next := getNoiseMultiplier s.trainer.step (torch.norm gradients) scheduler
    refine ⟨{ s.mechanism with override := some next.1 }, some next.2, schedule_of_some hs _,
      rfl, next.1, _, rfl, h _ _, ?_⟩
    intro s' hstep hscheduler _
    unfold PositiveMultipliers
    rw [hscheduler, hstep]
    exact h

theorem history_step {a a' : RDPAccountant} {call : ℝ × ℝ} (h : a.step call = some a') :
    a'.history.map PrivacySpent.noiseMultiplier =
      a.history.map PrivacySpent.noiseMultiplier ++ [call.1] := by
  obtain ⟨rdp, -, rfl⟩ := Option.map_eq_some_iff.1 h
  simp

/-- What `_apply_dp_noise` does with gradients of the parameters' sizes. -/
structure Noised (torch : Torch ℝ) (getNoiseMultiplier : Nat → ℝ → σ → ℝ × σ)
    (normal : ℝ → Nat → (size : Nat) → Fin size → ℝ) (gradients : List ℝ) (out : NoisyGradients)
    (s s' : PrivateTrainer σ) : Prop where
  config : s'.trainer.config = s.trainer.config
  buffer : s'.trainer.buffer = s.trainer.buffer
  policy : s'.trainer.policy = s.trainer.policy
  step : s'.trainer.step = s.trainer.step
  clipNorm : s'.mechanism.clipNorm = s.mechanism.clipNorm
  updates : s'.updates = s.updates
  positive : ∀ s'' : PrivateTrainer σ, s''.trainer.step = s'.trainer.step →
    s''.scheduler = s'.scheduler → s''.mechanism = s'.mechanism →
    s''.PositiveMultipliers getNoiseMultiplier
  fed : getGradientVector s'.trainer.params =
    DPParams.privatize torch.norm out.noise gradients ⟨s.mechanism.clipNorm⟩
  noise : out.noise = List.ofFn
    (normal (out.multiplier * s.mechanism.clipNorm) s.updates.length gradients.length)
  accounted : s'.accountant.history.map PrivacySpent.noiseMultiplier =
    s.accountant.history.map PrivacySpent.noiseMultiplier ++ [out.multiplier]

theorem applyDpNoise_spec (torch : Torch ℝ)
    (normal : ℝ → Nat → (size : Nat) → Fin size → ℝ) (hpos : s.PositiveMultipliers getNoiseMultiplier)
    (hbatch : 0 < s.trainer.config.batchSize)
    (hle : s.trainer.config.batchSize ≤ s.trainer.buffer.observations.length) {gradients : List ℝ}
    (hlen : gradients.length = gradNumel s.trainer.params) :
    if 0 ≤ s.mechanism.clipNorm then
      ∃ out s', applyDpNoise torch getNoiseMultiplier normal gradients s = some (out, s') ∧
        Noised torch getNoiseMultiplier normal gradients out s s'
    else applyDpNoise torch getNoiseMultiplier normal gradients s = none := by
  obtain ⟨mechanism, scheduler, hschedule, hclip, x, m, hread, hx, hkeeps⟩ :=
    schedule_spec torch hpos gradients
  obtain ⟨hagain, hclip'⟩ := GaussianMechanism.noiseMultiplier_again hread
  unfold applyDpNoise
  simp only [hschedule, GaussianMechanism.privatize_eq_some hread, hclip]
  split
  · rename_i hnonneg
    have hvalid : ValidCall
        (x, s.trainer.config.batchSize / s.trainer.buffer.observations.length) := by
      have hbatch' : (0 : ℝ) < s.trainer.config.batchSize := Nat.cast_pos.2 hbatch
      have hle' : (s.trainer.config.batchSize : ℝ) ≤ s.trainer.buffer.observations.length :=
        Nat.cast_le.2 hle
      exact ⟨hx, div_pos hbatch' (hbatch'.trans_le hle'), div_le_one_of_le₀ hle' (Nat.cast_nonneg _)⟩
    obtain ⟨a, ha, -⟩ := RDPAccountant.step_spec hvalid s.accountant
    have hnoisy : (DPParams.privatize torch.norm
        (List.ofFn (normal (x * s.mechanism.clipNorm) s.updates.length gradients.length)) gradients
        ⟨s.mechanism.clipNorm⟩).length = gradNumel s.trainer.params :=
      (DPParams.length_privatize _ (List.length_ofFn ..)).trans hlen
    obtain ⟨hset, hget⟩ := getGradientVector_setGradientVector hnoisy
    rw [if_neg (not_lt.2 (mul_nonneg hx.le hnonneg)), Option.bind_some]
    simp only [hset, if_true, track, hagain, Option.bind_some, ha, Option.map_some]
    have hpolicy : (setGradientVector (DPParams.privatize torch.norm
        (List.ofFn (normal (x * s.mechanism.clipNorm) s.updates.length gradients.length)) gradients
        ⟨s.mechanism.clipNorm⟩) s.trainer.params).1.map (·.data) = s.trainer.parameters :=
      zeroGrad_eq_iff.1 (zeroGrad_setGradientVector _ _)
    refine ⟨_, _, rfl, rfl, rfl, congrArg (·, s.trainer.optimizer) hpolicy, rfl, hclip'.trans hclip,
      rfl, ?_, hget, rfl, history_step ha⟩
    intro s'' hstep hscheduler hmechanism
    exact hkeeps s'' hstep hscheduler hmechanism
  · rename_i hneg
    rw [if_pos (mul_neg_of_pos_of_neg hx (not_le.1 hneg)), Option.bind_none]

/-- What the updates with these batches do. -/
structure Updated (torch : Torch ℝ) (getNoiseMultiplier : Nat → ℝ → σ → ℝ × σ)
    (normal : ℝ → Nat → (size : Nat) → Fin size → ℝ) (batches : List (List Nat))
    (s : PrivateTrainer σ) (new : List Update) (s' : PrivateTrainer σ) : Prop where
  config : s'.trainer.config = s.trainer.config
  buffer : s'.trainer.buffer = s.trainer.buffer
  clipNorm : s'.mechanism.clipNorm = s.mechanism.clipNorm
  positive : s'.PositiveMultipliers getNoiseMultiplier
  updates : s'.updates = s.updates ++ new
  steps : Steps torch s.trainer.policy new s'.trainer.policy
  indices : new.map Update.indices = batches
  isPrivate : ∀ u ∈ new, u.Private torch.norm normal s.mechanism.clipNorm
  accounted : s'.accountant.history.map PrivacySpent.noiseMultiplier =
    s.accountant.history.map PrivacySpent.noiseMultiplier ++ new.map Update.multiplier

theorem map_data_backwardPass (torch : Torch ℝ) (backward : Backward ℝ) (start : List (NdArray ℝ))
    (indices : List Nat) (t : DistributedPPO ℝ) :
    (t.backwardPass torch backward start indices).map (·.data) = t.parameters := by
  have haccumulate : ∀ grads : Nat → Option (NdArray ℝ),
      (accumulate grads (zeroGrad t.params)).map (·.data) = t.parameters := by
    intro grads
    refine List.ext_getElem (by simp [accumulate, zeroGrad, DistributedPPO.parameters]) ?_
    intro i h₁ h₂
    simp [accumulate, zeroGrad, DistributedPPO.parameters]
  unfold DistributedPPO.backwardPass
  dsimp only
  split
  · rw [Torch.clipGradNorm, List.map_map]
    exact haccumulate _
  · exact haccumulate _

theorem policy_backwardPass (start : List (NdArray ℝ)) (indices : List Nat) (s : PrivateTrainer σ) :
    (s.backwardPass torch backward start indices).trainer.policy = s.trainer.policy :=
  congrArg (·, s.trainer.optimizer)
    (map_data_backwardPass torch backward start indices s.trainer)

/-- An update either raises, for a negative clip norm, or does all that it is to do. -/
theorem update_spec (torch : Torch ℝ) (normal : ℝ → Nat → (size : Nat) → Fin size → ℝ)
    (start : List (NdArray ℝ)) (hshape : ShapedBackward backward)
    (hpos : s.PositiveMultipliers getNoiseMultiplier) (hbatch : 0 < s.trainer.config.batchSize)
    (hle : s.trainer.config.batchSize ≤ s.trainer.buffer.observations.length) (indices : List Nat) :
    if 0 ≤ s.mechanism.clipNorm then
      ∃ u s', update torch backward getNoiseMultiplier normal start s indices = some s' ∧
        Updated torch getNoiseMultiplier normal [indices] s [u] s'
    else update torch backward getNoiseMultiplier normal start s indices = none := by
  have hnoise := applyDpNoise_spec torch normal
    (s := s.backwardPass torch backward start indices) hpos hbatch hle
    (length_getGradientVector (shape_backwardPass hshape))
  have hclipNorm : (s.backwardPass torch backward start indices).mechanism.clipNorm =
    s.mechanism.clipNorm := rfl
  rw [hclipNorm] at hnoise
  unfold update
  dsimp only
  by_cases hclip : 0 ≤ s.mechanism.clipNorm
  · rw [if_pos hclip] at hnoise ⊢
    obtain ⟨out, s₁, hs₁, h⟩ := hnoise
    rw [hs₁, Option.map_some]
    let u : Update :=
      { indices := indices
        gradients := getGradientVector (s.backwardPass torch backward start indices).trainer.params
        params := s₁.trainer.params
        fed := getGradientVector s₁.trainer.params
        multiplier := out.multiplier
        noise := out.noise }
    refine ⟨u, _, rfl, h.config, h.buffer, h.clipNorm, h.positive _ rfl rfl rfl, ?_, ?_, rfl, ?_, ?_⟩
    · exact congrArg (· ++ [u]) h.updates
    · have hpolicy : s₁.trainer.policy = s.trainer.policy :=
        h.policy.trans (policy_backwardPass start indices s)
      exact hpolicy ▸ DistributedPPO.steps_applyStep torch rfl rfl
    · intro u hu
      obtain rfl := List.mem_singleton.1 hu
      exact ⟨h.fed, _, h.noise⟩
    · exact h.accounted
  · rw [if_neg hclip] at hnoise ⊢
    rw [hnoise, Option.map_none]

theorem Updated.append {batches batches' : List (List Nat)} {new new' : List Update}
    (h : Updated torch getNoiseMultiplier normal batches s₀ new s)
    (h' : Updated torch getNoiseMultiplier normal batches' s new' s') :
    Updated torch getNoiseMultiplier normal (batches ++ batches') s₀ (new ++ new') s' where
  config := h'.config.trans h.config
  buffer := h'.buffer.trans h.buffer
  clipNorm := h'.clipNorm.trans h.clipNorm
  positive := h'.positive
  updates := by rw [h'.updates, h.updates, List.append_assoc]
  steps := h.steps.append h'.steps
  indices := by rw [List.map_append, h.indices, h'.indices]
  isPrivate := by
    intro u hu
    rcases List.mem_append.1 hu with hu | hu
    · exact h.isPrivate u hu
    · exact h.clipNorm ▸ h'.isPrivate u hu
  accounted := by rw [h'.accounted, h.accounted, List.map_append, List.append_assoc]

/-- With a clip norm that is not negative every update of the loop does what it is to do. -/
theorem run_update_spec (torch : Torch ℝ) (normal : ℝ → Nat → (size : Nat) → Fin size → ℝ)
    (start : List (NdArray ℝ)) (hshape : ShapedBackward backward)
    (hpos : s.PositiveMultipliers getNoiseMultiplier) (hbatch : 0 < s.trainer.config.batchSize)
    (hle : s.trainer.config.batchSize ≤ s.trainer.buffer.observations.length)
    (batches : List (List Nat)) :
    if 0 ≤ s.mechanism.clipNorm ∨ batches = [] then
      ∃ new s', run (update torch backward getNoiseMultiplier normal start) s batches = some s' ∧
        Updated torch getNoiseMultiplier normal batches s new s'
    else run (update torch backward getNoiseMultiplier normal start) s batches = none := by
  induction batches generalizing s with
  | nil =>
    rw [if_pos (.inr rfl)]
    exact ⟨[], s, rfl, rfl, rfl, rfl, hpos, by simp, rfl, rfl, by simp, by simp⟩
  | cons indices batches ih =>
    have hupdate := update_spec torch normal start hshape hpos hbatch hle indices
    rw [run_cons]
    by_cases hclip : 0 ≤ s.mechanism.clipNorm
    · rw [if_pos hclip] at hupdate
      obtain ⟨u, s₁, hs₁, h₁⟩ := hupdate
      have hrest := ih h₁.positive (by rw [h₁.config]; exact hbatch)
        (by rw [h₁.config, h₁.buffer]; exact hle)
      rw [if_pos (.inl (h₁.clipNorm ▸ hclip))] at hrest
      obtain ⟨new, s', hs', h'⟩ := hrest
      rw [if_pos (.inl hclip), hs₁, Option.bind_some]
      exact ⟨_, s', hs', h₁.append h'⟩
    · rw [if_neg hclip] at hupdate
      rw [if_neg (by simp [hclip]), hupdate, Option.bind_none]

theorem flatten_windows (size : Nat) (l : List Nat) (k : Nat) :
    ((List.range k).map fun j => (l.drop (j * size)).take size).flatten = l.take (k * size) := by
  induction k with
  | zero => simp
  | succ k ih =>
    rw [List.range_succ, List.map_append, List.flatten_append, ih, Nat.succ_mul, List.take_add]
    simp

theorem flatten_minibatches {batchSize : Nat} (h : 0 < batchSize) (indices : List Nat) :
    (minibatches batchSize indices).flatten = indices := by
  rw [minibatches, flatten_windows]
  refine List.take_of_length_le ?_
  rw [← Nat.ceilDiv_eq_add_pred_div, Nat.mul_comm]
  exact (ceilDiv_le_iff_le_mul h).1 le_rfl

theorem exists_flatten_of_map {α β : Type*} {f : α → β} {l : List α} {yss : List (List β)}
    (h : l.map f = yss.flatten) :
    ∃ xss : List (List α), xss.flatten = l ∧ xss.map (·.map f) = yss := by
  induction yss generalizing l with
  | nil =>
    obtain rfl := List.map_eq_nil_iff.1 h
    exact ⟨[], rfl, rfl⟩
  | cons ys yss ih =>
    rw [List.flatten_cons, List.map_eq_append_iff] at h
    obtain ⟨l₁, l₂, rfl, rfl, hrest⟩ := h
    obtain ⟨xss, rfl, rfl⟩ := ih hrest
    exact ⟨l₁ :: xss, rfl, rfl⟩

/-- `s'` is reached from `s` by the private updates `new` of whole epochs, each of which has every
sample once, and the accountant is told of each of them. The parameters are where they lead. -/
structure PrivateEpochs (torch : Torch ℝ) (normal : ℝ → Nat → (size : Nat) → Fin size → ℝ)
    (s : PrivateTrainer σ) (new : List Update) (s' : PrivateTrainer σ) : Prop where
  updates : s'.updates = s.updates ++ new
  count : new.length =
    s.trainer.config.nEpochs * (s.trainer.buffer.observations.length ⌈/⌉ s.trainer.config.batchSize)
  epochs : ∃ epochs : List (List Update), epochs.length = s.trainer.config.nEpochs ∧
    epochs.flatten = new ∧ ∀ epoch ∈ epochs,
      (epoch.flatMap Update.indices).Perm (List.range s.trainer.buffer.observations.length)
  steps : Steps torch s.trainer.policy new s'.trainer.policy
  isPrivate : ∀ u ∈ new, u.Private torch.norm normal s.mechanism.clipNorm
  accounted : s'.accountant.history.map PrivacySpent.noiseMultiplier =
    s.accountant.history.map PrivacySpent.noiseMultiplier ++ new.map Update.multiplier

theorem Updated.privateEpochs {perms : List (List Nat)} {new : List Update}
    (hperms : s.trainer.Shuffles perms) (hbatch : 0 < s.trainer.config.batchSize)
    (h : Updated torch getNoiseMultiplier normal
      (perms.flatMap (minibatches s.trainer.config.batchSize)) s new s') :
    PrivateEpochs torch normal s new s' where
  updates := h.updates
  count := by
    rw [Nat.ceilDiv_eq_add_pred_div, ← DistributedPPO.length_batches hperms, ← h.indices,
      List.length_map]
  epochs := by
    have hbatches : new.map Update.indices =
        (perms.map (minibatches s.trainer.config.batchSize)).flatten := by
      rw [h.indices, List.flatMap_def]
    obtain ⟨epochs, hflatten, hmap⟩ := exists_flatten_of_map hbatches
    refine ⟨epochs, ?_, hflatten, fun epoch hepoch => ?_⟩
    · rw [← hperms.1, ← List.length_map (minibatches s.trainer.config.batchSize), ← hmap,
        List.length_map]
    · have hmem : epoch.map Update.indices ∈ perms.map (minibatches s.trainer.config.batchSize) :=
        hmap ▸ List.mem_map.2 ⟨epoch, hepoch, rfl⟩
      obtain ⟨perm, hperm, heq⟩ := List.mem_map.1 hmem
      rw [List.flatMap_def, ← heq, flatten_minibatches hbatch]
      exact hperms.2 perm hperm
  steps := h.steps
  isPrivate := h.isPrivate
  accounted := h.accounted

section Setup
variable {privacy : PrivacyConfig} {s s' : PrivateTrainer Unit}

/-- The scheduler that `_setup_dp` makes. -/
def linearSchedule (step : Nat) (_norm : ℝ) (scheduler : Unit) : ℝ × Unit :=
  (NoiseScheduleConfig.getNoiseMultiplier step {}, scheduler)

/-- What `_setup_dp` makes, and what `train_step` leaves of it. -/
structure SetUp (privacy : PrivacyConfig) (s : PrivateTrainer Unit) : Prop where
  dpMechanism : s.trainer.dpMechanism = some ⟨privacy.clipNorm⟩
  clipNorm : s.mechanism.clipNorm = privacy.clipNorm
  scheduler : s.scheduler = if privacy.adaptiveNoise then some () else none
  override : privacy.adaptiveNoise = false → s.mechanism.override = some privacy.noiseMultiplier

theorem SetUp.schedule (torch : Torch ℝ) (h : s.SetUp privacy) (gradients : List ℝ) :
    ∃ mechanism, s.schedule torch linearSchedule gradients = { s with mechanism := mechanism } ∧
      mechanism.clipNorm = privacy.clipNorm ∧
      mechanism.noiseMultiplier = some (privacy.noiseMultiplierAt s.trainer.step, mechanism) ∧
      (privacy.adaptiveNoise = false → mechanism.override = some privacy.noiseMultiplier) := by
  have hscheduler := h.scheduler
  cases hadaptive : privacy.adaptiveNoise with
  | true =>
    rw [hadaptive, if_pos rfl] at hscheduler
    refine ⟨{ s.mechanism with
      override := some (NoiseScheduleConfig.getNoiseMultiplier s.trainer.step {}) }, ?_, h.clipNorm,
      ?_, by simp⟩
    · rw [schedule_of_some hscheduler, hscheduler]
      rfl
    · simp [GaussianMechanism.noiseMultiplier, PrivacyConfig.noiseMultiplierAt, hadaptive]
  | false =>
    rw [hadaptive, if_neg Bool.false_ne_true] at hscheduler
    refine ⟨s.mechanism, ?_, h.clipNorm, ?_, fun _ => h.override hadaptive⟩
    · exact schedule_of_none hscheduler gradients
    · simp [GaussianMechanism.noiseMultiplier, PrivacyConfig.noiseMultiplierAt, hadaptive,
        h.override hadaptive]

theorem applyDpNoise_refines (hs : s.SetUp privacy) {gradients : List ℝ} {out : NoisyGradients}
    (hgradients : s.trainer.localGradients = some gradients)
    (h : s.applyDpNoise torch linearSchedule normal gradients = some (out, s')) :
    s'.SetUp privacy ∧ s'.updates = s.updates ∧
      s.trainer.applyDpNoise torch out.noise = some s'.trainer ∧
      s.trainer.trackPrivacy privacy s.accountant = some s'.accountant := by
  obtain ⟨mechanism, hschedule, hclip, hread, hoverride⟩ := hs.schedule torch gradients
  unfold applyDpNoise at h
  simp only [hschedule, GaussianMechanism.privatize_eq_some hread, hclip] at h
  split at h
  · cases h
  · rename_i hscale
    rw [Option.bind_some] at h
    dsimp only at h
    split at h
    · rename_i hset
      simp only [track, hread, Option.bind_some, Option.map_eq_some_iff] at h
      obtain ⟨s₁, ⟨a, ha, rfl⟩, heq⟩ := h
      obtain ⟨rfl, rfl⟩ := Prod.mk.inj heq
      refine ⟨⟨hs.dpMechanism, hclip, hs.scheduler, hoverride⟩, rfl, ?_, ?_⟩
      · simp [DistributedPPO.applyDpNoise, hgradients, hs.dpMechanism, hset]
      · rw [DistributedPPO.trackPrivacy, if_neg hscale]
        exact ha
    · cases h

theorem update_refines (hs : s.SetUp privacy) {indices : List Nat} {k : Nat}
    (h : update torch backward linearSchedule normal start s indices = some s') :
    s'.SetUp privacy ∧ ∃ u : Update, s'.updates = s.updates ++ [u] ∧
      ∀ noise : Nat → List ℝ, noise k = u.noise →
        DistributedPPO.privateBatch torch backward start noise privacy (s.trainer, s.accountant)
          (indices, k) = some (s'.trainer, s'.accountant) := by
  unfold update at h
  obtain ⟨⟨out, s₁⟩, hnoise, rfl⟩ := Option.map_eq_some_iff.1 h
  obtain ⟨hs₁, hupdates, htrain, htrack⟩ := applyDpNoise_refines
    (s := s.backwardPass torch backward start indices) ⟨hs.dpMechanism, hs.clipNorm, hs.scheduler,
      hs.override⟩ rfl hnoise
  refine ⟨⟨hs₁.dpMechanism, hs₁.clipNorm, hs₁.scheduler, hs₁.override⟩, _,
    congrArg (· ++ _) hupdates, fun noise hk => ?_⟩
  have htrack' : s.trainer.trackPrivacy privacy s.accountant = some s₁.accountant := htrack
  have htrain' : s.trainer.trainBatch torch backward start noise (indices, k) =
      some (s₁.trainer.applyStep torch) := by
    rw [DistributedPPO.trainBatch, hk]
    exact congrArg (Option.map _) htrain
  simp only [DistributedPPO.privateBatch, htrack', htrain', Option.bind_some, Option.map_some]

/-- The loop is that of the trainer, where `noise k` is what the record has for the `k`-th update. -/
theorem run_update_refines (hs : s.SetUp privacy) {batches : List (List Nat)} {k : Nat}
    (h : run (update torch backward linearSchedule normal start) s batches = some s') :
    s.updates <+: s'.updates ∧ ∀ noise : Nat → List ℝ,
      (∀ j u, s'.updates[s.updates.length + j]? = some u → noise (k + j) = u.noise) →
        run (DistributedPPO.privateBatch torch backward start noise privacy)
          (s.trainer, s.accountant) (batches.zipIdx k) = some (s'.trainer, s'.accountant) := by
  induction batches generalizing s k with
  | nil =>
    obtain rfl := Option.some.inj h
    exact ⟨List.prefix_rfl, fun _ _ => rfl⟩
  | cons indices batches ih =>
    rw [run_cons, Option.bind_eq_some_iff] at h
    obtain ⟨s₁, hstep, hrest⟩ := h
    obtain ⟨hs₁, u, hupdates, hbatch⟩ := update_refines (k := k) hs hstep
    obtain ⟨hpre, hruns⟩ := ih (k := k + 1) hs₁ hrest
    have hprefix : s.updates ++ [u] <+: s'.updates := hupdates ▸ hpre
    refine ⟨(List.prefix_append ..).trans hprefix, fun noise hnoise => ?_⟩
    have hu : s'.updates[s.updates.length + 0]? = some u := by
      obtain ⟨rest, hrest⟩ := hprefix
      simp [← hrest]
    rw [List.zipIdx_cons, run_cons, hbatch noise (hnoise 0 u hu), Option.bind_some]
    refine hruns noise fun j u' hu' => ?_
    rw [hupdates, List.length_append, List.length_singleton, Nat.add_assoc] at hu'
    rw [Nat.add_assoc]
    exact hnoise (1 + j) u' hu'

/-- A `train_step` of the trainer that `_setup_dp` has made is one of the trainer and accountant
that the agent has. -/
theorem trainStep_refines {perms : List (List Nat)} (hs : s.SetUp privacy)
    (h : s.trainStep torch backward linearSchedule normal perms = some s') : ∃ noise,
    DistributedPPO.privateTrainStep torch backward perms noise privacy (s.trainer, s.accountant) =
      some (s'.trainer, s'.accountant) := by
  unfold trainStep at h
  split at h
  · cases h
  · rename_i hraise
    obtain ⟨s₁, hloop, h⟩ := Option.bind_eq_some_iff.1 h
    obtain ⟨-, hruns⟩ := run_update_refines (k := 0) hs hloop
    let noise := fun j => (s₁.updates[s.updates.length + j]?.map Update.noise).getD []
    have hrun := hruns noise fun j u hu => by simp [noise, hu]
    obtain ⟨-, -, hconfig, -⟩ := DistributedPPO.run_privateBatch hrun
    dsimp only at hconfig
    split at h
    · cases h
    · rename_i hepochs
      obtain rfl := Option.some.inj h
      refine ⟨noise, ?_⟩
      rw [hconfig] at hepochs
      rw [DistributedPPO.privateTrainStep, if_neg (by tauto)]
      dsimp only
      rw [hrun]
      rfl

end Setup

section Example

/-- The gradient of a parameter is the parameter. -/
def plainBackward : Backward ℝ := fun _ current _ _ i => current[i]?

def plainTorch : Torch ℝ where
  clipCoef _ _ := 1
  optimizerStep optimizer params := (fun i => (params[i]?).elim .empty (·.data), optimizer)
  norm xs := xs.headD 0

/-- Two epochs on three samples, in batches of two. -/
def twoEpochs : PrivateTrainer Unit where
  trainer :=
    { config := { nEpochs := 2, batchSize := 2, maxGradNorm := 0 }
      params := [{ data := .ofList [1] }]
      buffer := { observations := [.empty, .empty, .empty] } }
  mechanism := { epsilon := 1, delta := 1, clipNorm := 1, override := some 1 }
  scheduler := none
  accountant := .init

end Example

end PrivateTrainer

end

end GossipRl
