import GossipRl.Training.PrivateAgent
import GossipRl.Training.PrivateGradients

/-!
# What the accountant is told

Each update of a round tells the accountant the same, so what it has after some rounds is a matter
of the sizes of their rollouts. While `run` goes on, the epsilons that were reported are those after
the rounds so far: one for each round, and one for none where `get_privacy_spent` was called before
the first.
-/

namespace GossipRl
open Support

noncomputable section

namespace DistributedPPO
variable {torch : Torch ℝ} {backward : Backward ℝ} {start : List (NdArray ℝ)}
  {noise : Nat → List ℝ} {perms : List (List Nat)} {privacy : PrivacyConfig}
  {t t' : DistributedPPO ℝ} {s s' : DistributedPPO ℝ × RDPAccountant}

/-- What the accountant is told of an update. -/
def updateCall (privacy : PrivacyConfig) (t : DistributedPPO ℝ) : ℝ × ℝ :=
  (privacy.noiseMultiplierAt t.step, t.config.batchSize / t.buffer.observations.length)

theorem trainBatch_keeps {batch : List Nat × Nat}
    (h : t.trainBatch torch backward start noise batch = some t') :
    t'.config = t.config ∧ t'.buffer = t.buffer ∧ t'.step = t.step := by
  rw [trainBatch, Option.map_eq_some_iff] at h
  obtain ⟨t₁, h, rfl⟩ := h
  unfold applyDpNoise at h
  split at h
  · dsimp only at h
    split at h
    · obtain rfl := Option.some.inj h
      exact ⟨rfl, rfl, rfl⟩
    · cases h
  · obtain rfl := Option.some.inj h
    exact ⟨rfl, rfl, rfl⟩

theorem privateBatch_spec {batch : List Nat × Nat}
    (h : privateBatch torch backward start noise privacy s batch = some s') :
    s.1.trainBatch torch backward start noise batch = some s'.1 ∧
      s.2.step (s.1.updateCall privacy) = some s'.2 := by
  obtain ⟨accountant, htrack, h⟩ := Option.bind_eq_some_iff.1 h
  obtain ⟨t, htrain, rfl⟩ := Option.map_eq_some_iff.1 h
  unfold trackPrivacy at htrack
  split at htrack
  · cases htrack
  · exact ⟨htrain, htrack⟩

theorem run_privateBatch {batches : List (List Nat × Nat)}
    (h : run (privateBatch torch backward start noise privacy) s batches = some s') :
    run (trainBatch torch backward start noise) s.1 batches = some s'.1 ∧
      run RDPAccountant.step s.2 (.replicate batches.length (s.1.updateCall privacy)) =
        some s'.2 ∧
      s'.1.config = s.1.config ∧ s'.1.step = s.1.step := by
  induction batches generalizing s with
  | nil =>
    obtain rfl : s = s' := by simpa using h
    exact ⟨rfl, rfl, rfl, rfl⟩
  | cons batch batches ih =>
    rw [run_cons, Option.bind_eq_some_iff] at h
    obtain ⟨s₁, h₁, h⟩ := h
    obtain ⟨htrain, htrack⟩ := privateBatch_spec h₁
    obtain ⟨hconfig, hbuffer, hstep⟩ := trainBatch_keeps htrain
    obtain ⟨htrains, htracks, hconfig', hstep'⟩ := ih h
    have hcall : s₁.1.updateCall privacy = s.1.updateCall privacy := by
      rw [updateCall, updateCall, hconfig, hbuffer, hstep]
    refine ⟨?_, ?_, hconfig'.trans hconfig, hstep'.trans hstep⟩
    · rw [run_cons, htrain]
      exact htrains
    · rw [List.length_cons, List.replicate_succ, run_cons, htrack, ← hcall]
      exact htracks

theorem applyAggregatedGradients_keeps (gradients : List ℝ) (t : DistributedPPO ℝ) :
    (t.applyAggregatedGradients gradients).1.config = t.config ∧
      (t.applyAggregatedGradients gradients).1.step = t.step := by
  unfold applyAggregatedGradients
  dsimp only
  repeat' split
  all_goals exact ⟨rfl, rfl⟩

theorem length_minibatches (batchSize : Nat) (indices : List Nat) :
    (minibatches batchSize indices).length =
      (indices.length + batchSize - 1) / batchSize := by
  simp [minibatches]

theorem length_batches (hperms : t.Shuffles perms) :
    (perms.flatMap (minibatches t.config.batchSize)).length = t.config.nEpochs *
      ((t.buffer.observations.length + t.config.batchSize - 1) / t.config.batchSize) := by
  obtain ⟨hlen, hperm⟩ := hperms
  have hbatches : perms.map (fun perm => (minibatches t.config.batchSize perm).length) =
      .replicate perms.length
        ((t.buffer.observations.length + t.config.batchSize - 1) / t.config.batchSize) := by
    rw [← List.map_const']
    refine List.map_congr_left fun perm hmem => ?_
    rw [length_minibatches, (hperm perm hmem).length_eq, List.length_range]
  rw [List.length_flatMap, hbatches, List.sum_replicate, hlen, smul_eq_mul]

end DistributedPPO

/-- What the accountant is told in a round on `n` samples, with the trainer at `step`. -/
def roundCalls (config : TrainingConfig ℝ) (privacy : PrivacyConfig) (step n : Nat) :
    List (ℝ × ℝ) :=
  .replicate (config.nEpochs * ((n + config.batchSize - 1) / config.batchSize))
    (privacy.noiseMultiplierAt step, config.batchSize / n)

/-- A new accountant after rounds on rollouts of these sizes, with the trainer at `step` before the
first one. -/
def accountantAfter (config : TrainingConfig ℝ) (privacy : PrivacyConfig) (step : Nat)
    (sizes : List Nat) : Option RDPAccountant :=
  run RDPAccountant.step .init ((sizes.zipIdx step).flatMap fun r => roundCalls config privacy r.2 r.1)

/-- What is spent then. -/
def spentAfter (config : TrainingConfig ℝ) (privacy : PrivacyConfig) (step : Nat)
    (sizes : List Nat) : Option (WithTop ℝ) :=
  (accountantAfter config privacy step sizes).map (·.getEpsilon privacy.delta)

theorem accountantAfter_concat (config : TrainingConfig ℝ) (privacy : PrivacyConfig)
    (step n : Nat) (sizes : List Nat) :
    accountantAfter config privacy step (sizes ++ [n]) =
      (accountantAfter config privacy step sizes).bind fun a =>
        run RDPAccountant.step a (roundCalls config privacy (step + sizes.length) n) := by
  rw [accountantAfter, List.zipIdx_append, List.flatMap_append, run_append]
  simp [accountantAfter]

/-- A round that returns is one of the trainer, and tells the accountant of all its updates. -/
theorem DistributedPPO.privateTrainStep_spec {torch : Torch ℝ} {backward : Backward ℝ}
    {noise : Nat → List ℝ} {perms : List (List Nat)} {privacy : PrivacyConfig}
    {t t' : DistributedPPO ℝ} {a a' : RDPAccountant} (hperms : t.Shuffles perms)
    (h : privateTrainStep torch backward perms noise privacy (t, a) = some (t', a')) :
    t.trainStep torch backward perms noise = some t' ∧
      run RDPAccountant.step a
        (roundCalls t.config privacy t.step t.buffer.observations.length) = some a' ∧
      t'.config = t.config ∧ t'.step = t.step + 1 := by
  unfold privateTrainStep at h
  split at h
  · cases h
  · rename_i hraise
    obtain ⟨s, hrun, heq⟩ := Option.map_eq_some_iff.1 h
    obtain ⟨rfl, rfl⟩ := Prod.mk.inj heq
    obtain ⟨htrains, htracks, hconfig, hstep⟩ := run_privateBatch hrun
    refine ⟨?_, ?_, hconfig, congrArg (· + 1) hstep⟩
    · rw [trainStep, if_neg hraise]
      dsimp only at htrains ⊢
      rw [htrains, Option.map_some]
    · rw [List.length_zipIdx, length_batches hperms] at htracks
      exact htracks

namespace Agent
variable {s : Agent ℝ}

@[simp] theorem publish_trainer (s : Agent ℝ) : s.publish.trainer = s.trainer := by
  unfold publish
  split <;> rfl

theorem applyAggregated_gossip (s : Agent ℝ) : s.applyAggregated.gossip = s.gossip := by
  unfold applyAggregated
  dsimp only
  repeat' split
  all_goals rfl

theorem applyAggregated_spec (s : Agent ℝ) :
    s.applyAggregated.trainer.config = s.trainer.config ∧
      s.applyAggregated.trainer.step = s.trainer.step ∧
      (s.applyAggregated.pc = .sleep ∨ s.applyAggregated.pc = .over) := by
  obtain ⟨hconfig, hstep⟩ := DistributedPPO.applyAggregatedGradients_keeps
    s.gossip.protocol.getAggregatedGradients.1.toList s.trainer
  unfold applyAggregated
  dsimp only
  repeat' split
  · exact ⟨hconfig, hstep, .inl rfl⟩
  · exact ⟨hconfig, hstep, .inr rfl⟩
  · exact ⟨rfl, rfl, .inl rfl⟩

theorem applyAggregated_alone (h : s.gossip.protocol.gradientCache.size = 0) :
    s.applyAggregated = { s with pc := .sleep } := by
  have hcount : ¬ s.gossip.protocol.getAggregatedGradients.2 > 1 := by
    unfold GossipProtocol.getAggregatedGradients
    split <;> simp [h]
  unfold applyAggregated
  dsimp only
  rw [if_neg fun hmany => hcount hmany.1]

end Agent

namespace PrivateAgent
variable {torch : Torch ℝ} {backward : Backward ℝ} {s s' s₀ : PrivateAgent} {e : PrivateAgentEvent}
  {es : List PrivateAgentEvent}

/-- The size of the rollout that a step trains on. -/
def startsTraining (s : PrivateAgent) : PrivateAgentEvent → Option Nat
  | .agent (.train rollout perms _) =>
    match s.agent.pc with
    | .sleep =>
      if s.agent.running ∧ (s.agent.trainer.withRollout rollout).Shuffles perms then
        some rollout.observations.length
      else none
    | _ => none
  | _ => none

/-- The sizes of the rollouts that are trained on. -/
def roundSizes (torch : Torch ℝ) (backward : Backward ℝ) (s₀ : PrivateAgent)
    (events : List PrivateAgentEvent) : List Nat :=
  observe (step torch backward) startsTraining s₀ events

/-- `get_privacy_spent` is called before the first round. -/
def AskedFirst (torch : Torch ℝ) (backward : Backward ℝ) (s₀ : PrivateAgent)
    (events : List PrivateAgentEvent) : Prop :=
  ∃ es₁ es₂, events = es₁ ++ .getStats :: es₂ ∧ s₀.roundSizes torch backward es₁ = []

/-- What can happen at a step. -/
inductive StepCases (torch : Torch ℝ) (backward : Backward ℝ) (s : PrivateAgent) :
    PrivateAgentEvent → PrivateAgent → Prop
  | train (rollout perms noise) (pc : s.agent.pc = .sleep)
      (shuffles : (s.agent.trainer.withRollout rollout).Shuffles perms)
      (starts : s.startsTraining (.agent (.train rollout perms noise)) =
        some rollout.observations.length) :
      StepCases torch backward s (.agent (.train rollout perms noise))
        (s.trainRound torch backward rollout perms noise)
  | aggregate (pc : s.agent.pc = .aggregate) :
      StepCases torch backward s (.agent .aggregate) s.applyAggregated
  | getStats : StepCases torch backward s .getStats s.report
  | other (e : AgentEvent ℝ) (agent : Agent ℝ) (step : s.agent.step torch backward e = some agent)
      (starts : s.startsTraining (.agent e) = none)
      (trainer : agent.trainer = s.agent.trainer) (pc : agent.pc = .over ∨ agent.pc = s.agent.pc)
      (current : agent.gossip.protocol.currentGradients =
        s.agent.gossip.protocol.currentGradients) :
      StepCases torch backward s (.agent e) { s with agent := agent }

theorem stepCases_of_agent {ev : AgentEvent ℝ} (he : ¬ ev.OfLoop)
    (hstarts : s.startsTraining (.agent ev) = none)
    (h : (s.agent.step torch backward ev).map (fun agent => { s with agent := agent }) = some s') :
    StepCases torch backward s (.agent ev) s' := by
  obtain ⟨agent, hagent, rfl⟩ := Option.map_eq_some_iff.1 h
  obtain ⟨htrainer, hpc, hcurrent⟩ := Agent.keeps_of_step hagent he
  exact .other ev agent hagent hstarts htrainer hpc hcurrent

theorem step_cases (h : s.step torch backward e = some s') : StepCases torch backward s e s' := by
  cases e with
  | getStats =>
    obtain rfl := Option.some.inj h
    exact .getStats
  | agent ev =>
    cases ev with
    | train rollout perms noise =>
      simp only [step] at h
      split at h
      · rename_i hpc
        split at h
        · rename_i hrunning
          split at h
          · rename_i hperms
            obtain rfl := Option.some.inj h
            exact .train rollout perms noise hpc hperms (by simp [startsTraining, hpc, hrunning, hperms])
          · cases h
        · rename_i hrunning
          obtain rfl := Option.some.inj h
          exact .other _ _ (by simp [Agent.step, hpc, hrunning])
            (by simp [startsTraining, hpc, hrunning]) rfl (.inl rfl) rfl
      · cases h
    | aggregate =>
      simp only [step] at h
      split at h
      · rename_i hpc
        obtain rfl := Option.some.inj h
        exact .aggregate hpc
      · cases h
    | _ => exact stepCases_of_agent not_false rfl h

@[simp] theorem logProgress_agent (s : PrivateAgent) : s.logProgress.agent = s.agent := by
  unfold logProgress
  split <;> rfl

@[simp] theorem checkPrivacyBudget_agent (s : PrivateAgent) :
    s.checkPrivacyBudget.agent = s.agent := by
  unfold checkPrivacyBudget
  split <;> rfl

@[simp] theorem applyAggregated_agent (s : PrivateAgent) :
    s.applyAggregated.agent = s.agent.applyAggregated := by
  unfold applyAggregated
  dsimp only
  split <;> simp

theorem StepCases.going (h : StepCases torch backward s e s') (hs' : s'.agent.pc ≠ .over) :
    s.agent.pc ≠ .over := by
  cases h with
  | train _ _ _ pc => simp [pc]
  | aggregate pc => simp [pc]
  | getStats => exact hs'
  | other _ _ _ _ _ pc =>
    rcases pc with pc | pc
    · exact absurd pc hs'
    · exact pc ▸ hs'

theorem trainRound_spec {rollout : RolloutBuffer ℝ} {perms : List (List Nat)} {noise : Nat → List ℝ}
    {r : DistributedPPO ℝ × RDPAccountant}
    (h : DistributedPPO.privateTrainStep torch backward perms noise s.privacy
      (s.agent.trainer.withRollout rollout, s.accountant) = some r) :
    (s.trainRound torch backward rollout perms noise).agent.pc = .aggregate ∧
      (s.trainRound torch backward rollout perms noise).agent.running = s.agent.running ∧
      (s.trainRound torch backward rollout perms noise).agent.gossip.protocol.gradientCache =
        s.agent.gossip.protocol.gradientCache := by
  rw [trainRound, h]
  refine ⟨rfl, ?_, ?_⟩
  all_goals
    simp only [Agent.publish]
    split <;> rfl

/-- Without the accountant it is a run of the agent, where an accountant that raises is a `cancel`. -/
theorem agent_run (h : run (step torch backward) s₀ es = some s) :
    ∃ events, run (Agent.step torch backward) s₀.agent events = some s.agent := by
  refine run_induction (motive := fun _ s => ∃ events,
    run (Agent.step torch backward) s₀.agent events = some s.agent) ⟨[], rfl⟩ ?_ .unconditional h
  rintro _ s e s' - ⟨events, hevents⟩ - hstep
  have snoc : ∀ ev, s.agent.step torch backward ev = some s'.agent →
      ∃ events, run (Agent.step torch backward) s₀.agent events = some s'.agent := fun ev hev =>
    ⟨events ++ [ev], run_concat_eq_some.2 ⟨s.agent, hevents, hev⟩⟩
  cases step_cases hstep with
  | train rollout perms noise pc shuffles starts =>
    have hrunning : s.agent.running = true := by
      by_contra hnot
      simp [startsTraining, pc, hnot] at starts
    cases htrain : DistributedPPO.privateTrainStep torch backward perms noise s.privacy
        (s.agent.trainer.withRollout rollout, s.accountant) with
    | none => exact snoc .cancel (by simp [Agent.step, pc, trainRound, htrain])
    | some r =>
      obtain ⟨htrain', -⟩ := DistributedPPO.privateTrainStep_spec shuffles htrain
      exact snoc (.train rollout perms noise)
        (by simp [Agent.step, pc, hrunning, shuffles, Agent.trainRound, trainRound, htrain, htrain'])
  | aggregate pc => exact snoc .aggregate (by simp [Agent.step, pc])
  | getStats => exact ⟨events, hevents⟩
  | other e agent step => exact snoc e step

/-- `get_privacy_spent` has been called between the two states. -/
structure Asks (s s' : PrivateAgent) : Prop where
  config : s'.agent.trainer.config = s.agent.trainer.config
  step : s'.agent.trainer.step = s.agent.trainer.step
  pc : s'.agent.pc = .aggregate → s.agent.pc = .aggregate
  privacy : s'.privacy = s.privacy
  accountant : s'.accountant = s.accountant
  reports : ∀ eps, eps ∈ s'.reports ↔ eps ∈ s.reports ∨ eps = s.getPrivacySpent

theorem report_asks (s : PrivateAgent) : Asks s s.report where
  config := rfl
  step := rfl
  pc := id
  privacy := rfl
  accountant := rfl
  reports := by simp [report]

theorem checkPrivacyBudget_asks (s : PrivateAgent) : Asks s s.logProgress.checkPrivacyBudget := by
  have hcheck : ∀ s : PrivateAgent, Asks s s.checkPrivacyBudget := by
    intro s
    unfold checkPrivacyBudget
    split
    · exact { report_asks s with }
    · exact report_asks s
  unfold logProgress
  split
  · obtain ⟨hconfig, hstep, hpc, hprivacy, haccountant, hreports⟩ := hcheck s.report
    refine ⟨hconfig, hstep, hpc, hprivacy, haccountant, fun eps => ?_⟩
    have htwice : s.report.getPrivacySpent = s.getPrivacySpent := rfl
    rw [hreports, (report_asks s).reports, htwice, or_assoc, or_self]
  · exact hcheck s

theorem applyAggregated_asks (hs' : s.applyAggregated.agent.pc ≠ .over) :
    Asks s s.applyAggregated ∧ s.applyAggregated.agent.pc = .sleep := by
  obtain ⟨hconfig, hstep, hpc⟩ := s.agent.applyAggregated_spec
  rw [applyAggregated_agent] at hs' ⊢
  have hpc : s.agent.applyAggregated.pc = .sleep := hpc.resolve_right hs'
  refine ⟨?_, hpc⟩
  unfold applyAggregated
  simp only [hpc]
  obtain ⟨hconfig', hstep', -, hprivacy, haccountant, hreports⟩ :=
    checkPrivacyBudget_asks { s with agent := s.agent.applyAggregated }
  exact ⟨hconfig'.trans hconfig, hstep'.trans hstep, by simp [hpc], hprivacy, haccountant, hreports⟩

/-- While `run` goes on, after rounds of these sizes: the accountant has been told of them, and has
been asked after each. -/
structure Ledger (config : TrainingConfig ℝ) (privacy : PrivacyConfig) (step : Nat)
    (sizes : List Nat) (asked : Prop) (s : PrivateAgent) : Prop where
  config_eq : s.agent.trainer.config = config
  privacy_eq : s.privacy = privacy
  step_eq : s.agent.trainer.step = step + sizes.length
  accountant_eq : accountantAfter config privacy step sizes = some s.accountant
  started : s.agent.pc = .aggregate → sizes ≠ []
  reported : ∀ k ≤ sizes.length, (k = sizes.length → s.agent.pc = .sleep) → (k = 0 → asked) →
    ∃ eps ∈ s.reports, spentAfter config privacy step (sizes.take k) = some eps
  due : ∀ eps ∈ s.reports, ∃ k ≤ sizes.length, (k = 0 → asked) ∧
    spentAfter config privacy step (sizes.take k) = some eps

namespace Ledger
variable {config : TrainingConfig ℝ} {privacy : PrivacyConfig} {step₀ : Nat} {sizes : List Nat}
  {asked asked' : Prop}

theorem spent (hs : Ledger config privacy step₀ sizes asked s) :
    spentAfter config privacy step₀ (sizes.take sizes.length) = some s.getPrivacySpent := by
  rw [List.take_length, spentAfter, hs.accountant_eq, Option.map_some, getPrivacySpent,
    hs.privacy_eq]

theorem trainRound (hs : Ledger config privacy step₀ sizes asked s) {rollout : RolloutBuffer ℝ}
    {perms : List (List Nat)} {noise : Nat → List ℝ} (hpc : s.agent.pc = .sleep)
    (hperms : (s.agent.trainer.withRollout rollout).Shuffles perms)
    (hs' : (s.trainRound torch backward rollout perms noise).agent.pc ≠ .over) :
    Ledger config privacy step₀ (sizes ++ [rollout.observations.length]) asked
      (s.trainRound torch backward rollout perms noise) := by
  unfold PrivateAgent.trainRound at hs' ⊢
  split at hs'
  · exact absurd rfl hs'
  · rename_i trainer accountant htrain
    obtain ⟨-, htrack, hconfig, hstep⟩ := DistributedPPO.privateTrainStep_spec hperms htrain
    have htrack : run RDPAccountant.step s.accountant
        (roundCalls config privacy (step₀ + sizes.length) rollout.observations.length) =
          some accountant := by
      rw [← hs.config_eq, ← hs.privacy_eq, ← hs.step_eq]
      exact htrack
    have htake : ∀ k ≤ sizes.length,
        (sizes ++ [rollout.observations.length]).take k = sizes.take k := fun k hk =>
      List.take_append_of_le_length hk
    refine ⟨?_, hs.privacy_eq, ?_, ?_, by simp, ?_, ?_⟩
    · have hconfig : trainer.config = s.agent.trainer.config := hconfig
      simp [hconfig, hs.config_eq]
    · have hstep : trainer.step = s.agent.trainer.step + 1 := hstep
      simp [hstep, hs.step_eq, add_assoc]
    · rw [accountantAfter_concat, hs.accountant_eq]
      exact htrack
    · intro k hk hlast hzero
      have hk' : k ≤ sizes.length := by
        have hne : k ≠ (sizes ++ [rollout.observations.length]).length := fun h => by cases hlast h
        simp only [List.length_append, List.length_singleton] at hk hne
        omega
      rw [htake k hk']
      exact hs.reported k hk' (fun _ => hpc) hzero
    · intro eps heps
      obtain ⟨k, hk, hzero, hspent⟩ := hs.due eps heps
      refine ⟨k, by simp only [List.length_append]; omega, hzero, ?_⟩
      rw [htake k hk]
      exact hspent

theorem ask (hs : Ledger config privacy step₀ sizes asked s) (h : Asks s s')
    (hasked : asked' ↔ asked ∨ sizes = []) : Ledger config privacy step₀ sizes asked' s' where
  config_eq := h.config.trans hs.config_eq
  privacy_eq := h.privacy.trans hs.privacy_eq
  step_eq := h.step.trans hs.step_eq
  accountant_eq := h.accountant ▸ hs.accountant_eq
  started := fun hpc => hs.started (h.pc hpc)
  reported := by
    intro k hk _ hzero
    rcases hk.lt_or_eq with hlt | rfl
    · have hne : sizes ≠ [] := List.ne_nil_of_length_pos (Nat.zero_lt_of_lt hlt)
      obtain ⟨eps, heps, hspent⟩ := hs.reported k hk (fun heq => absurd heq hlt.ne)
        fun hk => (hasked.1 (hzero hk)).resolve_right hne
      exact ⟨eps, (h.reports eps).2 (.inl heps), hspent⟩
    · exact ⟨_, (h.reports _).2 (.inr rfl), hs.spent⟩
  due := by
    intro eps heps
    rcases (h.reports eps).1 heps with heps | rfl
    · obtain ⟨k, hk, hzero, hspent⟩ := hs.due eps heps
      exact ⟨k, hk, fun hk => hasked.2 (.inl (hzero hk)), hspent⟩
    · exact ⟨sizes.length, le_rfl,
        fun hzero => hasked.2 (.inr (List.length_eq_zero_iff.1 hzero)), hs.spent⟩

theorem step (hs : Ledger config privacy step₀ sizes asked s)
    (h : StepCases torch backward s e s') (hs' : s'.agent.pc ≠ .over) :
    Ledger config privacy step₀ (sizes ++ (s.startsTraining e).toList)
      (asked ∨ e = .getStats ∧ sizes = []) s' := by
  cases h with
  | train rollout perms noise pc shuffles starts =>
    rw [starts]
    simpa using hs.trainRound pc shuffles hs'
  | aggregate pc =>
    have hne := hs.started pc
    simpa [startsTraining, hne] using hs.ask (applyAggregated_asks hs').1 (by simp [hne])
  | getStats => simpa [startsTraining] using hs.ask (report_asks s) Iff.rfl
  | other e agent _ starts trainer pc current =>
    have hpc : agent.pc = s.agent.pc := pc.resolve_left hs'
    rw [starts]
    simp only [Option.toList_none, List.append_nil, reduceCtorEq, false_and, or_false]
    refine ⟨?_, hs.privacy_eq, ?_, hs.accountant_eq, ?_, ?_, hs.due⟩
    · rw [← hs.config_eq, ← trainer]
    · rw [← hs.step_eq, ← trainer]
    · simpa only [hpc] using hs.started
    · simpa only [hpc] using hs.reported

end Ledger

theorem roundSizes_concat (h : run (step torch backward) s₀ es = some s) :
    s₀.roundSizes torch backward (es ++ [e]) =
      s₀.roundSizes torch backward es ++ (s.startsTraining e).toList :=
  observe_concat h

theorem roundSizes_concat_of_none (h : run (step torch backward) s₀ es = none) :
    s₀.roundSizes torch backward (es ++ [e]) = s₀.roundSizes torch backward es :=
  observe_append_of_none h

theorem askedFirst_concat : s₀.AskedFirst torch backward (es ++ [e]) ↔
    s₀.AskedFirst torch backward es ∨ e = .getStats ∧ s₀.roundSizes torch backward es = [] := by
  constructor
  · rintro ⟨es₁, es₂, heq, hnone⟩
    rcases List.eq_nil_or_concat es₂ with rfl | ⟨es₃, e₃, rfl⟩
    · obtain ⟨rfl, he⟩ := List.append_inj' heq rfl
      exact .inr ⟨by simpa using he, hnone⟩
    · rw [List.concat_eq_append, ← List.cons_append, ← List.append_assoc] at heq
      exact .inl ⟨es₁, es₃, (List.append_inj' heq rfl).1, hnone⟩
  · rintro (⟨es₁, es₂, rfl, hnone⟩ | ⟨rfl, hnone⟩)
    · exact ⟨es₁, es₂ ++ [e], by simp, hnone⟩
    · exact ⟨es, [], rfl, hnone⟩

section Init
variable {privacy : PrivacyConfig} {trainer : DistributedPPO ℝ} {localPeer : Peer}
  {membership : MembershipManager} {pushPull : Bool}

theorem ledger_run
    (h : run (step torch backward) (init privacy trainer localPeer membership pushPull) es = some s)
    (hs : s.agent.pc ≠ .over) :
    Ledger trainer.config privacy trainer.step
      ((init privacy trainer localPeer membership pushPull).roundSizes torch backward es)
      ((init privacy trainer localPeer membership pushPull).AskedFirst torch backward es) s := by
  refine run_induction (motive := fun es s => s.agent.pc ≠ .over →
    Ledger trainer.config privacy trainer.step
      ((init privacy trainer localPeer membership pushPull).roundSizes torch backward es)
      ((init privacy trainer localPeer membership pushPull).AskedFirst torch backward es) s)
    ?_ ?_ .unconditional h hs
  · intro _
    refine ⟨rfl, rfl, rfl, rfl, (nomatch ·), ?_, fun eps heps => absurd heps List.not_mem_nil⟩
    intro k hk _ hzero
    obtain ⟨es₁, es₂, heq, -⟩ := hzero (Nat.le_zero.1 hk)
    simp at heq
  · intro es s e s' hes ih _ hstep hs'
    have hcases := step_cases hstep
    rw [roundSizes_concat hes, askedFirst_concat]
    exact (ih (hcases.going hs')).step hcases hs'

end Init

end PrivateAgent

end

end GossipRl
