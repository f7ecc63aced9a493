import GossipRl.Privacy.AccountantRun
import GossipRl.Training.PrivacyLedger

/-!
# The budget is not enforced

`run` asks the accountant what was spent after every round, logs a warning where that is near the
budget, and goes on. So nothing is trained on, or handed to gossip, after a report above the budget
only if the budget lasts until after the last round but one.
-/

namespace GossipRl
open Support

noncomputable section

/-- The budget is not exhausted after any of the rounds but the last one, and, where that was asked
for, before the first one. -/
def WithinBudget (config : TrainingConfig ℝ) (privacy : PrivacyConfig) (step : Nat)
    (sizes : List Nat) (asked : Prop) : Prop :=
  ∀ k < sizes.length, (k = 0 → asked) →
    ∀ a, accountantAfter config privacy step (sizes.take k) = some a →
      ¬ a.isBudgetExhausted privacy.epsilon privacy.delta

section WithinBudget
variable {config : TrainingConfig ℝ} {privacy : PrivacyConfig} {step₀ n : Nat} {sizes : List Nat}
  {asked : Prop}

theorem withinBudget_concat : WithinBudget config privacy step₀ (sizes ++ [n]) asked ↔
      ∀ k ≤ sizes.length, (k = 0 → asked) →
        ∀ a, accountantAfter config privacy step₀ (sizes.take k) = some a →
          ¬ a.isBudgetExhausted privacy.epsilon privacy.delta := by
  have hlength : (sizes ++ [n]).length = sizes.length + 1 := by simp
  rw [WithinBudget, hlength]
  simp only [Nat.lt_succ_iff]
  refine forall₂_congr fun k hk => ?_
  rw [List.take_append_of_le_length hk]

theorem WithinBudget.of_concat (h : WithinBudget config privacy step₀ (sizes ++ [n]) asked) :
    WithinBudget config privacy step₀ sizes asked :=
  fun k hk => withinBudget_concat.1 h k hk.le

theorem withinBudget_asked {e : PrivateAgentEvent} :
    WithinBudget config privacy step₀ sizes (asked ∨ e = .getStats ∧ sizes = []) ↔
      WithinBudget config privacy step₀ sizes asked := by
  refine forall₂_congr fun k hk => ?_
  have hne : sizes ≠ [] := List.ne_nil_of_length_pos (Nat.zero_lt_of_lt hk)
  simp [hne]

end WithinBudget

namespace PrivateAgent
variable {torch : Torch ℝ} {backward : Backward ℝ} {s s' : PrivateAgent} {e : PrivateAgentEvent}

/-- `get_privacy_spent` has returned an epsilon above `config.privacy.epsilon`. -/
def OverBudget (s : PrivateAgent) : Prop := ∃ eps ∈ s.reports, eps > s.privacy.epsilon

theorem sleep_of_starts {n : Nat} (h : s.startsTraining e = some n) :
    s.agent.pc = .sleep ∧ e ≠ .getStats := by
  unfold startsTraining at h
  split at h
  · split at h
    · rename_i hpc
      exact ⟨hpc, by simp⟩
    · cases h
  · cases h

/-- After a report above the budget no training is started, and gossip is not given gradients. -/
def BudgetEnforced (torch : Torch ℝ) (backward : Backward ℝ) (s₀ : PrivateAgent)
    (events : List PrivateAgentEvent) : Prop :=
  Along (step torch backward) (fun s e => s.OverBudget → s.startsTraining e = none ∧
    ∀ s', s.step torch backward e = some s' →
      s'.agent.gossip.protocol.currentGradients = s.agent.gossip.protocol.currentGradients) s₀ events

theorem StepCases.current_of_not_starts (h : StepCases torch backward s e s')
    (hstarts : s.startsTraining e = none) :
    s'.agent.gossip.protocol.currentGradients = s.agent.gossip.protocol.currentGradients := by
  cases h with
  | train _ _ _ _ _ starts => cases hstarts.symm.trans starts
  | aggregate => rw [applyAggregated_agent, Agent.applyAggregated_gossip]
  | getStats => rfl
  | other _ _ _ _ _ _ current => exact current

namespace Ledger
variable {config : TrainingConfig ℝ} {privacy : PrivacyConfig} {step₀ : Nat} {sizes : List Nat}
  {asked : Prop}

/-- With all reports made, they are within the budget if one more round keeps to it. -/
theorem not_overBudget_iff (hs : Ledger config privacy step₀ sizes asked s)
    (hpc : s.agent.pc = .sleep) (n : Nat) :
    ¬ s.OverBudget ↔ WithinBudget config privacy step₀ (sizes ++ [n]) asked := by
  rw [withinBudget_concat]
  constructor
  · rintro hover k hk hzero a ha hexhausted
    obtain ⟨eps, heps, hspent⟩ := hs.reported k hk (fun _ => hpc) hzero
    rw [spentAfter, ha, Option.map_some, Option.some_inj] at hspent
    rw [← hs.privacy_eq] at hexhausted
    exact hover ⟨eps, heps, hspent ▸ hs.privacy_eq ▸ hexhausted⟩
  · rintro hwithin ⟨eps, heps, hover⟩
    obtain ⟨k, hk, hzero, hspent⟩ := hs.due eps heps
    obtain ⟨a, ha, rfl⟩ := Option.map_eq_some_iff.1 hspent
    exact hwithin k hk hzero a ha (hs.privacy_eq ▸ hover)

end Ledger

end PrivateAgent

open PrivateAgent

/-- No training is started and nothing is handed to gossip after a report above the budget, exactly
if the budget is not exhausted after any round but the last one, nor before the first one where
`get_privacy_spent` is called before it. -/
theorem budget_enforced_iff (torch : Torch ℝ) (backward : Backward ℝ) (privacy : PrivacyConfig)
    (trainer : DistributedPPO ℝ) (localPeer : Peer) (membership : MembershipManager)
    (pushPull : Bool) (events : List PrivateAgentEvent) :
    (init privacy trainer localPeer membership pushPull).BudgetEnforced torch backward events ↔
      WithinBudget trainer.config privacy trainer.step
        ((init privacy trainer localPeer membership pushPull).roundSizes torch backward events)
        ((init privacy trainer localPeer membership pushPull).AskedFirst torch backward events) := by
  induction events using List.reverseRecOn with
  | nil => exact ⟨fun _ k hk => absurd hk (Nat.not_lt_zero k), fun _ => Along.nil⟩
  | append_singleton es e ih =>
    rw [BudgetEnforced, Along.concat_iff]
    change BudgetEnforced torch backward _ es ∧ _ ↔ _
    rw [ih, askedFirst_concat]
    cases hrun : run (step torch backward) (init privacy trainer localPeer membership pushPull) es with
    | none =>
      rw [roundSizes_concat_of_none hrun, withinBudget_asked, and_iff_left_iff_imp]
      exact fun _ _ h => nomatch h
    | some s =>
      rw [roundSizes_concat hrun]
      cases hstarts : s.startsTraining e with
      | none =>
        rw [Option.toList_none, List.append_nil, withinBudget_asked, and_iff_left_iff_imp]
        rintro - _ h -
        obtain rfl := Option.some.inj h
        exact ⟨hstarts, fun s' hstep => (step_cases hstep).current_of_not_starts hstarts⟩
      | some n =>
        obtain ⟨hpc, hask⟩ : s.agent.pc = .sleep ∧ e ≠ .getStats := sleep_of_starts hstarts
        have hledger := ledger_run hrun (by simp [hpc])
        simp only [Option.toList_some, hask, false_and, or_false]
        constructor
        · rintro ⟨-, h⟩
          refine (hledger.not_overBudget_iff hpc n).1 fun hover => ?_
          cases hstarts.symm.trans (h s rfl hover).1
        · intro hwithin
          refine ⟨hwithin.of_concat, ?_⟩
          rintro _ h hover
          obtain rfl := Option.some.inj h
          exact absurd hover ((hledger.not_overBudget_iff hpc n).2 hwithin)

section Example

/-- One parameter, one minibatch a round. -/
def unitTrainer : DistributedPPO ℝ where
  config := { nEpochs := 1, batchSize := 1, maxGradNorm := 0 }
  params := [{ data := .ofList [1] }]

def unitTorch : Torch ℝ where
  clipCoef _ _ := 1
  optimizerStep optimizer params := (fun i => (params[i]?).elim .empty (·.data), optimizer)
  norm xs := |xs.headD 0|

def zeroGradient : Backward ℝ := fun _ _ _ _ _ => some (.ofList [0])

def unitRollout : RolloutBuffer ℝ := { observations := [.empty] }

/-- A round on one sample, with no noise. -/
def unitRound : PrivateAgentEvent := .agent (.train unitRollout [[0]] fun _ => [0])

/-- The trainer of an agent whose privacy is the default one, with the rollout. -/
def unitReady : DistributedPPO ℝ :=
  DistributedPPO.withRollout unitRollout { unitTrainer with dpMechanism := some { clipNorm := 1 } }

theorem unit_trainBatch (start : List (NdArray ℝ)) :
    ∃ t, unitReady.trainBatch unitTorch zeroGradient start (fun _ => [0]) ([0], 0) = some t := by
  have hparams : unitReady.backwardPass unitTorch zeroGradient start [0] =
      [{ data := .ofList [1], grad := some (.ofList [0]) }] := by
    rw [DistributedPPO.backwardPass,
      if_neg (by simp [unitReady, unitTrainer, DistributedPPO.withRollout])]
    rfl
  have hnoisy : DPParams.privatize unitTorch.norm [0] [(0 : ℝ)] { clipNorm := 1 } = [0] := by
    simp [DPParams.privatize, DPParams.clipGradients, DPParams.addNoise, unitTorch]
  simp only [DistributedPPO.trainBatch, hparams]
  simp [DistributedPPO.applyDpNoise, DistributedPPO.extractGradients, unitReady, unitTrainer,
    DistributedPPO.withRollout, getGradientVector, NdArray.toList, NdArray.ofList, hnoisy]
  rfl

theorem unit_calls :
    roundCalls unitTrainer.config {} 0 1 = [(((2 : ℕ) : ℝ), 1)] := by
  simp [roundCalls, unitTrainer, PrivacyConfig.noiseMultiplierAt,
    NoiseScheduleConfig.getNoiseMultiplier]

theorem unitCall_valid : ValidCall (((2 : ℕ) : ℝ), 1) :=
  ⟨by norm_num, by norm_num, by norm_num⟩

theorem unit_privateTrainStep : ∃ s, DistributedPPO.privateTrainStep unitTorch zeroGradient [[0]]
    (fun _ => [0]) {} (unitReady, .init) = some s := by
  obtain ⟨a, ha, -⟩ := RDPAccountant.step_spec unitCall_valid .init
  obtain ⟨t, ht⟩ := unit_trainBatch unitReady.parameters
  have htrack : unitReady.trackPrivacy {} .init = some a := by
    rw [← ha]
    simp [DistributedPPO.trackPrivacy, unitReady, unitTrainer, unitRollout,
      DistributedPPO.withRollout, PrivacyConfig.noiseMultiplierAt,
      NoiseScheduleConfig.getNoiseMultiplier]
  have hbatches :
      ([[0]].flatMap (minibatches unitReady.config.batchSize)).zipIdx = [([0], 0)] := rfl
  refine ⟨({ t with step := t.step + 1 }, a), ?_⟩
  rw [DistributedPPO.privateTrainStep, if_neg (by decide)]
  simp only [hbatches, run_cons, run_nil, DistributedPPO.privateBatch, htrack, ht,
    Option.bind_some, Option.map_some]

theorem one_lt_epsilonAt {order : ℝ} (horder : 1 < order) (horder' : order ≤ 63) :
    1 < RDPAccountant.epsilonAt (1 / (100000 : ℕ)) (order, 0 + order / ((2 : ℕ) * (2 : ℕ) ^ 2)) := by
  have hexp : (1 / 2 : ℝ) ^ 4 ≤ Real.exp (-2) := by
    have hhalf : (1 / 2 : ℝ) ≤ Real.exp (-1 / 2) := by
      have h := Real.add_one_le_exp (-1 / 2 : ℝ)
      linarith
    calc (1 / 2 : ℝ) ^ 4 ≤ Real.exp (-1 / 2) ^ 4 := by gcongr
      _ = Real.exp (-2) := by rw [← Real.exp_nat_mul]; norm_num
  have hlog : Real.log (1 / (100000 : ℕ)) + Real.log order < -2 := by
    rw [← Real.log_mul (by positivity) (by linarith), Real.log_lt_iff_lt_exp (by positivity)]
    push_cast
    linarith
  have hconv : 2 / (order - 1) <
      (Real.log (1 / (100000 : ℕ)) + Real.log order) / (1 - order) := by
    rw [← neg_div_neg_eq (_ + _), neg_sub]
    exact div_lt_div_of_pos_right (by linarith) (by linarith)
  have hsquare : 1 ≤ order / 8 + 2 / (order - 1) := by
    rw [div_add_div _ _ (by norm_num) (by linarith), le_div_iff₀ (by linarith)]
    nlinarith [sq_nonneg (order - 9 / 2)]
  show 1 < 0 + order / ((2 : ℕ) * (2 : ℕ) ^ 2) + _
  push_cast at *
  linarith

theorem unit_overspends {a : RDPAccountant}
    (h : accountantAfter unitTrainer.config {} 0 [1] = some a) :
    a.isBudgetExhausted 1 (1 / (100000 : ℕ)) := by
  obtain ⟨a', hstep, hper⟩ := RDPAccountant.step_spec unitCall_valid .init
  have hafter : accountantAfter unitTrainer.config {} 0 [1] = some a' := by
    show run RDPAccountant.step .init (roundCalls unitTrainer.config {} 0 1 ++ []) = _
    rw [unit_calls, List.append_nil, run_cons, hstep]
    rfl
  obtain rfl := Option.some.inj (h.symm.trans hafter)
  rw [RDPAccountant.isBudgetExhausted, RDPAccountant.getEpsilon, if_neg (by norm_num)]
  cases hmin : ((a.orders.zip a.rdpEpsilon).filterMap
      (RDPAccountant.epsilonOf (1 / (100000 : ℕ)))).minimum with
  | top => exact WithTop.coe_lt_top _
  | coe eps =>
    obtain ⟨order, hmem, heps⟩ := List.mem_filterMap.1 (List.minimum_mem hmin)
    obtain ⟨-, rfl⟩ := RDPAccountant.epsilonOf_eq_some_iff.1 heps
    rw [← RDPAccountant.perOrder, hper] at hmem
    obtain ⟨⟨order, rdp⟩, hinit, rfl⟩ := List.mem_map.1 hmem
    obtain ⟨horder, hrdp⟩ := List.of_mem_zip hinit
    obtain ⟨-, -, rfl⟩ := List.mem_map.1 hrdp
    obtain ⟨hlow, hhigh⟩ := defaultOrders_bounds horder
    rw [stepCost, if_pos rfl]
    exact WithTop.coe_lt_coe.2 (one_lt_epsilonAt hlow hhigh)

/-- An agent with the default privacy. -/
def unitAgent : PrivateAgent := init {} unitTrainer peerA membershipA false

theorem unit_run : ∃ s,
    run (step unitTorch zeroGradient) unitAgent [unitRound, .agent .aggregate] = some s ∧
    s.agent.pc = .sleep ∧ s.agent.running = true ∧
    unitAgent.roundSizes unitTorch zeroGradient [unitRound, .agent .aggregate] = [1] := by
  obtain ⟨⟨t, a⟩, htrain⟩ := unit_privateTrainStep
  have hshuffles : unitReady.Shuffles [[0]] := by decide
  have hfirst : unitAgent.step unitTorch zeroGradient unitRound =
      some (unitAgent.trainRound unitTorch zeroGradient unitRollout [[0]] fun _ => [0]) :=
    if_pos (e := none) hshuffles
  have hstarts : unitAgent.startsTraining unitRound = some 1 :=
    if_pos (c := true = true ∧ unitReady.Shuffles [[0]]) (e := none) ⟨rfl, hshuffles⟩
  obtain ⟨hpc, hrunning, hcache⟩ := trainRound_spec (s := unitAgent) htrain
  generalize unitAgent.trainRound unitTorch zeroGradient unitRollout [[0]] (fun _ => [0]) = s₁
    at hfirst hpc hrunning hcache
  have hsecond : s₁.step unitTorch zeroGradient (.agent .aggregate) = some s₁.applyAggregated := by
    simp [step, hpc]
  have halone : s₁.agent.applyAggregated = { s₁.agent with pc := .sleep } :=
    Agent.applyAggregated_alone (by rw [hcache]; rfl)
  refine ⟨s₁.applyAggregated, ?_, ?_, ?_, ?_⟩
  · rw [run_cons, hfirst, Option.bind_some, run_cons, hsecond]
    rfl
  · rw [applyAggregated_agent, halone]
  · rw [applyAggregated_agent, halone]
    exact hrunning
  · simp only [roundSizes, observe, hstarts, hfirst, hsecond]
    rfl

/-- With the default privacy one update on all of the samples is over the budget, which is
reported, and the next round starts all the same. -/
theorem budget_overrun : ∃ s,
    run (step unitTorch zeroGradient) unitAgent [unitRound, .agent .aggregate] = some s ∧
    s.OverBudget ∧ s.startsTraining unitRound = some 1 ∧
    ¬ unitAgent.BudgetEnforced unitTorch zeroGradient
      [unitRound, .agent .aggregate, unitRound] := by
  obtain ⟨s, hrun, hpc, hrunning, hsizes⟩ := unit_run
  rw [unitAgent] at hrun hsizes
  have hledger := ledger_run hrun (by simp [hpc])
  rw [hsizes] at hledger
  have hover : s.OverBudget := by
    by_contra hnot
    exact (hledger.not_overBudget_iff hpc 1).1 hnot 1 (by decide) (by simp) s.accountant
      hledger.accountant_eq (unit_overspends hledger.accountant_eq)
  have hstarts : s.startsTraining unitRound = some 1 := by
    have hshuffles : (s.agent.trainer.withRollout unitRollout).Shuffles [[0]] := by
      have hconfig : (s.agent.trainer.withRollout unitRollout).config = unitTrainer.config :=
        hledger.config_eq
      rw [DistributedPPO.Shuffles, hconfig]
      exact show unitReady.Shuffles [[0]] by decide
    simp only [startsTraining, unitRound, hpc, hrunning, hshuffles, and_self, if_true]
    rfl
  refine ⟨s, hrun, hover, hstarts, fun henforced => ?_⟩
  have hstops := (henforced [unitRound, .agent .aggregate] unitRound [] s rfl hrun hover).1
  cases hstarts.symm.trans hstops

end Example

end

end GossipRl
