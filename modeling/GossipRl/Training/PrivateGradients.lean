import GossipRl.Gossip.Aggregation
import GossipRl.Training.Agent
import Mathlib.Algebra.Field.Rat
import Mathlib.Algebra.Order.Ring.Rat
import Mathlib.Tactic.NormNum

/-!
# Only private gradients leave the agent

Within a `train_step` the local gradients are raw for a while, but there is no await in it: a
`train_step` that returns has made at least one update, and the last thing an update writes to the
local gradients is what `privatize` has returned. That is all that is ever given to `set_gradients`,
and the messages carry what was given to it, or the empty array.
-/

namespace GossipRl
open Support

namespace DistributedPPO
variable {K : Type*} [Field K] [LinearOrder K]

/-- What `privatize` returns in the update with `batch`. -/
def privatizeOutput (torch : Torch K) (backward : Backward K) (start : List (NdArray K))
    (noise : Nat → List K) (t : DistributedPPO K) (batch : List Nat × Nat) : Option (List K) :=
  t.dpMechanism.map fun dp =>
    dp.privatize torch.norm (noise batch.2)
      (getGradientVector (t.backwardPass torch backward start batch.1))

/-- What `privatize` returns in a `train_step`. -/
def privatizeOutputs (torch : Torch K) (backward : Backward K) (perms : List (List Nat))
    (noise : Nat → List K) (t : DistributedPPO K) : List (List K) :=
  observe (trainBatch torch backward t.parameters noise)
    (privatizeOutput torch backward t.parameters noise) t
    (perms.flatMap (minibatches t.config.batchSize)).zipIdx

variable {torch : Torch K} {backward : Backward K} {start : List (NdArray K)}
  {noise : Nat → List K} {perms : List (List Nat)} {t t' : DistributedPPO K} {dp : DPParams K}

theorem trainBatch_private {batch : List Nat × Nat} (hdp : t.dpMechanism = some dp)
    (h : t.trainBatch torch backward start noise batch = some t') :
    t'.dpMechanism = some dp ∧
      t'.localGradients = t.privatizeOutput torch backward start noise batch := by
  rw [trainBatch, Option.map_eq_some_iff] at h
  obtain ⟨t₁, h, rfl⟩ := h
  simp only [extractGradients, applyDpNoise, hdp] at h
  split at h
  · obtain rfl := Option.some.inj h
    exact ⟨rfl, by simp [privatizeOutput, hdp]⟩
  · cases h

/-- Whatever the updates so far, the local gradients are what the last one's `privatize` returned. -/
theorem run_trainBatch_private {batches : List (List Nat × Nat)} (hdp : t.dpMechanism = some dp)
    (h : run (trainBatch torch backward start noise) t batches = some t') :
    t'.dpMechanism = some dp ∧ (batches = [] ∨
      ∃ v ∈ observe (trainBatch torch backward start noise)
        (privatizeOutput torch backward start noise) t batches, t'.localGradients = some v) := by
  refine run_induction (motive := fun es t' => t'.dpMechanism = some dp ∧ (es = [] ∨
    ∃ v ∈ observe (trainBatch torch backward start noise)
      (privatizeOutput torch backward start noise) t es, t'.localGradients = some v))
    ⟨hdp, .inl rfl⟩ ?_ .unconditional h
  intro es t₁ batch t₂ hrun ht₁ _ hstep
  obtain ⟨hdp₂, hlocal⟩ := trainBatch_private ht₁.1 hstep
  rw [privatizeOutput, ht₁.1, Option.map_some] at hlocal
  refine ⟨hdp₂, .inr ⟨_, ?_, hlocal⟩⟩
  rw [observe_concat hrun, List.mem_append]
  exact .inr (by simp [privatizeOutput, ht₁.1])

omit [Field K] [LinearOrder K] in
theorem minibatches_ne_nil (hperms : t.Shuffles perms) (hbuffer : t.buffer.observations.length ≠ 0)
    (hbatch : t.config.batchSize ≠ 0) (hepochs : t.config.nEpochs ≠ 0) :
    perms.flatMap (minibatches t.config.batchSize) ≠ [] := by
  obtain ⟨hlen, hperm⟩ := hperms
  cases perms with
  | nil => exact absurd hlen.symm hepochs
  | cons perm perms =>
    have hn : perm.length = t.buffer.observations.length := by
      rw [(hperm perm (List.mem_cons_self ..)).length_eq, List.length_range]
    have hpos : (perm.length + t.config.batchSize - 1) / t.config.batchSize ≠ 0 := by
      rw [Nat.div_ne_zero_iff]
      omega
    intro hnil
    rw [List.flatMap_cons, List.append_eq_nil_iff, minibatches, List.map_eq_nil_iff,
      List.range_eq_nil] at hnil
    exact hpos hnil.1

theorem trainStep_private (hdp : t.dpMechanism = some dp) (hperms : t.Shuffles perms)
    (h : t.trainStep torch backward perms noise = some t') :
    t'.dpMechanism = some dp ∧
      ∃ v ∈ t.privatizeOutputs torch backward perms noise, t'.localGradients = some v := by
  by_cases hraise : t.buffer.observations.length = 0 ∨ t.config.batchSize = 0 ∨ t.config.nEpochs = 0
  · rw [trainStep, if_pos hraise] at h
    cases h
  · rw [trainStep, if_neg hraise, Option.map_eq_some_iff] at h
    obtain ⟨t₁, hrun, rfl⟩ := h
    obtain ⟨hdp₁, hlocal⟩ := run_trainBatch_private hdp hrun
    have hne := minibatches_ne_nil hperms (by tauto) (by tauto) (by tauto)
    exact ⟨hdp₁, hlocal.resolve_left (mt List.zipIdx_eq_nil_iff.1 hne)⟩

omit [LinearOrder K] in
theorem applyAggregatedGradients_dpMechanism (gradients : List K) (t : DistributedPPO K) :
    (t.applyAggregatedGradients gradients).1.dpMechanism = t.dpMechanism := by
  unfold applyAggregatedGradients
  dsimp only
  repeat' split
  all_goals rfl

end DistributedPPO

variable {K : Type*}

/-- The message has no gradients, or those that were given to `set_gradients`. -/
def GossipProtocol.Own (p : GossipProtocol K) (msg : GossipMessage K) : Prop :=
  ∀ g, msg.gradientData = some g → g = p.currentGradients.getD .empty

theorem GossipProtocol.Own.congr {p p' : GossipProtocol K} {msg : GossipMessage K} (h : p.Own msg)
    (hcur : p'.currentGradients = p.currentGradients) : p'.Own msg := by
  rw [GossipProtocol.Own, hcur]
  exact h

theorem GossipProtocol.Own.of_current {p : GossipProtocol K} {msg : GossipMessage K}
    (h : msg.gradientData = p.currentGradients) : p.Own msg := by
  intro g hg
  rw [← h, hg]
  rfl

namespace HandlerPc
variable {p p' : GossipProtocol K} {pc pc' : HandlerPc K} {msg reply : GossipMessage K}

theorem finish_own (msg : GossipMessage K) (h : (finish msg p).1.reply = some reply) : p.Own reply := by
  intro g hg
  unfold finish at h
  split at h
  · obtain rfl := Option.some.inj h
    exact (Option.some.inj hg).symm
  · cases h

theorem ofMessage_own (h : (ofMessage msg p).1.reply = some reply) : p.Own reply := by
  have counted : GossipProtocol.Own { p with messagesReceived := p.messagesReceived + 1 } reply →
      p.Own reply := fun hown => hown.congr rfl
  refine counted ?_
  unfold ofMessage at h
  dsimp only at h
  split at h
  · cases h
  · cases h
  · cases h
  · cases h
  · cases h
  · cases h
  · split at h
    · exact finish_own msg h
    · cases h
  · split at h
    · exact finish_own msg h
    · cases h
  · obtain rfl := Option.some.inj h
    exact fun g hg => (Option.some.inj hg).symm
  · cases h

theorem advance_own [Field K] {now : ℚ} (hadv : pc.advance now p = some (pc', p'))
    (h : pc'.reply = some reply) : p.Own reply := by
  cases pc with
  | membership header =>
    obtain ⟨rfl, rfl⟩ := Prod.mk.inj (Option.some.inj hadv)
    obtain ⟨header', -, rfl⟩ := Option.map_eq_some_iff.1 h
    exact fun g hg => by cases hg
  | process msg gradients =>
    simp only [advance] at hadv
    split at hadv
    · refine finish_own msg ?_
      rw [Option.some.inj hadv]
      exact h
    · obtain ⟨rfl, rfl⟩ := Prod.mk.inj (Option.some.inj hadv)
      cases h
  | aggregate msg gradients =>
    have hcur : (p.aggregateGradients.notify gradients msg.modelVersion msg.step).currentGradients =
        p.currentGradients := GossipProtocol.aggregateGradients_current
    have hown : (p.aggregateGradients.notify gradients msg.modelVersion msg.step).Own reply := by
      refine finish_own msg ?_
      rw [Option.some.inj hadv]
      exact h
    exact hown.congr hcur.symm
  | done reply => cases hadv

end HandlerPc

theorem GossipSched.current_of_step [Field K] {s s' : GossipSched K} {e : GossipEvent K}
    (he : ¬ e.IsSet) (h : s.step e = some s') :
    s'.protocol.currentGradients = s.protocol.currentGradients := by
  cases step_cases h with
  | set he' => exact absurd he' he
  | store _ _ _ _ current _ => exact current
  | average _ _ same => exact same.current.trans GossipProtocol.aggregateGradients_current
  | other _ _ _ same => exact same.current

/-- `run` goes on with the body of its loop. -/
def AgentEvent.OfLoop : AgentEvent K → Prop
  | .train .. | .aggregate => True
  | _ => False

namespace Agent
variable [Field K] [LinearOrder K] {torch : Torch K} {backward : Backward K} {s s' : Agent K}
  {e : AgentEvent K}

/-- What `privatize` returns at a step. -/
def privatizes (torch : Torch K) (backward : Backward K) (s : Agent K) : AgentEvent K → List (List K)
  | .train rollout perms noise =>
    (s.trainer.withRollout rollout).privatizeOutputs torch backward perms noise
  | _ => []

/-- `privatize` has returned `v`. -/
def Privatized (torch : Torch K) (backward : Backward K) (s₀ : Agent K)
    (events : List (AgentEvent K)) (v : List K) : Prop :=
  Since (step torch backward) (fun s e => v ∈ s.privatizes torch backward e) (fun _ => False) s₀
    events

/-- The other events leave to the trainer, and to gossip, the gradients they have. -/
theorem keeps_of_step (h : s.step torch backward e = some s') (he : ¬ e.OfLoop) :
    s'.trainer = s.trainer ∧ (s'.pc = .over ∨ s'.pc = s.pc) ∧
      s'.gossip.protocol.currentGradients = s.gossip.protocol.currentGradients := by
  cases e with
  | train rollout perms noise => exact absurd trivial he
  | aggregate => exact absurd trivial he
  | stop =>
    obtain rfl := Option.some.inj h
    exact ⟨rfl, .inr rfl, rfl⟩
  | cancel =>
    simp only [Agent.step] at h
    split at h
    · cases h
    · obtain rfl := Option.some.inj h
      exact ⟨rfl, .inl rfl, rfl⟩
  | gossipRound =>
    simp only [Agent.step] at h
    split at h
    · obtain ⟨⟨msg, p⟩, hmsg, rfl⟩ := Option.map_eq_some_iff.1 h
      obtain ⟨-, -, -, hsame, -⟩ := GossipProtocol.gossipMessage_spec hmsg
      exact ⟨rfl, .inr rfl, hsame.current⟩
    · cases h
  | receive msg =>
    simp only [Agent.step] at h
    obtain ⟨gossip, hgossip, rfl⟩ := Option.map_eq_some_iff.1 h
    exact ⟨rfl, .inr rfl, GossipSched.current_of_step (e := .receive msg) not_false hgossip⟩
  | resume t now =>
    simp only [Agent.step] at h
    obtain ⟨gossip, hgossip, rfl⟩ := Option.map_eq_some_iff.1 h
    exact ⟨rfl, .inr rfl, GossipSched.current_of_step (e := .resume t now) not_false hgossip⟩
  | membership membership =>
    obtain rfl := Option.some.inj h
    exact ⟨rfl, .inr rfl, rfl⟩

/-- What the gossip protocol has been given is private. -/
structure PrivateInv (Out : List K → Prop) (dp : DPParams K) (s : Agent K) : Prop where
  dpMechanism : s.trainer.dpMechanism = some dp
  current : ∀ g, s.gossip.protocol.currentGradients = some g → ∃ v, Out v ∧ g = .ofList v

namespace PrivateInv
variable {Out Out' : List K → Prop} {dp : DPParams K}

omit [Field K] [LinearOrder K] in
theorem mono (hs : PrivateInv Out dp s) (h : ∀ v, Out v → Out' v) : PrivateInv Out' dp s where
  dpMechanism := hs.dpMechanism
  current := fun g hg =>
    let ⟨v, hv, heq⟩ := hs.current g hg
    ⟨v, h v hv, heq⟩

omit [Field K] [LinearOrder K] in
theorem of_current (hs : PrivateInv Out dp s) (hdp : s'.trainer.dpMechanism = s.trainer.dpMechanism)
    (hcur : s'.gossip.protocol.currentGradients = s.gossip.protocol.currentGradients) :
    PrivateInv Out dp s' where
  dpMechanism := hdp.trans hs.dpMechanism
  current := by rw [hcur]; exact hs.current

theorem trainRound (hs : PrivateInv Out dp s) {rollout : RolloutBuffer K} {perms : List (List Nat)}
    {noise : Nat → List K} (hperms : (s.trainer.withRollout rollout).Shuffles perms)
    (hout : ∀ v ∈ (s.trainer.withRollout rollout).privatizeOutputs torch backward perms noise,
      Out v) :
    PrivateInv Out dp (s.trainRound torch backward rollout perms noise) := by
  unfold Agent.trainRound
  split
  · exact hs.of_current rfl rfl
  · rename_i trainer htrain
    obtain ⟨hdp, v, hv, hlocal⟩ := DistributedPPO.trainStep_private
      (t := s.trainer.withRollout rollout) hs.dpMechanism hperms htrain
    have hget : trainer.getGradients = v := by simp [DistributedPPO.getGradients, hlocal]
    unfold publish
    dsimp only
    split
    · refine ⟨hdp, fun g hg => ⟨v, hout v hv, ?_⟩⟩
      rw [← hget]
      exact (Option.some.inj hg).symm
    · exact ⟨hdp, hs.current⟩

omit [LinearOrder K] in
theorem applyAggregated (hs : PrivateInv Out dp s) : PrivateInv Out dp s.applyAggregated := by
  have hdp := DistributedPPO.applyAggregatedGradients_dpMechanism
    s.gossip.protocol.getAggregatedGradients.1.toList s.trainer
  unfold Agent.applyAggregated
  dsimp only
  repeat' split
  · exact hs.of_current hdp rfl
  · exact hs.of_current hdp rfl
  · exact hs.of_current rfl rfl

theorem step (hs : PrivateInv Out dp s) (hout : ∀ v ∈ s.privatizes torch backward e, Out v)
    (h : s.step torch backward e = some s') : PrivateInv Out dp s' := by
  cases e with
  | train rollout perms noise =>
    simp only [Agent.step] at h
    split at h
    · split at h
      · split at h
        · rename_i hperms
          obtain rfl := Option.some.inj h
          exact hs.trainRound hperms hout
        · cases h
      · obtain rfl := Option.some.inj h
        exact hs.of_current rfl rfl
    · cases h
  | aggregate =>
    simp only [Agent.step] at h
    split at h
    · obtain rfl := Option.some.inj h
      exact hs.applyAggregated
    · cases h
  | _ =>
    obtain ⟨htrainer, -, hcur⟩ := keeps_of_step h not_false
    exact hs.of_current (congrArg _ htrainer) hcur

end PrivateInv

theorem privateInv_run {trainer : DistributedPPO K} {localPeer : Peer}
    {membership : MembershipManager} {pushPull : Bool} {dp : DPParams K}
    {events : List (AgentEvent K)} (hdp : trainer.dpMechanism = some dp)
    (hrun : run (step torch backward) (.init trainer localPeer membership pushPull) events = some s) :
    PrivateInv (Privatized torch backward (.init trainer localPeer membership pushPull) events) dp
      s := by
  refine run_induction (motive := fun es s => PrivateInv (Privatized torch backward
    (.init trainer localPeer membership pushPull) es) dp s) ⟨hdp, fun g hg => by cases hg⟩ ?_
    .unconditional hrun
  intro es s e s' hes hs _ hstep
  refine (hs.mono fun v hv => ?_).step (fun v hv => ?_) hstep
  · exact (Since.concat_iff hes).2 (.inr ⟨not_false, hv⟩)
  · exact (Since.concat_iff hes).2 (.inl hv)

omit [LinearOrder K] in
theorem builds_own {msg : GossipMessage K} (h : s.builds e = some msg) :
    s.gossip.protocol.Own msg := by
  cases e with
  | gossipRound =>
    simp only [builds] at h
    split at h
    · obtain ⟨⟨msg, p⟩, hmsg, rfl⟩ := Option.map_eq_some_iff.1 h
      obtain ⟨-, -, hgradients, -, -⟩ := GossipProtocol.gossipMessage_spec hmsg
      exact .of_current hgradients
    · cases h
  | receive msg => exact HandlerPc.ofMessage_own h
  | resume t now =>
    simp only [builds] at h
    split at h
    · cases h
    · obtain ⟨⟨pc', p⟩, hadv, hreply⟩ := Option.bind_eq_some_iff.1 h
      exact HandlerPc.advance_own hadv hreply
  | _ => cases h

end Agent

/-- With privacy enabled, the gradients of whatever message the agent builds are the empty array,
while it has not been given any, or what `privatize` has returned. -/
theorem private_gradients [Field K] [LinearOrder K] {torch : Torch K} {backward : Backward K}
    {trainer : DistributedPPO K} {localPeer : Peer} {membership : MembershipManager}
    {pushPull : Bool} {dp : DPParams K} {events : List (AgentEvent K)} {s : Agent K}
    {e : AgentEvent K} {msg : GossipMessage K} {gradients : NdArray K}
    (hdp : trainer.dpMechanism = some dp)
    (hrun : run (Agent.step torch backward) (.init trainer localPeer membership pushPull) events =
      some s)
    (hmsg : s.builds e = some msg) (hgradients : msg.gradientData = some gradients) :
    s.gossip.protocol.currentGradients = none ∧ gradients = .empty ∨
      ∃ v, Agent.Privatized torch backward (.init trainer localPeer membership pushPull) events v ∧
        gradients = .ofList v := by
  have hown := Agent.builds_own hmsg gradients hgradients
  cases hc : s.gossip.protocol.currentGradients with
  | none =>
    rw [hc] at hown
    exact .inl ⟨rfl, hown⟩
  | some current =>
    rw [hc] at hown
    obtain ⟨v, hv, heq⟩ := (Agent.privateInv_run hdp hrun).current current hc
    exact .inr ⟨v, hv, hown.trans heq⟩

section Example

/-- One parameter, whose gradients are clipped to 1. -/
def privateTrainer : DistributedPPO ℚ where
  config := { nEpochs := 1, batchSize := 1, maxGradNorm := 0 }
  params := [{ data := .ofList [1] }]
  dpMechanism := some { clipNorm := 1 }

def privateTorch : Torch ℚ where
  clipCoef _ _ := 1
  optimizerStep optimizer params := (fun i => (params[i]?).elim .empty (·.data), optimizer)
  norm xs := xs.headD 0

/-- A round of training on one sample; the noise is 1/4. -/
def trainingRound : List (AgentEvent ℚ) :=
  [.train { observations := [.empty] } [[0]] fun _ => [1 / 4]]

/-- The gradient is 3, and 5/4 is sent. -/
theorem private_gradients_round : ∃ s msg gradients,
    run (Agent.step privateTorch fun _ _ _ _ _ => some (.ofList [3]))
      (.init privateTrainer peerA membershipA false) trainingRound = some s ∧
    s.builds .gossipRound = some msg ∧ msg.gradientData = some gradients ∧
    gradients.get 0 = 5 / 4 ∧
    (s.gossip.protocol.currentGradients = none ∧ gradients = .empty ∨
      ∃ v, Agent.Privatized privateTorch (fun _ _ _ _ _ => some (.ofList [3]))
        (.init privateTrainer peerA membershipA false) trainingRound v ∧
        gradients = .ofList v) := by
  refine ⟨_, _, _, rfl, rfl, rfl, ?_, private_gradients (e := .gossipRound) rfl rfl rfl rfl⟩
  change (3 : ℚ) * (1 / 3) + 1 / 4 = 5 / 4
  norm_num

end Example

end GossipRl
