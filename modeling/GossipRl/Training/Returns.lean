import GossipRl.Training.Advantages
import Mathlib.Data.List.Chain
import Mathlib.Tactic.LinearCombination
import Mathlib.Tactic.NormNum
import Mathlib.Tactic.Ring

/-!
# What the returns start from

The buffer `Records` the trajectory up to the states it reached, and a state that is not the end of
an episode is the one the next action is taken in (`reached`). So the temporal difference errors of
`compute_advantages` are those of the trajectory, except perhaps the last one (`codeError_eq`), which
has the value that the caller passes in the place of that of the last state.
-/

namespace GossipRl
open Support

variable {σ ω K : Type*} [Field K] {env : Env σ K} {model : ActorCritic ω K}
  {config : GaeConfig K} {value : NdArray K → K} {traj : List (Transition K)} {tr last : Transition K}
  {buffer : RolloutBuffer K} {lastValue : K} {std : List K → K}

omit [Field K] in
theorem getD_map {α : Type*} (l : List α) (f : α → K) (i : Nat) (d : K) :
    (l.map f).getD i d = (l[i]?).elim d f := by
  rw [List.getD_eq_getElem?_getD, List.getElem?_map]
  cases l[i]? <;> rfl

/-- The steps of `traj` are those in the buffer. -/
structure Records (value : NdArray K → K) (traj : List (Transition K)) (buffer : RolloutBuffer K) :
    Prop where
  observations : buffer.observations = traj.map (·.obs)
  rewards : buffer.rewards = traj.map (·.reward)
  values : buffer.values = traj.map (value ·.obs)
  dones : buffer.dones = traj.map (·.done)

namespace CollectState
variable {s : CollectState σ K} {draw : ω}

theorem buffer_step : (s.step env model draw).buffer =
    s.buffer.add s.obs (model.act s.obs draw).1 (s.transition env model draw).reward
      (model.value s.obs) (model.act s.obs draw).2 (s.transition env model draw).done := by
  unfold step transition
  dsimp only
  split <;> rfl

theorem obs_step (h : (s.transition env model draw).done = false) :
    (s.step env model draw).obs = (s.transition env model draw).next := by
  unfold transition at h ⊢
  unfold step
  dsimp only at h ⊢
  rw [h]
  rfl

theorem records_step (h : Records model.value traj s.buffer) :
    Records model.value (traj ++ [s.transition env model draw]) (s.step env model draw).buffer := by
  rw [buffer_step]
  constructor
  · simp [RolloutBuffer.add, h.observations, transition]
  · simp [RolloutBuffer.add, h.rewards]
  · simp [RolloutBuffer.add, h.values, transition]
  · simp [RolloutBuffer.add, h.dones]

theorem records_foldl (h : Records model.value traj s.buffer) (draws : List ω) :
    Records model.value (traj ++ s.trajectory env model draws)
      (draws.foldl (step env model) s).buffer := by
  induction draws generalizing s traj with
  | nil => simpa [trajectory] using h
  | cons draw draws ih =>
    rw [trajectory, List.foldl_cons, List.append_cons]
    exact ih (records_step h)

/-- The next action is taken in the state that was reached, unless the episode is over. -/
theorem reached (s : CollectState σ K) (draws : List ω) :
    (s.trajectory env model draws).IsChain fun tr tr' => tr.done = false → tr'.obs = tr.next := by
  induction draws generalizing s with
  | nil => exact List.isChain_nil
  | cons draw draws ih =>
    cases draws with
    | nil => exact List.isChain_singleton _
    | cons draw' draws => exact (ih _).cons_cons obs_step

end CollectState

theorem records_collectRollout (env : Env σ K) (model : ActorCritic ω K) (draws : List ω) (s : σ) :
    Records model.value (trajectory env model draws s) (collectRollout env model draws s).buffer :=
  have hempty : Records model.value [] (CollectState.start env s).buffer := ⟨rfl, rfl, rfl, rfl⟩
  CollectState.records_foldl hempty draws

/-- The temporal difference error of `compute_advantages`. -/
def codeError (config : GaeConfig K) (value : NdArray K → K) (traj : List (Transition K))
    (lastValue : K) (t : Nat) : K :=
  (traj[t]?).elim 0 fun tr =>
    tr.reward + config.gamma *
      (if t = traj.length - 1 then lastValue else (traj[t + 1]?).elim 0 (value ·.obs)) *
      nonTerminal tr.done - value tr.obs

namespace Records

omit [Field K] in
theorem aligned (h : Records value traj buffer) : buffer.Aligned := by
  constructor
  · rw [h.values, h.rewards, List.length_map, List.length_map]
  · rw [h.dones, h.rewards, List.length_map, List.length_map]

omit [Field K] in
theorem doneAt_eq (h : Records value traj buffer) {t : Nat} (ht : t < traj.length) :
    buffer.doneAt t = traj[t].done := by
  simp [RolloutBuffer.doneAt, h.dones, ht]

theorem decay_eq (h : Records value traj buffer) {t : Nat} (ht : t < traj.length) :
    buffer.decay config t = (traj[t]?).elim 0 (·.decay config) := by
  rw [RolloutBuffer.decay, h.doneAt_eq ht, List.getElem?_eq_getElem ht]
  rfl

theorem valueAt_eq (h : Records value traj buffer) {t : Nat} (ht : t < traj.length) :
    buffer.valueAt lastValue t = (traj[t]?).elim 0 (value ·.obs) := by
  have hlt : t < buffer.values.length := by rw [h.values, List.length_map]; exact ht
  rw [RolloutBuffer.valueAt_of_lt hlt, h.values, getD_map]

theorem delta_eq (h : Records value traj buffer) {t : Nat} (ht : t < traj.length) :
    buffer.delta config lastValue t = codeError config value traj lastValue t := by
  have hnext : buffer.valueAt lastValue (t + 1) =
      if t = traj.length - 1 then lastValue else (traj[t + 1]?).elim 0 (value ·.obs) := by
    split_ifs with hlast
    · have hlength : t + 1 = buffer.rewards.length := by rw [h.rewards, List.length_map]; omega
      rw [hlength, h.aligned.valueAt_length]
    · rw [h.valueAt_eq (by omega)]
  rw [RolloutBuffer.delta, hnext, h.valueAt_eq ht, h.doneAt_eq ht, RolloutBuffer.rewardAt, h.rewards,
    getD_map, codeError, List.getElem?_eq_getElem ht]
  simp only [Option.elim_some]
  ring

end Records

/-- The returns, for whatever value of the last state the caller passes. -/
theorem returns_eq (h : Records value traj buffer) :
    (computeAdvantages std config buffer lastValue).2 =
      (List.range traj.length).map fun t =>
        discounted (fun i => (traj[i]?).elim 0 (·.decay config))
          (codeError config value traj lastValue) t (traj.length - t) +
        (traj[t]?).elim 0 (value ·.obs) := by
  have hlength : buffer.rewards.length = traj.length := by rw [h.rewards, List.length_map]
  rw [h.aligned.returns_eq_discounted, hlength]
  refine List.map_congr_left fun t ht => ?_
  have ht := List.mem_range.1 ht
  rw [h.valueAt_eq ht]
  congr 1
  exact discounted_congr (fun l hl => h.decay_eq (by omega)) fun l hl => h.delta_eq (by omega)

/-- Only the last error can be another. -/
theorem codeError_eq
    (hchain : traj.IsChain fun tr tr' => tr.done = false → tr'.obs = tr.next) {t : Nat}
    (ht : t + 1 < traj.length) :
    codeError config value traj lastValue t = (traj[t]?).elim 0 (·.tdError config value) := by
  have hget : traj[t]? = some traj[t] := List.getElem?_eq_getElem (by omega)
  have hget' : traj[t + 1]? = some traj[t + 1] := List.getElem?_eq_getElem ht
  have hstep := List.isChain_iff_getElem.1 hchain t ht
  rw [codeError, hget, hget', if_neg (by omega)]
  simp only [Option.elim_some, Transition.tdError]
  cases hdone : traj[t].done with
  | true => simp [nonTerminal]
  | false =>
    rw [hstep hdone]
    ring

theorem codeError_last (hlast : traj.getLast? = some last) :
    codeError config value traj lastValue (traj.length - 1) = last.tdError config value +
      config.gamma * nonTerminal last.done * (lastValue - value last.next) := by
  have hget : traj[traj.length - 1]? = some last := by rw [← List.getLast?_eq_getElem?, hlast]
  rw [codeError, hget, if_pos rfl, Option.elim_some, Transition.tdError]
  ring

/-- The returns are those of the trajectory if and only if the value that is passed stands for the
one of the last state. -/
theorem returns_eq_reference_iff (h : Records value traj buffer)
    (hchain : traj.IsChain fun tr tr' => tr.done = false → tr'.obs = tr.next)
    (hlast : traj.getLast? = some last) :
    (computeAdvantages std config buffer lastValue).2 = referenceReturns config value traj ↔
      config.gamma * nonTerminal last.done * (lastValue - value last.next) = 0 := by
  have hpos : 0 < traj.length := by
    rw [List.length_pos_iff]
    rintro rfl
    cases hlast
  have hget : traj[traj.length - 1]? = some last := by rw [← List.getLast?_eq_getElem?, hlast]
  rw [returns_eq h, referenceReturns, List.map_inj_left]
  constructor
  · intro hall
    have heq := hall (traj.length - 1) (List.mem_range.2 (by omega))
    rw [show traj.length - (traj.length - 1) = 0 + 1 by omega, discounted_succ, discounted_succ,
      codeError_last hlast, hget] at heq
    simp only [Option.elim_some, discounted_zero] at heq
    linear_combination heq
  · intro hzero t ht
    have ht := List.mem_range.1 ht
    congr 1
    refine discounted_congr (fun _ _ => rfl) fun l hl => ?_
    rcases Nat.lt_or_ge (t + l + 1) traj.length with hlt | hge
    · exact codeError_eq hchain hlt
    · obtain hidx : t + l = traj.length - 1 := by omega
      rw [hidx, codeError_last hlast, hzero, hget, add_zero, Option.elim_some]

theorem bootstrap_eq_zero_iff {done : Bool} {x y : K} :
    config.gamma * nonTerminal done * (x - y) = 0 ↔ config.gamma = 0 ∨ done = true ∨ x = y := by
  rw [mul_eq_zero, mul_eq_zero, sub_eq_zero, or_assoc]
  cases done <;> simp [nonTerminal]

theorem trainAdvantages_eq (h : Records model.value traj buffer) (hlast : traj.getLast? = some last) :
    trainAdvantages std config model buffer =
      some (computeAdvantages std config buffer (model.value last.obs)) := by
  rw [trainAdvantages, h.observations, List.getLast?_map, hlast]
  rfl

/-- The returns of `train_step` are those of the trajectory if and only if the last step ends an
episode, nothing is bootstrapped, or the value of the state before the last action is that of the
state after it. -/
theorem trained_returns_iff {draws : List ω} {s : σ}
    (hlast : (trajectory env model draws s).getLast? = some last) :
    (trainAdvantages std config model (collectRollout env model draws s).buffer).map Prod.snd =
        some (referenceReturns config model.value (trajectory env model draws s)) ↔
      config.gamma = 0 ∨ last.done = true ∨ model.value last.obs = model.value last.next := by
  have hrec := records_collectRollout env model draws s
  rw [trainAdvantages_eq hrec hlast, Option.map_some, Option.some_inj,
    returns_eq_reference_iff hrec (CollectState.reached _ draws) hlast, bootstrap_eq_zero_iff]

section Example

/-- Every step leads to a state worth one more, and no episode ends. -/
def countingEnv : Env Nat ℚ where
  reset _ := (.ofList [0], 0)
  step n _ := ⟨.ofList [(n + 1 : Nat)], 0, false, false, n + 1⟩

def countingModel : ActorCritic Unit ℚ where
  act _ _ := (.ofList [0], 0)
  value obs := obs.get 0

theorem trained_returns_iff_counting : ∃ last,
    (trajectory countingEnv countingModel [(), ()] 0).getLast? = some last ∧
    ((trainAdvantages (fun _ => 1) {} countingModel
        (collectRollout countingEnv countingModel [(), ()] 0).buffer).map Prod.snd =
        some (referenceReturns {} countingModel.value
          (trajectory countingEnv countingModel [(), ()] 0)) ↔
      ({} : GaeConfig ℚ).gamma = 0 ∨ last.done = true ∨
        countingModel.value last.obs = countingModel.value last.next) :=
  ⟨_, rfl, trained_returns_iff rfl⟩

/-- One step from a state worth 0 to one worth 1: the return is 0, and not `gamma`. -/
theorem returns_of_one_step :
    (trainAdvantages (fun _ => 1) {} countingModel
        (collectRollout countingEnv countingModel [()] 0).buffer).map Prod.snd = some [0] ∧
      referenceReturns {} countingModel.value (trajectory countingEnv countingModel [()] 0) =
        [99 / 100] ∧
      ([0] : List ℚ) ≠ [99 / 100] := by
  refine ⟨?_, ?_, ?_⟩
  all_goals decide +kernel

end Example

end GossipRl
