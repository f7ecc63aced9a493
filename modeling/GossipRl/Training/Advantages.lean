import GossipRl.Training.Rollout
import Mathlib.Data.List.GetD
import Mathlib.Tactic.NormNum
import Mathlib.Tactic.Ring

/-!
# The closed form of the advantages

`returns_eq_discounted` is what the backward loop of `compute_advantages` leaves: at each step the
discounted sum of the temporal difference errors (`RolloutBuffer.delta`) that come after it, where the
end of an episode is a factor that is zero.
-/

namespace GossipRl
open Support

namespace RolloutBuffer
variable {K : Type*}

/-- A reward, a value and a flag for each step. -/
structure Aligned (buffer : RolloutBuffer K) : Prop where
  values : buffer.values.length = buffer.rewards.length
  dones : buffer.dones.length = buffer.rewards.length

variable [Field K]

/-- `values[k]`, and `last_value` after the last step. -/
def valueAt (buffer : RolloutBuffer K) (lastValue : K) (k : Nat) : K :=
  (buffer.values ++ [lastValue]).getD k 0

def rewardAt (buffer : RolloutBuffer K) (k : Nat) : K := buffer.rewards.getD k 0

def doneAt (buffer : RolloutBuffer K) (k : Nat) : Bool := buffer.dones.getD k false

/-- The temporal difference error of step `k`. -/
def delta (config : GaeConfig K) (buffer : RolloutBuffer K) (lastValue : K) (k : Nat) : K :=
  buffer.rewardAt k + config.gamma * nonTerminal (buffer.doneAt k) * buffer.valueAt lastValue (k + 1)
    - buffer.valueAt lastValue k

/-- How much of the advantage of step `k + 1` goes into that of step `k`. -/
def decay (config : GaeConfig K) (buffer : RolloutBuffer K) (k : Nat) : K :=
  config.gamma * config.gaeLambda * nonTerminal (buffer.doneAt k)

end RolloutBuffer

section Returns
variable {K : Type*} [Field K] {std : List K → K} {config : GaeConfig K}
  {buffer buffer' : RolloutBuffer K} {lastValue lastValue' : K} {t d : Nat}

theorem nonTerminal_true : (nonTerminal true : K) = 0 := sub_self 1

theorem nonTerminal_false : (nonTerminal false : K) = 1 := sub_zero 1

namespace RolloutBuffer

theorem valueAt_of_lt (ht : t < buffer.values.length) :
    buffer.valueAt lastValue t = buffer.values.getD t 0 := List.getD_append _ _ _ _ ht

theorem Aligned.valueAt_length (h : buffer.Aligned) :
    buffer.valueAt lastValue buffer.rewards.length = lastValue := by
  rw [valueAt, ← h.values]
  simp

theorem delta_of_done (hd : buffer.doneAt d = true) :
    buffer.delta config lastValue d = buffer.rewardAt d - buffer.valueAt lastValue d := by
  rw [delta, hd, nonTerminal_true, mul_zero, zero_mul, add_zero]

theorem decay_of_done (hd : buffer.doneAt d = true) : buffer.decay config d = 0 := by
  rw [decay, hd, nonTerminal_true, mul_zero]

theorem Aligned.gaeStep_eq (h : buffer.Aligned) (ht : t < buffer.rewards.length) (s : K × List K) :
    gaeStep config buffer lastValue s t =
      (buffer.delta config lastValue t + buffer.decay config t * s.1,
        (buffer.delta config lastValue t + buffer.decay config t * s.1) :: s.2) := by
  have hnext : (if t = buffer.rewards.length - 1 then lastValue else buffer.values.getD (t + 1) 0) =
      buffer.valueAt lastValue (t + 1) := by
    split_ifs with hlast
    · rw [hlast, Nat.sub_add_cancel (by omega), h.valueAt_length]
    · rw [valueAt_of_lt (by rw [h.values]; omega)]
  have hvalue : buffer.values.getD t 0 = buffer.valueAt lastValue t := by
    rw [valueAt_of_lt (by rw [h.values]; exact ht)]
  have hdelta : buffer.rewards.getD t 0 + config.gamma * buffer.valueAt lastValue (t + 1) *
      nonTerminal (buffer.dones.getD t false) - buffer.valueAt lastValue t =
        buffer.delta config lastValue t := by
    rw [delta, rewardAt, doneAt]
    ring
  unfold gaeStep
  dsimp only
  rw [hnext, hvalue, hdelta]
  rfl

theorem Aligned.returns_eq_discounted (h : buffer.Aligned) :
    (computeAdvantages std config buffer lastValue).2 =
      (List.range buffer.rewards.length).map fun t =>
        discounted (buffer.decay config) (buffer.delta config lastValue) t
          (buffer.rewards.length - t) + buffer.valueAt lastValue t := by
  unfold computeAdvantages
  dsimp only
  rw [backward_discounted fun t ht s => h.gaeStep_eq ht s]
  refine List.ext_getElem (by simp [h.values]) fun t ht _ => ?_
  have hlt : t < buffer.values.length := by
    rw [List.length_zipWith] at ht
    omega
  rw [List.getElem_zipWith, List.getElem_map, List.getElem_map, List.getElem_range,
    valueAt_of_lt hlt, List.getD_eq_getElem _ _ hlt]

theorem Aligned.return_eq (h : buffer.Aligned) (ht : t < buffer.rewards.length) :
    (computeAdvantages std config buffer lastValue).2.getD t 0 =
      discounted (buffer.decay config) (buffer.delta config lastValue) t
        (buffer.rewards.length - t) + buffer.valueAt lastValue t := by
  rw [h.returns_eq_discounted, List.getD_eq_getElem _ _ (by simpa using ht), List.getElem_map,
    List.getElem_range]

theorem Aligned.return_eq_of_done (h : buffer.Aligned) (htd : t ≤ d) (hd : d < buffer.rewards.length)
    (hdone : buffer.doneAt d = true) :
    (computeAdvantages std config buffer lastValue).2.getD t 0 =
      discounted (buffer.decay config) (buffer.delta config lastValue) t (d - t + 1) +
        buffer.valueAt lastValue t := by
  have hzero : buffer.decay config (t + (d - t)) = 0 := by
    rw [Nat.add_sub_cancel' htd, decay_of_done hdone]
  rw [h.return_eq (by omega), discounted_of_eq_zero hzero (by omega)]

/-- The same steps from `t` to `d`. -/
structure AgreeOn (t d : Nat) (buffer buffer' : RolloutBuffer K) : Prop where
  rewards : ∀ k, t ≤ k → k ≤ d → buffer.rewards.getD k 0 = buffer'.rewards.getD k 0
  values : ∀ k, t ≤ k → k ≤ d → buffer.values.getD k 0 = buffer'.values.getD k 0
  dones : ∀ k, t ≤ k → k ≤ d → buffer.dones.getD k false = buffer'.dones.getD k false

theorem AgreeOn.delta_eq (h : AgreeOn t d buffer buffer') (hb : buffer.Aligned)
    (hb' : buffer'.Aligned) (hd : d < buffer.rewards.length) (hd' : d < buffer'.rewards.length)
    (hdone : buffer.doneAt d = true) {k : Nat} (htk : t ≤ k) (hkd : k ≤ d) :
    buffer.delta config lastValue k = buffer'.delta config lastValue' k := by
  have hvalue : ∀ j, t ≤ j → j ≤ d →
      buffer.valueAt lastValue j = buffer'.valueAt lastValue' j := by
    intro j htj hjd
    rw [valueAt_of_lt (by rw [hb.values]; omega), valueAt_of_lt (by rw [hb'.values]; omega),
      h.values j htj hjd]
  have hreward : buffer.rewardAt k = buffer'.rewardAt k := h.rewards k htk hkd
  rcases Nat.eq_or_lt_of_le hkd with rfl | hlt
  · have hdone' : buffer'.doneAt k = true := (h.dones k htk le_rfl).symm.trans hdone
    rw [delta_of_done hdone, delta_of_done hdone', hreward, hvalue k htk hkd]
  · have hflag : buffer.doneAt k = buffer'.doneAt k := h.dones k htk hkd
    rw [delta, delta, hreward, hflag, hvalue k htk hkd, hvalue (k + 1) (by omega) hlt]

theorem AgreeOn.return_eq (h : AgreeOn t d buffer buffer') (hb : buffer.Aligned)
    (hb' : buffer'.Aligned) (htd : t ≤ d) (hd : d < buffer.rewards.length)
    (hd' : d < buffer'.rewards.length) (hdone : buffer.doneAt d = true) :
    (computeAdvantages std config buffer lastValue).2.getD t 0 =
      (computeAdvantages std config buffer' lastValue').2.getD t 0 := by
  have hdone' : buffer'.doneAt d = true := (h.dones d htd le_rfl).symm.trans hdone
  have hvalue : buffer.valueAt lastValue t = buffer'.valueAt lastValue' t := by
    rw [valueAt_of_lt (by rw [hb.values]; omega), valueAt_of_lt (by rw [hb'.values]; omega),
      h.values t le_rfl htd]
  rw [hb.return_eq_of_done htd hd hdone, hb'.return_eq_of_done htd hd' hdone', hvalue]
  congr 1
  refine discounted_congr (fun l hl => ?_) fun l hl => ?_
  · have hflag : buffer.doneAt (t + l) = buffer'.doneAt (t + l) :=
      h.dones (t + l) (by omega) (by omega)
    rw [decay, decay, hflag]
  · exact h.delta_eq hb hb' hd hd' hdone (by omega) (by omega)

theorem discounted_decay (config : GaeConfig K) (buffer : RolloutBuffer K) (δ : Nat → K) (t n : Nat) :
    discounted (buffer.decay config) δ t n = ∑ l ∈ Finset.range n,
      (config.gamma * config.gaeLambda) ^ l *
        (∏ j ∈ Finset.range l, nonTerminal (buffer.doneAt (t + j))) * δ (t + l) := by
  refine Finset.sum_congr rfl fun l _ => ?_
  simp only [decay]
  rw [Finset.prod_mul_distrib, Finset.prod_const, Finset.card_range]

theorem decay_of_lambda (hlambda : config.gaeLambda = 1) (k : Nat) :
    buffer.decay config k = config.gamma * nonTerminal (buffer.doneAt k) := by
  rw [decay, hlambda, mul_one]

/-- With `gae_lambda` 1 the values between the first one and the last one cancel out. -/
theorem discounted_delta (hlambda : config.gaeLambda = 1) (t n : Nat) :
    discounted (buffer.decay config) (buffer.delta config lastValue) t n +
        buffer.valueAt lastValue t =
      discounted (buffer.decay config) buffer.rewardAt t n +
        (∏ k ∈ Finset.range n, buffer.decay config (t + k)) * buffer.valueAt lastValue (t + n) := by
  rw [← discounted_telescope]
  congr 1
  refine discounted_congr (fun _ _ => rfl) fun l _ => ?_
  rw [delta, decay_of_lambda hlambda]

theorem decay_of_goes_on (hlambda : config.gaeLambda = 1) {k : Nat} (hk : buffer.doneAt k = false) :
    buffer.decay config k = config.gamma := by
  rw [decay_of_lambda hlambda, hk, nonTerminal_false, mul_one]

theorem Aligned.rewards_to_done (h : buffer.Aligned) (hlambda : config.gaeLambda = 1) (htd : t ≤ d)
    (hd : d < buffer.rewards.length) (hdone : buffer.doneAt d = true)
    (hfirst : ∀ k, t ≤ k → k < d → buffer.doneAt k = false) :
    (computeAdvantages std config buffer lastValue).2.getD t 0 =
      ∑ l ∈ Finset.range (d - t + 1), config.gamma ^ l * buffer.rewardAt (t + l) := by
  have hzero : ∏ k ∈ Finset.range (d - t + 1), buffer.decay config (t + k) = 0 := by
    refine Finset.prod_eq_zero (Finset.self_mem_range_succ (d - t)) ?_
    rw [Nat.add_sub_cancel' htd, decay_of_done hdone]
  rw [h.return_eq_of_done htd hd hdone, discounted_delta hlambda, hzero, zero_mul, add_zero]
  exact discounted_const fun l hl => decay_of_goes_on hlambda (hfirst (t + l) (by omega) (by omega))

theorem Aligned.rewards_to_horizon (h : buffer.Aligned) (hlambda : config.gaeLambda = 1)
    (ht : t < buffer.rewards.length)
    (hgoes : ∀ k, t ≤ k → k < buffer.rewards.length → buffer.doneAt k = false) :
    (computeAdvantages std config buffer lastValue).2.getD t 0 =
      ∑ l ∈ Finset.range (buffer.rewards.length - t), config.gamma ^ l * buffer.rewardAt (t + l) +
        config.gamma ^ (buffer.rewards.length - t) * lastValue := by
  have hdecay : ∀ l < buffer.rewards.length - t, buffer.decay config (t + l) = config.gamma :=
    fun l hl => decay_of_goes_on hlambda (hgoes (t + l) (by omega) (by omega))
  have hprod : ∏ k ∈ Finset.range (buffer.rewards.length - t), buffer.decay config (t + k) =
      config.gamma ^ (buffer.rewards.length - t) := by
    rw [Finset.prod_congr rfl fun k hk => hdecay k (Finset.mem_range.1 hk), Finset.prod_const,
      Finset.card_range]
  rw [h.return_eq ht, discounted_delta hlambda, hprod, Nat.add_sub_cancel' ht.le, h.valueAt_length]
  congr 1
  exact discounted_const fun l hl => hdecay l (by omega)

end RolloutBuffer

/-- The returns of every rollout: each the value and the discounted errors after it, none after the
end of the episode, and the discounted rewards if `gae_lambda` is 1. -/
theorem returns_closed_form (hb : buffer.Aligned) :
    (computeAdvantages std config buffer lastValue).2.length = buffer.rewards.length ∧
    ∀ t < buffer.rewards.length,
      ((computeAdvantages std config buffer lastValue).2.getD t 0 - buffer.values.getD t 0 =
        ∑ l ∈ Finset.range (buffer.rewards.length - t),
          (config.gamma * config.gaeLambda) ^ l *
            (∏ j ∈ Finset.range l, nonTerminal (buffer.doneAt (t + j))) *
              buffer.delta config lastValue (t + l)) ∧
      (∀ d, t ≤ d → d < buffer.rewards.length → buffer.doneAt d = true →
        ∀ buffer' : RolloutBuffer K, ∀ lastValue', buffer'.Aligned → d < buffer'.rewards.length →
          buffer.AgreeOn t d buffer' →
          (computeAdvantages std config buffer lastValue).2.getD t 0 =
            (computeAdvantages std config buffer' lastValue').2.getD t 0) ∧
      (config.gaeLambda = 1 →
        (∀ d, t ≤ d → d < buffer.rewards.length → buffer.doneAt d = true →
          (∀ k, t ≤ k → k < d → buffer.doneAt k = false) →
          (computeAdvantages std config buffer lastValue).2.getD t 0 =
            ∑ l ∈ Finset.range (d - t + 1), config.gamma ^ l * buffer.rewardAt (t + l)) ∧
        ((∀ k, t ≤ k → k < buffer.rewards.length → buffer.doneAt k = false) →
          (computeAdvantages std config buffer lastValue).2.getD t 0 =
            ∑ l ∈ Finset.range (buffer.rewards.length - t),
                config.gamma ^ l * buffer.rewardAt (t + l) +
              config.gamma ^ (buffer.rewards.length - t) * lastValue)) := by
  refine ⟨by simp [hb.returns_eq_discounted], fun t ht => ⟨?_, ?_, ?_⟩⟩
  · rw [hb.return_eq ht, RolloutBuffer.valueAt_of_lt (by rw [hb.values]; exact ht),
      add_sub_cancel_right, RolloutBuffer.discounted_decay]
  · intro d htd hd hdone buffer' lastValue' hb' hd' hagree
    exact hagree.return_eq hb hb' htd hd hd' hdone
  · intro hlambda
    exact ⟨fun d htd hd hdone hfirst => hb.rewards_to_done hlambda htd hd hdone hfirst,
      fun hgoes => hb.rewards_to_horizon hlambda ht hgoes⟩

end Returns

section Example

/-- An episode of one step, and one that goes on. -/
def twoEpisodes : RolloutBuffer ℚ := { rewards := [3, 4], values := [1, 2], dones := [true, false] }

def undecayed : GaeConfig ℚ := { gaeLambda := 1 }

theorem returns_two_episodes :
    (computeAdvantages (fun _ => (1 : ℚ)) undecayed twoEpisodes 5).2.getD 0 0 =
        ∑ l ∈ Finset.range 1, undecayed.gamma ^ l * twoEpisodes.rewardAt (0 + l) ∧
      (computeAdvantages (fun _ => (1 : ℚ)) undecayed twoEpisodes 5).2.getD 1 0 =
        ∑ l ∈ Finset.range 1, undecayed.gamma ^ l * twoEpisodes.rewardAt (1 + l) +
          undecayed.gamma ^ 1 * 5 := by
  have haligned : twoEpisodes.Aligned := ⟨rfl, rfl⟩
  obtain ⟨-, hreturns⟩ := @returns_closed_form ℚ _ (fun _ => 1) undecayed twoEpisodes 5 haligned
  obtain ⟨-, -, hfirst⟩ := hreturns 0 (by decide)
  obtain ⟨-, -, hsecond⟩ := hreturns 1 (by decide)
  refine ⟨(hfirst rfl).1 0 le_rfl (by decide) rfl fun k hk hlt => by omega, ?_⟩
  refine (hsecond rfl).2 fun k hk hlt => ?_
  obtain rfl : k = 1 := le_antisymm (Nat.le_of_lt_succ hlt) hk
  rfl

end Example

end GossipRl
