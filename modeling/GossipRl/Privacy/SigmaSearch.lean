import GossipRl.Privacy.AccountantRun
import GossipRl.Support.While

/-!
# The search for a noise multiplier (`compute_sigma_for_rdp` in `privacy/mechanism.py`)

The upper end of the window is never checked: it starts as `max_sigma`, and from then on is a
midpoint that passed. As long as no midpoint passes, the `k`-th one is as far below `max_sigma` as
the window, halved `k` times, is wide (`probe`). So the multiplier that is returned meets the target
exactly if `max_sigma` does, or one of the probes that the tolerance leaves.
-/

namespace GossipRl
open Support

noncomputable section

/-- What `compute_sigma_for_rdp` is called with. -/
structure SigmaSearch where
  q : ℝ
  targetEpsilon : ℝ
  targetDelta : ℝ
  steps : Nat
  orders : List ℝ := defaultOrders
  maxSigma : ℝ := (1000 : ℕ)
  tolerance : ℝ := 1 / (100 : ℕ)

namespace SigmaSearch

def accountantAfter (sigma : ℝ) (p : SigmaSearch) : Option RDPAccountant :=
  run RDPAccountant.step (.init p.orders) (List.replicate p.steps (sigma, p.q))

def checkSigma (sigma : ℝ) (p : SigmaSearch) : Option Bool :=
  (p.accountantAfter sigma).map fun accountant =>
    decide (accountant.getEpsilon p.targetDelta ≤ (p.targetEpsilon : WithTop ℝ))

/-- The body of the loop, on `low` and `high`. -/
def halve (p : SigmaSearch) (window : ℝ × ℝ) : Option (ℝ × ℝ) :=
  let mid := (window.1 + window.2) / (2 : ℕ)
  (p.checkSigma mid).map fun ok => if ok then (window.1, mid) else (mid, window.2)

def computeSigmaForRdp (fuel : Nat) (p : SigmaSearch) : Option ℝ :=
  (whileLoop (fun window : ℝ × ℝ => window.2 - window.1 > p.tolerance) p.halve fuel
    (1 / (10 : ℕ), p.maxSigma)).map Prod.snd

structure Valid (p : SigmaSearch) : Prop where
  q_nonneg : 0 ≤ p.q
  q_le : p.q ≤ 1
  lt_maxSigma : 1 / 10 < p.maxSigma
  tolerance_pos : 0 < p.tolerance

/-- What `check_sigma` decides. -/
def Meets (p : SigmaSearch) (sigma : ℝ) : Prop :=
  0 < p.targetDelta ∧ ∃ order ∈ p.orders, 1 < order ∧
    0 < RDPAccountant.valueAfter p.targetDelta (List.replicate p.steps (sigma, p.q)) order ∧
    RDPAccountant.valueAfter p.targetDelta (List.replicate p.steps (sigma, p.q)) order ≤
      p.targetEpsilon

variable {p : SigmaSearch} {sigma : ℝ} {window : ℝ × ℝ}

theorem Valid.accepted (h : p.Valid) (hsigma : 0 < sigma) (order : ℝ) :
    Accepted (sigma, p.q) order := by
  unfold Accepted
  split_ifs with hrate
  · exact hsigma.ne'
  · rcases h.q_nonneg.eq_or_lt with hzero | hpos
    · exact .inr (.inl hzero.symm)
    · exact .inr (.inr ⟨hsigma.ne', hpos, lt_of_le_of_ne h.q_le hrate⟩)

theorem Valid.accountantAfter_spec (h : p.Valid) (hsigma : 0 < sigma) :
    ∃ a, p.accountantAfter sigma = some a ∧
      (a.getEpsilon p.targetDelta ≤ p.targetEpsilon ↔ p.Meets sigma) := by
  obtain ⟨a, ha⟩ : ∃ a, p.accountantAfter sigma = some a := by
    refine RDPAccountant.run_of_accepted fun call hcall order _ => ?_
    obtain rfl := List.eq_of_mem_replicate hcall
    exact h.accepted hsigma order
  exact ⟨a, ha, RDPAccountant.getEpsilon_run_le_coe_iff ha⟩

theorem Valid.halve_cases (h : p.Valid) {mid : ℝ} (hmid : (window.1 + window.2) / 2 = mid)
    (hpos : 0 < mid) :
    p.Meets mid ∧ p.halve window = some (window.1, mid) ∨
      ¬ p.Meets mid ∧ p.halve window = some (mid, window.2) := by
  obtain ⟨a, ha, hmeets⟩ := h.accountantAfter_spec hpos
  have hhalve : p.halve window =
      some (if a.getEpsilon p.targetDelta ≤ p.targetEpsilon then (window.1, mid)
        else (mid, window.2)) := by
    simp [halve, checkSigma, hmid, ha]
  rw [hhalve, ← hmeets]
  split_ifs with hle
  · exact .inl ⟨hle, rfl⟩
  · exact .inr ⟨hle, rfl⟩

/-- How wide the window is after `k` rounds. -/
def width (p : SigmaSearch) (k : Nat) : ℝ := (p.maxSigma - 1 / (10 : ℕ)) / (2 : ℕ) ^ k

theorem width_succ (p : SigmaSearch) (k : Nat) : p.width (k + 1) = p.width k / 2 := by
  simp only [width, pow_succ, div_div, Nat.cast_ofNat]

theorem Valid.width_pos (h : p.Valid) (k : Nat) : 0 < p.width k :=
  div_pos (sub_pos.2 h.lt_maxSigma) (by positivity)

theorem Valid.width_anti (h : p.Valid) {j k : Nat} (hle : j ≤ k) : p.width k ≤ p.width j := by
  induction hle with
  | refl => exact le_rfl
  | @step k _ ih =>
    have := h.width_pos k
    rw [width_succ]
    linarith

/-- The midpoint of the `k`-th round, if none has passed before. -/
def probe (p : SigmaSearch) (k : Nat) : ℝ := p.maxSigma - p.width k / (2 : ℕ)

/-- The window after `k` rounds. -/
structure Searched (p : SigmaSearch) (k : Nat) (window : ℝ × ℝ) : Prop where
  low_pos : 0 < window.1
  width_eq : window.2 - window.1 = p.width k
  /-- Either no midpoint has passed, or the upper end does. -/
  upper : window.2 = p.maxSigma ∧ (∀ j < k, ¬ p.Meets (p.probe j)) ∨
    p.Meets window.2 ∧ ∃ j < k, p.tolerance < p.width j ∧ p.Meets (p.probe j)

theorem searched_init (p : SigmaSearch) : p.Searched 0 (1 / (10 : ℕ), p.maxSigma) where
  low_pos := by norm_num
  width_eq := by simp [width]
  upper := .inl ⟨rfl, by simp⟩

theorem Valid.searched_halve (h : p.Valid) {k : Nat} (hs : p.Searched k window)
    (hc : window.2 - window.1 > p.tolerance) :
    ∃ window', p.halve window = some window' ∧ p.Searched (k + 1) window' := by
  have hwidth := hs.width_eq
  have hwpos := h.width_pos k
  have hlow := hs.low_pos
  have hsucc := p.width_succ k
  have hpos : 0 < (window.1 + window.2) / 2 := by linarith
  have hprobe : window.2 = p.maxSigma → p.probe k = (window.1 + window.2) / 2 := by
    intro hmax
    rw [probe, ← hmax, ← hwidth]
    ring
  rcases h.halve_cases rfl hpos with ⟨hpass, hhalve⟩ | ⟨hfail, hhalve⟩
  · refine ⟨_, hhalve, hlow, by dsimp only; linarith, .inr ⟨hpass, ?_⟩⟩
    rcases hs.upper with ⟨hmax, -⟩ | ⟨-, j, hj, hbefore⟩
    · exact ⟨k, k.lt_succ_self, hwidth ▸ hc, by rw [hprobe hmax]; exact hpass⟩
    · exact ⟨j, by omega, hbefore⟩
  · refine ⟨_, hhalve, hpos, by dsimp only; linarith, ?_⟩
    rcases hs.upper with ⟨hmax, hnone⟩ | ⟨hpassed, j, hj, hbefore⟩
    · refine .inl ⟨hmax, fun j hj => ?_⟩
      rcases Nat.lt_succ_iff_lt_or_eq.1 hj with hj | rfl
      · exact hnone j hj
      · rw [hprobe hmax]
        exact hfail
    · exact .inr ⟨hpassed, j, by omega, hbefore⟩

/-- `max_sigma` meets the target, or a probe that the tolerance leaves. -/
def Found (p : SigmaSearch) : Prop :=
  p.Meets p.maxSigma ∨ ∃ k, p.tolerance < p.width k ∧ p.Meets (p.probe k)

theorem Valid.meets_iff_found (h : p.Valid) {k : Nat} (hs : p.Searched k window)
    (hc : ¬ window.2 - window.1 > p.tolerance) : p.Meets window.2 ↔ p.Found := by
  rw [hs.width_eq, gt_iff_lt, not_lt] at hc
  rcases hs.upper with ⟨hmax, hnone⟩ | ⟨hpassed, j, -, hprobe⟩
  · rw [hmax]
    refine ⟨.inl, ?_⟩
    rintro (hmeets | ⟨j, htol, hmeets⟩)
    · exact hmeets
    · rcases Nat.lt_or_ge j k with hj | hj
      · exact absurd hmeets (hnone j hj)
      · exact absurd (htol.trans_le (h.width_anti hj)) (not_lt.2 hc)
  · exact iff_of_true hpassed (.inr ⟨j, hprobe⟩)

/-- The search ends, with a multiplier that meets the target exactly if one was found. -/
theorem Valid.computeSigma_spec (h : p.Valid) : ∃ fuel sigma, p.computeSigmaForRdp fuel = some sigma ∧
    0 < sigma ∧ (p.Meets sigma ↔ p.Found) := by
  obtain ⟨bound, hbound⟩ : ∃ bound, p.width bound ≤ p.tolerance := by
    obtain ⟨n, hn⟩ := pow_unbounded_of_one_lt ((p.maxSigma - 1 / 10) / p.tolerance) one_lt_two
    rw [div_lt_iff₀ h.tolerance_pos] at hn
    exact ⟨n, by rw [width, div_le_iff₀ (by positivity)]; linarith⟩
  have hless : ∀ k window, p.Searched k window → window.2 - window.1 > p.tolerance → k < bound := by
    intro k window hs hc
    by_contra hle
    rw [hs.width_eq] at hc
    exact absurd (h.width_anti (not_lt.1 hle)) (not_le.2 (hbound.trans_lt hc))
  obtain ⟨k, window, hloop, hs, hc⟩ := whileLoop_total (fun k window hs hc => h.searched_halve hs hc)
    hless p.searched_init (Nat.zero_add bound).ge
  have hpos := h.width_pos k
  have hlow := hs.low_pos
  have hwidth := hs.width_eq
  exact ⟨bound, window.2, by rw [computeSigmaForRdp, hloop, Option.map_some], by linarith,
    h.meets_iff_found hs hc⟩

theorem computeSigma_unique {fuel fuel' : Nat} {sigma sigma' : ℝ}
    (hs : p.computeSigmaForRdp fuel = some sigma) (hs' : p.computeSigmaForRdp fuel' = some sigma') :
    sigma = sigma' := by
  obtain ⟨window, hloop, rfl⟩ := Option.map_eq_some_iff.1 hs
  obtain ⟨window', hloop', rfl⟩ := Option.map_eq_some_iff.1 hs'
  rw [whileLoop_unique hloop hloop']

end SigmaSearch

open SigmaSearch

/-- The search always ends. An accountant that records `steps` steps with what it returned keeps to
the target if and only if `max_sigma` meets it, or a midpoint that was reached. -/
theorem sigma_search_iff {p : SigmaSearch} (h : p.Valid) :
    (∃ fuel sigma, p.computeSigmaForRdp fuel = some sigma) ∧
    ((∃ fuel sigma a, p.computeSigmaForRdp fuel = some sigma ∧ p.accountantAfter sigma = some a ∧
      a.getEpsilon p.targetDelta ≤ p.targetEpsilon) ↔ p.Found) := by
  obtain ⟨fuel, sigma, hsigma, hpos, hmeets⟩ := h.computeSigma_spec
  obtain ⟨a, ha, hspent⟩ := h.accountantAfter_spec hpos
  refine ⟨⟨fuel, sigma, hsigma⟩, ?_⟩
  rw [← hmeets, ← hspent]
  constructor
  · rintro ⟨fuel', sigma', a', hsigma', ha', hle⟩
    obtain rfl := computeSigma_unique hsigma hsigma'
    obtain rfl := Option.some.inj (ha.symm.trans ha')
    exact hle
  · exact fun hle => ⟨fuel, sigma, a, hsigma, ha, hle⟩

section Example

/-- One step without sampling, for an epsilon of 0.01. -/
def tightTarget : SigmaSearch where
  q := 1
  targetEpsilon := 1 / (100 : ℕ)
  targetDelta := 1 / (100000 : ℕ)
  steps := 1

theorem tightTarget_valid : tightTarget.Valid :=
  ⟨by norm_num [tightTarget], by norm_num [tightTarget], by norm_num [tightTarget],
    by norm_num [tightTarget]⟩

theorem tight_target_search :
    (∃ fuel sigma, tightTarget.computeSigmaForRdp fuel = some sigma) ∧
    ((∃ fuel sigma a, tightTarget.computeSigmaForRdp fuel = some sigma ∧
      tightTarget.accountantAfter sigma = some a ∧
      a.getEpsilon tightTarget.targetDelta ≤ tightTarget.targetEpsilon) ↔ tightTarget.Found) :=
  sigma_search_iff tightTarget_valid

/-- Even without any cost the conversion leaves more than 0.01 at each of the default orders. -/
theorem not_meets_tightTarget {sigma : ℝ} (hsigma : 0 < sigma) : ¬ tightTarget.Meets sigma := by
  rintro ⟨-, order, horder, hone, -, hvalue⟩
  obtain ⟨-, hbound⟩ := defaultOrders_bounds horder
  have hcost : 0 < order / (2 * sigma ^ 2) := by positivity
  have hlog : Real.log (1 / 100000 * order) ≤ 1 / 100000 * order - 1 :=
    Real.log_le_sub_one_of_pos (by positivity)
  have hconv : 1 / 100 < (Real.log (1 / 100000) + Real.log order) / (1 - order) := by
    rw [← Real.log_mul (by norm_num) (by positivity), lt_div_iff_of_neg (by linarith)]
    linarith
  have heq : RDPAccountant.valueAfter tightTarget.targetDelta
      (List.replicate tightTarget.steps (sigma, tightTarget.q)) order =
      order / (2 * sigma ^ 2) + (Real.log (1 / 100000) + Real.log order) / (1 - order) := by
    simp [tightTarget, RDPAccountant.valueAfter, RDPAccountant.epsilonAt, RDPAccountant.totalCost,
      stepCost]
  have hlt := (add_lt_add hcost hconv).trans_le (heq ▸ hvalue)
  norm_num [tightTarget] at hlt

/-- A multiplier is returned for a target that none meets. -/
theorem unmet_target_answered : ∃ fuel sigma a, tightTarget.computeSigmaForRdp fuel = some sigma ∧
    tightTarget.accountantAfter sigma = some a ∧
    tightTarget.targetEpsilon < a.getEpsilon tightTarget.targetDelta := by
  obtain ⟨fuel, sigma, hsigma, hpos, -⟩ := tightTarget_valid.computeSigma_spec
  obtain ⟨a, ha, hspent⟩ := tightTarget_valid.accountantAfter_spec hpos
  exact ⟨fuel, sigma, a, hsigma, ha, not_le.1 (mt hspent.1 (not_meets_tightTarget hpos))⟩

end Example

end

end GossipRl
