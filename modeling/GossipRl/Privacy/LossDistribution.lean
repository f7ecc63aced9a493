import GossipRl.Privacy.Accountant
import GossipRl.Privacy.NumPy
import GossipRl.Support.FiniteLaw
import GossipRl.Support.Run

/-!
# The accountant of loss distributions (`GLWAccountant` in `privacy/accountant.py`)

A step convolves the weights that are kept with those of its own, and sets the grid to that of one
step. So from the second step on the weights are those of the sum of the losses, on a grid that
starts at as many times `-truncation` and is longer (`Composed`), and the grid does not go with them.

Arithmetic is that of the real numbers, and `none` is an exception.
-/

namespace GossipRl
open Support

noncomputable section

structure GLWAccountant where
  discretization : ℝ := 1 / (10000 : ℕ)
  truncation : ℝ := (500 : ℕ)
  pld : Option (List ℝ) := none
  pldDomain : Option (List ℝ) := none
  history : List PrivacySpent := []
  stepCount : Nat := 0

namespace GLWAccountant

/-- `n_points`: the quotient is rounded toward zero, and `np.linspace` takes no negative number. -/
def nPoints (a : GLWAccountant) : Option Nat :=
  if a.discretization = 0 then none
  else if (2 : ℕ) * a.truncation / a.discretization ≤ -1 then none
  else some ⌊(2 : ℕ) * a.truncation / a.discretization⌋₊

/-- The grid that `pld_domain` is set to, and the weights on it. -/
def computeGaussianPld (sigma _q : ℝ) (a : GLWAccountant) : Option (List ℝ × List ℝ) :=
  a.nPoints.bind fun nPoints =>
    let domain := (List.range nPoints).map (linspace (-a.truncation) a.truncation nPoints)
    if sigma = 0 then none
    else
      let mu := 1 / ((2 : ℕ) * sigma ^ 2)
      let std := 1 / sigma
      let pld := domain.map fun x => Real.exp (-(1 / (2 : ℕ)) * ((x - mu) / std) ^ 2)
      some (domain, pld.map (· / pld.sum))

/-- `np.convolve` takes no empty arrays. -/
def composePld (stepPld : List ℝ) : Option (List ℝ) → Option (List ℝ)
  | none => some stepPld
  | some pld =>
    if pld = [] ∨ stepPld = [] then none
    else
      let pld := convolve pld stepPld
      some (pld.map (· / pld.sum))

/-- A call of `step`, with the noise multiplier and the sample rate. -/
def step (a : GLWAccountant) (call : ℝ × ℝ) : Option GLWAccountant :=
  (a.computeGaussianPld call.1 call.2).bind fun (domain, stepPld) =>
    (composePld stepPld a.pld).map fun pld =>
      { a with
        stepCount := a.stepCount + 1
        pld := some pld
        pldDomain := some domain
        history := a.history ++
          [{ epsilon := 0
             delta := 0
             noiseMultiplier := call.1
             sampleRate := call.2
             step := a.stepCount + 1 }] }

def getEpsilon (delta : ℝ) (a : GLWAccountant) : Option ℝ :=
  match a.pld, a.pldDomain with
  | some pld, some domain =>
    match (domain.zip (npCumsum pld)).find? fun e => decide (1 - e.2 ≤ delta) with
    | some e => some (max 0 e.1)
    | none => if pld.length < domain.length then none else domain.getLast?
  | _, _ => some 0

/-- The distribution of the loss of one step. -/
def stepLaw (a : GLWAccountant) (call : ℝ × ℝ) : List (ℝ × ℝ) :=
  match a.computeGaussianPld call.1 call.2 with
  | none => []
  | some (domain, pld) => domain.zip pld

/-- Each weight is the probability that the sum of the losses is the value of the grid at its place,
and `get_epsilon` finds the least value that the sum is only above with probability `delta`. -/
def Exact (laws : List (List (ℝ × ℝ))) (a : GLWAccountant) : Prop :=
  ∃ pld domain, a.pld = some pld ∧ a.pldDomain = some domain ∧ pld.length = domain.length ∧
    (∀ i (hi : i < domain.length), pld.getD i 0 = mass (· = domain[i]) (sumLaw laws)) ∧
    ∀ delta eps, IsLeast {x | x ∈ domain ∧ mass (x < ·) (sumLaw laws) ≤ delta} eps →
      a.getEpsilon delta = some (max 0 eps)

variable {a a' : GLWAccountant} {call : ℝ × ℝ} {calls : List (ℝ × ℝ)} {domain p : List ℝ}
  {sigma q delta eps : ℝ} {n : ℕ}

/-- The grid of one step. -/
def grid (truncation : ℝ) (n : ℕ) : List ℝ :=
  (List.range n).map (linspace (-truncation) truncation n)

/-- How far the values of the grid are apart. -/
def gridStep (truncation : ℝ) (n : ℕ) : ℝ := (truncation - -truncation) / (n - 1)

theorem linspace_eq_nsmul (truncation : ℝ) (n i : ℕ) :
    linspace (-truncation) truncation n i = -truncation + i • gridStep truncation n := by
  rw [linspace, gridStep, nsmul_eq_mul]

theorem zip_grid (truncation : ℝ) (p : List ℝ) : (grid truncation p.length).zip p =
    gridLaw (-truncation) (gridStep truncation p.length) p := by
  refine List.ext_getElem (by simp [grid, gridLaw]) fun i hi _ => ?_
  have hi : i < p.length := by
    rw [List.length_zip] at hi
    omega
  simp [grid, gridLaw, linspace_eq_nsmul, List.getD_eq_getElem?_getD, hi]

theorem computeGaussianPld_spec (h : a.computeGaussianPld sigma q = some (domain, p)) :
    a.nPoints = some p.length ∧ domain = grid a.truncation p.length ∧ (p ≠ [] → p.sum = 1) := by
  obtain ⟨n, hn, h⟩ := Option.bind_eq_some_iff.1 h
  dsimp only at h
  split_ifs at h with hsigma
  obtain ⟨rfl, rfl⟩ := Prod.mk.inj (Option.some.inj h)
  simp only [List.length_map, List.length_range]
  refine ⟨hn, rfl, fun hne => sum_normalized ?_⟩
  refine (List.sum_pos _ (fun w hw => ?_) (by simpa using hne)).ne'
  obtain ⟨x, -, rfl⟩ := List.mem_map.1 hw
  exact Real.exp_pos _

theorem computeGaussianPld_congr (hd : a'.discretization = a.discretization)
    (ht : a'.truncation = a.truncation) :
    a'.computeGaussianPld sigma q = a.computeGaussianPld sigma q := by
  unfold computeGaussianPld nPoints
  rw [hd, ht]

theorem stepLaw_eq (h : a.computeGaussianPld call.1 call.2 = some (domain, p)) :
    a.stepLaw call = gridLaw (-a.truncation) (gridStep a.truncation p.length) p := by
  obtain ⟨-, rfl, -⟩ := computeGaussianPld_spec h
  rw [stepLaw, h]
  exact zip_grid a.truncation p

theorem step_eq_some (h : a.step call = some a') : ∃ domain p pld,
    a.computeGaussianPld call.1 call.2 = some (domain, p) ∧ composePld p a.pld = some pld ∧
      a'.pld = some pld ∧ a'.pldDomain = some domain ∧
      a'.discretization = a.discretization ∧ a'.truncation = a.truncation := by
  obtain ⟨⟨domain, p⟩, hpld, h⟩ := Option.bind_eq_some_iff.1 h
  obtain ⟨pld, hcompose, rfl⟩ := Option.map_eq_some_iff.1 h
  exact ⟨domain, p, pld, hpld, hcompose, rfl, rfl, rfl, rfl⟩

/-- Renormalizing does nothing, and the first step is composed with no loss at all. -/
theorem composePld_spec {old : Option (List ℝ)} {pld : List ℝ} (hp : p.sum = 1)
    (hold : (old.getD [1]).sum = 1) (h : composePld p old = some pld) :
    pld = convolve (old.getD [1]) p := by
  cases old with
  | none =>
    obtain rfl := Option.some.inj h
    exact (convolve_one p).symm
  | some l =>
    simp only [composePld] at h
    split_ifs at h
    obtain rfl := Option.some.inj h
    rw [Option.getD_some] at hold
    simp only [Option.getD_some, convolve_sum, hold, hp, mul_one, div_one, List.map_id']

/-- After the steps `calls` the weights are those of the sum of the losses, on the grid that starts
at as many times `-truncation`. The grid that is kept is that of one step. -/
structure Composed (a₀ : GLWAccountant) (n : ℕ) (calls : List (ℝ × ℝ)) (a : GLWAccountant) : Prop where
  discretization : a.discretization = a₀.discretization
  truncation : a.truncation = a₀.truncation
  kept : calls ≠ [] → a.pld ≠ none ∧ a.pldDomain = some (grid a₀.truncation n)
  length : (a.pld.getD [1]).length = calls.length * (n - 1) + 1
  sum : (a.pld.getD [1]).sum = 1
  law : ∀ f : ℝ → ℝ, weigh f (gridLaw (calls.length • -a₀.truncation) (gridStep a₀.truncation n)
    (a.pld.getD [1])) = weigh f (sumLaw (calls.map a₀.stepLaw))

theorem composed_nil (hpld : a.pld = none) (n : ℕ) : Composed a n [] a where
  discretization := rfl
  truncation := rfl
  kept h := absurd rfl h
  length := by simp [hpld]
  sum := by simp [hpld]
  law f := by simp [hpld, weigh_gridLaw, sumLaw]

theorem Composed.step {a₀ : GLWAccountant} (ha : Composed a₀ n calls a) (hn : a₀.nPoints = some n)
    (hpos : n ≠ 0) (h : a.step call = some a') : Composed a₀ n (calls ++ [call]) a' := by
  obtain ⟨domain, p, pld, hpld, hcompose, hpld', hdomain', hd, ht⟩ := step_eq_some h
  rw [computeGaussianPld_congr ha.discretization ha.truncation] at hpld
  obtain ⟨hlength, rfl, hsum⟩ := computeGaussianPld_spec hpld
  obtain rfl := Option.some.inj (hn.symm.trans hlength)
  have hsum : p.sum = 1 := hsum (List.ne_nil_of_length_pos (Nat.pos_of_ne_zero hpos))
  obtain rfl := composePld_spec hsum ha.sum hcompose
  constructor
  · exact hd.trans ha.discretization
  · exact ht.trans ha.truncation
  · exact fun _ => ⟨by simp [hpld'], hdomain'⟩
  · rw [hpld', Option.getD_some, length_convolve, ha.length, List.length_append,
      List.length_singleton, Nat.add_mul]
    omega
  · rw [hpld', Option.getD_some, convolve_sum, ha.sum, hsum, mul_one]
  · intro f
    rw [hpld', Option.getD_some, List.length_append, List.length_singleton, succ_nsmul,
      weigh_convolve, weigh_addLaw, ha.law, List.map_append, List.map_singleton, sumLaw_concat,
      weigh_addLaw, stepLaw_eq hpld]

theorem composed_run {a₀ : GLWAccountant} (hpld : a₀.pld = none) (hn : a₀.nPoints = some n)
    (hpos : n ≠ 0) (hrun : run step a₀ calls = some a) : Composed a₀ n calls a :=
  run_induction (motive := Composed a₀ n) (composed_nil hpld n)
    (fun _ _ _ _ _ ih _ hstep => ih.step hn hpos hstep) .unconditional hrun

theorem exists_nPoints {rest : List (ℝ × ℝ)} (hrun : run step a (call :: rest) = some a') :
    ∃ n, a.nPoints = some n ∧ (n ≤ 1 ↔ 2 * a.truncation / a.discretization < 2) := by
  obtain ⟨a₁, hstep, -⟩ := Option.bind_eq_some_iff.1 (run_cons ▸ hrun)
  obtain ⟨domain, p, pld, hfirst, -⟩ := step_eq_some hstep
  obtain ⟨hn, -⟩ := computeGaussianPld_spec hfirst
  refine ⟨_, hn, ?_⟩
  unfold nPoints at hn
  split_ifs at hn
  rw [← Option.some.inj hn, ← Nat.lt_succ_iff, Nat.floor_lt' (by norm_num)]
  norm_num

theorem truncation_ne_zero (hn : a.nPoints = some n) (hpos : n ≠ 0) : a.truncation ≠ 0 := by
  intro hzero
  unfold nPoints at hn
  split_ifs at hn
  rw [hzero, mul_zero, zero_div, Nat.floor_zero] at hn
  exact hpos (Option.some.inj hn).symm

theorem nPoints_of_two_steps {call' : ℝ × ℝ} {rest : List (ℝ × ℝ)} (hpld : a.pld = none)
    (hn : a.nPoints = some n) (hrun : run step a (call :: call' :: rest) = some a') : n ≠ 0 := by
  rintro rfl
  rw [run_cons, Option.bind_eq_some_iff] at hrun
  obtain ⟨a₁, hstep, hrun⟩ := hrun
  rw [run_cons, Option.bind_eq_some_iff] at hrun
  obtain ⟨a₂, hstep', -⟩ := hrun
  obtain ⟨domain, p, pld, hfirst, hcompose, hpld', -⟩ := step_eq_some hstep
  obtain ⟨hlength, -⟩ := computeGaussianPld_spec hfirst
  obtain ⟨domain', p', pld', -, hcompose', -⟩ := step_eq_some hstep'
  have hempty : p = [] := List.length_eq_zero_iff.1 (Option.some.inj (hlength.symm.trans hn))
  rw [hpld] at hcompose
  obtain rfl := Option.some.inj hcompose
  rw [hpld', composePld, if_pos (.inl hempty)] at hcompose'
  cases hcompose'

theorem Composed.exists_step {a₀ : GLWAccountant} (ha : Composed a₀ n calls a)
    (hn : a₀.nPoints = some n) (hpos : n ≠ 0) (hsigma : call.1 ≠ 0) :
    ∃ a', a.step call = some a' := by
  obtain ⟨domain, p, hfirst⟩ :
      ∃ domain p, a₀.computeGaussianPld call.1 call.2 = some (domain, p) := by
    rw [computeGaussianPld, hn, Option.bind_some, if_neg hsigma]
    exact ⟨_, _, rfl⟩
  obtain ⟨hn', -⟩ := computeGaussianPld_spec hfirst
  obtain rfl := Option.some.inj (hn'.symm.trans hn)
  obtain ⟨pld, hcompose⟩ : ∃ pld, composePld p a.pld = some pld := by
    have hlength := ha.length
    cases hold : a.pld with
    | none => exact ⟨p, rfl⟩
    | some l =>
      rw [hold, Option.getD_some] at hlength
      have hl : l ≠ [] := List.ne_nil_of_length_pos (by omega)
      have hp : p ≠ [] := List.ne_nil_of_length_pos (by omega)
      exact ⟨_, if_neg (not_or.2 ⟨hl, hp⟩)⟩
  rw [GLWAccountant.step, computeGaussianPld_congr ha.discretization ha.truncation, hfirst,
    Option.bind_some]
  dsimp only
  rw [hcompose]
  exact ⟨_, rfl⟩

theorem exists_run {a₀ : GLWAccountant} (hpld : a₀.pld = none) (hn : a₀.nPoints = some n)
    (hpos : n ≠ 0) (calls : List (ℝ × ℝ)) (hcalls : ∀ call ∈ calls, call.1 ≠ 0) :
    ∃ a, run step a₀ calls = some a := by
  induction calls using List.reverseRecOn with
  | nil => exact ⟨a₀, rfl⟩
  | append_singleton calls call ih =>
    obtain ⟨a, hrun⟩ := ih fun c hc => hcalls c (by simp [hc])
    obtain ⟨a', hstep⟩ :=
      (composed_run hpld hn hpos hrun).exists_step hn hpos (hcalls call (by simp))
    exact ⟨a', run_concat_eq_some.2 ⟨a, hrun, hstep⟩⟩

/-- After two steps or more the weights are too many for the grid, or all of them are on a value
that is not on it. -/
theorem not_exact_of_two_steps {a₀ : GLWAccountant} (hpld : a₀.pld = none)
    (hrun : run step a₀ calls = some a) (htwo : 2 ≤ calls.length) :
    ¬ Exact (calls.map a₀.stepLaw) a := by
  obtain ⟨n, hn, hpos⟩ : ∃ n, a₀.nPoints = some n ∧ n ≠ 0 := by
    match calls, htwo with
    | call :: call' :: rest, _ =>
      obtain ⟨n, hn, -⟩ := exists_nPoints hrun
      exact ⟨n, hn, nPoints_of_two_steps hpld hn hrun⟩
  have hcomposed := composed_run hpld hn hpos hrun
  have hne : calls ≠ [] := List.ne_nil_of_length_pos (by omega)
  rintro ⟨pld, domain, hpld', hdomain, hlength, hweights, -⟩
  obtain rfl := Option.some.inj (hdomain.symm.trans (hcomposed.kept hne).2)
  have hsame := hcomposed.length
  rw [hpld', Option.getD_some, hlength, grid, List.length_map, List.length_range] at hsame
  -- one point is left
  obtain rfl : n = 1 := by
    have := Nat.mul_le_mul_right (n - 1) htwo
    omega
  have hsum := hcomposed.sum
  have hlaw : mass (· = -a₀.truncation) (gridLaw (calls.length • -a₀.truncation)
      (gridStep a₀.truncation 1) (a.pld.getD [1])) =
      mass (· = -a₀.truncation) (sumLaw (calls.map a₀.stepLaw)) := hcomposed.law _
  rw [hpld', Option.getD_some] at hlaw hsum
  obtain ⟨w, rfl⟩ := List.length_eq_one_iff.1 (hlength.trans (by simp [grid]))
  obtain rfl : w = 1 := by simpa using hsum
  have hfirst : 1 = mass (· = -a₀.truncation) (sumLaw (calls.map a₀.stepLaw)) := by
    simpa [grid, linspace_zero] using hweights 0 (by simp [grid])
  have hvalue : calls.length • -a₀.truncation = -a₀.truncation := by
    by_contra hother
    rw [← hfirst, mass, weigh_gridLaw, List.length_singleton, Finset.sum_range_one, zero_nsmul,
      add_zero, if_neg hother, zero_mul] at hlaw
    exact zero_ne_one hlaw
  have htrunc : a₀.truncation ≠ 0 := truncation_ne_zero hn one_ne_zero
  rw [nsmul_eq_mul, mul_eq_right₀ (neg_ne_zero.2 htrunc)] at hvalue
  have : calls.length = 1 := by exact_mod_cast hvalue
  omega

/-- The grid goes up, unless the truncation is negative. -/
theorem grid_lt_iff (hn : a.nPoints = some n) (hup : a.truncation < 0 → n ≤ 1) {i k : ℕ} (hi : i < n)
    (hk : k < n) : -a.truncation + i • gridStep a.truncation n <
      -a.truncation + k • gridStep a.truncation n ↔ i < k := by
  rcases Nat.lt_or_ge 1 n with hmany | hone
  · have htrunc : 0 < a.truncation := by
      refine lt_of_le_of_ne (not_lt.1 fun hneg => ?_) (truncation_ne_zero hn (by omega)).symm
      exact absurd (hup hneg) (not_le.2 hmany)
    have hcast : (1 : ℝ) < n := by exact_mod_cast hmany
    have hstep : 0 < gridStep a.truncation n := div_pos (by linarith) (by linarith)
    rw [add_lt_add_iff_left, nsmul_eq_mul, nsmul_eq_mul, mul_lt_mul_iff_left₀ hstep, Nat.cast_lt]
  · obtain rfl : i = k := by omega
    simp

theorem grid_eq_iff (hn : a.nPoints = some n) (hup : a.truncation < 0 → n ≤ 1) {i k : ℕ} (hi : i < n)
    (hk : k < n) : -a.truncation + k • gridStep a.truncation n =
      -a.truncation + i • gridStep a.truncation n ↔ k = i := by
  refine ⟨fun heq => ?_, fun heq => heq ▸ rfl⟩
  rcases Nat.lt_trichotomy k i with h | h | h
  · exact absurd heq ((grid_lt_iff hn hup hk hi).2 h).ne
  · exact h
  · exact absurd heq ((grid_lt_iff hn hup hi hk).2 h).ne'

theorem getEpsilon_eq {truncation : ℝ} (hpld : a.pld = some p)
    (hdomain : a.pldDomain = some (grid truncation p.length)) {i : ℕ} (hi : i < p.length)
    (htest : 1 - (p.take (i + 1)).sum ≤ delta)
    (hbefore : ∀ j < i, ¬ 1 - (p.take (j + 1)).sum ≤ delta) :
    a.getEpsilon delta = some (max 0 (linspace (-truncation) truncation p.length i)) := by
  have hzip : (grid truncation p.length).zip (npCumsum p) = (List.range p.length).map fun j =>
      (linspace (-truncation) truncation p.length j, (p.take (j + 1)).sum) :=
    List.zip_map'
  have hfind : ((grid truncation p.length).zip (npCumsum p)).find?
      (fun e => decide (1 - e.2 ≤ delta)) =
      some (linspace (-truncation) truncation p.length i, (p.take (i + 1)).sum) := by
    rw [hzip, List.find?_eq_some_iff_getElem]
    refine ⟨by simpa using htest, i, by simpa using hi, by simp, fun j hj => ?_⟩
    simpa using hbefore j hj
  rw [getEpsilon, hpld, hdomain]
  dsimp only
  rw [hfind]

/-- After one step all is as it should be, on a grid that goes up. -/
theorem exact_of_one_step_iff {a₀ : GLWAccountant} (hpld : a₀.pld = none)
    (hrun : run step a₀ [call] = some a) (hn : a₀.nPoints = some n) :
    Exact [a₀.stepLaw call] a ↔ (a₀.truncation < 0 → n ≤ 1) := by
  obtain ⟨a₁, hstep, hlast⟩ := Option.bind_eq_some_iff.1 (run_cons ▸ hrun)
  obtain rfl : a₁ = a := by simpa using hlast
  obtain ⟨domain, p, pld, hfirst, hcompose, hpld', hdomain, -⟩ := step_eq_some hstep
  obtain ⟨hlength, rfl, hsum⟩ := computeGaussianPld_spec hfirst
  obtain rfl := Option.some.inj (hlength.symm.trans hn)
  rw [hpld] at hcompose
  obtain rfl := Option.some.inj hcompose
  rw [Exact, sumLaw_singleton, stepLaw_eq hfirst]
  constructor
  · rintro ⟨pld, domain, hpld'', hdomain', -, -, hleast⟩ hneg
    obtain rfl := Option.some.inj (hpld'.symm.trans hpld'')
    obtain rfl := Option.some.inj (hdomain.symm.trans hdomain')
    by_contra hmany
    -- the search starts at the greatest value, and the least one is at the end
    have hlast := linspace_last (-a₀.truncation) a₀.truncation (not_le.1 hmany)
    have hfound := hleast (max (1 - (p.take (0 + 1)).sum) (mass (a₀.truncation < ·)
      (gridLaw (-a₀.truncation) (gridStep a₀.truncation p.length) p))) a₀.truncation
      ⟨⟨List.mem_map.2 ⟨p.length - 1, List.mem_range.2 (by omega), hlast⟩, le_max_right _ _⟩, ?_⟩
    · rw [getEpsilon_eq hpld' hdomain (by omega : 0 < p.length) (le_max_left _ _) (by simp),
        linspace_zero, max_eq_left hneg.le, max_eq_right (by linarith), Option.some_inj] at hfound
      linarith
    · rintro x ⟨hx, -⟩
      obtain ⟨i, hi, rfl⟩ := List.mem_map.1 hx
      exact le_linspace (by linarith) (List.mem_range.1 hi)
  · intro hup
    refine ⟨p, _, hpld', hdomain, by simp [grid], fun i hi => ?_, fun delta eps hleast => ?_⟩
    · have hi : i < p.length := by simpa [grid] using hi
      rw [← mass_gridLaw_eq hi fun k hk => grid_eq_iff hn hup hi hk]
      simp [grid, linspace_eq_nsmul]
    · obtain ⟨⟨hmem, hmass⟩, hlower⟩ := hleast
      have htail : ∀ j < p.length, mass (linspace (-a₀.truncation) a₀.truncation p.length j < ·)
          (gridLaw (-a₀.truncation) (gridStep a₀.truncation p.length) p) =
          1 - (p.take (j + 1)).sum := by
        intro j hj
        rw [eq_sub_iff_add_eq, linspace_eq_nsmul,
          mass_gridLaw_lt hj fun k hk => grid_lt_iff hn hup hj hk]
        exact hsum (List.ne_nil_of_length_pos (by omega))
      obtain ⟨i, hi, rfl⟩ := List.mem_map.1 hmem
      have hi : i < p.length := List.mem_range.1 hi
      refine getEpsilon_eq hpld' hdomain hi (htail i hi ▸ hmass) fun j hj hle => ?_
      have hj' : j < p.length := by omega
      rw [← htail j hj'] at hle
      have := hlower ⟨List.mem_map.2 ⟨j, List.mem_range.2 hj', rfl⟩, hle⟩
      rw [linspace_eq_nsmul, linspace_eq_nsmul] at this
      exact absurd ((grid_lt_iff hn hup hj' hi).2 hj) (not_lt.2 this)

end GLWAccountant

open GLWAccountant

/-- The weights are those of the sum of the losses on the grid, and `get_epsilon` the least value
that keeps to `delta`, if and only if there was one step, on a grid that goes up. -/
theorem loss_distribution_iff {discretization truncation : ℝ} {calls : List (ℝ × ℝ)}
    {a : GLWAccountant} (hsome : calls ≠ [])
    (hrun : run GLWAccountant.step { discretization, truncation } calls = some a) :
    Exact (calls.map (stepLaw { discretization, truncation })) a ↔
      calls.length = 1 ∧ (truncation < 0 → 2 * truncation / discretization < 2) := by
  rcases Nat.lt_or_ge 1 calls.length with htwo | hone
  · refine iff_of_false (not_exact_of_two_steps rfl hrun htwo) fun h => ?_
    omega
  obtain ⟨call, rfl⟩ : ∃ call, calls = [call] := by
    refine List.length_eq_one_iff.1 (le_antisymm hone ?_)
    exact List.length_pos_iff.2 hsome
  obtain ⟨n, hn, hpoints⟩ := exists_nPoints hrun
  rw [List.map_singleton, exact_of_one_step_iff rfl hrun hn, List.length_singleton, hpoints]
  simp

section Example

theorem default_nPoints : ({} : GLWAccountant).nPoints = some 10000000 := by
  norm_num [nPoints]

theorem one_step_exact_iff : ∃ a, run GLWAccountant.step {} [(1, 1)] = some a ∧
    (Exact ([(1, 1)].map (stepLaw {})) a ↔ [((1 : ℝ), (1 : ℝ))].length = 1 ∧
      ((500 : ℕ) < (0 : ℝ) → 2 * ((500 : ℕ) : ℝ) / (1 / (10000 : ℕ)) < 2)) := by
  obtain ⟨a, hrun⟩ := exists_run rfl default_nPoints (by norm_num) [(1, 1)] (by simp)
  exact ⟨a, hrun, loss_distribution_iff (by simp) hrun⟩

/-- After two steps there are almost twice as many weights as values. -/
theorem two_steps_misaligned : ∃ a pld domain, run GLWAccountant.step {} [(1, 1), (1, 1)] = some a ∧
    a.pld = some pld ∧ a.pldDomain = some domain ∧ domain.length < pld.length ∧
    ¬ Exact ([(1, 1), (1, 1)].map (stepLaw {})) a := by
  obtain ⟨a, hrun⟩ := exists_run rfl default_nPoints (by norm_num) [(1, 1), (1, 1)] (by simp)
  have hcomposed := composed_run rfl default_nPoints (by norm_num) hrun
  obtain ⟨hsome, hdomain⟩ := hcomposed.kept (by simp)
  obtain ⟨pld, hpld⟩ := Option.ne_none_iff_exists'.1 hsome
  have hlength := hcomposed.length
  rw [hpld, Option.getD_some] at hlength
  refine ⟨a, pld, _, hrun, hpld, hdomain, ?_, not_exact_of_two_steps rfl hrun (by simp)⟩
  rw [hlength, grid, List.length_map, List.length_range]
  norm_num

end Example

end

end GossipRl
