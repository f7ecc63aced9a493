import GossipRl.Privacy.FloatAccountant
import GossipRl.Training.PrivateUpdates

/-!
# The sample rate of an update

The accountant is told `batch_size / len(buffer)`, also where the rollout is shorter than a batch and
all of it makes one batch. The rate is above 1 then, and at every order above 1 the logarithm of
`1 - q` raises. What the accountant gets and computes are floats here: a quotient is rounded to 1
before it is above 1, and the square of a noise multiplier may be nothing to divide by, however
positive the multiplier is.
-/

namespace GossipRl
open Support PyFloat

noncomputable section

/-- The sample rate is one, and at no order above 1 a cost raises or divides by 0, which NumPy's
floats do not raise for. -/
structure Faultless (gammaln : PyFloat → PyFloat) (kind : FloatKind) (noiseMultiplier : PyFloat)
    (sampleRate : Option PyFloat) : Prop where
  rate : ∃ q : Binary64, sampleRate = some (finite q) ∧ 0 < (q : ℝ) ∧ (q : ℝ) ≤ 1
  divisor : ∀ square, kind.square noiseMultiplier = some square → (ofNat 2).mul square ≠ 0
  returns : ∀ q, sampleRate = some q → ∀ order : Binary64, 1 < (order : ℝ) →
    FloatAccountant.rdpAt gammaln ⟨kind, noiseMultiplier, q⟩ (finite order) ≠ none

/-- The square of the multiplier is a number that can be divided by. -/
def Divisible (kind : FloatKind) (noiseMultiplier : PyFloat) : Prop :=
  noiseMultiplier.SquareNonzero ∧ (kind = .python → noiseMultiplier.SquareFinite)

section Call
variable {gammaln : PyFloat → PyFloat} {kind : FloatKind} {x : PyFloat}

theorem Divisible.squarable (h : Divisible kind x) (q : PyFloat) : FloatAccountant.Squarable ⟨kind, x, q⟩ :=
  fun hkind => ⟨h.2 hkind, h.1⟩

theorem Faultless.divisible {rate : Option PyFloat} (h : Faultless gammaln kind x rate) :
    Divisible kind x := by
  obtain ⟨q, hq, hpos, -⟩ := h.rate
  obtain ⟨two, htwo, hval⟩ := ofNat_eq_finite (n := 2) (by norm_num)
  have hone : 1 < (two : ℝ) := by
    rw [hval]
    norm_num
  have haccepted : FloatAccountant.Accepted ⟨kind, x, finite q⟩ (finite two) := by
    by_contra hnot
    exact h.returns _ hq two hone (FloatAccountant.rdpAt_eq_none_iff.2 hnot)
  have hsquarable : FloatAccountant.Squarable ⟨kind, x, finite q⟩ := by
    rw [FloatAccountant.Accepted] at haccepted
    split_ifs at haccepted
    · exact haccepted
    · simp only [finite_lt_one, finite_eq_one_iff, finite_eq_zero_iff, hone.not_gt, hone.ne',
        hpos.ne', false_or] at haccepted
      exact haccepted.2.2
  refine ⟨?_, fun hkind => (hsquarable hkind).1⟩
  cases kind with
  | python => exact (hsquarable rfl).2
  | numpy =>
    have hdivisor := h.divisor (x.mul x) (by rw [FloatKind.square_eq, if_neg (by simp)])
    rw [Ne, two_mul_eq_zero_iff, mul_self_eq_zero_iff, not_not] at hdivisor
    exact hdivisor

theorem Divisible.faultless {rate : Option PyFloat} (h : Divisible kind x)
    (hrate : ∃ q : Binary64, rate = some (finite q) ∧ 0 < (q : ℝ) ∧ (q : ℝ) ≤ 1) :
    Faultless gammaln kind x rate where
  rate := hrate
  divisor square hsquare := by
    rw [FloatKind.square_eq] at hsquare
    split_ifs at hsquare
    obtain rfl := Option.some.inj hsquare
    rw [Ne, two_mul_eq_zero_iff, mul_self_eq_zero_iff, not_not]
    exact h.1
  returns q' hq' order horder := by
    obtain ⟨q, hq, hpos, hle⟩ := hrate
    obtain rfl := Option.some.inj (hq.symm.trans hq')
    rw [Ne, FloatAccountant.rdpAt_eq_none_iff, not_not, FloatAccountant.Accepted]
    split_ifs with hone
    · exact h.squarable _
    · refine .inr (.inr (.inr ⟨⟨order, rfl⟩, .inr ⟨hpos, ?_⟩, h.squarable _⟩))
      exact lt_of_le_of_ne hle fun heq => hone (finite_eq_one_iff.2 heq)

theorem FloatAccountant.rdpAt_of_one_lt {q order : Binary64} (hrate : 1 < (q : ℝ)) (horder : 1 < (order : ℝ)) :
    FloatAccountant.rdpAt gammaln ⟨kind, x, finite q⟩ (finite order) = none := by
  rw [FloatAccountant.rdpAt_eq_none_iff, FloatAccountant.Accepted, if_neg (finite_eq_one_iff.not.2 hrate.ne')]
  simp only [finite_lt_one, finite_eq_one_iff, finite_eq_zero_iff, horder.not_gt, horder.ne',
    (zero_lt_one.trans hrate).ne', hrate.not_gt, false_or, reduceCtorEq, and_false, false_and,
    not_false_eq_true]

end Call

namespace PrivateTrainer
variable {σ : Type*} (torch : Torch ℝ) (backward : Backward ℝ)
  (getNoiseMultiplier : Nat → ℝ → σ → ℝ × σ) (normal : ℝ → Nat → (size : Nat) → Fin size → ℝ)
  (gammaln : PyFloat → PyFloat) (kind : PrivateTrainer σ → FloatKind)

/-- `_apply_dp_noise`, up to where it tracks privacy. -/
def beforeTracking (gradients : List ℝ) (s : PrivateTrainer σ) :
    Option (NoisyGradients × PrivateTrainer σ) :=
  let s := s.schedule torch getNoiseMultiplier gradients
  (s.mechanism.privatize torch.norm (normal · s.updates.length) gradients).bind fun (out, mechanism) =>
    let (params, returns) := setGradientVector out.noisy s.trainer.params
    if returns then
      let trainer := { s.trainer with params := params, localGradients := some out.noisy }
      some (out, { s with trainer := trainer, mechanism := mechanism })
    else none

/-- What is left of an update when privacy has been tracked. -/
def afterTracking (indices : List Nat) (gradients : List ℝ) (out : NoisyGradients)
    (s : PrivateTrainer σ) : PrivateTrainer σ :=
  { s with
    trainer := s.trainer.applyStep torch
    updates := s.updates ++
      [{ indices := indices
         gradients := gradients
         params := s.trainer.params
         fed := getGradientVector s.trainer.params
         multiplier := out.multiplier
         noise := out.noise }] }

/-- `batch_size / len(buffer)` -/
def sampleRate (s : PrivateTrainer σ) : Option PyFloat :=
  divNat s.trainer.config.batchSize s.trainer.buffer.observations.length

/-- Track privacy, in floats; `kind s` is the type of the noise multiplier that `s` has. -/
def trackFloat (s : PrivateTrainer σ) (a : FloatAccountant) :
    Option (PrivateTrainer σ × FloatAccountant) :=
  s.mechanism.noiseMultiplier.bind fun (multiplier, mechanism) =>
    s.sampleRate.bind fun sampleRate =>
      let (a, returns) := a.step gammaln ⟨kind s, ofReal multiplier, sampleRate⟩
      if returns then some ({ s with mechanism := mechanism }, a) else none

/-- The body of the loop over minibatches, with an accountant in floats in place of its own. -/
def floatUpdate (start : List (NdArray ℝ)) (s : PrivateTrainer σ × FloatAccountant)
    (indices : List Nat) : Option (PrivateTrainer σ × FloatAccountant) :=
  let t := s.1.backwardPass torch backward start indices
  let gradients := getGradientVector t.trainer.params
  (t.beforeTracking torch getNoiseMultiplier normal gradients).bind fun (out, t) =>
    (t.trackFloat gammaln kind s.2).map fun (t, a) => (t.afterTracking torch indices gradients out, a)

/-- The noise multiplier that the accountant is told in an update, if it comes to that. -/
def accounted (start : List (NdArray ℝ)) (s : PrivateTrainer σ) (indices : List Nat) :
    Option (ℝ × FloatKind) :=
  let s := s.backwardPass torch backward start indices
  (s.beforeTracking torch getNoiseMultiplier normal (getGradientVector s.trainer.params)).bind
    fun (_, s) => s.mechanism.noiseMultiplier.map fun m => (m.1, kind s)

variable {torch backward getNoiseMultiplier normal gammaln kind} {start : List (NdArray ℝ)}
  {s s' : PrivateTrainer σ} {a a' : FloatAccountant} {indices : List Nat}

theorem applyDpNoise_eq (gradients : List ℝ) (s : PrivateTrainer σ) :
    s.applyDpNoise torch getNoiseMultiplier normal gradients =
      (s.beforeTracking torch getNoiseMultiplier normal gradients).bind fun (out, s) =>
        s.track.map fun s => (out, s) := by
  unfold applyDpNoise beforeTracking
  dsimp only
  cases (s.schedule torch getNoiseMultiplier gradients).mechanism.privatize torch.norm
    (normal · (s.schedule torch getNoiseMultiplier gradients).updates.length) gradients with
  | none => rfl
  | some r =>
    simp only [Option.bind_some]
    split <;> rfl

theorem update_eq (start : List (NdArray ℝ)) (s : PrivateTrainer σ) (indices : List Nat) :
    s.update torch backward getNoiseMultiplier normal start indices =
      let t := s.backwardPass torch backward start indices
      let gradients := getGradientVector t.trainer.params
      (t.beforeTracking torch getNoiseMultiplier normal gradients).bind fun (out, t) =>
        t.track.map fun t => t.afterTracking torch indices gradients out := by
  rw [update]
  dsimp only
  rw [applyDpNoise_eq, Option.map_bind]
  congr 1
  funext r
  rw [Function.comp, Option.map_map]
  rfl

theorem beforeTracking_keeps {gradients : List ℝ} {out : NoisyGradients}
    (h : s.beforeTracking torch getNoiseMultiplier normal gradients = some (out, s')) :
    s'.trainer.config = s.trainer.config ∧ s'.trainer.buffer = s.trainer.buffer := by
  obtain ⟨r, -, h⟩ := Option.bind_eq_some_iff.1 h
  dsimp only at h
  split_ifs at h
  obtain ⟨rfl, rfl⟩ := Prod.mk.inj (Option.some.inj h)
  unfold schedule
  split <;> exact ⟨rfl, rfl⟩

theorem accounted_of_floatUpdate
    (h : floatUpdate torch backward getNoiseMultiplier normal gammaln kind start (s, a) indices =
      some (s', a')) :
    s'.trainer.config = s.trainer.config ∧ s'.trainer.buffer = s.trainer.buffer ∧
      ∃ call, s.accounted torch backward getNoiseMultiplier normal kind start indices = some call ∧
        ∃ rate, s.sampleRate = some rate ∧
          a.step gammaln ⟨call.2, ofReal call.1, rate⟩ = (a', true) := by
  obtain ⟨⟨out, t⟩, hbefore, h⟩ := Option.bind_eq_some_iff.1 h
  obtain ⟨⟨t', a''⟩, htrack, heq⟩ := Option.map_eq_some_iff.1 h
  obtain ⟨rfl, rfl⟩ := Prod.mk.inj heq
  obtain ⟨⟨x, mechanism⟩, hread, htrack⟩ := Option.bind_eq_some_iff.1 htrack
  obtain ⟨rate, hrate, htrack⟩ := Option.bind_eq_some_iff.1 htrack
  dsimp only at htrack
  split_ifs at htrack with hreturns
  obtain ⟨rfl, rfl⟩ := Prod.mk.inj (Option.some.inj htrack)
  obtain ⟨hconfig, hbuffer⟩ := beforeTracking_keeps hbefore
  refine ⟨hconfig, hbuffer, (x, kind t), ?_, rate, ?_, Prod.ext rfl hreturns⟩
  · show Option.bind (beforeTracking ..) _ = _
    rw [hbefore, Option.bind_some]
    show t.mechanism.noiseMultiplier.map _ = _
    rw [hread, Option.map_some]
  · rw [sampleRate, hconfig, hbuffer] at hrate
    exact hrate

theorem beforeTracking_spec (torch : Torch ℝ) (normal : ℝ → Nat → (size : Nat) → Fin size → ℝ)
    (kind : PrivateTrainer σ → FloatKind) (hpos : s.PositiveMultipliers getNoiseMultiplier)
    {gradients : List ℝ} (hlen : gradients.length = gradNumel s.trainer.params) :
    let accounted := (s.beforeTracking torch getNoiseMultiplier normal gradients).bind fun (_, s) =>
      s.mechanism.noiseMultiplier.map fun m => (m.1, kind s)
    (0 ≤ s.mechanism.clipNorm → ∃ call, accounted = some call) ∧
      (s.mechanism.clipNorm < 0 → accounted = none) := by
  obtain ⟨mechanism, scheduler, hschedule, hclip, x, m, hread, hx, -⟩ :=
    schedule_spec torch hpos gradients
  obtain ⟨hagain, -⟩ := GaussianMechanism.noiseMultiplier_again hread
  unfold beforeTracking
  simp only [hschedule, GaussianMechanism.privatize_eq_some hread, hclip]
  constructor
  · intro hnonneg
    have hnoisy : (DPParams.privatize torch.norm
        (List.ofFn (normal (x * s.mechanism.clipNorm) s.updates.length gradients.length)) gradients
        ⟨s.mechanism.clipNorm⟩).length = gradNumel s.trainer.params :=
      (DPParams.length_privatize _ (List.length_ofFn ..)).trans hlen
    obtain ⟨hset, -⟩ := getGradientVector_setGradientVector hnoisy
    rw [if_neg (not_lt.2 (mul_nonneg hx.le hnonneg)), Option.bind_some]
    simp only [hset, if_true, Option.bind_some, hagain, Option.map_some]
    exact ⟨_, rfl⟩
  · intro hneg
    rw [if_pos (mul_neg_of_pos_of_neg hx hneg), Option.bind_none, Option.bind_none]

/-- It does not come to the accountant only where NumPy refuses the scale of the noise. -/
theorem accounted_spec (torch : Torch ℝ) (normal : ℝ → Nat → (size : Nat) → Fin size → ℝ)
    (kind : PrivateTrainer σ → FloatKind) (hshape : ShapedBackward backward)
    (hpos : s.PositiveMultipliers getNoiseMultiplier) (start : List (NdArray ℝ))
    (indices : List Nat) :
    (0 ≤ s.mechanism.clipNorm →
      ∃ call, s.accounted torch backward getNoiseMultiplier normal kind start indices = some call) ∧
      (s.mechanism.clipNorm < 0 →
        s.accounted torch backward getNoiseMultiplier normal kind start indices = none) :=
  beforeTracking_spec torch normal kind (s := s.backwardPass torch backward start indices) hpos
    (length_getGradientVector (shape_backwardPass hshape))

section Loop
variable (torch : Torch ℝ) (backward : Backward ℝ) (getNoiseMultiplier : Nat → ℝ → σ → ℝ × σ)
  (normal : ℝ → Nat → (size : Nat) → Fin size → ℝ) (gammaln : PyFloat → PyFloat)
  (kind : PrivateTrainer σ → FloatKind) (perms : List (List Nat)) (s : PrivateTrainer σ)
  (a : FloatAccountant)

/-- `cond` is true of all that the accountant is told along the loop of `train_step`. -/
def AlongAccounts (cond : FloatKind → PyFloat → Option PyFloat → Prop) : Prop :=
  Along (floatUpdate torch backward getNoiseMultiplier normal gammaln kind s.trainer.parameters)
    (fun s' indices => ∀ call, s'.1.accounted torch backward getNoiseMultiplier normal kind
      s.trainer.parameters indices = some call → cond call.2 (ofReal call.1) s'.1.sampleRate)
    (s, a) (perms.flatMap (minibatches s.trainer.config.batchSize))

/-- All along the loop of `train_step` the accounting is faultless. -/
def AccountingFaultless : Prop :=
  AlongAccounts torch backward getNoiseMultiplier normal gammaln kind perms s a (Faultless gammaln)

/-- All along the loop the noise multipliers can be divided by when they are squared. -/
def DivisibleMultipliers : Prop :=
  AlongAccounts torch backward getNoiseMultiplier normal gammaln kind perms s a
    fun kind multiplier _ => Divisible kind multiplier

end Loop

theorem batches_ne_nil {perms : List (List Nat)} (hperms : s.trainer.Shuffles perms)
    (hbatch : 1 ≤ s.trainer.config.batchSize) (hn : 1 ≤ s.trainer.buffer.observations.length)
    (hepochs : s.trainer.config.nEpochs ≠ 0) :
    perms.flatMap (minibatches s.trainer.config.batchSize) ≠ [] := by
  refine List.ne_nil_of_length_pos ?_
  rw [DistributedPPO.length_batches hperms]
  exact Nat.mul_pos (Nat.pos_of_ne_zero hepochs) (Nat.div_pos (by omega) hbatch)

theorem batches_eq_nil {perms : List (List Nat)} (hperms : s.trainer.Shuffles perms)
    (hepochs : s.trainer.config.nEpochs = 0) :
    perms.flatMap (minibatches s.trainer.config.batchSize) = [] := by
  refine List.length_eq_zero_iff.1 ?_
  rw [DistributedPPO.length_batches hperms, hepochs, Nat.zero_mul]

theorem sampleRate_of_run {before : List (List Nat)}
    {state : PrivateTrainer σ × FloatAccountant}
    (hrun : run (floatUpdate torch backward getNoiseMultiplier normal gammaln kind start) (s, a) before =
      some state) : state.1.sampleRate = s.sampleRate := by
  refine run_induction (motive := fun _ state => state.1.sampleRate = s.sampleRate) rfl
    (fun before t indices t' _ ih _ hstep => ?_) .unconditional hrun
  obtain ⟨hconfig, hbuffer, -⟩ := accounted_of_floatUpdate hstep
  rw [← ih, sampleRate, sampleRate, hconfig, hbuffer]

/-- If the noise cannot be drawn, not even the first update gets to the accountant. -/
theorem accounted_of_clipNorm_neg (torch : Torch ℝ)
    (normal : ℝ → Nat → (size : Nat) → Fin size → ℝ) (kind : PrivateTrainer σ → FloatKind)
    (hshape : ShapedBackward backward) (hpos : s.PositiveMultipliers getNoiseMultiplier)
    (hclip : s.mechanism.clipNorm < 0) {before : List (List Nat)}
    {state : PrivateTrainer σ × FloatAccountant}
    (hrun : run (floatUpdate torch backward getNoiseMultiplier normal gammaln kind start) (s, a) before =
      some state) :
    state.1.accounted torch backward getNoiseMultiplier normal kind start indices = none := by
  have hnone : ∀ indices,
      s.accounted torch backward getNoiseMultiplier normal kind start indices = none := fun indices =>
    (accounted_spec torch normal kind hshape hpos start indices).2 hclip
  cases before with
  | nil =>
    obtain rfl := Option.some.inj hrun
    exact hnone indices
  | cons first before =>
    rw [run_cons, Option.bind_eq_some_iff] at hrun
    obtain ⟨⟨s₁, a₁⟩, hupdate, -⟩ := hrun
    obtain ⟨-, -, call, hcall, -⟩ := accounted_of_floatUpdate hupdate
    cases (hnone first).symm.trans hcall

/-- The accounting of a `train_step` is faultless if and only if the quotient of a batch's and the
rollout's length is rounded to 1 at most and not to 0, and each noise multiplier has a square to
divide by, or it does not come to any accounting. -/
theorem accounting_faultless_iff (torch : Torch ℝ) (getNoiseMultiplier : Nat → ℝ → σ → ℝ × σ)
    (normal : ℝ → Nat → (size : Nat) → Fin size → ℝ) (gammaln : PyFloat → PyFloat)
    (kind : PrivateTrainer σ → FloatKind) (a : FloatAccountant) {perms : List (List Nat)}
    (hshape : ShapedBackward backward) (hperms : s.trainer.Shuffles perms)
    (hbatch : 1 ≤ s.trainer.config.batchSize) (hn : 1 ≤ s.trainer.buffer.observations.length)
    (hpos : s.PositiveMultipliers getNoiseMultiplier) :
    s.AccountingFaultless torch backward getNoiseMultiplier normal gammaln kind perms a ↔
      ((s.trainer.buffer.observations.length < s.trainer.config.batchSize * 2 ^ 1075 ∧
          s.trainer.config.batchSize * 2 ^ 53 ≤
            s.trainer.buffer.observations.length * (2 ^ 53 + 1)) ∧
        s.DivisibleMultipliers torch backward getNoiseMultiplier normal gammaln kind perms a) ∨
      s.trainer.config.nEpochs = 0 ∨ s.mechanism.clipNorm < 0 := by
  rw [← divNat_mem_Ioc_iff hbatch hn]
  constructor
  · intro h
    by_cases hnone : s.trainer.config.nEpochs = 0 ∨ s.mechanism.clipNorm < 0
    · exact .inr hnone
    obtain ⟨hepochs, hclip⟩ : s.trainer.config.nEpochs ≠ 0 ∧ 0 ≤ s.mechanism.clipNorm := by
      simpa only [not_or, not_lt] using hnone
    refine .inl ⟨?_, fun before indices after state heq hrun call hcall => ?_⟩
    · obtain ⟨indices, rest, hbatches⟩ :=
        List.exists_cons_of_ne_nil (batches_ne_nil hperms hbatch hn hepochs)
      obtain ⟨call, hcall⟩ :=
        (accounted_spec torch normal kind hshape hpos s.trainer.parameters indices).1 hclip
      exact (h [] indices rest (s, a) hbatches rfl call hcall).rate
    · exact (h before indices after state heq hrun call hcall).divisible
  · rintro (⟨hrate, hdivisible⟩ | hepochs | hclip) before indices after state heq hrun call hcall
    · rw [sampleRate_of_run hrun]
      exact (hdivisible before indices after state heq hrun call hcall).faultless hrate
    · rw [batches_eq_nil hperms hepochs] at heq
      simp at heq
    · rw [accounted_of_clipNorm_neg torch normal kind hshape hpos hclip hrun] at hcall
      cases hcall

/-- The trainer has a noise multiplier of its own, which no scheduler changes. -/
structure Fixed (x : ℝ) (s : PrivateTrainer σ) : Prop where
  override : s.mechanism.override = some x
  scheduler : s.scheduler = none

theorem Fixed.noiseMultiplier {x : ℝ} (h : s.Fixed x) :
    s.mechanism.noiseMultiplier = some (x, s.mechanism) := by
  rw [GaussianMechanism.noiseMultiplier, h.override]

theorem Fixed.beforeTracking {x : ℝ} (h : s.Fixed x) {gradients : List ℝ} {out : NoisyGradients}
    (hbefore : s.beforeTracking torch getNoiseMultiplier normal gradients = some (out, s')) :
    s'.Fixed x := by
  rw [PrivateTrainer.beforeTracking, schedule_of_none h.scheduler] at hbefore
  rw [GaussianMechanism.privatize_eq_some h.noiseMultiplier] at hbefore
  split at hbefore
  · cases hbefore
  · dsimp only [Option.bind_some] at hbefore
    split_ifs at hbefore
    obtain ⟨-, rfl⟩ := Prod.mk.inj (Option.some.inj hbefore)
    exact ⟨h.override, h.scheduler⟩

theorem Fixed.accounted {x : ℝ} (h : s.Fixed x) {call : ℝ × FloatKind}
    (hcall : s.accounted torch backward getNoiseMultiplier normal kind start indices = some call) :
    call.1 = x := by
  obtain ⟨⟨out, t⟩, hbefore, hcall⟩ := Option.bind_eq_some_iff.1 hcall
  have ht : t.Fixed x :=
    Fixed.beforeTracking (s := s.backwardPass torch backward start indices) ⟨h.override, h.scheduler⟩
      hbefore
  dsimp only at hcall
  rw [ht.noiseMultiplier, Option.map_some] at hcall
  exact congrArg Prod.fst (Option.some.inj hcall).symm

theorem Fixed.floatUpdate {x : ℝ} (h : s.Fixed x)
    (hupdate : floatUpdate torch backward getNoiseMultiplier normal gammaln kind start (s, a) indices =
      some (s', a')) : s'.Fixed x := by
  obtain ⟨⟨out, t⟩, hbefore, hupdate⟩ := Option.bind_eq_some_iff.1 hupdate
  have ht : t.Fixed x :=
    Fixed.beforeTracking (s := s.backwardPass torch backward start indices) ⟨h.override, h.scheduler⟩
      hbefore
  obtain ⟨⟨t', a''⟩, htrack, heq⟩ := Option.map_eq_some_iff.1 hupdate
  obtain ⟨rfl, rfl⟩ := Prod.mk.inj heq
  rw [trackFloat, ht.noiseMultiplier, Option.bind_some] at htrack
  obtain ⟨rate, -, htrack⟩ := Option.bind_eq_some_iff.1 htrack
  dsimp only at htrack
  split_ifs at htrack
  obtain ⟨rfl, -⟩ := Prod.mk.inj (Option.some.inj htrack)
  exact ⟨ht.override, ht.scheduler⟩

theorem Fixed.divisibleMultipliers {x : ℝ} (h : s.Fixed x) (hx : ∀ kind, Divisible kind (ofReal x))
    (perms : List (List Nat)) :
    s.DivisibleMultipliers torch backward getNoiseMultiplier normal gammaln kind perms a := by
  intro before indices after state _ hrun call hcall
  have hfixed : state.1.Fixed x := by
    refine run_induction (motive := fun _ state => state.1.Fixed x) h
      (fun before t indices t' _ ih _ hstep => ih.floatUpdate hstep) .unconditional hrun
  rw [hfixed.accounted hcall]
  exact hx call.2

section Example

theorem plainBackward_shaped : ShapedBackward plainBackward := by
  intro start current rollout indices i g d hg hd
  rw [Option.some.inj (hg.symm.trans hd)]

def roundedGammaln : PyFloat → PyFloat
  | finite x => ofReal (Support.gammaln x)
  | x => x

theorem one_divisible (kind : FloatKind) : Divisible kind (ofReal 1) := by
  have hone : ofReal 1 = finite ⟨1, inBinary64_one, one_lt_pow2⟩ :=
    ofReal_coe ⟨1, inBinary64_one, one_lt_pow2⟩
  rw [hone]
  have hpow : pow2 0 = 1 := by simp [pow2]
  have hgap : pow2 1024 = 2 * pow2 1023 := pow2_eq_two_mul (by norm_num)
  have hlow : pow2 0 < pow2 1023 := pow2_lt_pow2 (by norm_num)
  have hhigh : pow2 970 < pow2 1023 := pow2_lt_pow2 (by norm_num)
  refine ⟨fun y hy => ?_, fun _ y hy => ?_⟩
  · obtain rfl := PyFloat.finite.inj hy
    show pow2 (-1075) < 1 * 1
    rw [mul_one]
    exact (pow2_lt_pow2 (by norm_num)).trans_eq hpow
  · obtain rfl := PyFloat.finite.inj hy
    show (1 : ℝ) * 1 < _
    linarith

theorem twoEpochs_faultless :
    twoEpochs.AccountingFaultless plainTorch plainBackward (fun _ _ u => (1, u)) (fun _ _ _ _ => 0)
      roundedGammaln (fun _ => .python) [[2, 0, 1], [1, 2, 0]] .init := by
  have hfixed : twoEpochs.Fixed 1 := ⟨rfl, rfl⟩
  have hpos : twoEpochs.PositiveMultipliers fun _ _ u => (1, u) := ⟨1, _, rfl, zero_lt_one⟩
  have hlow : ∀ k, 1 ≤ k → twoEpochs.trainer.buffer.observations.length <
      twoEpochs.trainer.config.batchSize * 2 ^ k := by
    intro k hk
    have hpow : 2 ≤ 2 ^ k := Nat.le_self_pow (Nat.one_le_iff_ne_zero.1 hk) 2
    show 3 < 2 * 2 ^ k
    omega
  have hhigh : twoEpochs.trainer.config.batchSize * 2 ^ 53 ≤
      twoEpochs.trainer.buffer.observations.length * (2 ^ 53 + 1) := by
    show 2 * 2 ^ 53 ≤ 3 * (2 ^ 53 + 1)
    norm_num
  have hiff := accounting_faultless_iff plainTorch (fun _ _ u => (1, u)) (fun _ _ _ _ => 0)
    roundedGammaln (fun _ => .python) .init plainBackward_shaped
    (by decide : twoEpochs.trainer.Shuffles [[2, 0, 1], [1, 2, 0]]) (by decide) (by decide) hpos
  exact hiff.2 (.inl ⟨⟨hlow 1075 (by norm_num), hhigh⟩, hfixed.divisibleMultipliers one_divisible _⟩)

/-- One sample, in batches of two. -/
def shortRollout : PrivateTrainer Unit where
  trainer :=
    { config := { nEpochs := 1, batchSize := 2, maxGradNorm := 0 }
      params := [{ data := .ofList [1] }]
      buffer := { observations := [.empty] } }
  mechanism := { epsilon := 1, delta := 1, clipNorm := 1, override := some 1 }
  scheduler := none
  accountant := .init

theorem shortRollout_sampleRate :
    ∃ q : Binary64, shortRollout.sampleRate = some (finite q) ∧ (q : ℝ) = 2 := by
  obtain ⟨two, htwo, hval⟩ := ofNat_eq_finite (n := 2) (by norm_num)
  refine ⟨two, ?_, hval⟩
  refine divNat_eq (m := 2) (n := 1) le_rfl ?_
  rw [← htwo, Nat.cast_one, div_one]
  rfl

/-- The sample rate is 2, and the update raises. -/
theorem shortRollout_faults :
    (∃ call, ∃ q : Binary64, shortRollout.accounted plainTorch plainBackward (fun _ _ u => (1, u))
        (fun _ _ _ _ => 0) (fun _ => .python) shortRollout.trainer.parameters [0] = some call ∧
      shortRollout.sampleRate = some (finite q) ∧ (q : ℝ) = 2 ∧
      ∀ order : Binary64, 1 < (order : ℝ) →
        FloatAccountant.rdpAt roundedGammaln ⟨call.2, ofReal call.1, finite q⟩ (finite order) =
          none) ∧
    ¬ shortRollout.AccountingFaultless plainTorch plainBackward (fun _ _ u => (1, u))
      (fun _ _ _ _ => 0) roundedGammaln (fun _ => .python) [[0]] .init ∧
    run (floatUpdate plainTorch plainBackward (fun _ _ u => (1, u)) (fun _ _ _ _ => 0) roundedGammaln
      (fun _ => .python) shortRollout.trainer.parameters) (shortRollout, .init) [[0]] = none := by
  have hpos : shortRollout.PositiveMultipliers fun _ _ u => (1, u) := ⟨1, _, rfl, zero_lt_one⟩
  obtain ⟨call, hcall⟩ := (accounted_spec plainTorch (fun _ _ _ _ => 0) (fun _ => .python)
    plainBackward_shaped hpos shortRollout.trainer.parameters [0]).1 zero_le_one
  obtain ⟨q, hq, hval⟩ := shortRollout_sampleRate
  have hone : 1 < (q : ℝ) := hval ▸ one_lt_two
  refine ⟨⟨call, q, hcall, hq, hval, fun order => FloatAccountant.rdpAt_of_one_lt hone⟩,
    fun h => ?_, ?_⟩
  · obtain ⟨q', hq', -, hle⟩ := (h [] [0] [] (shortRollout, .init) rfl rfl call hcall).rate
    obtain rfl := PyFloat.finite.inj (Option.some.inj (hq.symm.trans hq'))
    exact hle.not_gt hone
  · rw [run_cons, Option.bind_eq_none_iff]
    rintro ⟨s', a'⟩ hupdate
    obtain ⟨-, -, call', -, rate, hrate, hstep⟩ := accounted_of_floatUpdate hupdate
    obtain rfl := Option.some.inj (hq.symm.trans hrate)
    obtain ⟨twelve, htwelve, hval'⟩ := ofNat_eq_finite (n := 12) (by norm_num)
    have hmem : ofNat 12 ∈ (FloatAccountant.init : FloatAccountant).orders :=
      List.mem_append_right _ (List.mem_map.2 ⟨12, by decide, rfl⟩)
    have hcost : FloatAccountant.rdpAt roundedGammaln ⟨call'.2, ofReal call'.1, finite q⟩
        (ofNat 12) = none := by
      rw [htwelve]
      exact FloatAccountant.rdpAt_of_one_lt hone (by rw [hval']; norm_num)
    have hnot := FloatAccountant.rdpAt_eq_none_iff.1 hcost
    rw [FloatAccountant.step_of_none (FloatAccountant.computeRdp_of_not_accepted hmem hnot)] at hstep
    cases hstep

end Example

end PrivateTrainer

end

end GossipRl
