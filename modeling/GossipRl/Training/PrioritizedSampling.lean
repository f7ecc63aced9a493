import GossipRl.Training.Redpanda
import GossipRl.Training.Replay
import Mathlib.Algebra.BigOperators.Ring.List
import Mathlib.Algebra.Order.BigOperators.Group.List
import Mathlib.Analysis.SpecialFunctions.Pow.Real
import Mathlib.Data.List.GetD

/-!
# Samples of a prioritized buffer (`PrioritizedExperienceBuffer.sample`)

What is sampled is drawn by the stored priorities, and weighted against them: `beta` grows with every
sample until it is one, and from then on the weight of an experience is inverse to its probability.
`power` is the `**` of NumPy. The numbers that are computed from the stored priorities are not
rounded.
-/

namespace GossipRl
open Support

/-- `np.random.choice(len(p), size=size, p=p, replace=False)`, at one state of the generator. -/
structure Choice (K : Type*) [Field K] [LinearOrder K] where
  draw : (size : Nat) → (p : List K) → Option (List Nat)
  length_eq : ∀ {size p indices}, draw size p = some indices → indices.length = size
  nodup : ∀ {size p indices}, draw size p = some indices → indices.Nodup
  pos : ∀ {size p indices}, draw size p = some indices → ∀ i ∈ indices, ∃ x, p[i]? = some x ∧ 0 < x
  /-- It raises for too few positive probabilities, and for what is not a distribution. -/
  returns : ∀ {size p}, (∀ x ∈ p, 0 ≤ x) → p.sum = 1 → size ≤ p.countP (0 < ·) →
    (draw size p).isSome

/-- Powers of positive numbers. -/
structure LawfulPower {K : Type*} [Field K] [LinearOrder K] (power : K → K → K) : Prop where
  pos : ∀ {x a}, 0 < x → 0 < power x a
  mono : ∀ {x y a}, 0 < x → x ≤ y → 0 ≤ a → power x a ≤ power y a
  neg : ∀ {x a}, 0 < x → power x (-a) = (power x a)⁻¹
  one : ∀ {x}, 0 < x → power x 1 = x

/-- What `sample` returns. -/
structure PrioritizedBatch (χ α K : Type*) where
  experiences : List (Experience χ α)
  indices : List Nat
  weights : List K

/-- A `PrioritizedExperienceBuffer` with the exponents that it samples by. -/
structure PrioritizedSampler (χ α K : Type*) (capacity : Nat) [Field K] where
  replay : PrioritizedExperienceBuffer χ α K capacity
  alpha : K := (6 : ℕ) / (10 : ℕ)
  beta : K := (4 : ℕ) / (10 : ℕ)
  betaIncrement : K := 1 / (1000 : ℕ)

inductive SamplerOp (χ α K : Type*) [Field K] [LinearOrder K] where
  | replay (op : ReplayOp χ α)
  | sample (choice : Choice K) (batchSize : Nat)

namespace PrioritizedSampler
variable {χ α K : Type*} {capacity : Nat} [Field K] [LinearOrder K] (power : K → K → K)

/-- `len(self.buffer)`. -/
def len (s : PrioritizedSampler χ α K capacity) : Nat := s.replay.buffer.items.length

/-- `self.priorities[:n] ** self.alpha`. -/
def scaled (s : PrioritizedSampler χ α K capacity) : List K :=
  ((List.ofFn s.replay.priorities).take s.len).map (power · s.alpha)

def probs (s : PrioritizedSampler χ α K capacity) : List K :=
  (s.scaled power).map (· / (s.scaled power).sum)

/-- `probs[i]`. -/
def prob (s : PrioritizedSampler χ α K capacity) (i : Nat) : K := (s.probs power).getD i 0

/-- `sample`; `none` is an exception, also that of `weights.max()` for an empty batch. -/
def sample (choice : Choice K) (batchSize : Nat) (s : PrioritizedSampler χ α K capacity) :
    Option (PrioritizedBatch χ α K × PrioritizedSampler χ α K capacity) :=
  (choice.draw batchSize (s.probs power)).bind fun indices =>
    (itemsAt s.replay.buffer indices).bind fun experiences =>
      let weights := indices.map fun i => power (s.len * s.prob power i) (-s.beta)
      weights.max?.map fun largest =>
        (⟨experiences, indices, weights.map (· / largest)⟩,
          { s with beta := min 1 (s.beta + s.betaIncrement) })

variable [LT α] [DecidableLT α] (store : α → K)

def step (s : PrioritizedSampler χ α K capacity) :
    SamplerOp χ α K → Option (PrioritizedSampler χ α K capacity)
  | .replay op => (s.replay.step store op).map fun replay => { s with replay := replay }
  | .sample choice batchSize => (s.sample power choice batchSize).map Prod.snd

end PrioritizedSampler

namespace SamplerOp
variable {χ α K : Type*} [Field K] [LinearOrder K]

def isSample : SamplerOp χ α K → Bool
  | .sample _ _ => true
  | .replay _ => false

/-- The priorities that are assigned are stored as positive numbers. -/
def Positive (store : α → K) : SamplerOp χ α K → Prop
  | .replay (.updatePriorities _ priorities) => ∀ p ∈ priorities, 0 < store p
  | _ => True

end SamplerOp

variable {capacity : Nat}

namespace PrioritizedExperienceBuffer
variable {χ α K : Type*} [Field K] [LinearOrder K] {store : α → K}
  {b b' : PrioritizedExperienceBuffer χ α K capacity}

/-- The experiences have priorities that are stored as positive numbers, and so will new ones. -/
structure Ready (store : α → K) (b : PrioritizedExperienceBuffer χ α K capacity) : Prop where
  maxPriority : 0 < store b.maxPriority
  priorities : ∀ i : Fin capacity, i.val < b.buffer.items.length → 0 < b.priorities i

namespace Ready

theorem create [One α] (h : 0 < store 1) :
    Ready store (.create capacity : PrioritizedExperienceBuffer χ α K capacity) :=
  ⟨h, fun _ hi => absurd hi (Nat.not_lt_zero _)⟩

theorem add {experience : Experience χ α} (h : b.Ready store)
    (hadd : b.add store experience = some b') : b'.Ready store := by
  obtain ⟨hpos, rfl⟩ := add_eq_some hadd
  refine ⟨h.maxPriority, fun i hi => ?_⟩
  rw [BoundedDeque.length_append hpos] at hi
  dsimp only
  by_cases hnew : i.val = if b.buffer.Full then capacity - 1 else b.buffer.items.length
  · rw [if_pos hnew]
    exact h.maxPriority
  · rw [if_neg hnew]
    refine h.priorities i ?_
    by_cases hfull : b.buffer.Full
    · rw [hfull]
      exact i.isLt
    · rw [if_neg hfull] at hi hnew
      omega

variable [LT α] [DecidableLT α]

theorem setPriority {update : Nat × α} (h : b.Ready store) (hpos : 0 < store update.2)
    (hset : b.setPriority store update = some b') : b'.Ready store := by
  obtain ⟨hlt, rfl⟩ := setPriority_eq_some hset
  constructor
  · rw [maxOf]
    split
    · exact hpos
    · exact h.maxPriority
  · intro i hi
    dsimp only
    rw [Function.update_apply]
    split
    · exact hpos
    · exact h.priorities i hi

theorem updatePriorities {indices : List Nat} {priorities : List α} (h : b.Ready store)
    (hpos : ∀ p ∈ priorities, 0 < store p)
    (hupdate : b.updatePriorities store indices priorities = some b') : b'.Ready store := by
  have hmem : ∀ es₁ update es₂, indices.zip priorities = es₁ ++ update :: es₂ →
      update.2 ∈ priorities := fun es₁ update es₂ heq =>
    (List.of_mem_zip (heq ▸ List.mem_append_cons_self : (update.1, update.2) ∈ _)).2
  exact run_induction (C := fun _ update => 0 < store update.2) (motive := fun _ b => b.Ready store) h
    (fun _ _ _ _ _ hb hp hset => hb.setPriority hp hset)
    (fun es₁ update es₂ _ heq _ => hpos _ (hmem es₁ update es₂ heq)) hupdate

end Ready

end PrioritizedExperienceBuffer

namespace PrioritizedSampler
variable {χ α K : Type*} [Field K] {power : K → K → K} {store : α → K}
  {s s' s₀ : PrioritizedSampler χ α K capacity}

theorem length_scaled : (s.scaled power).length = s.len := by
  simp [scaled, len, s.replay.buffer.length_le]

theorem length_probs : (s.probs power).length = s.len := by
  rw [probs, List.length_map, length_scaled]

theorem prob_eq {i : Fin capacity} (hi : i.val < s.len) : s.prob power i =
    power (s.replay.priorities i) s.alpha / (s.scaled power).sum := by
  rw [prob, List.getD_eq_getElem _ _ (by rwa [length_probs])]
  simp only [probs, List.getElem_map]
  congr 1
  simp [scaled]

/-- What `sample` weights the experience at a position with, before it divides by the largest. -/
def rawWeight (power : K → K → K) (s : PrioritizedSampler χ α K capacity) (i : Nat) : K :=
  power (s.len * s.prob power i) (-s.beta)

variable [LinearOrder K] {choice : Choice K} {batchSize : Nat}
  {batch : PrioritizedBatch χ α K}

theorem sample_eq_some (h : s.sample power choice batchSize = some (batch, s')) :
    choice.draw batchSize (s.probs power) = some batch.indices ∧
      itemsAt s.replay.buffer batch.indices = some batch.experiences ∧
      (∃ largest, (batch.indices.map (s.rawWeight power)).max? = some largest ∧
        batch.weights = batch.indices.map (s.rawWeight power · / largest)) ∧
      s' = { s with beta := min 1 (s.beta + s.betaIncrement) } := by
  obtain ⟨indices, hdraw, h⟩ := Option.bind_eq_some_iff.1 h
  obtain ⟨experiences, hitems, h⟩ := Option.bind_eq_some_iff.1 h
  obtain ⟨largest, hmax, h⟩ := Option.map_eq_some_iff.1 h
  obtain ⟨rfl, rfl⟩ := Prod.mk.inj h
  exact ⟨hdraw, hitems, ⟨largest, hmax, List.map_map⟩, rfl⟩

section
variable (hpower : LawfulPower power) (h : s.replay.Ready store)
include hpower h

theorem scaled_pos : ∀ x ∈ s.scaled power, 0 < x := by
  intro x hx
  obtain ⟨p, hp, rfl⟩ := List.mem_map.1 hx
  obtain ⟨j, hj, rfl⟩ := List.mem_take_iff_getElem.1 hp
  rw [List.length_ofFn] at hj
  rw [List.getElem_ofFn]
  have hlen : j < s.len := by omega
  exact hpower.pos (h.priorities ⟨j, by omega⟩ hlen)

variable [IsStrictOrderedRing K]

theorem sum_scaled_pos (hlen : 0 < s.len) : 0 < (s.scaled power).sum := by
  have hlength : (s.scaled power).length = s.len := length_scaled
  refine List.sum_pos _ (scaled_pos hpower h) fun hnil => ?_
  rw [← hlength, hnil] at hlen
  exact lt_irrefl _ hlen

theorem prob_pos {i : Nat} (hi : i < s.len) : 0 < s.prob power i := by
  have hcap : i < capacity := hi.trans_le s.replay.buffer.length_le
  rw [prob_eq (i := ⟨i, hcap⟩) hi]
  exact div_pos (hpower.pos (h.priorities _ hi)) (sum_scaled_pos hpower h (by omega))

theorem probs_pos : ∀ x ∈ s.probs power, 0 < x := by
  intro x hx
  obtain ⟨i, hi, rfl⟩ := List.mem_iff_getElem.1 hx
  have hpos := prob_pos hpower h (hi.trans_eq length_probs)
  rwa [prob, List.getD_eq_getElem _ _ hi] at hpos

theorem sum_probs (hlen : 0 < s.len) : (s.probs power).sum = 1 := by
  simp only [probs, div_eq_mul_inv]
  rw [List.sum_map_mul_right, List.map_id']
  exact mul_inv_cancel₀ (sum_scaled_pos hpower h hlen).ne'

end

theorem lt_len_of_draw {indices : List Nat}
    (h : choice.draw batchSize (s.probs power) = some indices) : ∀ i ∈ indices, i < s.len := by
  intro i hi
  obtain ⟨x, hx, -⟩ := choice.pos h i hi
  exact (List.getElem?_eq_some_iff.1 hx).1.trans_eq length_probs

/-- A batch is sampled exactly if it is neither empty nor larger than the buffer. -/
theorem sample_isSome_iff [IsStrictOrderedRing K] (hpower : LawfulPower power) (h : s.replay.Ready store) :
    (s.sample power choice batchSize).isSome ↔ 0 < batchSize ∧ batchSize ≤ s.len := by
  constructor
  · intro hsome
    obtain ⟨⟨batch, s'⟩, hsample⟩ := Option.isSome_iff_exists.1 hsome
    obtain ⟨hdraw, -, ⟨largest, hmax, -⟩, -⟩ := sample_eq_some hsample
    rw [← choice.length_eq hdraw]
    constructor
    · refine List.length_pos_iff.2 fun hnil => ?_
      rw [hnil] at hmax
      cases hmax
    · have hsub : batch.indices ⊆ List.range s.len := fun i hi =>
        List.mem_range.2 (lt_len_of_draw hdraw i hi)
      have hle := ((choice.nodup hdraw).subperm hsub).length_le
      rwa [List.length_range] at hle
  · rintro ⟨hpos, hle⟩
    have hcount : (s.probs power).countP (0 < ·) = s.len := by
      rw [List.countP_eq_length.2 (by simpa using probs_pos hpower h), length_probs]
    have hdrawn : (choice.draw batchSize (s.probs power)).isSome :=
      choice.returns (fun x hx => (probs_pos hpower h x hx).le) (sum_probs hpower h (by omega))
        (by rw [hcount]; exact hle)
    obtain ⟨indices, hdraw⟩ := Option.isSome_iff_exists.1 hdrawn
    obtain ⟨items, hitems, -⟩ := itemsAt_eq_some (lt_len_of_draw hdraw)
    have hne : indices.map (s.rawWeight power) ≠ [] := by
      refine fun hnil => hpos.ne' ?_
      rw [← choice.length_eq hdraw, List.map_eq_nil_iff.1 hnil, List.length_nil]
    obtain ⟨largest, hmax⟩ := Option.isSome_iff_exists.1 (List.isSome_max?_of_ne_nil hne)
    rw [sample, hdraw, Option.bind_some, hitems, Option.bind_some, Option.isSome_map]
    exact Option.isSome_iff_exists.2 ⟨largest, hmax⟩

/-! ### Weights -/

section
variable [IsStrictOrderedRing K] {i j : Nat} (hpower : LawfulPower power)
  (h : s.replay.Ready store)
include hpower h

theorem len_mul_prob_pos (hi : i < s.len) : 0 < s.len * s.prob power i :=
  mul_pos (Nat.cast_pos.2 (by omega)) (prob_pos hpower h hi)

theorem rawWeight_pos (hi : i < s.len) : 0 < s.rawWeight power i :=
  hpower.pos (len_mul_prob_pos hpower h hi)

theorem prob_le_prob (halpha : 0 ≤ s.alpha) {i j : Fin capacity} (hi : i.val < s.len)
    (hj : j.val < s.len) (hle : s.replay.priorities i ≤ s.replay.priorities j) :
    s.prob power i ≤ s.prob power j := by
  rw [prob_eq hi, prob_eq hj]
  exact div_le_div_of_nonneg_right (hpower.mono (h.priorities i hi) hle halpha)
    (sum_scaled_pos hpower h (by omega)).le

theorem rawWeight_anti (hbeta : 0 ≤ s.beta) (hi : i < s.len) (hj : j < s.len)
    (hle : s.prob power i ≤ s.prob power j) : s.rawWeight power j ≤ s.rawWeight power i := by
  have hx := len_mul_prob_pos hpower h hi
  have hmono := hpower.mono hx (mul_le_mul_of_nonneg_left hle (Nat.cast_nonneg s.len)) hbeta
  rw [rawWeight, rawWeight, hpower.neg hx, hpower.neg (len_mul_prob_pos hpower h hj)]
  exact inv_anti₀ (hpower.pos hx) hmono

/-- For `beta` one, the probability and the weight multiply to the same number everywhere. -/
theorem prob_mul_rawWeight (hbeta : s.beta = 1) (hi : i < s.len) :
    s.prob power i * s.rawWeight power i = (s.len : K)⁻¹ := by
  have hx := len_mul_prob_pos hpower h hi
  rw [rawWeight, hbeta, hpower.neg hx, hpower.one hx, mul_inv, mul_left_comm,
    mul_inv_cancel₀ (prob_pos hpower h hi).ne', mul_one]

end

/-! ### Runs -/

section
variable [LT α] [DecidableLT α] {op : SamplerOp χ α K} {ops : List (SamplerOp χ α K)}

theorem step_eq_some (h : s.step power store op = some s') :
    (∃ replayOp replay, op = .replay replayOp ∧ s.replay.step store replayOp = some replay ∧
      s' = { s with replay := replay }) ∨
    (∃ choice batchSize, op = .sample choice batchSize ∧
      s' = { s with beta := min 1 (s.beta + s.betaIncrement) }) := by
  cases op with
  | replay replayOp =>
    obtain ⟨replay, hreplay, rfl⟩ := Option.map_eq_some_iff.1 h
    exact .inl ⟨replayOp, replay, rfl, hreplay, rfl⟩
  | sample choice batchSize =>
    obtain ⟨⟨batch, s₁⟩, hsample, rfl⟩ := Option.map_eq_some_iff.1 h
    exact .inr ⟨choice, batchSize, rfl, (sample_eq_some hsample).2.2.2⟩

theorem ready_step (h : s.replay.Ready store) (hop : op.Positive store)
    (hs : s.step power store op = some s') : s'.replay.Ready store := by
  obtain ⟨replayOp, replay, rfl, hreplay, rfl⟩ | ⟨choice, batchSize, rfl, rfl⟩ := step_eq_some hs
  · cases replayOp with
    | add experience => exact h.add hreplay
    | updatePriorities indices priorities => exact h.updatePriorities hop hreplay
    | clear =>
      obtain rfl := Option.some.inj hreplay
      exact ⟨h.maxPriority, fun i hi => absurd hi (Nat.not_lt_zero _)⟩
  · exact h

theorem ready_run [One α] (hstore : 0 < store 1) (hstart : s₀.replay = .create capacity)
    (hassigned : ∀ op ∈ ops, op.Positive store) (hrun : run (step power store) s₀ ops = some s) :
    s.replay.Ready store :=
  run_induction (C := fun _ op => op.Positive store) (motive := fun _ s => s.replay.Ready store)
    (hstart ▸ .create hstore) (fun _ _ _ _ _ hs hop hstep => ready_step hs hop hstep)
    (fun _ op _ _ heq _ => hassigned op (by simp [heq])) hrun

variable [IsStrictOrderedRing K]

theorem beta_run (hbeta : s₀.beta ≤ 1) (hincrement : 0 ≤ s₀.betaIncrement)
    (hrun : run (step power store) s₀ ops = some s) :
    s.alpha = s₀.alpha ∧ s.betaIncrement = s₀.betaIncrement ∧
      s.beta = min 1 (s₀.beta + ops.countP SamplerOp.isSample * s₀.betaIncrement) := by
  refine run_induction (C := fun _ _ => True)
    (motive := fun ops s => s.alpha = s₀.alpha ∧ s.betaIncrement = s₀.betaIncrement ∧
      s.beta = min 1 (s₀.beta + ops.countP SamplerOp.isSample * s₀.betaIncrement))
    ⟨rfl, rfl, by simp [hbeta]⟩ ?_ .unconditional hrun
  rintro ops s op s' - ⟨halpha, hinc, hs⟩ - hstep
  rw [List.countP_append]
  obtain ⟨replayOp, replay, rfl, -, rfl⟩ | ⟨choice, batchSize, rfl, rfl⟩ := step_eq_some hstep
  · exact ⟨halpha, hinc, by simpa [SamplerOp.isSample] using hs⟩
  · refine ⟨halpha, hinc, ?_⟩
    simp only [hs, hinc, List.countP_singleton, SamplerOp.isSample, if_true, Nat.cast_add,
      Nat.cast_one, add_mul, one_mul, ← add_assoc]
    rcases le_total (s₀.beta + ops.countP SamplerOp.isSample * s₀.betaIncrement) 1 with hle | hle
    · rw [min_eq_right hle]
    · rw [min_eq_left hle, min_eq_left (by linarith), min_eq_left (by linarith)]

variable [One α]

/-- In every state that is reached, a batch can be sampled exactly if it is neither empty nor larger
than the buffer, and it consists of the experiences at different positions of the buffer. -/
theorem sample_returns_iff (hpower : LawfulPower power) (hstore : 0 < store 1)
    (hstart : s₀.replay = .create capacity) (hassigned : ∀ op ∈ ops, op.Positive store)
    (hrun : run (step power store) s₀ ops = some s) (choice : Choice K) (batchSize : Nat) :
    ((s.sample power choice batchSize).isSome ↔
      0 < batchSize ∧ batchSize ≤ s.replay.buffer.items.length) ∧
    ∀ batch s', s.sample power choice batchSize = some (batch, s') →
      batch.indices.Nodup ∧ batch.indices.length = batchSize ∧
      batch.indices.map (s.replay.buffer.items[·]?) = batch.experiences.map some := by
  have hready := ready_run hstore hstart hassigned hrun
  refine ⟨sample_isSome_iff hpower hready, fun batch s' hsample => ?_⟩
  obtain ⟨hdraw, hitems, -, -⟩ := sample_eq_some hsample
  exact ⟨choice.nodup hdraw, choice.length_eq hdraw, itemsAt_eq_some_iff.1 hitems⟩

/-- An empty buffer, with exponents that can be annealed. -/
structure Initial (s₀ : PrioritizedSampler χ α K capacity) : Prop where
  replay : s₀.replay = .create capacity
  alpha : 0 ≤ s₀.alpha
  beta : 0 ≤ s₀.beta
  beta_le : s₀.beta ≤ 1
  betaIncrement : 0 ≤ s₀.betaIncrement

/-- Weights are at most one, and one of them is; of two experiences the one with the larger priority
weighs no more. Once `beta` has grown to one, the weight and the probability of an experience multiply
to the same number for the whole batch. -/
theorem sampled_weights (hpower : LawfulPower power) (hstore : 0 < store 1) (hinit : s₀.Initial)
    (hassigned : ∀ op ∈ ops, op.Positive store) (hrun : run (step power store) s₀ ops = some s)
    (hsample : s.sample power choice batchSize = some (batch, s')) :
    (∀ w ∈ batch.weights, 0 < w ∧ w ≤ 1) ∧ 1 ∈ batch.weights ∧
    ∀ (i j : Fin capacity) (w v : K), (i.val, w) ∈ batch.indices.zip batch.weights →
      (j.val, v) ∈ batch.indices.zip batch.weights →
      (s.replay.priorities i ≤ s.replay.priorities j → v ≤ w) ∧
      (1 ≤ s₀.beta + ops.countP SamplerOp.isSample * s₀.betaIncrement →
        s.prob power i * w = s.prob power j * v) := by
  have hready := ready_run hstore hinit.replay hassigned hrun
  obtain ⟨halpha, -, hbeta⟩ := beta_run hinit.beta_le hinit.betaIncrement hrun
  obtain ⟨hdraw, -, ⟨largest, hmax, hweights⟩, -⟩ := sample_eq_some hsample
  have hlt := lt_len_of_draw hdraw
  obtain ⟨hmem, hle⟩ := List.max?_eq_some_iff.1 hmax
  obtain ⟨k, hk, hlargest⟩ := List.mem_map.1 hmem
  have hpos : 0 < largest := hlargest ▸ rawWeight_pos hpower hready (hlt k hk)
  have hzip : ∀ i w, (i, w) ∈ batch.indices.zip batch.weights →
      i < s.len ∧ w = s.rawWeight power i / largest := by
    intro i w hiw
    rw [hweights, ← List.map_prod_left_eq_zip] at hiw
    obtain ⟨i', hi', heq⟩ := List.mem_map.1 hiw
    obtain ⟨rfl, rfl⟩ := Prod.mk.inj heq
    exact ⟨hlt i' hi', rfl⟩
  refine ⟨fun w hw => ?_, ?_, fun i j w v hiw hjv => ?_⟩
  · rw [hweights] at hw
    obtain ⟨i, hi, rfl⟩ := List.mem_map.1 hw
    exact ⟨div_pos (rawWeight_pos hpower hready (hlt i hi)) hpos,
      (div_le_one hpos).2 (hle _ (List.mem_map_of_mem hi))⟩
  · rw [hweights, List.mem_map]
    exact ⟨k, hk, by rw [hlargest, div_self hpos.ne']⟩
  · obtain ⟨hi, rfl⟩ := hzip _ _ hiw
    obtain ⟨hj, rfl⟩ := hzip _ _ hjv
    constructor
    · intro hpriority
      have hnonneg : 0 ≤ s.beta := by
        rw [hbeta]
        exact le_min zero_le_one (add_nonneg hinit.beta
          (mul_nonneg (Nat.cast_nonneg _) hinit.betaIncrement))
      have hprob := prob_le_prob hpower hready (halpha ▸ hinit.alpha) hi hj hpriority
      exact div_le_div_of_nonneg_right (rawWeight_anti hpower hready hnonneg hi hj hprob) hpos.le
    · intro hannealed
      have hone : s.beta = 1 := by rw [hbeta, min_eq_left hannealed]
      rw [← mul_div_assoc, ← mul_div_assoc, prob_mul_rawWeight hpower hready hone hi,
        prob_mul_rawWeight hpower hready hone hj]

end

section Example

theorem length_filter_range (l : List K) :
    ((List.range l.length).filter fun i => 0 < l.getD i 0).length = l.countP (0 < ·) := by
  have hl : (List.range l.length).map (l.getD · 0) = l := by
    refine List.ext_getElem (by simp) fun i hi hi' => ?_
    rw [List.getElem_map, List.getElem_range, List.getD_eq_getElem _ _ hi']
  rw [← List.countP_eq_length_filter]
  conv_rhs => rw [← hl, List.countP_map]
  rfl

/-- The first positions that have a positive probability. -/
def firsts : Choice K where
  draw size p :=
    if size ≤ p.countP (0 < ·) then
      some (((List.range p.length).filter fun i => 0 < p.getD i 0).take size)
    else none
  length_eq h := by
    obtain ⟨hle, hsome⟩ := Option.ite_none_right_eq_some.1 h
    obtain rfl := Option.some.inj hsome
    rw [List.length_take, length_filter_range, min_eq_left hle]
  nodup h := by
    obtain ⟨-, hsome⟩ := Option.ite_none_right_eq_some.1 h
    obtain rfl := Option.some.inj hsome
    exact (List.nodup_range.filter _).sublist (List.take_sublist ..)
  pos h i hi := by
    obtain ⟨-, hsome⟩ := Option.ite_none_right_eq_some.1 h
    obtain rfl := Option.some.inj hsome
    obtain ⟨hrange, hpos⟩ := List.mem_filter.1 (List.mem_of_mem_take hi)
    have hlt := List.mem_range.1 hrange
    rw [List.getD_eq_getElem _ _ hlt, decide_eq_true_iff] at hpos
    exact ⟨_, List.getElem?_eq_getElem hlt, hpos⟩
  returns _ _ h := by
    rw [if_pos h]
    rfl

theorem lawfulPower_rpow : LawfulPower fun x a : ℝ => x ^ a where
  pos hx := Real.rpow_pos_of_pos hx _
  mono hx hle ha := Real.rpow_le_rpow hx.le hle ha
  neg hx := Real.rpow_neg hx.le _
  one _ := Real.rpow_one _

def twoAdded : List (SamplerOp Nat ℝ ℝ) :=
  [.replay (.add ⟨0, 0⟩), .replay (.add ⟨1, 0⟩), .replay (.updatePriorities [0] [((3 : ℕ) : ℝ)])]

theorem positive_twoAdded : ∀ op ∈ twoAdded, op.Positive (id : ℝ → ℝ) := by
  simp [twoAdded, SamplerOp.Positive]

theorem sample_returns_iff_two : ∃ s, run (step (fun x a : ℝ => x ^ a) id)
      ({ replay := .create 2 } : PrioritizedSampler Nat ℝ ℝ 2) twoAdded = some s ∧
    (s.sample (fun x a : ℝ => x ^ a) firsts 2).isSome ∧
    ¬ (s.sample (fun x a : ℝ => x ^ a) firsts 3).isSome := by
  obtain ⟨s, hrun⟩ : ∃ s, run (step (fun x a : ℝ => x ^ a) id)
    ({ replay := .create 2 } : PrioritizedSampler Nat ℝ ℝ 2) twoAdded = some s := ⟨_, rfl⟩
  have hlen : s.replay.buffer.items.length = 2 := by
    obtain rfl := Option.some.inj hrun
    rfl
  have hsample := fun batchSize => (sample_returns_iff lawfulPower_rpow
    (by norm_num : (0 : ℝ) < id 1) rfl positive_twoAdded hrun firsts batchSize).1
  simp only [hlen] at hsample
  exact ⟨s, hrun, (hsample 2).2 (by decide), fun h => absurd ((hsample 3).1 h) (by decide)⟩

theorem sampled_weights_two : ∃ s batch s', run (step (fun x a : ℝ => x ^ a) id)
      ({ replay := .create 2 } : PrioritizedSampler Nat ℝ ℝ 2) twoAdded = some s ∧
    s.sample (fun x a : ℝ => x ^ a) firsts 2 = some (batch, s') ∧
    (∀ w ∈ batch.weights, 0 < w ∧ w ≤ 1) ∧ 1 ∈ batch.weights := by
  obtain ⟨s, hrun⟩ : ∃ s, run (step (fun x a : ℝ => x ^ a) id)
    ({ replay := .create 2 } : PrioritizedSampler Nat ℝ ℝ 2) twoAdded = some s := ⟨_, rfl⟩
  have hstore : (0 : ℝ) < id 1 := one_pos
  have hinit : ({ replay := .create 2 } : PrioritizedSampler Nat ℝ ℝ 2).Initial :=
    ⟨rfl, by positivity, by positivity, by norm_num, by positivity⟩
  have hlen : s.len = 2 := by
    obtain rfl := Option.some.inj hrun
    rfl
  have hready := ready_run hstore rfl positive_twoAdded hrun
  have hsome : (s.sample (fun x a : ℝ => x ^ a) firsts 2).isSome :=
    (sample_isSome_iff lawfulPower_rpow hready).2 ⟨Nat.two_pos, hlen.ge⟩
  obtain ⟨⟨batch, s'⟩, hsample⟩ := Option.isSome_iff_exists.1 hsome
  obtain ⟨hweights, hone, -⟩ :=
    sampled_weights lawfulPower_rpow hstore hinit positive_twoAdded hrun hsample
  exact ⟨s, batch, s', hrun, hsample, hweights, hone⟩

end Example

end PrioritizedSampler

end GossipRl
