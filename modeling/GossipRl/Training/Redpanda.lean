import GossipRl.Support.BoundedDeque
import Mathlib.Data.Nat.Notation

/-!
# Samples of local and received experiences (`RedpandaReplayBuffer.sample`)

Half of a batch is to be local, the rest received. A source with too few experiences for its share is
left out: the other makes up for it only if that is the local one, and only if what was received
suffices for the whole batch. The buffers are what `add` and the consumer have put there; Kafka is
left out.
-/

namespace GossipRl
open Support

/-- What a random generator draws below a bound, number by number. -/
abbrev Draws := ∀ high : ℕ, 0 < high → ℕ → Fin high

/-- `np.random.randint(0, high, size=size)`, which raises for an empty range unless nothing is
drawn. -/
def randint (draws : Draws) (high size : Nat) : Option (List Nat) :=
  if size = 0 then some []
  else if h : 0 < high then some ((List.range size).map fun i => (draws high h i).val)
  else none

structure ExperienceBuffer (χ : Type*) (capacity : Nat) where
  buffer : BoundedDeque χ capacity

/-- `[buffer[i] for i in indices]`. -/
def itemsAt {χ : Type*} {capacity : Nat} (buffer : BoundedDeque χ capacity) (indices : List Nat) :
    Option (List χ) :=
  indices.mapM fun i => buffer.items[i]?

def ExperienceBuffer.sample {χ : Type*} {capacity : Nat} (draws : Draws) (batchSize : Nat)
    (b : ExperienceBuffer χ capacity) : Option (List χ) :=
  (randint draws b.buffer.items.length batchSize).bind (itemsAt b.buffer)

structure RedpandaReplayBuffer (χ : Type*) (localBufferSize : Nat) where
  localBuffer : ExperienceBuffer χ localBufferSize
  receivedBuffer : BoundedDeque χ localBufferSize

namespace RedpandaReplayBuffer
variable {χ : Type*} {localBufferSize : Nat}

/-- `len(self.local_buffer)`. -/
def localLen (b : RedpandaReplayBuffer χ localBufferSize) : Nat := b.localBuffer.buffer.items.length

def receivedLen (b : RedpandaReplayBuffer χ localBufferSize) : Nat := b.receivedBuffer.items.length

/-- The first part of `sample`. -/
def sampleLocal (draws : Draws) (batchSize : Nat) (includeRemote : Bool)
    (b : RedpandaReplayBuffer χ localBufferSize) : Option (List χ) :=
  let localCount := if includeRemote ∧ b.receivedLen ≠ 0 then batchSize / 2 else batchSize
  if b.localLen ≥ localCount then b.localBuffer.sample draws localCount else some []

/-- The second part, after `localSamples`. -/
def sampleReceived (draws : Draws) (batchSize : Nat) (includeRemote : Bool) (localSamples : List χ)
    (b : RedpandaReplayBuffer χ localBufferSize) : Option (List χ) :=
  if includeRemote ∧ b.receivedLen ≠ 0 then
    let remoteCount := batchSize - localSamples.length
    if b.receivedLen ≥ remoteCount then
      (randint draws b.receivedLen remoteCount).bind (itemsAt b.receivedBuffer)
    else some []
  else some []

/-- `draws` and `draws'` are the random numbers of the two parts. -/
def sample (draws draws' : Draws) (batchSize : Nat) (b : RedpandaReplayBuffer χ localBufferSize)
    (includeRemote : Bool := true) : Option (List χ) := do
  let localSamples ← b.sampleLocal draws batchSize includeRemote
  let remoteSamples ← b.sampleReceived draws' batchSize includeRemote localSamples
  some (localSamples ++ remoteSamples)

end RedpandaReplayBuffer

variable {χ : Type*} {capacity : Nat} {size : Nat}

theorem randint_eq_some {high : Nat} (draws : Draws) (h : size ≤ high) :
    ∃ indices, randint draws high size = some indices ∧ indices.length = size ∧
      ∀ i ∈ indices, i < high := by
  unfold randint
  split
  · rename_i hzero
    exact ⟨[], rfl, hzero.symm, by simp⟩
  · rename_i hne
    have hpos : 0 < high := by omega
    rw [dif_pos hpos]
    refine ⟨_, rfl, by simp, fun i hi => ?_⟩
    obtain ⟨k, -, rfl⟩ := List.mem_map.1 hi
    exact (draws high hpos k).isLt

theorem mapM_eq_some_iff {β γ : Type*} {f : β → Option γ} {l : List β} {l' : List γ} :
    l.mapM f = some l' ↔ l.map f = l'.map some := by
  induction l generalizing l' with
  | nil => cases l' <;> simp
  | cons a l ih =>
    rw [List.mapM_cons, List.map_cons]
    cases l' with
    | nil => simp [Option.bind_eq_some_iff]
    | cons b l' => simp [Option.bind_eq_some_iff, ih]

theorem itemsAt_eq_some_iff {buffer : BoundedDeque χ capacity} {indices : List Nat}
    {items : List χ} : itemsAt buffer indices = some items ↔
      indices.map (buffer.items[·]?) = items.map some := mapM_eq_some_iff

theorem itemsAt_eq_some {buffer : BoundedDeque χ capacity} {indices : List Nat}
    (h : ∀ i ∈ indices, i < buffer.items.length) : ∃ items, itemsAt buffer indices = some items ∧
      items.length = indices.length ∧ ∀ x ∈ items, x ∈ buffer.items := by
  induction indices with
  | nil => exact ⟨[], rfl, rfl, by simp⟩
  | cons i indices ih =>
    obtain ⟨items, hitems, hlen, hmem⟩ := ih fun j hj => h j (List.mem_cons_of_mem i hj)
    have hi := h i (List.mem_cons_self ..)
    refine ⟨buffer.items[i] :: items, ?_, by simp [hlen], fun x hx => ?_⟩
    · unfold itemsAt at hitems ⊢
      simp [List.mapM_cons, List.getElem?_eq_getElem hi, hitems]
    · rcases List.mem_cons.1 hx with rfl | hx
      · exact List.getElem_mem hi
      · exact hmem x hx

theorem drawn_eq_some {buffer : BoundedDeque χ capacity} (draws : Draws)
    (h : size ≤ buffer.items.length) :
    ∃ items, (randint draws buffer.items.length size).bind (itemsAt buffer) = some items ∧
      items.length = size ∧ ∀ x ∈ items, x ∈ buffer.items := by
  obtain ⟨indices, hindices, hlen, hlt⟩ := randint_eq_some draws h
  obtain ⟨items, hitems, hlen', hmem⟩ := itemsAt_eq_some hlt
  exact ⟨items, by rw [hindices, Option.bind_some, hitems], hlen'.trans hlen, hmem⟩

namespace RedpandaReplayBuffer
variable {localBufferSize : Nat} {b : RedpandaReplayBuffer χ localBufferSize} {batchSize : Nat}
  {draws draws' : Draws}

/-- The sample is drawn, and is a whole batch of the two buffers if they have enough between them. -/
def Serves (draws draws' : Draws) (batchSize : Nat) (b : RedpandaReplayBuffer χ localBufferSize) :
    Prop :=
  ∃ samples, b.sample draws draws' batchSize = some samples ∧
    (batchSize ≤ b.localLen + b.receivedLen → samples.length = batchSize ∧
      ∀ x ∈ samples, x ∈ b.localBuffer.buffer.items ∨ x ∈ b.receivedBuffer.items)

/-- How many local samples there are. -/
def localShare (batchSize : Nat) (b : RedpandaReplayBuffer χ localBufferSize) : Nat :=
  let localCount := if b.receivedLen ≠ 0 then batchSize / 2 else batchSize
  if b.localLen ≥ localCount then localCount else 0

/-- How many received samples there are. -/
def remoteShare (batchSize : Nat) (b : RedpandaReplayBuffer χ localBufferSize) : Nat :=
  if b.receivedLen ≠ 0 ∧ b.receivedLen ≥ batchSize - b.localShare batchSize then
    batchSize - b.localShare batchSize
  else 0

theorem localShare_of_eq_zero (h : b.receivedLen = 0) :
    b.localShare batchSize = if b.localLen ≥ batchSize then batchSize else 0 := by
  simp [localShare, h]

theorem localShare_of_pos (h : 0 < b.receivedLen) :
    b.localShare batchSize = if b.localLen ≥ batchSize / 2 then batchSize / 2 else 0 := by
  simp [localShare, Nat.ne_of_gt h]

theorem remoteShare_of_eq_zero (h : b.receivedLen = 0) : b.remoteShare batchSize = 0 := by
  simp [remoteShare, h]

theorem remoteShare_of_pos (h : 0 < b.receivedLen) : b.remoteShare batchSize =
    if b.receivedLen ≥ batchSize - b.localShare batchSize then
      batchSize - b.localShare batchSize
    else 0 := by
  simp [remoteShare, Nat.ne_of_gt h]

theorem sampleLocal_eq_some (draws : Draws) (batchSize : Nat)
    (b : RedpandaReplayBuffer χ localBufferSize) : ∃ localSamples,
      b.sampleLocal draws batchSize true = some localSamples ∧
      localSamples.length = b.localShare batchSize ∧
      ∀ x ∈ localSamples, x ∈ b.localBuffer.buffer.items := by
  unfold sampleLocal localShare
  simp only [true_and]
  generalize (if b.receivedLen ≠ 0 then batchSize / 2 else batchSize) = localCount
  by_cases hle : b.localLen ≥ localCount
  · rw [if_pos hle, if_pos hle]
    exact drawn_eq_some draws hle
  · rw [if_neg hle, if_neg hle]
    exact ⟨[], rfl, rfl, by simp⟩

theorem sampleReceived_eq_some {localSamples : List χ} (draws : Draws)
    (hlen : localSamples.length = b.localShare batchSize) : ∃ remoteSamples,
      b.sampleReceived draws batchSize true localSamples = some remoteSamples ∧
      remoteSamples.length = b.remoteShare batchSize ∧
      ∀ x ∈ remoteSamples, x ∈ b.receivedBuffer.items := by
  unfold sampleReceived remoteShare
  simp only [true_and, hlen]
  by_cases hne : b.receivedLen ≠ 0
  · by_cases hle : b.receivedLen ≥ batchSize - b.localShare batchSize
    · rw [if_pos hne, if_pos hle, if_pos ⟨hne, hle⟩]
      exact drawn_eq_some draws hle
    · rw [if_pos hne, if_neg hle, if_neg fun h => hle h.2]
      exact ⟨[], rfl, rfl, by simp⟩
  · rw [if_neg hne, if_neg fun h => hne h.1]
    exact ⟨[], rfl, rfl, by simp⟩

theorem sample_eq_some (draws draws' : Draws) (batchSize : Nat)
    (b : RedpandaReplayBuffer χ localBufferSize) : ∃ samples,
      b.sample draws draws' batchSize = some samples ∧
      samples.length = b.localShare batchSize + b.remoteShare batchSize ∧
      ∀ x ∈ samples, x ∈ b.localBuffer.buffer.items ∨ x ∈ b.receivedBuffer.items := by
  obtain ⟨localSamples, hlocal, hllen, hlmem⟩ := sampleLocal_eq_some draws batchSize b
  obtain ⟨remoteSamples, hremote, hrlen, hrmem⟩ := sampleReceived_eq_some draws' hllen
  refine ⟨localSamples ++ remoteSamples, ?_, by rw [List.length_append, hllen, hrlen], fun x hx => ?_⟩
  · simp [sample, hlocal, hremote]
  · exact (List.mem_append.1 hx).imp (hlmem x) (hrmem x)

theorem serves_iff (draws draws' : Draws) : b.Serves draws draws' batchSize ↔
    (batchSize ≤ b.localLen + b.receivedLen →
      b.localShare batchSize + b.remoteShare batchSize = batchSize) := by
  obtain ⟨samples, hsample, hlen, hmem⟩ := sample_eq_some draws draws' batchSize b
  constructor
  · rintro ⟨samples', hsample', hall⟩ henough
    obtain rfl := Option.some.inj (hsample.symm.trans hsample')
    exact hlen.symm.trans (hall henough).1
  · exact fun h => ⟨samples, hsample, fun henough => ⟨hlen.trans (h henough), hmem⟩⟩

end RedpandaReplayBuffer

/-- Whatever is drawn, a batch is complete exactly if the buffers have too few experiences for one, or
nothing was received, or what was received suffices for the batch, or each has its half. -/
theorem sample_serves_iff {localBufferSize batchSize : Nat}
    {b : RedpandaReplayBuffer χ localBufferSize} (hsize : 1 ≤ batchSize) (draws draws' : Draws) :
    b.Serves draws draws' batchSize ↔
      b.localLen + b.receivedLen < batchSize ∨ b.receivedLen = 0 ∨ batchSize ≤ b.receivedLen ∨
        batchSize / 2 ≤ b.localLen ∧ batchSize - batchSize / 2 ≤ b.receivedLen := by
  rw [RedpandaReplayBuffer.serves_iff]
  rcases Nat.eq_zero_or_pos b.receivedLen with hzero | hpos
  · rw [RedpandaReplayBuffer.remoteShare_of_eq_zero hzero,
      RedpandaReplayBuffer.localShare_of_eq_zero hzero]
    split <;> omega
  · rw [RedpandaReplayBuffer.remoteShare_of_pos hpos,
      RedpandaReplayBuffer.localShare_of_pos hpos]
    -- the received experiences make up for what the local ones leave, if they suffice
    rcases Nat.lt_or_ge b.localLen (batchSize / 2) with hfew | hhalf
    · rw [if_neg (by omega : ¬ b.localLen ≥ batchSize / 2)]
      split <;> omega
    · rw [if_pos hhalf]
      split <;> omega

section Example

/-- The draws are always the first place. -/
def firstPlace : Draws := fun _ h _ => ⟨0, h⟩

/-- Four local experiences and some received ones, `0` to `3` and those from `10` on. -/
def fourLocal (received : List Nat) (h : received.length ≤ 8) : RedpandaReplayBuffer Nat 8 :=
  ⟨⟨⟨[0, 1, 2, 3], by decide⟩⟩, ⟨received, h⟩⟩

theorem sample_serves_iff_halves :
    (fourLocal [10, 11] (by decide)).Serves firstPlace firstPlace 4 :=
  (sample_serves_iff (by decide) firstPlace firstPlace).2 (by decide)

/-- With one received experience only the local half of the batch is drawn, though there are enough
local ones for all of it. -/
theorem half_batch_returned :
    4 ≤ (fourLocal [10] (by decide)).localLen + (fourLocal [10] (by decide)).receivedLen ∧
    (fourLocal [10] (by decide)).sample firstPlace firstPlace 4 = some [0, 0] ∧
    ¬ (fourLocal [10] (by decide)).Serves firstPlace firstPlace 4 := by
  refine ⟨by decide, by decide, ?_⟩
  rintro ⟨samples, hsample, hall⟩
  have htwo : (fourLocal [10] (by decide)).sample firstPlace firstPlace 4 = some [0, 0] := by decide
  obtain rfl := Option.some.inj (htwo.symm.trans hsample)
  cases (hall (by decide)).1

end Example

end GossipRl
