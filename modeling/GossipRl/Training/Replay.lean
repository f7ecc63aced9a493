import GossipRl.Support.BoundedDeque
import GossipRl.Support.Run
import Mathlib.Algebra.Ring.Nat

/-!
# Prioritized replay (`replay.py`)

The experiences of a `PrioritizedExperienceBuffer` are in a deque, their priorities in an array
beside it. `Ledger` is what the pair is for: every experience with the priority it was last
assigned, so that an experience that moves takes its priority along. An experience that is added
twice counts as two. `store` is the rounding of a priority to the type of the array.
-/

namespace GossipRl
open Support

/-- `Experience`; `content` is what the buffer does not look at. -/
structure Experience (χ α : Type*) where
  content : χ
  priority : α

structure PrioritizedExperienceBuffer (χ α β : Type*) (capacity : Nat) where
  buffer : BoundedDeque (Experience χ α) capacity
  priorities : Fin capacity → β
  maxPriority : α

inductive ReplayOp (χ α : Type*) where
  | add (experience : Experience χ α)
  | updatePriorities (indices : List Nat) (priorities : List α)
  | clear

/-- `max(a, b)`. -/
def maxOf {α : Type*} [LT α] [DecidableLT α] (a b : α) : α := if a < b then b else a

/-- The experiences of a buffer, each with the priority last assigned to it. -/
structure Ledger (χ α : Type*) (capacity : Nat) where
  entries : BoundedDeque (Experience χ α × α) capacity
  maxPriority : α

namespace PrioritizedExperienceBuffer
variable {χ α β : Type*} {capacity : Nat}

def create (capacity : Nat) [One α] [Zero β] : PrioritizedExperienceBuffer χ α β capacity where
  buffer := .empty
  priorities := fun _ => 0
  maxPriority := 1

variable [LT α] [DecidableLT α] (store : α → β)

/-- `add`; a buffer of capacity zero divides by it. -/
def add (experience : Experience χ α) (s : PrioritizedExperienceBuffer χ α β capacity) :
    Option (PrioritizedExperienceBuffer χ α β capacity) :=
  let buffer := s.buffer.append { experience with priority := s.maxPriority }
  if h : 0 < capacity then
    let idx := (buffer.items.length - 1) % capacity
    some { s with
      buffer := buffer
      priorities := Function.update s.priorities ⟨idx, Nat.mod_lt _ h⟩ (store s.maxPriority) }
  else none

/-- One round of the loop in `update_priorities`; `none` is an index error. -/
def setPriority (s : PrioritizedExperienceBuffer χ α β capacity) (update : Nat × α) :
    Option (PrioritizedExperienceBuffer χ α β capacity) :=
  if h : update.1 < capacity then
    some { s with
      priorities := Function.update s.priorities ⟨update.1, h⟩ (store update.2)
      maxPriority := maxOf s.maxPriority update.2 }
  else none

/-- `update_priorities`. -/
def updatePriorities (indices : List Nat) (priorities : List α)
    (s : PrioritizedExperienceBuffer χ α β capacity) :
    Option (PrioritizedExperienceBuffer χ α β capacity) :=
  (indices.zip priorities).foldlM (setPriority store) s

def clear (s : PrioritizedExperienceBuffer χ α β capacity) :
    PrioritizedExperienceBuffer χ α β capacity := { s with buffer := .empty }

def step (s : PrioritizedExperienceBuffer χ α β capacity) :
    ReplayOp χ α → Option (PrioritizedExperienceBuffer χ α β capacity)
  | .add experience => s.add store experience
  | .updatePriorities indices priorities => s.updatePriorities store indices priorities
  | .clear => some s.clear

end PrioritizedExperienceBuffer

namespace Ledger
variable {χ α : Type*} {capacity : Nat} [LT α] [DecidableLT α]

def create (capacity : Nat) [One α] : Ledger χ α capacity := ⟨.empty, 1⟩

/-- A new experience is assigned the largest priority so far. -/
def add (experience : Experience χ α) (l : Ledger χ α capacity) : Ledger χ α capacity :=
  { l with
    entries :=
      l.entries.append ({ experience with priority := l.maxPriority }, l.maxPriority) }

/-- The experience at a position is assigned a priority. -/
def assign (l : Ledger χ α capacity) (update : Nat × α) : Ledger χ α capacity where
  entries := l.entries.modify update.1 fun entry => (entry.1, update.2)
  maxPriority := maxOf l.maxPriority update.2

def step (l : Ledger χ α capacity) : ReplayOp χ α → Ledger χ α capacity
  | .add experience => l.add experience
  | .updatePriorities indices priorities => (indices.zip priorities).foldl assign l
  | .clear => { l with entries := .empty }

end Ledger

namespace PrioritizedExperienceBuffer
variable {χ α β : Type*} {capacity : Nat} {store : α → β}
  {s s' : PrioritizedExperienceBuffer χ α β capacity} {l : Ledger χ α capacity}
  {op : ReplayOp χ α} {ops : List (ReplayOp χ α)}

/-- Nothing is added to a full buffer with different priorities. -/
def Uniform (s : PrioritizedExperienceBuffer χ α β capacity) : ReplayOp χ α → Prop
  | .add _ => s.buffer.Full → ∀ i j, s.priorities i = s.priorities j
  | _ => True

/-- The ledger has the buffer's experiences, position by position. -/
structure Tracks (s : PrioritizedExperienceBuffer χ α β capacity) (l : Ledger χ α capacity) :
    Prop where
  experiences : l.entries.items.map Prod.fst = s.buffer.items
  maxPriority : l.maxPriority = s.maxPriority

/-- At every position of the buffer the array has the priority that was last assigned to the
experience there. -/
def Aligned (store : α → β) (s : PrioritizedExperienceBuffer χ α β capacity)
    (l : Ledger χ α capacity) : Prop :=
  ∀ i : Fin capacity, ∀ entry, l.entries.items[i.val]? = some entry →
    s.priorities i = store entry.2

theorem add_eq_some {experience : Experience χ α} (h : s.add store experience = some s') :
    0 < capacity ∧ s' = { s with
      buffer := s.buffer.append { experience with priority := s.maxPriority }
      priorities := fun i =>
        if i.val = (if s.buffer.Full then capacity - 1 else s.buffer.items.length) then
          store s.maxPriority
        else s.priorities i } := by
  simp only [add, Option.dite_none_right_eq_some, Option.some.injEq] at h
  obtain ⟨hpos, rfl⟩ := h
  refine ⟨hpos, ?_⟩
  congr 1
  funext i
  have hidx : ((s.buffer.append { experience with priority := s.maxPriority }).items.length - 1) %
      capacity = if s.buffer.Full then capacity - 1 else s.buffer.items.length := by
    rw [BoundedDeque.length_append hpos]
    have hle := s.buffer.length_le
    split
    · exact Nat.mod_eq_of_lt (by omega)
    · rename_i hfull
      rw [BoundedDeque.Full] at hfull
      exact Nat.mod_eq_of_lt (by omega)
  rw [Function.update_apply]
  simp only [Fin.ext_iff, hidx]

namespace Tracks

theorem length_eq (h : s.Tracks l) : l.entries.items.length = s.buffer.items.length := by
  rw [← h.experiences, List.length_map]

theorem full_iff (h : s.Tracks l) : l.entries.Full ↔ s.buffer.Full := by
  rw [BoundedDeque.Full, BoundedDeque.Full, h.length_eq]

theorem add {experience : Experience χ α} (h : s.Tracks l)
    (hadd : s.add store experience = some s') : s'.Tracks (l.add experience) := by
  obtain ⟨-, rfl⟩ := add_eq_some hadd
  refine ⟨?_, h.maxPriority⟩
  rw [← h.maxPriority]
  exact BoundedDeque.map_items_append h.experiences

end Tracks

theorem forall_eq_of_next {n : Nat} {f : Fin n → β}
    (h : ∀ i j : Fin n, i.val + 1 = j.val → f i = f j) (i j : Fin n) : f i = f j := by
  have first : ∀ k (hk : k < n), f ⟨k, hk⟩ = f ⟨0, Nat.zero_lt_of_lt hk⟩ := by
    intro k
    induction k with
    | zero => exact fun _ => rfl
    | succ k ih => exact fun hk => (h ⟨k, by omega⟩ ⟨k + 1, hk⟩ rfl).symm.trans (ih (by omega))
  exact (first i i.isLt).trans (first j j.isLt).symm

/-- A buffer that is not full takes an experience and its priority at the same position. -/
theorem Aligned.add_of_not_full {experience : Experience χ α} (h : s.Aligned store l)
    (hl : s.Tracks l) (hfull : ¬ s.buffer.Full) (hadd : s.add store experience = some s') :
    s'.Aligned store (l.add experience) := by
  obtain ⟨-, rfl⟩ := add_eq_some hadd
  intro i entry hentry
  rw [Ledger.add, BoundedDeque.items_append_of_not_full (mt hl.full_iff.1 hfull)] at hentry
  simp only [if_neg hfull]
  rcases Nat.lt_trichotomy i.val l.entries.items.length with hlt | heq | hgt
  · rw [List.getElem?_append_left hlt] at hentry
    rw [if_neg (by rw [← hl.length_eq]; omega)]
    exact h i entry hentry
  · rw [heq, List.getElem?_concat_length] at hentry
    obtain rfl := Option.some.inj hentry
    rw [if_pos (heq.trans hl.length_eq), hl.maxPriority]
  · rw [List.getElem?_eq_none (by rw [List.length_append, List.length_singleton]; omega)] at hentry
    cases hentry

/-- In a full buffer every experience moves one position down, and only the priority at the last
position is written. -/
theorem Aligned.add_iff_of_full {experience : Experience χ α} (h : s.Aligned store l)
    (hl : s.Tracks l) (hfull : s.buffer.Full) (hadd : s.add store experience = some s') :
    s'.Aligned store (l.add experience) ↔ ∀ i j, s.priorities i = s.priorities j := by
  obtain ⟨hpos, rfl⟩ := add_eq_some hadd
  have hlfull : l.entries.Full := hl.full_iff.2 hfull
  have hlen : l.entries.items.tail.length = capacity - 1 := by rw [List.length_tail, hlfull]
  have hitems := BoundedDeque.items_append_of_full hlfull hpos
    (x := ({ experience with priority := l.maxPriority }, l.maxPriority))
  -- The entry that moves down to a position is the one that was above it.
  have hmoved : ∀ i j : Fin capacity, i.val + 1 = j.val →
      (l.add experience).entries.items[i.val]? = l.entries.items[j.val]? := by
    intro i j hij
    rw [Ledger.add, hitems, List.getElem?_append_left (by omega), List.getElem?_tail, hij]
  simp only [Aligned, if_pos hfull]
  constructor
  · refine fun h' => forall_eq_of_next fun i j hij => ?_
    have hj : j.val < l.entries.items.length := by rw [hlfull]; exact j.isLt
    have hentry := List.getElem?_eq_getElem hj
    have hnew := h' i _ ((hmoved i j hij).trans hentry)
    rw [if_neg (by omega)] at hnew
    exact hnew.trans (h j _ hentry).symm
  · intro heq i entry hentry
    by_cases hi : i.val = capacity - 1
    · rw [Ledger.add, hitems, hi, ← hlen, List.getElem?_concat_length] at hentry
      obtain rfl := Option.some.inj hentry
      rw [if_pos hi, hl.maxPriority]
    · have hij : i.val + 1 < capacity := by omega
      rw [hmoved i ⟨i.val + 1, hij⟩ rfl] at hentry
      rw [if_neg hi, heq i ⟨i.val + 1, hij⟩]
      exact h _ entry hentry

section update
variable [LT α] [DecidableLT α]

theorem setPriority_eq_some {update : Nat × α} (h : s.setPriority store update = some s') :
    ∃ hlt : update.1 < capacity, s' = { s with
      priorities := Function.update s.priorities ⟨update.1, hlt⟩ (store update.2)
      maxPriority := maxOf s.maxPriority update.2 } := by
  simp only [setPriority, Option.dite_none_right_eq_some, Option.some.injEq] at h
  obtain ⟨hlt, rfl⟩ := h
  exact ⟨hlt, rfl⟩

theorem Tracks.setPriority {update : Nat × α} (h : s.Tracks l)
    (hset : s.setPriority store update = some s') : s'.Tracks (l.assign update) := by
  obtain ⟨-, rfl⟩ := setPriority_eq_some hset
  refine ⟨?_, by simp [Ledger.assign, h.maxPriority]⟩
  rw [← h.experiences, Ledger.assign, BoundedDeque.map_items_modify]
  exact fun _ => rfl

theorem Aligned.setPriority {update : Nat × α} (h : s.Aligned store l)
    (hset : s.setPriority store update = some s') : s'.Aligned store (l.assign update) := by
  obtain ⟨hlt, rfl⟩ := setPriority_eq_some hset
  intro i entry hentry
  rw [Ledger.assign, BoundedDeque.getElem?_modify] at hentry
  by_cases hi : update.1 = i.val
  · rw [if_pos hi] at hentry
    obtain ⟨old, -, rfl⟩ := Option.map_eq_some_iff.1 hentry
    have heq : i = ⟨update.1, hlt⟩ := Fin.ext hi.symm
    simp [heq]
  · have hne : i ≠ ⟨update.1, hlt⟩ := fun heq => hi (by rw [heq])
    rw [if_neg hi] at hentry
    simpa [hne] using h i entry hentry

theorem foldlM_setPriority {updates : List (Nat × α)} (hl : s.Tracks l)
    (hs : updates.foldlM (PrioritizedExperienceBuffer.setPriority store) s = some s') :
    s'.Tracks (updates.foldl Ledger.assign l) ∧
      (s.Aligned store l → s'.Aligned store (updates.foldl Ledger.assign l)) := by
  induction updates generalizing s l with
  | nil =>
    obtain rfl := Option.some.inj hs
    exact ⟨hl, id⟩
  | cons update updates ih =>
    rw [List.foldlM_cons, Option.bind_eq_bind, Option.bind_eq_some_iff] at hs
    obtain ⟨s₁, hset, hrest⟩ := hs
    obtain ⟨htracks, haligned⟩ := ih (hl.setPriority hset) hrest
    exact ⟨htracks, fun h => haligned (h.setPriority hset)⟩

theorem Tracks.of_step (hl : s.Tracks l) (hs : s.step store op = some s') :
    s'.Tracks (l.step op) := by
  cases op with
  | add experience => exact hl.add hs
  | updatePriorities indices priorities => exact (foldlM_setPriority hl hs).1
  | clear =>
    obtain rfl := Option.some.inj hs
    exact ⟨rfl, hl.maxPriority⟩

/-- A step keeps the alignment unless it adds to a full buffer with different priorities. -/
theorem Aligned.step_iff (h : s.Aligned store l) (hl : s.Tracks l)
    (hs : s.step store op = some s') : s'.Aligned store (l.step op) ↔ s.Uniform op := by
  cases op with
  | add experience =>
    by_cases hfull : s.buffer.Full
    · exact (h.add_iff_of_full hl hfull hs).trans ⟨fun heq _ => heq, fun heq => heq hfull⟩
    · exact ⟨fun _ hf => absurd hf hfull, fun _ => h.add_of_not_full hl hfull hs⟩
  | updatePriorities indices priorities =>
    exact ⟨fun _ => trivial, fun _ => (foldlM_setPriority hl hs).2 h⟩
  | clear =>
    refine ⟨fun _ => trivial, fun _ i entry hentry => ?_⟩
    cases hentry

variable [One α] [Zero β]

/-- The ledger after the operations `ops`. -/
def ledger (capacity : Nat) (ops : List (ReplayOp χ α)) : Ledger χ α capacity :=
  ops.foldl Ledger.step (.create capacity)

theorem ledger_concat : ledger capacity (ops ++ [op]) = (ledger capacity ops).step op :=
  List.foldl_concat ..

theorem aligned_create :
    Aligned store (create capacity) (ledger capacity ([] : List (ReplayOp χ α))) := by
  intro i entry hentry
  cases hentry

theorem tracks_ledger (hrun : run (step store) (create capacity) ops = some s) :
    s.Tracks (ledger capacity ops) := by
  refine run_induction (C := fun _ _ => True) (motive := fun ops s => s.Tracks (ledger capacity ops))
    ⟨rfl, rfl⟩ (fun ops s op s' _ hl _ hs => ?_) .unconditional hrun
  rw [ledger_concat]
  exact hl.of_step hs

/-- In every state of a run the array has the priorities that were last assigned to the experiences
of the buffer, if and only if the run never adds to a full buffer with different priorities. -/
theorem priorities_follow_iff (hrun : run (step store) (create capacity) ops = some s) :
    (∀ ops₁ s₁, ops₁ <+: ops → run (step store) (create capacity) ops₁ = some s₁ →
      s₁.Tracks (ledger capacity ops₁) ∧ s₁.Aligned store (ledger capacity ops₁)) ↔
    Along (step store) Uniform (create capacity) ops := by
  constructor
  · rintro h ops₁ op ops₂ s₁ rfl hs₁
    obtain ⟨s₂, hs₂⟩ := step_of_run hrun hs₁
    have h₂ : s₂.Aligned store (ledger capacity (ops₁ ++ [op])) :=
      (h _ s₂ ⟨ops₂, by simp⟩ (run_concat_eq_some.2 ⟨s₁, hs₁, hs₂⟩)).2
    rw [ledger_concat] at h₂
    exact ((h ops₁ s₁ (List.prefix_append ..) hs₁).2.step_iff (tracks_ledger hs₁) hs₂).1 h₂
  · rintro h ops₁ s₁ ⟨ops₂, rfl⟩ hs₁
    refine ⟨tracks_ledger hs₁, run_induction (C := Uniform)
      (motive := fun ops s => s.Aligned store (ledger capacity ops)) aligned_create
      (fun ops s op s' hs haligned hunif hstep => ?_) h.of_append hs₁⟩
    rw [ledger_concat]
    exact (haligned.step_iff (tracks_ledger hs) hstep).2 hunif

end update

instance [DecidableEq β] (s : PrioritizedExperienceBuffer χ α β capacity) :
    ∀ op, Decidable (s.Uniform op)
  | .add _ =>
    inferInstanceAs (Decidable (s.buffer.Full → ∀ i j, s.priorities i = s.priorities j))
  | .updatePriorities _ _ => isTrue trivial
  | .clear => isTrue trivial

section Example

def addOf (n : Nat) : ReplayOp Nat Nat := .add ⟨n, 0⟩

theorem priorities_follow_iff_equal : ∃ s,
    run (step (id : Nat → Nat)) (create 2) [addOf 0, addOf 1, addOf 2] = some s ∧
    ∀ ops₁ s₁, ops₁ <+: [addOf 0, addOf 1, addOf 2] → run (step id) (create 2) ops₁ = some s₁ →
      s₁.Tracks (ledger 2 ops₁) ∧ s₁.Aligned id (ledger 2 ops₁) := by
  obtain ⟨s, hrun⟩ : ∃ s, run (step (id : Nat → Nat)) (create 2) [addOf 0, addOf 1, addOf 2] =
    some s := ⟨_, rfl⟩
  exact ⟨s, hrun, (priorities_follow_iff hrun).2 (by decide)⟩

/-- A third experience in a buffer of two: the second one moves to position 0, where the array
keeps the priority of the one that left. -/
theorem priority_of_evicted : ∃ s,
    run (step (id : Nat → Nat)) (create 2)
      [addOf 0, addOf 1, .updatePriorities [0] [5], addOf 2] = some s ∧
    s.buffer.items.map Experience.content = [1, 2] ∧
    (ledger 2 [addOf 0, addOf 1, .updatePriorities [0] [5], addOf 2]).entries.items.map Prod.snd =
      [1, 5] ∧
    s.priorities 0 = 5 ∧
    ¬ s.Aligned id (ledger 2 [addOf 0, addOf 1, .updatePriorities [0] [5], addOf 2]) := by
  refine ⟨_, rfl, rfl, rfl, rfl, fun h => ?_⟩
  cases h 0 _ rfl

end Example

end PrioritizedExperienceBuffer

end GossipRl
