import Mathlib.Data.List.Basic

/-!
# Bounded queues

The calls on a queue with room for `cap` items are known by what they come back with (`QueueOp`).
Along any sequence of calls on an empty queue, the items that came out and those still in it are, in
order, the items that went in (`QueueTrace.conservation`).
-/

namespace Support

inductive QueueOp (α : Type*) where
  | enqueued (x : α)
  | full
  | dequeued (x : α)
  | empty

variable {α : Type*} {cap : Nat} {q q' : List α} {op : QueueOp α} {ops : List (QueueOp α)}

inductive QueueStep (cap : Nat) : List α → QueueOp α → List α → Prop
  | enqueued {q : List α} {x : α} (room : q.length < cap) :
      QueueStep cap q (.enqueued x) (q ++ [x])
  | full {q : List α} (noRoom : q.length = cap) : QueueStep cap q .full q
  | dequeued {q : List α} {x : α} : QueueStep cap (x :: q) (.dequeued x) q
  | empty : QueueStep cap [] .empty []

/-- Calls one after the other. -/
inductive QueueTrace (cap : Nat) (q : List α) : List (QueueOp α) → List α → Prop
  | nil : QueueTrace cap q [] q
  | concat {ops : List (QueueOp α)} {op : QueueOp α} {q₁ q₂ : List α}
      (before : QueueTrace cap q ops q₁) (step : QueueStep cap q₁ op q₂) :
      QueueTrace cap q (ops ++ [op]) q₂

namespace QueueOp

/-- The item that went in. -/
def input : QueueOp α → Option α
  | enqueued x => some x
  | _ => none

/-- The item that came out. -/
def output : QueueOp α → Option α
  | dequeued x => some x
  | _ => none

end QueueOp

theorem QueueStep.conservation (h : QueueStep cap q op q') :
    q ++ op.input.toList = op.output.toList ++ q' := by
  cases h with
  | enqueued => rfl
  | full => exact List.append_nil _
  | dequeued => exact List.append_nil _
  | empty => rfl

theorem QueueStep.length_le (h : QueueStep cap q op q') (hq : q.length ≤ cap) :
    q'.length ≤ cap := by
  cases h with
  | enqueued room => rwa [List.length_append]
  | full => exact hq
  | dequeued => exact Nat.le_of_succ_le hq
  | empty => exact hq

namespace QueueTrace

theorem conservation (h : QueueTrace cap q ops q') :
    q ++ ops.filterMap QueueOp.input = ops.filterMap QueueOp.output ++ q' := by
  induction h with
  | nil => simp
  | @concat ops op q₁ q₂ before step ih =>
    have hlast : ∀ f : QueueOp α → Option α, [op].filterMap f = (f op).toList := by
      intro f
      cases hf : f op <;> simp [hf]
    rw [List.filterMap_append, List.filterMap_append, hlast, hlast, ← List.append_assoc, ih,
      List.append_assoc, step.conservation, List.append_assoc]

theorem length_le (h : QueueTrace cap q ops q') (hq : q.length ≤ cap) : q'.length ≤ cap := by
  induction h with
  | nil => exact hq
  | concat _ step ih => exact step.length_le ih

theorem output_prefix (h : QueueTrace cap [] ops q) :
    ops.filterMap QueueOp.output <+: ops.filterMap QueueOp.input :=
  ⟨q, by rw [← h.conservation, List.nil_append]⟩

end QueueTrace

end Support
