import Mathlib.Logic.Relation
import Mathlib.Order.Basic

/-!
# Deadlocks and lock orders

Tasks hold locks and wait for locks. `WaitsFor` is the wait-for graph: a task waits for another (or
for itself, with a lock that is not reentrant) when that task holds the lock it asks for. A deadlock
is a cycle of this graph. If every task only asks for locks that come later in a fixed order than
all the locks it holds, there is none.
-/

namespace Support

variable {Task Lock : Type*} {holds waits : Task → Lock → Prop}

/-- `t` asks for a lock that `t'` holds. -/
def WaitsFor (holds waits : Task → Lock → Prop) (t t' : Task) : Prop :=
  ∃ l, waits t l ∧ holds t' l

/-- Some task waits, through a chain of holders, for a lock it holds itself. -/
def Deadlocked (holds waits : Task → Lock → Prop) : Prop :=
  ∃ t, Relation.TransGen (WaitsFor holds waits) t t

theorem deadlocked_of_self {t : Task} {l : Lock} (hw : waits t l) (hh : holds t l) :
    Deadlocked holds waits :=
  ⟨t, .single ⟨l, hw, hh⟩⟩

theorem WaitsFor.chain_le {O : Type*} [Preorder O] {rank : Lock → O}
    (ordered : ∀ t l l', waits t l → holds t l' → rank l' < rank l) {t u : Task}
    (h : Relation.TransGen (WaitsFor holds waits) t u) :
    ∃ l l', waits t l ∧ holds u l' ∧ rank l ≤ rank l' := by
  induction h with
  | single h => obtain ⟨l, hw, hh⟩ := h; exact ⟨l, l, hw, hh, le_rfl⟩
  | tail _ h ih =>
    obtain ⟨l, l', hw, hh, hle⟩ := ih
    obtain ⟨l₂, hw₂, hh₂⟩ := h
    exact ⟨l, l₂, hw, hh₂, hle.trans (ordered _ _ _ hw₂ hh).le⟩

theorem not_deadlocked_of_order {O : Type*} [Preorder O] (rank : Lock → O)
    (ordered : ∀ t l l', waits t l → holds t l' → rank l' < rank l) :
    ¬ Deadlocked holds waits := by
  rintro ⟨t, h⟩
  obtain ⟨l, l', hw, hh, hle⟩ := WaitsFor.chain_le ordered h
  exact absurd hle (ordered t l l' hw hh).not_ge

end Support
