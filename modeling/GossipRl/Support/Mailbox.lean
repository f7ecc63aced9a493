import Mathlib.Data.List.Perm.Basic
import Mathlib.Data.List.Perm.Subperm

/-!
# Messages on their way

What is posted to a mailbox is in flight until it is received. Messages are received in any order,
each of them once at most, and perhaps never.
-/

namespace Support

structure Mailbox (α : Type*) where
  inFlight : List α := []
  delivered : List α := []

namespace Mailbox
variable {α : Type*} {m m' : Mailbox α} {a : α} {k : Nat}

def post (m : Mailbox α) (messages : List α) : Mailbox α :=
  { m with inFlight := m.inFlight ++ messages }

/-- The `k`-th message in flight arrives. -/
def receive (m : Mailbox α) (k : Nat) : Option (α × Mailbox α) :=
  m.inFlight[k]?.map fun a => (a, ⟨m.inFlight.eraseIdx k, m.delivered ++ [a]⟩)

/-- Everything that has been posted. -/
def all (m : Mailbox α) : List α := m.delivered ++ m.inFlight

@[simp] theorem all_post (m : Mailbox α) (messages : List α) :
    (m.post messages).all = m.all ++ messages := (List.append_assoc ..).symm

theorem receive_inFlight (h : m.receive k = some (a, m')) : m.inFlight.Perm (a :: m'.inFlight) := by
  obtain ⟨b, hb, heq⟩ := Option.map_eq_some_iff.1 h
  obtain ⟨rfl, rfl⟩ := Prod.mk.inj heq
  obtain ⟨hlt, rfl⟩ := List.getElem?_eq_some_iff.1 hb
  exact (List.getElem_cons_eraseIdx_perm hlt).symm

theorem receive_delivered (h : m.receive k = some (a, m')) :
    m'.delivered = m.delivered ++ [a] := by
  obtain ⟨b, -, heq⟩ := Option.map_eq_some_iff.1 h
  obtain ⟨rfl, rfl⟩ := Prod.mk.inj heq
  rfl

theorem mem_of_receive (h : m.receive k = some (a, m')) : a ∈ m.inFlight :=
  (receive_inFlight h).mem_iff.2 (List.mem_cons_self ..)

theorem receive_all (h : m.receive k = some (a, m')) : m'.all.Perm m.all := by
  have hin := (receive_inFlight h).append_left m.delivered
  rw [all, receive_delivered h, List.append_assoc]
  exact hin.symm

theorem mem_all_of_mem_inFlight (h : a ∈ m.inFlight) : a ∈ m.all := List.mem_append_right _ h

end Mailbox
end Support
