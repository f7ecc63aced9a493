import Mathlib.Data.List.Basic

/-!
# The newest element of a history

`Newest lt o H`: the register `o` holds the newest element of the history `H`, as `lt` says what
supersedes what; `records lt H` are the elements that superseded everything before them. The lemmas
say what one more element does to both.
-/

namespace Support

variable {α : Type*} {lt : α → α → Prop}

def Newest (lt : α → α → Prop) : Option α → List α → Prop
  | none, H => H = []
  | some a, H => a ∈ H ∧ ∀ b ∈ H, b = a ∨ lt b a

namespace Newest
variable {o : Option α} {H H' : List α} {a b : α}

theorem nil : Newest lt none [] := rfl

theorem all_lt_iff (trans : ∀ a b c, lt a b → lt b c → lt a c) (h : Newest lt o H) :
    (∀ a ∈ H, lt a b) ↔ ∀ a, o = some a → lt a b := by
  cases o with
  | none =>
    obtain rfl : H = [] := h
    simp
  | some a =>
    constructor
    · intro hall a' ha'
      exact hall a' (Option.some.inj ha' ▸ h.1)
    · intro ha c hc
      rcases h.2 c hc with rfl | hlt
      · exact ha c rfl
      · exact trans c a b hlt (ha a rfl)

theorem concat (trans : ∀ a b c, lt a b → lt b c → lt a c) (h : Newest lt o H)
    (hb : ∀ a, o = some a → lt a b) : Newest lt (some b) (H ++ [b]) := by
  refine ⟨by simp, ?_⟩
  intro c hc
  rcases List.mem_append.1 hc with hc | hc
  · exact .inr ((h.all_lt_iff trans).2 hb c hc)
  · exact .inl (List.mem_singleton.1 hc)

theorem keep (h : Newest lt (some a) H) (hb : b = a ∨ lt b a) : Newest lt (some a) (H ++ [b]) := by
  refine ⟨by simp [h.1], ?_⟩
  intro c hc
  rcases List.mem_append.1 hc with hc | hc
  · exact h.2 c hc
  · exact List.mem_singleton.1 hc ▸ hb

theorem perm (h : Newest lt o H) (hp : H.Perm H') : Newest lt o H' := by
  cases o with
  | none => exact List.nil_perm.1 ((show H = [] from h) ▸ hp)
  | some a => exact ⟨hp.mem_iff.1 h.1, fun b hb => h.2 b (hp.mem_iff.2 hb)⟩

end Newest

section Records
variable [DecidableRel lt]

/-- The records of a history that follows `seen`. -/
def recordsAfter (lt : α → α → Prop) [DecidableRel lt] (seen : List α) : List α → List α
  | [] => []
  | b :: H =>
    (if ∀ a ∈ seen, lt a b then [b] else []) ++ recordsAfter lt (seen ++ [b]) H

def records (lt : α → α → Prop) [DecidableRel lt] (H : List α) : List α := recordsAfter lt [] H

theorem recordsAfter_concat (seen H : List α) (b : α) :
    recordsAfter lt seen (H ++ [b]) =
      recordsAfter lt seen H ++ if ∀ a ∈ seen ++ H, lt a b then [b] else [] := by
  induction H generalizing seen with
  | nil => simp [recordsAfter]
  | cons c H ih =>
    rw [List.cons_append, recordsAfter, recordsAfter, ih, List.append_assoc, List.append_assoc,
      List.singleton_append]

theorem records_concat (H : List α) (b : α) :
    records lt (H ++ [b]) = records lt H ++ if ∀ a ∈ H, lt a b then [b] else [] :=
  recordsAfter_concat [] H b

end Records

end Support
