import Mathlib.Data.Option.Basic

/-!
# While loops

`whileLoop cond body fuel s` goes round a loop whose body may raise. It is `none` if the body did, or
if there was not enough fuel. `whileLoop_total` is the rule for total correctness: `P k s` says that
`s` is reached after `k` rounds, and `bound` is more than the rounds there are. `whileLoop_unique`
says that the fuel makes no other difference.
-/

namespace Support

variable {σ : Type*} {cond : σ → Prop} [DecidablePred cond] {body : σ → Option σ} {s s₁ s₂ : σ}

def whileLoop (cond : σ → Prop) [DecidablePred cond] (body : σ → Option σ) : Nat → σ → Option σ
  | 0, s => if cond s then none else some s
  | fuel + 1, s => if cond s then (body s).bind (whileLoop cond body fuel) else some s

theorem whileLoop_of_not {fuel : Nat} (h : ¬ cond s) : whileLoop cond body fuel s = some s := by
  cases fuel <;> exact if_neg h

theorem whileLoop_succ {fuel : Nat} (h : cond s) :
    whileLoop cond body (fuel + 1) s = (body s).bind (whileLoop cond body fuel) :=
  if_pos h

theorem whileLoop_mono {fuel fuel' : Nat} (h : whileLoop cond body fuel s = some s₁)
    (hle : fuel ≤ fuel') : whileLoop cond body fuel' s = some s₁ := by
  induction fuel generalizing s fuel' with
  | zero =>
    by_cases hc : cond s
    · rw [whileLoop, if_pos hc] at h
      cases h
    · rw [whileLoop_of_not hc] at h ⊢
      exact h
  | succ fuel ih =>
    by_cases hc : cond s
    · obtain ⟨fuel', rfl⟩ := Nat.exists_eq_succ_of_ne_zero (by omega : fuel' ≠ 0)
      rw [whileLoop_succ hc, Option.bind_eq_some_iff] at h ⊢
      obtain ⟨s', hbody, hrest⟩ := h
      exact ⟨s', hbody, ih hrest (by omega)⟩
    · rw [whileLoop_of_not hc] at h ⊢
      exact h

theorem whileLoop_unique {fuel fuel' : Nat} (h : whileLoop cond body fuel s = some s₁)
    (h' : whileLoop cond body fuel' s = some s₂) : s₁ = s₂ := by
  rcases Nat.le_total fuel fuel' with hle | hle
  · exact Option.some.inj ((whileLoop_mono h hle).symm.trans h')
  · exact Option.some.inj (h.symm.trans (whileLoop_mono h' hle))

theorem whileLoop_total {P : Nat → σ → Prop} {bound : Nat}
    (keep : ∀ k s, P k s → cond s → ∃ s', body s = some s' ∧ P (k + 1) s')
    (less : ∀ k s, P k s → cond s → k < bound) {k : Nat} (hs : P k s) {fuel : Nat}
    (hfuel : bound ≤ k + fuel) :
    ∃ k' s', whileLoop cond body fuel s = some s' ∧ P k' s' ∧ ¬ cond s' := by
  induction fuel generalizing k s with
  | zero =>
    have hc : ¬ cond s := fun hc => by have := less k s hs hc; omega
    exact ⟨k, s, whileLoop_of_not hc, hs, hc⟩
  | succ fuel ih =>
    by_cases hc : cond s
    · obtain ⟨s', hbody, hs'⟩ := keep k s hs hc
      obtain ⟨k', s'', hloop, hrest⟩ := ih hs' (by omega)
      exact ⟨k', s'', by rw [whileLoop_succ hc, hbody]; exact hloop, hrest⟩
    · exact ⟨k, s, whileLoop_of_not hc, hs, hc⟩

end Support
