import Mathlib.Data.List.Basic
import Mathlib.Logic.Function.Basic

/-!
# A queue in a ring of slots

`Holds slots cap hist r w`: of the items `hist` ever written, those from number `r` on, up to
number `w`, still lie in the `cap` slots, item `i` in slot `i % cap`. A writer fills the slot of item
`w` and then counts it (`Holds.store`, `Holds.publish`), a reader copies the slot of item `r` and then
counts it (`Holds.head`, `Holds.consume`). Neither order needs the other side to stand still.
-/

namespace Support

variable {α : Type*} {slots : Nat → α} {cap r w : Nat} {hist : List α} {x : α}

structure Holds (slots : Nat → α) (cap : Nat) (hist : List α) (r w : Nat) : Prop where
  le : r ≤ w
  slot : ∀ i, r ≤ i → i < w → hist[i]? = some (slots (i % cap))

theorem mod_ne_of_lt {i j : Nat} (hij : i < j) (hj : j < i + cap) : i % cap ≠ j % cap := by
  intro heq
  have hdvd : cap ∣ j - i := Nat.dvd_of_mod_eq_zero (Nat.sub_mod_eq_zero_of_mod_eq heq.symm)
  have := Nat.le_of_dvd (by omega) hdvd
  omega

theorem prefix_concat {l : List α} (h : l <+: hist) (hx : hist[l.length]? = some x) :
    l ++ [x] <+: hist := by
  obtain ⟨rest, rfl⟩ := h
  rw [List.getElem?_append_right (Nat.le_refl _), Nat.sub_self] at hx
  cases rest with
  | nil => cases hx
  | cons y rest =>
    obtain rfl := Option.some.inj hx
    rw [List.prefix_append_right_inj]
    exact List.prefix_append [y] rest

namespace Holds

theorem empty : Holds slots cap hist r r := ⟨Nat.le_refl _, fun i h₁ h₂ => by omega⟩

theorem store (h : Holds slots cap hist r w) (hroom : w < r + cap) :
    Holds (Function.update slots (w % cap) x) cap hist r w := by
  refine ⟨h.le, fun i hr hw => ?_⟩
  have hne : i % cap ≠ w % cap := mod_ne_of_lt hw (by omega)
  rw [Function.update_of_ne hne]
  exact h.slot i hr hw

theorem publish (h : Holds slots cap hist r w) (hlen : hist.length = w)
    (hx : slots (w % cap) = x) : Holds slots cap (hist ++ [x]) r (w + 1) := by
  refine ⟨Nat.le_succ_of_le h.le, fun i hr hw => ?_⟩
  rcases Nat.lt_succ_iff_lt_or_eq.1 hw with hlt | rfl
  · rw [List.getElem?_append_left (hlen ▸ hlt)]
    exact h.slot i hr hlt
  · rw [← hlen, List.getElem?_concat_length, hlen, hx]

theorem head (h : Holds slots cap hist r w) (hlt : r < w) : hist[r]? = some (slots (r % cap)) :=
  h.slot r (Nat.le_refl r) hlt

theorem consume (h : Holds slots cap hist r w) (hlt : r < w) : Holds slots cap hist (r + 1) w :=
  ⟨hlt, fun i hr hw => h.slot i (Nat.le_of_succ_le hr) hw⟩

end Holds
end Support
