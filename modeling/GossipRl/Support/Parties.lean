import GossipRl.Support.Run
import Mathlib.Logic.Function.Basic
import Mathlib.Order.Basic

/-!
# Parties that send messages to each other

A `Party` is a partial step function with the messages that each step sends; `admits` says which
events can come once certain messages have been sent, so that only what has been sent arrives. In
`Parties` any number of them take steps in any order, and what has been sent stays there: it may
arrive early, late, never, more than once, and at any party.

Each party goes through a run of its own (`run_state`), so what is known of the runs of one party
holds of each. `Holds I M` is an invariant with one part for each party and one for each message,
over a context that only grows; it is enough that the party which takes a step keeps it
(`Holds.run`).
-/

namespace Support

structure Party (σ ε μ : Type*) where
  step : σ → ε → Option σ
  sends : σ → ε → List μ
  admits : List μ → ε → Bool

structure Parties (ι σ μ : Type*) where
  state : ι → σ
  sent : List μ := []

namespace Parties
variable {ι σ ε μ : Type*} [DecidableEq ι] {P : Party σ ε μ} {s s' s₀ : Parties ι σ μ} {i j : ι}
  {e : ε} {events : List (ι × ε)}

def step (P : Party σ ε μ) (s : Parties ι σ μ) : ι × ε → Option (Parties ι σ μ)
  | (i, e) =>
    if P.admits s.sent e then
      (P.step (s.state i) e).map fun n =>
        { state := Function.update s.state i n
          sent := s.sent ++ P.sends (s.state i) e }
    else none

theorem step_iff : step P s (i, e) = some s' ↔ P.admits s.sent e = true ∧
    ∃ n, P.step (s.state i) e = some n ∧
      s' = ⟨Function.update s.state i n, s.sent ++ P.sends (s.state i) e⟩ := by
  by_cases h : P.admits s.sent e = true
  · cases hn : P.step (s.state i) e <;> simp [step, h, hn, eq_comm]
  · simp [step, h]

/-- What happens at party `i`. -/
def eventsOf (i : ι) (events : List (ι × ε)) : List ε :=
  events.filterMap fun p => if p.1 = i then some p.2 else none

theorem eventsOf_concat_self : eventsOf i (events ++ [(i, e)]) = eventsOf i events ++ [e] := by
  simp [eventsOf]

theorem eventsOf_concat_of_ne (h : j ≠ i) :
    eventsOf i (events ++ [(j, e)]) = eventsOf i events := by simp [eventsOf, h]

theorem mem_eventsOf : e ∈ eventsOf i events ↔ (i, e) ∈ events := by
  simp only [eventsOf, List.mem_filterMap, Prod.exists]
  constructor
  · rintro ⟨j, e', hmem, heq⟩
    split at heq
    · rename_i hj
      obtain rfl := Option.some.inj heq
      exact hj ▸ hmem
    · cases heq
  · intro hmem
    exact ⟨i, e, hmem, if_pos rfl⟩

theorem run_state (h : run (step P) s₀ events = some s) (i : ι) :
    run P.step (s₀.state i) (eventsOf i events) = some (s.state i) := by
  refine run_induction (motive := fun events s =>
    run P.step (s₀.state i) (eventsOf i events) = some (s.state i)) rfl ?_ .unconditional h
  rintro events s ⟨j, e⟩ s' - ih - hstep
  obtain ⟨-, n, hn, rfl⟩ := step_iff.1 hstep
  by_cases hij : j = i
  · subst hij
    rw [eventsOf_concat_self, run_concat, ih, Option.bind_some, hn]
    simp
  · rw [eventsOf_concat_of_ne hij, ih]
    simp [Function.update_of_ne (Ne.symm hij)]

theorem sent_step (h : step P s (i, e) = some s') : s.sent <+: s'.sent := by
  obtain ⟨-, n, -, rfl⟩ := step_iff.1 h
  exact List.prefix_append ..

section Holds
variable {κ : Type*} [Preorder κ] {I : κ → ι → σ → Prop} {M : κ → μ → Prop} {c c' : κ}

/-- Every party satisfies `I` and every message that has been sent `M`. -/
structure Holds (I : κ → ι → σ → Prop) (M : κ → μ → Prop) (c : κ) (s : Parties ι σ μ) : Prop where
  states : ∀ i, I c i (s.state i)
  sent : ∀ m ∈ s.sent, M c m

/-- Neither part becomes false where the context grows. -/
structure Grows (I : κ → ι → σ → Prop) (M : κ → μ → Prop) : Prop where
  states : ∀ {c c' : κ} {i : ι} {n : σ}, c ≤ c' → I c i n → I c' i n
  sent : ∀ {c c' : κ} {m : μ}, c ≤ c' → M c m → M c' m

/-- What a step has to keep: its own party's part, and that of the messages it sends. -/
structure Keeps (I : κ → ι → σ → Prop) (M : κ → μ → Prop) (P : Party σ ε μ) (c c' : κ)
    (s s' : Parties ι σ μ) (i : ι) (e : ε) : Prop where
  grows : c ≤ c'
  state : I c' i (s'.state i)
  sends : ∀ m ∈ P.sends (s.state i) e, M c' m

theorem Holds.step (hmono : Grows I M) (hs : Holds I M c s) (h : step P s (i, e) = some s')
    (hkeep : Keeps I M P c c' s s' i e) : Holds I M c' s' := by
  obtain ⟨hle, hstate, hsends⟩ := hkeep
  obtain ⟨-, n, hn, rfl⟩ := step_iff.1 h
  constructor
  · intro j
    by_cases hij : j = i
    · subst hij
      exact hstate
    · show I _ j (Function.update s.state i n j)
      rw [Function.update_of_ne hij]
      exact hmono.states hle (hs.states j)
  · intro m hm
    rcases List.mem_append.1 hm with hm | hm
    · exact hmono.sent hle (hs.sent m hm)
    · exact hsends m hm

/-- What the party that takes a step keeps holds of all parties in every state of a run. The context
is read off what has happened and the state it has led to. -/
theorem Holds.run {C : Parties ι σ μ → ι × ε → Prop}
    (context : List (ι × ε) → Parties ι σ μ → κ) (hmono : Grows I M)
    (keep : ∀ es s i e s', Support.run (Parties.step P) s₀ es = some s →
      context [] s₀ ≤ context es s → Holds I M (context es s) s → C s (i, e) →
      Parties.step P s (i, e) = some s' →
      Keeps I M P (context es s) (context (es ++ [(i, e)]) s') s s' i e)
    (hs₀ : Holds I M (context [] s₀) s₀) (hc : Along (Parties.step P) C s₀ events)
    (h : Support.run (Parties.step P) s₀ events = some s) : Holds I M (context events s) s := by
  have hboth : context [] s₀ ≤ context events s ∧ Holds I M (context events s) s := by
    refine run_induction (motive := fun es s =>
      context [] s₀ ≤ context es s ∧ Holds I M (context es s) s) ⟨le_rfl, hs₀⟩ ?_ hc h
    rintro es s ⟨i, e⟩ s' hrun ⟨hle, hs⟩ hC hstep
    have hkeep := keep es s i e s' hrun hle hs hC hstep
    exact ⟨hle.trans hkeep.grows, hs.step hmono hstep hkeep⟩
  exact hboth.2

end Holds
end Parties
end Support
