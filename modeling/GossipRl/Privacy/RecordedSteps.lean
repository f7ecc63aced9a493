import GossipRl.Privacy.FloatAccountant

/-!
# Steps that are recorded

`step` counts the call before it computes the costs, and records it afterwards: a call that raises
has been counted, but it is in neither the costs nor the history. Which calls raise is a matter of
their arguments and of the orders (`rdpAt_eq_none_iff`), and not of the state.
-/

namespace GossipRl
open Support PyFloat

noncomputable section

namespace FloatAccountant
variable {gammaln : PyFloat → PyFloat} {a : FloatAccountant} {call : FloatCall} {calls : List FloatCall}
  {orders : List PyFloat}

/-- After the calls `calls`, whether they raised or not. -/
def after (gammaln : PyFloat → PyFloat) (calls : List FloatCall) (a : FloatAccountant) :
    FloatAccountant :=
  calls.foldl (fun a call => (a.step gammaln call).1) a

theorem after_concat :
    after gammaln (calls ++ [call]) a = ((after gammaln calls a).step gammaln call).1 :=
  List.foldl_concat ..

/-- The history has every step that was counted, and the running epsilons are the costs of the
history. -/
structure Consistent (gammaln : PyFloat → PyFloat) (a : FloatAccountant) : Prop where
  stepCount : a.stepCount = a.history.length
  rdpEpsilon : a.history.foldlM (fun rdp spent =>
      (a.computeRdp gammaln spent.call).map (List.zipWith add rdp))
    (a.orders.map fun _ => 0) = some a.rdpEpsilon

theorem consistent_init : (init orders).Consistent gammaln := ⟨rfl, rfl⟩

theorem orders_after : (after gammaln calls a).orders = a.orders := by
  induction calls using List.reverseRecOn with
  | nil => rfl
  | append_singleton calls call ih =>
    rw [after_concat, ← ih]
    cases h : (after gammaln calls a).computeRdp gammaln call with
    | none => rw [step_of_none h]
    | some rdp => rw [step_of_some h]

theorem Consistent.step (h : a.Consistent gammaln)
    (hcall : ∀ order ∈ a.orders, Accepted call order) :
    (a.step gammaln call).1.Consistent gammaln := by
  obtain ⟨rdp, hcost⟩ := exists_computeRdp gammaln hcall
  rw [step_of_some hcost]
  constructor
  · show a.stepCount + 1 = (a.history ++ _).length
    rw [h.stepCount, List.length_append]; rfl
  · show (a.history ++ [_]).foldlM (fun rdp (spent : FloatSpent) =>
      (a.computeRdp gammaln spent.call).map (List.zipWith add rdp)) _ = _
    rw [List.foldlM_append, h.rdpEpsilon]
    simp [hcost]

theorem consistent_after (h : ∀ call ∈ calls, ∀ order ∈ orders, Accepted call order) :
    (after gammaln calls (init orders)).Consistent gammaln := by
  induction calls using List.reverseRecOn with
  | nil => exact consistent_init
  | append_singleton calls call ih =>
    rw [after_concat]
    refine (ih fun c hc => h c (by simp [hc])).step ?_
    rw [orders_after]
    exact h call (by simp)

/-- A call that raises leaves the accountant as it was. -/
def Atomic (gammaln : PyFloat → PyFloat) (a : FloatAccountant) (call : FloatCall) : Prop :=
  (a.step gammaln call).2 = false → (a.step gammaln call).1 = a

theorem atomic_iff : a.Atomic gammaln call ↔ ∀ order ∈ a.orders, Accepted call order := by
  constructor
  · intro h order horder
    by_contra hnot
    rw [Atomic, step_of_none (computeRdp_of_not_accepted horder hnot)] at h
    exact Nat.succ_ne_self _ (congrArg stepCount (h rfl))
  · intro h hraise
    obtain ⟨rdp, hcost⟩ := exists_computeRdp gammaln h
    rw [step_of_some hcost] at hraise
    cases hraise

end FloatAccountant

open FloatAccountant

/-- The accountant is consistent in every state, and every call atomic, if and only if no call
raises: the square of the noise multiplier is there to be divided by, and the sample rate is one of
which the logarithms are taken, wherever there is an order that needs them. -/
theorem recorded_steps_iff (gammaln : PyFloat → PyFloat) {orders : List PyFloat}
    {calls : List FloatCall} :
    ((∀ before, before <+: calls → (after gammaln before (.init orders)).Consistent gammaln) ∧
      ∀ before call, before ++ [call] <+: calls →
        (after gammaln before (.init orders)).Atomic gammaln call) ↔
    ∀ call ∈ calls, ∀ order ∈ orders, FloatAccountant.Accepted call order := by
  constructor
  · rintro ⟨-, h⟩ call hcall
    obtain ⟨before, rest, rfl⟩ := List.append_of_mem hcall
    have hatomic := h before call ⟨rest, by simp⟩
    rwa [atomic_iff, orders_after] at hatomic
  · refine fun h => ⟨fun before hbefore => ?_, fun before call hbefore => ?_⟩
    · exact consistent_after fun call hcall => h call (hbefore.subset hcall)
    · rw [atomic_iff, orders_after]
      exact h call (hbefore.subset (by simp))

section Example

/-- Without noise, whole batches. -/
def noiseless : FloatCall := ⟨.python, 0, 1⟩

theorem noiseless_not_accepted (order : PyFloat) : ¬ FloatAccountant.Accepted noiseless order := by
  intro h
  have hone : noiseless.sampleRate = 1 := rfl
  rw [FloatAccountant.Accepted, if_pos hone] at h
  have hsquare := (h rfl).2 _ rfl
  rw [mul_zero] at hsquare
  exact hsquare.not_ge (pow2_pos _).le

/-- A step without noise is counted, and raises. -/
theorem step_without_noise :
    ((FloatAccountant.init [ofNat 2]).step id noiseless).2 = false ∧
    ((FloatAccountant.init [ofNat 2]).step id noiseless).1.stepCount = 1 ∧
    ((FloatAccountant.init [ofNat 2]).step id noiseless).1.history = [] ∧
    ¬ (after id [noiseless] (.init [ofNat 2])).Consistent id ∧
    ¬ (FloatAccountant.init [ofNat 2]).Atomic id noiseless := by
  have hnot := noiseless_not_accepted (ofNat 2)
  have hnone : (FloatAccountant.init [ofNat 2]).computeRdp id noiseless = none :=
    computeRdp_of_not_accepted (List.mem_singleton_self _) hnot
  rw [step_of_none hnone]
  refine ⟨rfl, rfl, rfl, fun h => ?_, fun h => hnot (atomic_iff.1 h _ (List.mem_singleton_self _))⟩
  have hcount := h.stepCount
  rw [show after id [noiseless] (.init [ofNat 2]) =
    ((FloatAccountant.init [ofNat 2]).step id noiseless).1 from rfl, step_of_none hnone] at hcount
  cases hcount

end Example

end

end GossipRl
