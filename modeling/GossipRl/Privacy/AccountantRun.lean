import GossipRl.Privacy.Costs
import GossipRl.Support.Run

/-!
# Runs of the accountant

A run adds to each order the costs of its steps, and `get_epsilon` takes the least of the values that
are positive.
-/

namespace GossipRl
open Support

noncomputable section

theorem minimum_le_minimum_iff {α : Type*} [LinearOrder α] {l l' : List α} :
    l.minimum ≤ l'.minimum ↔ ∀ b ∈ l', ∃ a ∈ l, a ≤ b := by
  constructor
  · intro h b hb
    exact List.minimum_le_coe_iff.1 (h.trans (List.minimum_le_of_mem' hb))
  · intro h
    refine List.le_minimum_of_forall_le fun b hb => ?_
    exact List.minimum_le_coe_iff.2 (h b hb)

namespace RDPAccountant
variable {a a' : RDPAccountant} {call : ℝ × ℝ} {calls : List (ℝ × ℝ)} {orders : List ℝ} {delta : ℝ}
  {order : ℝ × ℝ}

/-- The orders, each with its running epsilon. -/
def perOrder (a : RDPAccountant) : List (ℝ × ℝ) := a.orders.zip a.rdpEpsilon

theorem computeRdp_of_accepted (h : ∀ order ∈ a.orders, Accepted call order) :
    a.computeRdp call.1 call.2 = some (a.orders.map (stepCost call)) :=
  mapM_of_forall_some fun order horder => rdpAt_of_accepted (h order horder)

theorem computeRdp_of_not_accepted {order : ℝ} (horder : order ∈ a.orders)
    (h : ¬ Accepted call order) : a.computeRdp call.1 call.2 = none :=
  mapM_of_exists_none horder (rdpAt_of_not_accepted h)

theorem zip_zipWith_add (f : ℝ → ℝ) (orders rdp : List ℝ) :
    orders.zip (List.zipWith (· + ·) rdp (orders.map f)) =
      (orders.zip rdp).map fun order => (order.1, order.2 + f order.1) := by
  induction orders generalizing rdp with
  | nil => rfl
  | cons order orders ih =>
    cases rdp with
    | nil => rfl
    | cons r rdp => simp [ih]

/-- The costs of the steps `calls` at an order. -/
def totalCost (calls : List (ℝ × ℝ)) (order : ℝ) : ℝ := (calls.map (stepCost · order)).sum

theorem totalCost_concat (order : ℝ) :
    totalCost (calls ++ [call]) order = totalCost calls order + stepCost call order := by
  simp [totalCost]

theorem totalCost_nonneg {order : ℝ} (horder : 1 < order)
    (h : ∀ call ∈ calls, ¬ Undercounts call order) : 0 ≤ totalCost calls order := by
  refine List.sum_nonneg fun cost hcost => ?_
  obtain ⟨call, hcall, rfl⟩ := List.mem_map.1 hcost
  exact stepCost_nonneg horder (h call hcall)

theorem step_of_accepted (h : ∀ order ∈ a.orders, Accepted call order) :
    ∃ a', a.step call = some a' ∧ a'.orders = a.orders ∧
      a'.perOrder = a.perOrder.map fun order => (order.1, order.2 + stepCost call order.1) := by
  refine ⟨_, by rw [step, computeRdp_of_accepted h, Option.map_some], by rfl, ?_⟩
  exact zip_zipWith_add (stepCost call) a.orders a.rdpEpsilon

theorem step_spec (hcall : ValidCall call) (a : RDPAccountant) :
    ∃ a', a.step call = some a' ∧
      a'.perOrder = a.perOrder.map fun order => (order.1, order.2 + stepCost call order.1) := by
  obtain ⟨a', hstep, -, hper⟩ := step_of_accepted (a := a) fun order _ => hcall.accepted order
  exact ⟨a', hstep, hper⟩

theorem accepted_of_step (h : a.step call = some a') : ∀ order ∈ a.orders, Accepted call order := by
  intro order horder
  by_contra hnot
  rw [step, computeRdp_of_not_accepted horder hnot] at h
  cases h

theorem perOrder_init (orders : List ℝ) :
    (init orders).perOrder = orders.map fun order => (order, 0) := by
  show orders.zip (orders.map fun _ => 0) = _
  induction orders with
  | nil => rfl
  | cons order orders ih => rw [List.map_cons, List.map_cons, List.zip_cons_cons, ih]

theorem perOrder_run (hrun : run step (init orders) calls = some a) :
    a.orders = orders ∧ a.perOrder = orders.map fun order => (order, totalCost calls order) := by
  refine run_induction (motive := fun calls a =>
    a.orders = orders ∧ a.perOrder = orders.map fun order => (order, totalCost calls order))
    ⟨rfl, perOrder_init orders⟩ (fun calls a call a' _ ih _ hstep => ?_) .unconditional hrun
  obtain ⟨a₁, hstep₁, horders, hper⟩ := step_of_accepted (accepted_of_step hstep)
  obtain rfl := Option.some.inj (hstep.symm.trans hstep₁)
  refine ⟨horders.trans ih.1, ?_⟩
  rw [hper, ih.2, List.map_map]
  refine List.map_congr_left fun order _ => ?_
  rw [totalCost_concat]; rfl

theorem run_of_accepted (h : ∀ call ∈ calls, ∀ order ∈ orders, Accepted call order) :
    ∃ a, run step (init orders) calls = some a := by
  induction calls using List.reverseRecOn with
  | nil => exact ⟨_, rfl⟩
  | append_singleton calls call ih =>
    obtain ⟨a, hrun⟩ := ih fun c hc => h c (by simp [hc])
    have hcall : ∀ order ∈ a.orders, Accepted call order := by
      rw [(perOrder_run hrun).1]
      exact h call (by simp)
    obtain ⟨a', hstep, -⟩ := step_of_accepted hcall
    exact ⟨a', run_concat_eq_some.2 ⟨a, hrun, hstep⟩⟩

theorem run_of_valid (h : ∀ call ∈ calls, ValidCall call) (orders : List ℝ) :
    ∃ a, run step (init orders) calls = some a :=
  run_of_accepted fun call hcall order _ => (h call hcall).accepted order

/-- The order is one that `get_epsilon` takes. -/
def Counted (delta : ℝ) (order : ℝ × ℝ) : Prop := 1 < order.1 ∧ 0 < epsilonAt delta order

theorem epsilonOf_eq_some_iff {eps : ℝ} :
    epsilonOf delta order = some eps ↔ Counted delta order ∧ epsilonAt delta order = eps := by
  unfold epsilonOf Counted
  split_ifs with h₁ h₂
  · simp [h₁.not_gt]
  · simp [not_le.1 h₁, h₂]
  · simp [h₂]

theorem epsilonAt_add (cost : ℝ) (order : ℝ × ℝ) :
    epsilonAt delta (order.1, order.2 + cost) = epsilonAt delta order + cost :=
  add_right_comm _ _ _

theorem lt_epsilonAt (hdelta : 0 < delta) (horder : 1 < order.1) (hsmall : delta * order.1 < 1) :
    order.2 < epsilonAt delta order := by
  have hlog : Real.log delta + Real.log order.1 < 0 := by
    rw [← Real.log_mul hdelta.ne' (by linarith)]
    exact Real.log_neg (mul_pos hdelta (by linarith)) hsmall
  exact lt_add_of_pos_right _ (div_pos_of_neg_of_neg hlog (by linarith))

theorem getEpsilon_le_iff (hdelta : 0 < delta) :
    a.getEpsilon delta ≤ a'.getEpsilon delta ↔
      ∀ order' ∈ a'.perOrder, Counted delta order' →
        ∃ order ∈ a.perOrder, Counted delta order ∧
          epsilonAt delta order ≤ epsilonAt delta order' := by
  rw [getEpsilon, if_neg (not_le.2 hdelta), getEpsilon, if_neg (not_le.2 hdelta),
    minimum_le_minimum_iff]
  simp only [List.mem_filterMap, epsilonOf_eq_some_iff]
  constructor
  · intro h order' hmem hcounted
    obtain ⟨_, ⟨order, hmem', hcounted', rfl⟩, hle⟩ := h _ ⟨order', hmem, hcounted, rfl⟩
    exact ⟨order, hmem', hcounted', hle⟩
  · rintro h _ ⟨order', hmem, hcounted, rfl⟩
    obtain ⟨order, hmem', hcounted', hle⟩ := h order' hmem hcounted
    exact ⟨_, ⟨order, hmem', hcounted', rfl⟩, hle⟩

/-- What `get_epsilon` has for an order after the steps `calls`. -/
def valueAfter (delta : ℝ) (calls : List (ℝ × ℝ)) (order : ℝ) : ℝ :=
  epsilonAt delta (order, totalCost calls order)

theorem lt_valueAfter {delta order : ℝ} (hdelta : 0 < delta) (horder : 1 < order)
    (hsmall : delta * order < 1) (calls : List (ℝ × ℝ)) :
    totalCost calls order < valueAfter delta calls order :=
  @lt_epsilonAt delta (order, totalCost calls order) hdelta horder hsmall

theorem valueAfter_eq {delta order : ℝ} (hdelta : 0 < delta) (horder : 1 < order)
    (calls : List (ℝ × ℝ)) :
    valueAfter delta calls order =
      ((order - 1) * totalCost calls order - Real.log (order * delta)) / (order - 1) := by
  have hsub : order - 1 ≠ 0 := (sub_pos.2 horder).ne'
  have hsub' : 1 - order ≠ 0 := (sub_neg.2 horder).ne
  rw [valueAfter, epsilonAt, Real.log_mul (by linarith) hdelta.ne']
  field_simp
  ring

/-- The order counts if `delta` is small for its costs, -/
theorem valueAfter_pos_iff {delta order : ℝ} (hdelta : 0 < delta) (horder : 1 < order) :
    0 < valueAfter delta calls order ↔
      order * delta < Real.exp ((order - 1) * totalCost calls order) := by
  have hpos : 0 < order * delta := mul_pos (by linarith) hdelta
  rw [valueAfter_eq hdelta horder, div_pos_iff_of_pos_right (sub_pos.2 horder), sub_pos,
    Real.log_lt_iff_lt_exp hpos]

/-- and its value is small if `delta` is not too small. -/
theorem valueAfter_le_iff {delta order eps : ℝ} (hdelta : 0 < delta) (horder : 1 < order) :
    valueAfter delta calls order ≤ eps ↔
      Real.exp ((order - 1) * totalCost calls order) ≤
        order * delta * Real.exp ((order - 1) * eps) := by
  have hpos : 0 < order * delta := mul_pos (by linarith) hdelta
  rw [valueAfter_eq hdelta horder, div_le_iff₀ (sub_pos.2 horder), sub_le_iff_le_add',
    ← Real.exp_le_exp, Real.exp_add, Real.exp_log hpos, mul_comm eps]

theorem valueAfter_pos_of_whole (hdelta : 0 < delta) (hcalls : ∀ call ∈ calls, ValidCall call) {n : ℕ}
    (hn : n < 100) (hone : 1 < (n : ℝ)) (hsmall : delta * n < 1) : 0 < valueAfter delta calls n := by
  have hnonneg : 0 ≤ totalCost calls n :=
    totalCost_nonneg hone fun call hcall => not_undercounts_natCast (hcalls call hcall) hn
  exact hnonneg.trans_lt (lt_valueAfter hdelta hone hsmall calls)

theorem getEpsilon_run_le_coe_iff {delta eps : ℝ} (hrun : run step (init orders) calls = some a) :
    a.getEpsilon delta ≤ eps ↔ 0 < delta ∧ ∃ order ∈ orders,
      1 < order ∧ 0 < valueAfter delta calls order ∧ valueAfter delta calls order ≤ eps := by
  have hper := (perOrder_run hrun).2
  rcases le_or_gt delta 0 with hdelta | hdelta
  · simp [getEpsilon, hdelta, hdelta.not_gt]
  · rw [getEpsilon, if_neg (not_le.2 hdelta), List.minimum_le_coe_iff, ← perOrder, hper]
    simp only [List.mem_filterMap, List.mem_map, epsilonOf_eq_some_iff, hdelta, true_and]
    constructor
    · rintro ⟨_, ⟨_, ⟨order, horder, rfl⟩, ⟨hone, hpos⟩, rfl⟩, hle⟩
      exact ⟨order, horder, hone, hpos, hle⟩
    · rintro ⟨order, horder, hone, hpos, hle⟩
      exact ⟨_, ⟨_, ⟨order, horder, rfl⟩, ⟨hone, hpos⟩, rfl⟩, hle⟩

end RDPAccountant

end

end GossipRl
