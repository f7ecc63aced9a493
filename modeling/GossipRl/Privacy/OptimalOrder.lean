import GossipRl.Privacy.AccountantRun

/-!
# The optimal order

`get_optimal_order` goes over the orders with `log(delta) / (alpha - 1)`, where `get_epsilon` has
`(log(delta) + log(alpha)) / (1 - alpha)`, and keeps the first order at which its own value is least
(`FirstLeast`). Of two orders, each of the conversions takes the one or the other on the two sides of
a value of `log(1 / delta)` (`optimalSwitch`, `epsilonSwitch`), so the two agree on an order in a
window between such values (`InWindow`).
-/

namespace GossipRl
open Support

noncomputable section

/-- Of the orders above 1, `order` is the first at which `f` is least. -/
def FirstLeast (f : ℝ × ℝ → ℝ) (orders : List (ℝ × ℝ)) (order : ℝ × ℝ) : Prop :=
  1 < order.1 ∧ ∃ before after, orders = before ++ order :: after ∧
    (∀ other ∈ before, 1 < other.1 → f order < f other) ∧
    ∀ other ∈ after, 1 < other.1 → f order ≤ f other

namespace FirstLeast
variable {f : ℝ × ℝ → ℝ} {orders : List (ℝ × ℝ)} {order other : ℝ × ℝ}

theorem mem (h : FirstLeast f orders order) : order ∈ orders := by
  obtain ⟨-, before, after, rfl, -⟩ := h
  simp

theorem le (h : FirstLeast f orders order) (hmem : other ∈ orders) (hother : 1 < other.1) :
    f order ≤ f other := by
  obtain ⟨-, before, after, rfl, hbefore, hafter⟩ := h
  rcases List.mem_append.1 hmem with hmem | hmem
  · exact (hbefore other hmem hother).le
  rcases List.mem_cons.1 hmem with rfl | hmem
  exacts [le_rfl, hafter other hmem hother]

theorem concat (h : FirstLeast f orders order) (hle : 1 < other.1 → f order ≤ f other) :
    FirstLeast f (orders ++ [other]) order := by
  obtain ⟨horder, before, after, rfl, hbefore, hafter⟩ := h
  refine ⟨horder, before, after ++ [other], by simp, hbefore, ?_⟩
  intro x hx hone
  rcases List.mem_append.1 hx with hx | hx
  · exact hafter x hx hone
  · rw [List.mem_singleton] at hx; subst hx; exact hle hone

theorem last (horder : 1 < order.1) (h : ∀ x ∈ orders, 1 < x.1 → f order < f x) :
    FirstLeast f (orders ++ [order]) order :=
  ⟨horder, orders, [], rfl, h, by simp⟩

/-- There is only one order that is first. -/
theorem unique (h : FirstLeast f orders order) (h' : FirstLeast f orders other) : order = other := by
  obtain ⟨horder, before, after, rfl, hbefore, hafter⟩ := h
  obtain ⟨hother, before', after', heq, hbefore', hafter'⟩ := h'
  rcases List.append_eq_append_iff.1 heq with ⟨l, rfl, hl⟩ | ⟨l, rfl, hl⟩
  · cases l with
    | nil => exact (List.cons.inj hl).1
    | cons x l =>
      obtain ⟨rfl, rfl⟩ := List.cons.inj hl
      have hlt := hbefore' order (by simp) horder
      exact absurd (hafter other (by simp) hother) (not_le.2 hlt)
  · cases l with
    | nil => exact (List.cons.inj hl).1.symm
    | cons x l =>
      obtain ⟨rfl, rfl⟩ := List.cons.inj hl
      have hlt := hbefore other (by simp) hother
      exact absurd (hafter' order (by simp) horder) (not_le.2 hlt)

end FirstLeast

namespace RDPAccountant
variable {delta : ℝ} {a : RDPAccountant} {order : ℝ × ℝ} {first alpha : ℝ}

theorem foldl_optimalOrderStep (delta first : ℝ) (orders : List (ℝ × ℝ)) :
    (∀ order ∈ orders, order.1 ≤ 1) ∧
        orders.foldl (optimalOrderStep delta) (⊤, first) = (⊤, first) ∨
      ∃ order, FirstLeast (optimalEpsilonAt delta) orders order ∧
        orders.foldl (optimalOrderStep delta) (⊤, first) =
          (↑(optimalEpsilonAt delta order), order.1) := by
  induction orders using List.reverseRecOn with
  | nil => exact .inl ⟨by simp, rfl⟩
  | append_singleton orders order ih =>
    rw [List.foldl_concat]
    rcases le_or_gt order.1 1 with hone | hone
    · have hskip : ∀ best, optimalOrderStep delta best order = best := fun _ => if_pos hone
      rw [hskip]
      rcases ih with ⟨hall, heq⟩ | ⟨best, hbest, heq⟩
      · refine .inl ⟨fun x hx => ?_, heq⟩
        rcases List.mem_append.1 hx with hx | hx
        · exact hall x hx
        · rw [List.mem_singleton] at hx; subst hx; exact hone
      · exact .inr ⟨best, hbest.concat fun h => absurd h (not_lt.2 hone), heq⟩
    · right
      rcases ih with ⟨hall, heq⟩ | ⟨best, hbest, heq⟩
      · refine ⟨order, .last hone fun x hx h => absurd h (not_lt.2 (hall x hx)), ?_⟩
        rw [heq, optimalOrderStep, if_neg (not_le.2 hone), if_pos (WithTop.coe_lt_top _)]
      rw [heq, optimalOrderStep, if_neg (not_le.2 hone)]
      by_cases hlt : optimalEpsilonAt delta order < optimalEpsilonAt delta best
      · refine ⟨order, .last hone fun x hx h => hlt.trans_le (hbest.le hx h), ?_⟩
        rw [if_pos (WithTop.coe_lt_coe.2 hlt)]
      · refine ⟨best, hbest.concat fun _ => not_lt.1 hlt, ?_⟩
        rw [if_neg (mt WithTop.coe_lt_coe.1 hlt)]

theorem getOptimalOrder_eq (hdelta : 0 < delta)
    (hfirst : FirstLeast (optimalEpsilonAt delta) a.perOrder order) :
    a.getOptimalOrder delta = some order.1 := by
  have hne : a.orders ≠ [] := by
    intro hnil
    have hmem := hfirst.mem
    rw [perOrder, hnil] at hmem
    cases hmem
  obtain ⟨first, rest, horders⟩ := List.exists_cons_of_ne_nil hne
  rw [getOptimalOrder, if_neg (not_le.2 hdelta), horders, List.head?_cons, Option.map_some,
    ← horders]
  rcases foldl_optimalOrderStep delta first a.perOrder with ⟨hall, -⟩ | ⟨best, hbest, heq⟩
  · exact absurd hfirst.1 (not_lt.2 (hall order hfirst.mem))
  · rw [perOrder] at heq
    rw [heq, hbest.unique hfirst]

theorem exists_firstLeast (delta : ℝ) (hmem : order ∈ a.perOrder) (horder : 1 < order.1) :
    ∃ best, FirstLeast (optimalEpsilonAt delta) a.perOrder best := by
  rcases foldl_optimalOrderStep delta 0 a.perOrder with ⟨hall, -⟩ | ⟨best, hbest, -⟩
  exacts [absurd horder (not_lt.2 (hall order hmem)), ⟨best, hbest⟩]

theorem getEpsilon_eq_coe_iff (hdelta : 0 < delta) {eps : ℝ} :
    a.getEpsilon delta = eps ↔
      (∃ order ∈ a.perOrder, Counted delta order ∧ epsilonAt delta order = eps) ∧
        ∀ order ∈ a.perOrder, Counted delta order → eps ≤ epsilonAt delta order := by
  rw [getEpsilon, if_neg (not_le.2 hdelta), List.minimum_eq_coe_iff]
  simp only [List.mem_filterMap, epsilonOf_eq_some_iff]
  refine and_congr Iff.rfl ⟨fun h order hmem hcounted => h _ ⟨order, hmem, hcounted, rfl⟩, ?_⟩
  rintro h _ ⟨order, hmem, hcounted, rfl⟩
  exact h order hmem hcounted

/-- At the order, the conversion of `get_epsilon` gives what `get_epsilon` returns. -/
def AttainedAt (delta : ℝ) (a : RDPAccountant) (alpha : ℝ) : Prop :=
  ∃ rdp, (alpha, rdp) ∈ a.perOrder ∧ (epsilonAt delta (alpha, rdp) : WithTop ℝ) = a.getEpsilon delta

theorem attainedAt_iff (hdelta : 0 < delta) (horder : 1 < order.1) (hmem : order ∈ a.perOrder)
    (hsame : ∀ rdp, (order.1, rdp) ∈ a.perOrder → rdp = order.2) :
    a.AttainedAt delta order.1 ↔ 0 < epsilonAt delta order ∧
      ∀ other ∈ a.perOrder, Counted delta other → epsilonAt delta order ≤ epsilonAt delta other := by
  constructor
  · rintro ⟨rdp, hrdp, heq⟩
    obtain rfl := hsame rdp hrdp
    obtain ⟨⟨other, -, hcounted, hother⟩, hle⟩ := (getEpsilon_eq_coe_iff hdelta).1 heq.symm
    exact ⟨hother ▸ hcounted.2, hle⟩
  · rintro ⟨hpos, hle⟩
    exact ⟨order.2, hmem,
      ((getEpsilon_eq_coe_iff hdelta).2 ⟨⟨order, hmem, ⟨horder, hpos⟩, rfl⟩, hle⟩).symm⟩

/-! ### Where the conversions change from one order to another -/

/-- The value of `log(1 / delta)` above which `get_epsilon` counts the order. -/
def onset (order : ℝ × ℝ) : ℝ := Real.log order.1 - (order.1 - 1) * order.2

def gap (order other : ℝ × ℝ) : ℝ := 1 / (order.1 - 1) - 1 / (other.1 - 1)

/-- At this value of `log(1 / delta)` the two orders are the same to `get_optimal_order`. -/
def optimalSwitch (order other : ℝ × ℝ) : ℝ := (order.2 - other.2) / gap order other

/-- And at this value they are to `get_epsilon`. -/
def epsilonSwitch (order other : ℝ × ℝ) : ℝ :=
  (other.2 - order.2 + Real.log order.1 / (order.1 - 1) - Real.log other.1 / (other.1 - 1)) /
    gap order other

/-- `l` is on the side of `order` of all switches. One of the orders `before` it has to lose. -/
structure InWindow (l : ℝ) (before : List (ℝ × ℝ)) (order : ℝ × ℝ) (after : List (ℝ × ℝ)) :
    Prop where
  one_lt : 1 < order.1
  onset_lt : onset order < l
  earlier : ∀ other ∈ before, 1 < other.1 →
    order.1 < other.1 ∧ optimalSwitch order other < l ∨
      other.1 < order.1 ∧ l < optimalSwitch order other
  later : ∀ other ∈ after, 1 < other.1 →
    (order.1 < other.1 → optimalSwitch order other ≤ l) ∧
      (other.1 < order.1 → l ≤ optimalSwitch order other)
  counted : ∀ other ∈ before ++ order :: after, 1 < other.1 → onset other < l →
    (order.1 < other.1 → l ≤ epsilonSwitch order other) ∧
      (other.1 < order.1 → epsilonSwitch order other ≤ l)

section Switch
variable {other : ℝ × ℝ}

theorem gap_pos (horder : 1 < order.1) (h : order.1 < other.1) : 0 < gap order other :=
  sub_pos.2 (one_div_lt_one_div_of_lt (sub_pos.2 horder) (sub_lt_sub_right h 1))

theorem gap_neg (hother : 1 < other.1) (h : other.1 < order.1) : gap order other < 0 :=
  sub_neg.2 (one_div_lt_one_div_of_lt (sub_pos.2 hother) (sub_lt_sub_right h 1))

theorem epsilonAt_pos_iff (horder : 1 < order.1) :
    0 < epsilonAt delta order ↔ onset order < Real.log (1 / delta) := by
  have hpos : 0 < order.1 - 1 := sub_pos.2 horder
  have heq : epsilonAt delta order = (Real.log (1 / delta) - onset order) / (order.1 - 1) := by
    rw [epsilonAt, onset, one_div, Real.log_inv, eq_div_iff hpos.ne',
      show 1 - order.1 = -(order.1 - 1) by ring, div_neg, add_mul, neg_mul, div_mul_cancel₀ _ hpos.ne']
    ring
  rw [heq, div_pos_iff_of_pos_right hpos, sub_pos]

theorem optimalEpsilonAt_lt_iff : optimalEpsilonAt delta order < optimalEpsilonAt delta other ↔
    order.2 - other.2 < Real.log (1 / delta) * gap order other := by
  rw [optimalEpsilonAt, optimalEpsilonAt, gap, one_div, Real.log_inv, div_eq_mul_one_div,
    div_eq_mul_one_div (Real.log delta) (other.1 - 1)]
  constructor <;> intro h <;> linarith

theorem epsilonAt_le_iff : epsilonAt delta order ≤ epsilonAt delta other ↔
    Real.log (1 / delta) * gap order other ≤ other.2 - order.2 +
      Real.log order.1 / (order.1 - 1) - Real.log other.1 / (other.1 - 1) := by
  have hflip : ∀ x : ℝ × ℝ, (Real.log delta + Real.log x.1) / (1 - x.1) =
      -(Real.log delta * (1 / (x.1 - 1))) - Real.log x.1 / (x.1 - 1) := by
    intro x
    rw [show 1 - x.1 = -(x.1 - 1) by ring, div_neg, add_div]
    ring
  rw [epsilonAt, epsilonAt, hflip, hflip, gap, one_div delta, Real.log_inv]
  constructor <;> intro h <;> linarith

theorem optimal_lt_of_lt (horder : 1 < order.1) (h : order.1 < other.1) :
    optimalEpsilonAt delta order < optimalEpsilonAt delta other ↔
      optimalSwitch order other < Real.log (1 / delta) := by
  rw [optimalEpsilonAt_lt_iff, optimalSwitch, div_lt_iff₀ (gap_pos horder h)]

theorem optimal_lt_of_gt (hother : 1 < other.1) (h : other.1 < order.1) :
    optimalEpsilonAt delta order < optimalEpsilonAt delta other ↔
      Real.log (1 / delta) < optimalSwitch order other := by
  rw [optimalEpsilonAt_lt_iff, optimalSwitch, lt_div_iff_of_neg (gap_neg hother h)]

theorem epsilon_le_of_lt (horder : 1 < order.1) (h : order.1 < other.1) :
    epsilonAt delta order ≤ epsilonAt delta other ↔
      Real.log (1 / delta) ≤ epsilonSwitch order other := by
  rw [epsilonAt_le_iff, epsilonSwitch, le_div_iff₀ (gap_pos horder h)]

theorem epsilon_le_of_gt (hother : 1 < other.1) (h : other.1 < order.1) :
    epsilonAt delta order ≤ epsilonAt delta other ↔
      epsilonSwitch order other ≤ Real.log (1 / delta) := by
  rw [epsilonAt_le_iff, epsilonSwitch, div_le_iff_of_neg (gap_neg hother h)]

theorem optimalSwitch_comm : optimalSwitch order other = optimalSwitch other order := by
  rw [optimalSwitch, optimalSwitch, gap, gap, ← neg_sub other.2, ← neg_sub (1 / (other.1 - 1)),
    neg_div_neg_eq]

theorem earlier_iff (horder : 1 < order.1) (hother : 1 < other.1)
    (hsame : other.1 = order.1 → other.2 = order.2) :
    optimalEpsilonAt delta order < optimalEpsilonAt delta other ↔
      order.1 < other.1 ∧ optimalSwitch order other < Real.log (1 / delta) ∨
        other.1 < order.1 ∧ Real.log (1 / delta) < optimalSwitch order other := by
  rcases lt_trichotomy order.1 other.1 with hlt | heq | hgt
  · simp [optimal_lt_of_lt horder hlt, hlt, hlt.not_gt]
  · obtain rfl : order = other := Prod.ext heq (hsame heq.symm).symm
    simp
  · simp [optimal_lt_of_gt hother hgt, hgt, hgt.not_gt]

theorem later_iff (horder : 1 < order.1) (hother : 1 < other.1)
    (hsame : other.1 = order.1 → other.2 = order.2) :
    optimalEpsilonAt delta order ≤ optimalEpsilonAt delta other ↔
      (order.1 < other.1 → optimalSwitch order other ≤ Real.log (1 / delta)) ∧
        (other.1 < order.1 → Real.log (1 / delta) ≤ optimalSwitch order other) := by
  rw [← not_lt, earlier_iff hother horder fun h => (hsame h.symm).symm, optimalSwitch_comm]
  simp only [not_or, not_and, not_lt]
  exact and_comm

theorem counted_iff (horder : 1 < order.1) (hother : 1 < other.1)
    (hsame : other.1 = order.1 → other.2 = order.2) :
    epsilonAt delta order ≤ epsilonAt delta other ↔
      (order.1 < other.1 → Real.log (1 / delta) ≤ epsilonSwitch order other) ∧
        (other.1 < order.1 → epsilonSwitch order other ≤ Real.log (1 / delta)) := by
  rcases lt_trichotomy order.1 other.1 with hlt | heq | hgt
  · simp [epsilon_le_of_lt horder hlt, hlt, hlt.not_gt]
  · obtain rfl : order = other := Prod.ext heq (hsame heq.symm).symm
    simp
  · simp [epsilon_le_of_gt hother hgt, hgt, hgt.not_gt]

/-- In its window an order is the first least one of `get_optimal_order`, and `get_epsilon` takes
it. -/
theorem inWindow_iff {before after : List (ℝ × ℝ)}
    (hsame : ∀ other ∈ before ++ order :: after, other.1 = order.1 → other.2 = order.2) :
    InWindow (Real.log (1 / delta)) before order after ↔
      (1 < order.1 ∧
        (∀ other ∈ before, 1 < other.1 →
          optimalEpsilonAt delta order < optimalEpsilonAt delta other) ∧
        ∀ other ∈ after, 1 < other.1 →
          optimalEpsilonAt delta order ≤ optimalEpsilonAt delta other) ∧
      0 < epsilonAt delta order ∧ ∀ other ∈ before ++ order :: after, Counted delta other →
        epsilonAt delta order ≤ epsilonAt delta other := by
  have hbefore : ∀ other ∈ before, other.1 = order.1 → other.2 = order.2 :=
    fun other h => hsame other (by simp [h])
  have hafter : ∀ other ∈ after, other.1 = order.1 → other.2 = order.2 :=
    fun other h => hsame other (by simp [h])
  constructor
  · intro h
    refine ⟨⟨h.one_lt, fun other hmem hother => ?_, fun other hmem hother => ?_⟩,
      (epsilonAt_pos_iff h.one_lt).2 h.onset_lt, fun other hmem hcounted => ?_⟩
    · exact (earlier_iff h.one_lt hother (hbefore other hmem)).2 (h.earlier other hmem hother)
    · exact (later_iff h.one_lt hother (hafter other hmem)).2 (h.later other hmem hother)
    · exact (counted_iff h.one_lt hcounted.1 (hsame other hmem)).2
        (h.counted other hmem hcounted.1 ((epsilonAt_pos_iff hcounted.1).1 hcounted.2))
  · rintro ⟨⟨horder, hearlier, hlater⟩, hpos, hcounted⟩
    refine ⟨horder, (epsilonAt_pos_iff horder).1 hpos, fun other hmem hother => ?_,
      fun other hmem hother => ?_, fun other hmem hother honset => ?_⟩
    · exact (earlier_iff horder hother (hbefore other hmem)).1 (hearlier other hmem hother)
    · exact (later_iff horder hother (hafter other hmem)).1 (hlater other hmem hother)
    · exact (counted_iff horder hother (hsame other hmem)).1
        (hcounted other hmem ⟨hother, (epsilonAt_pos_iff hother).2 honset⟩)

end Switch

end RDPAccountant

open RDPAccountant

section Example

end Example

end

end GossipRl
