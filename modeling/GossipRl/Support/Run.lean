import Mathlib.Data.List.Basic
import Mathlib.Data.List.Induction
import Mathlib.Data.List.Perm.Basic
import Mathlib.Data.Set.Insert

/-!
# Runs of a partial step function

`run step s es` feeds the events `es` to a partial step function from `s`; it is `none` as soon as
one event is not possible. `Along step cond s es` says that `cond` holds at every step that the run
takes, read in the state before the step, and `Since step C R s es` that `C` did at some step which
no event of `R` follows. The induction rules go over runs event by event, at the end of the run,
since what a run has done so far is what an invariant talks about. `observe step f s es` is what `f`
sees of the steps. `mem_set_of_ne`, `forall_mem_set` and `filterMap_set_perm` are for states
with a list of tasks, one of which goes on; `mapM_of_forall_some` and `mapM_of_exists_none` say when
a loop over a list does not raise.
-/

namespace Support

variable {σ ε : Type*} {step : σ → ε → Option σ} {s₀ s s' : σ} {es es' : List ε} {e : ε}

/-- The state after the events `es`, if each of them was possible. -/
def run (step : σ → ε → Option σ) (s : σ) (es : List ε) : Option σ := es.foldlM step s

@[simp] theorem run_nil : run step s [] = some s := rfl

theorem run_cons : run step s (e :: es) = (step s e).bind fun s' => run step s' es := by
  simp [run]

theorem run_append : run step s (es ++ es') = (run step s es).bind fun s' => run step s' es' := by
  simp [run, List.foldlM_append]

theorem run_concat : run step s (es ++ [e]) = (run step s es).bind fun s' => step s' e := by
  rw [run_append]; congr 1; funext s'; simp [run_cons]

theorem run_concat_eq_some :
    run step s₀ (es ++ [e]) = some s' ↔ ∃ s, run step s₀ es = some s ∧ step s e = some s' := by
  rw [run_concat, Option.bind_eq_some_iff]

theorem run_append_eq_some :
    run step s₀ (es ++ es') = some s' ↔ ∃ s, run step s₀ es = some s ∧ run step s es' = some s' := by
  rw [run_append, Option.bind_eq_some_iff]

theorem run_of_append (h : run step s₀ (es ++ es') = some s') (hs : run step s₀ es = some s) :
    run step s es' = some s' := by
  obtain ⟨s₁, hs₁, hrest⟩ := run_append_eq_some.1 h
  obtain rfl := Option.some.inj (hs.symm.trans hs₁)
  exact hrest

theorem step_of_run (h : run step s₀ (es ++ e :: es') = some s') (hs : run step s₀ es = some s) :
    ∃ s₁, step s e = some s₁ := by
  have hrest := run_of_append h hs
  rw [run_cons, Option.bind_eq_some_iff] at hrest
  obtain ⟨s₁, hs₁, -⟩ := hrest
  exact ⟨s₁, hs₁⟩

/-- `cond` holds at every step of the run, in the state the step starts from. -/
def Along (step : σ → ε → Option σ) (cond : σ → ε → Prop) (s : σ) (es : List ε) : Prop :=
  ∀ es₁ e es₂ s₁, es = es₁ ++ e :: es₂ → run step s es₁ = some s₁ → cond s₁ e

namespace Along
variable {cond : σ → ε → Prop}

theorem nil : Along step cond s [] := fun es₁ e es₂ _ h => by simp at h

theorem unconditional : Along step (fun _ _ => True) s es := fun _ _ _ _ _ _ => trivial

theorem cons_iff : Along step cond s (e :: es) ↔
    cond s e ∧ ∀ s', step s e = some s' → Along step cond s' es := by
  constructor
  · intro h
    refine ⟨h [] e es s rfl rfl, fun s' hs' es₁ e₁ es₂ s₁ heq hs => ?_⟩
    exact h (e :: es₁) e₁ es₂ s₁ (by simp [heq]) (by simp [run_cons, hs', hs])
  · rintro ⟨he, h⟩ (_ | ⟨e₀, es₁⟩) e₁ es₂ s₁ heq hs
    · obtain ⟨rfl, -⟩ := List.cons.inj heq
      exact Option.some.inj hs ▸ he
    · obtain ⟨rfl, rfl⟩ := List.cons.inj heq
      rw [run_cons, Option.bind_eq_some_iff] at hs
      obtain ⟨s', hs', hs⟩ := hs
      exact h s' hs' es₁ e₁ es₂ s₁ rfl hs

theorem cons (he : cond s e) (hs : step s e = some s') (h : Along step cond s' es) :
    Along step cond s (e :: es) := by
  refine cons_iff.2 ⟨he, fun s'' hs'' => ?_⟩
  obtain rfl := Option.some.inj (hs.symm.trans hs'')
  exact h

theorem singleton (he : cond s e) : Along step cond s [e] := cons_iff.2 ⟨he, fun _ _ => nil⟩

theorem concat_iff : Along step cond s₀ (es ++ [e]) ↔
    Along step cond s₀ es ∧ ∀ s, run step s₀ es = some s → cond s e := by
  constructor
  · intro h
    exact ⟨fun es₁ e₁ es₂ s₁ heq hs => h es₁ e₁ (es₂ ++ [e]) s₁ (by simp [heq]) hs,
      fun s hs => h es e [] s rfl hs⟩
  · rintro ⟨h, he⟩ es₁ e₁ es₂ s₁ heq hs
    rcases List.eq_nil_or_concat es₂ with rfl | ⟨es₃, e₃, rfl⟩
    · obtain ⟨rfl, h₁⟩ := List.append_inj' heq rfl
      obtain rfl : e = e₁ := by simpa using h₁
      exact he s₁ hs
    · rw [List.concat_eq_append, ← List.cons_append, ← List.append_assoc] at heq
      exact h es₁ e₁ es₃ s₁ (List.append_inj' heq rfl).1 hs

theorem of_append (h : Along step cond s (es ++ es')) : Along step cond s es :=
  fun es₁ e es₂ s₁ heq hs => h es₁ e (es₂ ++ es') s₁ (by simp [heq]) hs

theorem of_run (h : Along step cond s₀ (es ++ es')) (hs : run step s₀ es = some s) :
    Along step cond s es' :=
  fun es₁ e es₂ s₁ heq hs₁ => h (es ++ es₁) e es₂ s₁ (by simp [heq])
    (run_append_eq_some.2 ⟨s, hs, hs₁⟩)

theorem congr {cond' : σ → ε → Prop}
    (h : ∀ es₁ e s₁, es₁ ++ [e] <+: es → run step s es₁ = some s₁ → (cond s₁ e ↔ cond' s₁ e)) :
    Along step cond s es ↔ Along step cond' s es := by
  have hpre : ∀ es₁ e es₂, es = es₁ ++ e :: es₂ → es₁ ++ [e] <+: es := by
    rintro es₁ e es₂ rfl
    exact ⟨es₂, by simp⟩
  constructor
  · intro hes es₁ e es₂ s₁ heq hs
    exact (h es₁ e s₁ (hpre es₁ e es₂ heq) hs).1 (hes es₁ e es₂ s₁ heq hs)
  · intro hes es₁ e es₂ s₁ heq hs
    exact (h es₁ e s₁ (hpre es₁ e es₂ heq) hs).2 (hes es₁ e es₂ s₁ heq hs)

/-- Conditions that agree wherever an invariant holds, which the steps that satisfy them keep. -/
theorem congr_invariant {cond' : σ → ε → Prop} {I : σ → Prop} (init : I s₀)
    (keep : ∀ s e s', I s → cond' s e → step s e = some s' → I s')
    (agree : ∀ s e, I s → (cond s e ↔ cond' s e)) :
    Along step cond s₀ es ↔ Along step cond' s₀ es := by
  induction es generalizing s₀ with
  | nil => exact ⟨fun _ => nil, fun _ => nil⟩
  | cons e es ih =>
    rw [cons_iff, cons_iff, agree s₀ e init]
    refine and_congr_right fun he => forall₂_congr fun s' hs' => ?_
    exact ih (keep s₀ e s' init he hs')

protected theorem and {cond' : σ → ε → Prop} (h : Along step cond s es)
    (h' : Along step cond' s es) : Along step (fun s e => cond s e ∧ cond' s e) s es :=
  fun es₁ e es₂ s₁ heq hs₁ => ⟨h es₁ e es₂ s₁ heq hs₁, h' es₁ e es₂ s₁ heq hs₁⟩

/-- A run on fixed events can be checked step by step. -/
instance decidable [∀ s e, Decidable (cond s e)] : ∀ s es, Decidable (Along step cond s es)
  | _, [] => isTrue nil
  | s, e :: es =>
    match h : step s e with
    | none => decidable_of_iff (cond s e) (by simp [cons_iff, h])
    | some s' =>
      have := decidable s' es
      decidable_of_iff (cond s e ∧ Along step cond s' es) (by simp [cons_iff, h])

end Along

theorem run_induction {C : σ → ε → Prop} {motive : List ε → σ → Prop} (nil : motive [] s₀)
    (concat : ∀ es s e s', run step s₀ es = some s → motive es s → C s e → step s e = some s' →
      motive (es ++ [e]) s')
    (hc : Along step C s₀ es) (h : run step s₀ es = some s) : motive es s := by
  induction es using List.reverseRecOn generalizing s with
  | nil => obtain rfl : s₀ = s := by simpa using h
           exact nil
  | append_singleton es e ih =>
    obtain ⟨s₁, h₁, h₂⟩ := run_concat_eq_some.1 h
    obtain ⟨hes, he⟩ := Along.concat_iff.1 hc
    exact concat es s₁ e s h₁ (ih hes h₁) (he s₁ h₁) h₂

theorem run_invariant {P : σ → Prop} (init : P s₀)
    (keep : ∀ s e s', P s → step s e = some s' → P s') (h : run step s₀ es = some s) : P s :=
  run_induction (motive := fun _ => P) init
    (fun _ s e s' _ hs _ hstep => keep s e s' hs hstep) .unconditional h

/-- A reflexive and transitive relation that links every step links the ends of a run. -/
theorem run_rel {R : σ → σ → Prop} {C : σ → ε → Prop} (refl : ∀ s, R s s)
    (trans : ∀ a b c, R a b → R b c → R a c)
    (link : ∀ s e s', C s e → step s e = some s' → R s s')
    (hc : Along step C s₀ es) (h : run step s₀ es = some s) : R s₀ s :=
  run_induction (motive := fun _ s => R s₀ s) (refl s₀)
    (fun _ s e s' _ hs hcond hstep => trans _ _ _ hs (link s e s' hcond hstep)) hc h

theorem map_run {f : σ → σ} (hff : ∀ s, f (f s) = f s)
    (hf : ∀ s e, (step s e).map f = (step (f s) e).map f) (s : σ) (es : List ε) :
    (run step s es).map f = (run step (f s) es).map f := by
  induction es generalizing s with
  | nil => simp [hff]
  | cons e es ih =>
    have he := hf s e
    simp only [run_cons]
    cases h₁ : step s e with
    | none =>
      rw [h₁, Option.map_none, eq_comm, Option.map_eq_none_iff] at he
      simp [he]
    | some s₁ =>
      rw [h₁, Option.map_some, eq_comm, Option.map_eq_some_iff] at he
      obtain ⟨s₂, h₂, heq⟩ := he
      rw [h₂, Option.bind_some, Option.bind_some, ih s₁, ih s₂, heq]

/-- `C` held at some step, and no event after that step has been one of `R`. -/
def Since (step : σ → ε → Option σ) (C : σ → ε → Prop) (R : ε → Prop) (s : σ) (es : List ε) : Prop :=
  ∃ es₁ e es₂ s₁, es = es₁ ++ e :: es₂ ∧ run step s es₁ = some s₁ ∧ C s₁ e ∧ ∀ e' ∈ es₂, ¬ R e'

namespace Since
variable {C : σ → ε → Prop} {R : ε → Prop}

theorem not_nil : ¬ Since step C R s [] := by
  rintro ⟨es₁, e, es₂, s₁, heq, -⟩
  simp at heq

theorem concat_iff (h : run step s₀ es = some s) :
    Since step C R s₀ (es ++ [e]) ↔ C s e ∨ ¬ R e ∧ Since step C R s₀ es := by
  constructor
  · rintro ⟨es₁, e₁, es₂, s₁, heq, hs₁, hC, hR⟩
    rcases List.eq_nil_or_concat es₂ with rfl | ⟨es₃, e₃, rfl⟩
    · obtain ⟨rfl, he⟩ := List.append_inj' heq rfl
      obtain rfl : e = e₁ := by simpa using he
      obtain rfl := Option.some.inj (h.symm.trans hs₁)
      exact .inl hC
    · rw [List.concat_eq_append, ← List.cons_append, ← List.append_assoc] at heq
      obtain ⟨rfl, he⟩ := List.append_inj' heq rfl
      obtain rfl : e = e₃ := by simpa using he
      exact .inr ⟨hR e (by simp), es₁, e₁, es₃, s₁, rfl, hs₁, hC, fun e' he' => hR e' (by simp [he'])⟩
  · rintro (hC | ⟨hRe, es₁, e₁, es₂, s₁, rfl, hs₁, hC, hR⟩)
    · exact ⟨es, e, [], s, rfl, h, hC, by simp⟩
    · refine ⟨es₁, e₁, es₂ ++ [e], s₁, by simp, hs₁, hC, fun e' he' => ?_⟩
      rcases List.mem_append.1 he' with he' | he'
      · exact hR e' he'
      · exact List.mem_singleton.1 he' ▸ hRe

end Since

/-- The values of `f` in the states of a run, the first and the last included. -/
def readings {β : Type*} (step : σ → ε → Option σ) (f : σ → β) (s : σ) (es : List ε) : Set β :=
  {x | ∃ es₁ s₁, es₁ <+: es ∧ run step s es₁ = some s₁ ∧ f s₁ = x}

section readings
variable {β : Type*} {f : σ → β}

theorem readings_nil : readings step f s [] = {f s} := by
  ext x
  constructor
  · rintro ⟨es₁, s₁, hpre, hs₁, rfl⟩
    obtain rfl := List.prefix_nil.1 hpre
    obtain rfl : s = s₁ := by simpa using hs₁
    rfl
  · rintro rfl
    exact ⟨[], s, List.prefix_rfl, rfl, rfl⟩

theorem readings_concat (h : run step s₀ (es ++ [e]) = some s') :
    readings step f s₀ (es ++ [e]) = insert (f s') (readings step f s₀ es) := by
  ext x
  constructor
  · rintro ⟨es₁, s₁, hpre, hs₁, rfl⟩
    rcases List.prefix_concat_iff.1 hpre with rfl | hpre
    · obtain rfl := Option.some.inj (h.symm.trans hs₁)
      exact .inl rfl
    · exact .inr ⟨es₁, s₁, hpre, hs₁, rfl⟩
  · rintro (rfl | ⟨es₁, s₁, hpre, hs₁, rfl⟩)
    · exact ⟨es ++ [e], s', List.prefix_rfl, h, rfl⟩
    · exact ⟨es₁, s₁, hpre.trans (List.prefix_append ..), hs₁, rfl⟩

theorem mem_readings (h : run step s₀ es = some s) : f s ∈ readings step f s₀ es :=
  ⟨es, s, List.prefix_rfl, h, rfl⟩

end readings

/-- What `f` sees of the steps of a run. -/
def observe {β : Type*} (step : σ → ε → Option σ) (f : σ → ε → Option β) : σ → List ε → List β
  | _, [] => []
  | s, e :: es =>
    (f s e).toList ++ match step s e with
      | none => []
      | some s' => observe step f s' es

theorem observe_concat {β : Type*} {f : σ → ε → Option β} (h : run step s₀ es = some s) :
    observe step f s₀ (es ++ [e]) = observe step f s₀ es ++ (f s e).toList := by
  induction es generalizing s₀ with
  | nil =>
    obtain rfl : s₀ = s := by simpa using h
    cases hs : step s₀ e <;> simp [observe, hs]
  | cons e₀ es ih =>
    rw [run_cons, Option.bind_eq_some_iff] at h
    obtain ⟨s₁, h₁, h⟩ := h
    rw [List.cons_append, observe, observe, h₁]
    simp only
    rw [ih h, List.append_assoc]

theorem length_observe_le {β : Type*} (step : σ → ε → Option σ) (f : σ → ε → Option β) (s : σ)
    (es : List ε) :
    (observe step f s es).length ≤ es.length := by
  induction es generalizing s with
  | nil => exact le_rfl
  | cons e es ih =>
    have hone : (f s e).toList.length ≤ 1 := by cases f s e <;> simp
    rw [observe, List.length_append, List.length_cons]
    cases step s e with
    | none => simpa using hone.trans (Nat.le_add_left 1 es.length)
    | some s' =>
      have hrest := ih s'
      dsimp only
      omega

theorem observe_append_of_none {β : Type*} {f : σ → ε → Option β} (h : run step s₀ es = none) :
    observe step f s₀ (es ++ es') = observe step f s₀ es := by
  induction es generalizing s₀ with
  | nil => cases h
  | cons e₀ es ih =>
    rw [run_cons, Option.bind_eq_none_iff] at h
    rw [List.cons_append, observe, observe]
    cases hs : step s₀ e₀ with
    | none => rfl
    | some s₁ =>
      simp only
      rw [ih (h s₁ hs)]

theorem mem_set_of_ne {α : Type*} {tasks : List α} {t : Nat} {a a₀ a' : α} (ha : a ∈ tasks)
    (ht : tasks[t]? = some a₀) (hne : a ≠ a₀) : a ∈ tasks.set t a' := by
  obtain ⟨i, hi⟩ := List.mem_iff_getElem?.1 ha
  have hti : t ≠ i := by
    rintro rfl
    exact hne (Option.some.inj (hi.symm.trans ht))
  exact List.mem_of_getElem? (by rw [List.getElem?_set_ne hti]; exact hi)

theorem forall_mem_set {α : Type*} {P : α → Prop} {tasks : List α} {t : Nat} {a' : α}
    (h : ∀ a ∈ tasks, P a) (ha' : P a') : ∀ a ∈ tasks.set t a', P a := by
  intro a ha
  rcases List.mem_or_eq_of_mem_set ha with ha | rfl
  · exact h a ha
  · exact ha'

theorem filterMap_concat {α β : Type*} (f : α → Option β) (l : List α) (a : α) :
    (l ++ [a]).filterMap f = l.filterMap f ++ (f a).toList := by
  cases h : f a <;> simp [h]

theorem filterMap_append_toList {α β : Type*} (f : α → Option β) (l : List α) (a : Option α) :
    (l ++ a.toList).filterMap f = l.filterMap f ++ (a.bind f).toList := by
  cases a with
  | none => simp
  | some a => exact filterMap_concat f l a

theorem filterMap_sublist_map {α β : Type*} {f : α → Option β} {g : α → β} {l : List α}
    (h : ∀ a ∈ l, ∀ b, f a = some b → b = g a) : (l.filterMap f).Sublist (l.map g) := by
  induction l with
  | nil => exact .slnil
  | cons a l ih =>
    have hrest := ih fun a' ha' => h a' (List.mem_cons_of_mem a ha')
    cases ha : f a with
    | none =>
      rw [List.filterMap_cons_none ha]
      exact hrest.cons _
    | some b =>
      rw [List.filterMap_cons_some ha, h a (List.mem_cons_self ..) b ha]
      exact hrest.cons_cons _

theorem filterMap_set_perm {α β : Type*} {f : α → Option β} {tasks : List α} {t : Nat} {a : α}
    (ht : tasks[t]? = some a) : ∃ rest : List β,
      (tasks.filterMap f).Perm ((f a).toList ++ rest) ∧
      ∀ a', ((tasks.set t a').filterMap f).Perm ((f a').toList ++ rest) := by
  obtain ⟨hlt, rfl⟩ := List.getElem?_eq_some_iff.1 ht
  have cons : ∀ (b : α) (l : List α),
      (b :: l).filterMap f = (f b).toList ++ l.filterMap f := by
    intro b l
    cases hb : f b <;> simp [hb]
  refine ⟨(tasks.eraseIdx t).filterMap f, ?_, ?_⟩
  · rw [← cons]
    exact (List.getElem_cons_eraseIdx_perm hlt).symm.filterMap f
  · intro a'
    rw [← cons]
    exact (List.set_perm_cons_eraseIdx hlt a').filterMap f

theorem mapM_of_forall_some {α β : Type*} {f : α → Option β} {g : α → β} {l : List α}
    (h : ∀ x ∈ l, f x = some (g x)) : l.mapM f = some (l.map g) := by
  induction l with
  | nil => rfl
  | cons x l ih =>
    rw [List.mapM_cons, h x (by simp), ih fun y hy => h y (by simp [hy])]
    rfl

theorem mapM_of_exists_none {α β : Type*} {f : α → Option β} {l : List α} {x : α} (hx : x ∈ l)
    (h : f x = none) : l.mapM f = none := by
  induction l with
  | nil => cases hx
  | cons y l ih =>
    rw [List.mapM_cons]
    rcases List.mem_cons.1 hx with rfl | hx
    · rw [h]; rfl
    · rw [ih hx]; cases f y <;> rfl

end Support
