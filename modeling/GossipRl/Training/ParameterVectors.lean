import GossipRl.Training.Networks

/-!
# Vectors of parameters and gradients

The functions that set a vector notice that it is too short only at the parameter where it ends, when
those before it are written, and do not notice that it is too long. So a vector of the wrong length
is rejected with nothing changed only if it is too short and what is written before was there
already (`VectorSlot.Stops`). A vector of the right length is read back as it was set; but
`get_parameter_vector` has nothing to concatenate for a model without parameters.
-/

namespace GossipRl
open Support

variable {K : Type*}

namespace VectorSlot
variable {f : VectorSlot K} {vector : List K} {offset : Nat} {p : Param K} {params : List (Param K)}
  {a : NdArray K}

/-- The vector ends within the slot of a parameter, and those before have its entries already. -/
def Stops (f : VectorSlot K) (vector : List K) (params : List (Param K)) : Prop :=
  ∃ pre p post, params = pre ++ p :: post ∧ f.get p ≠ none ∧ f.numel pre ≤ vector.length ∧
    vector.length < f.numel pre + p.numel ∧ f.entries pre = vector.take (f.numel pre)

theorem Stops.length_lt (h : f.Stops vector params) : vector.length < f.numel params := by
  obtain ⟨pre, p, post, rfl, hp, -, hlt, -⟩ := h
  have hnumel : f.numel (pre ++ p :: post) = f.numel pre + (p.numel + f.numel post) := by
    obtain ⟨a, ha⟩ := Option.ne_none_iff_exists'.1 hp
    rw [← numel_cons_of_some ha]
    simp [numel]
  omega

theorem stops_cons_of_none (h : f.get p = none) :
    f.Stops vector (p :: params) ↔ f.Stops vector params := by
  constructor
  · rintro ⟨_ | ⟨p', pre⟩, q, post, heq, hq, hle, hlt, hentries⟩
    · obtain ⟨rfl, rfl⟩ := List.cons.inj heq
      exact absurd h hq
    · obtain ⟨rfl, rfl⟩ := List.cons.inj heq
      rw [numel_cons_of_none h] at hle hlt hentries
      rw [entries_cons_of_none h] at hentries
      exact ⟨pre, q, post, rfl, hq, hle, hlt, hentries⟩
  · rintro ⟨pre, q, post, rfl, hq, hle, hlt, hentries⟩
    refine ⟨p :: pre, q, post, rfl, hq, ?_, ?_, ?_⟩
    · rwa [numel_cons_of_none h]
    · rwa [numel_cons_of_none h]
    · rwa [numel_cons_of_none h, entries_cons_of_none h]

theorem stops_cons_of_short (h : f.get p = some a) (hlen : vector.length < p.numel) :
    f.Stops vector (p :: params) := by
  refine ⟨[], p, params, rfl, by simp [h], Nat.zero_le _, ?_, rfl⟩
  show vector.length < 0 + p.numel
  omega

theorem stops_cons_of_le (h : f.get p = some a) (hshape : a.shape = p.data.shape)
    (hlen : p.numel ≤ vector.length) : f.Stops vector (p :: params) ↔
      a.toList = vector.take p.numel ∧ f.Stops (vector.drop p.numel) params := by
  have hlength : a.toList.length = (vector.take p.numel).length := by
    rw [NdArray.length_toList, hshape, List.length_take, ← Param.numel]
    omega
  constructor
  · rintro ⟨_ | ⟨p', pre⟩, q, post, heq, hq, hle, hlt, hentries⟩
    · obtain ⟨rfl, rfl⟩ := List.cons.inj heq
      change vector.length < 0 + p.numel at hlt
      omega
    · obtain ⟨rfl, rfl⟩ := List.cons.inj heq
      rw [numel_cons_of_some h] at hle hlt hentries
      rw [entries_cons_of_some h, List.take_add] at hentries
      obtain ⟨hfirst, hrest⟩ := List.append_inj hentries hlength
      refine ⟨hfirst, pre, q, post, rfl, hq, ?_, ?_, hrest⟩
      · rw [List.length_drop]
        omega
      · rw [List.length_drop]
        omega
  · rintro ⟨hfirst, pre, q, post, rfl, hq, hle, hlt, hrest⟩
    rw [List.length_drop] at hle hlt
    refine ⟨p :: pre, q, post, rfl, hq, ?_, ?_, ?_⟩
    · rw [numel_cons_of_some h]
      omega
    · rw [numel_cons_of_some h]
      omega
    · rw [numel_cons_of_some h, entries_cons_of_some h, List.take_add, hfirst, hrest]

/-- What is written into a slot was there exactly if it has the entries of that. -/
theorem put_eq_self_iff (hf : f.Lawful) {b : NdArray K} (h : f.get p = some a)
    (hshape : a.shape = b.shape) : f.put b p = p ↔ a.toList = b.toList := by
  constructor
  · intro heq
    have hget := hf.get_put b p (by simp [h])
    rw [heq, h] at hget
    rw [Option.some.inj hget]
  · intro hlist
    refine hf.put_get b p (h.trans ?_)
    rw [← NdArray.reshape_eq_some_iff.2 ⟨hshape, hlist⟩, NdArray.reshape_eq_some_iff]
    exact ⟨rfl, rfl⟩

theorem writeFrom_eq_iff (hf : f.Lawful) (hshaped : f.Shaped params) :
    f.writeFrom vector offset params = (params, false) ↔ f.Stops (vector.drop offset) params := by
  induction params generalizing offset with
  | nil =>
    refine iff_of_false (by simp [writeFrom]) ?_
    rintro ⟨_ | _, _, _, ⟨⟩, -⟩
  | cons p params ih =>
    cases hp : f.get p with
    | none =>
      rw [writeFrom_cons_of_none hp, stops_cons_of_none hp, ← ih hshaped.of_cons]
      simp [Prod.ext_iff]
    | some a =>
      have hshape := hshaped p (List.mem_cons_self ..) a hp
      by_cases hlen : vector.length - offset < p.numel
      · rw [writeFrom_cons_of_short hp hlen]
        exact iff_of_true rfl (stops_cons_of_short hp (by rwa [List.length_drop]))
      · obtain ⟨b, hb, hlist, hwrite⟩ := writeFrom_cons_of_le params hp
          (Nat.le_of_not_lt hlen)
        rw [hwrite, stops_cons_of_le hp hshape (by rw [List.length_drop]; omega), List.drop_drop,
          ← ih hshaped.of_cons, ← hlist, ← put_eq_self_iff hf hp (hshape.trans hb.symm)]
        simp [Prod.ext_iff, and_assoc]

theorem writeFrom_entries (hf : f.Lawful) (hshaped : f.Shaped params)
    (hvector : (vector.drop offset).take (f.numel params) = f.entries params) :
    f.writeFrom vector offset params = (params, true) := by
  induction params generalizing offset with
  | nil => rfl
  | cons p params ih =>
    cases hp : f.get p with
    | none =>
      rw [numel_cons_of_none hp, entries_cons_of_none hp] at hvector
      rw [writeFrom_cons_of_none hp, ih hshaped.of_cons hvector]
    | some a =>
      have hshape := hshaped p (List.mem_cons_self ..) a hp
      rw [numel_cons_of_some hp, entries_cons_of_some hp, List.take_add, List.drop_drop] at hvector
      have hlength : a.toList.length = p.numel := by
        rw [NdArray.length_toList, hshape, Param.numel]
      have hle : p.numel ≤ vector.length - offset := by
        have hlen := congrArg List.length hvector
        simp only [List.length_append, List.length_take, List.length_drop, hlength] at hlen
        rw [length_entries hshaped.of_cons] at hlen
        omega
      obtain ⟨hfirst, hrest⟩ := List.append_inj hvector (by
        rw [List.length_take, List.length_drop, hlength]
        omega)
      obtain ⟨b, hb, hlist, hwrite⟩ := writeFrom_cons_of_le params hp hle
      rw [hwrite, ih hshaped.of_cons hrest,
        (put_eq_self_iff hf hp (hshape.trans hb.symm)).2 (hfirst.symm.trans hlist.symm)]

theorem length_writeFrom : (f.writeFrom vector offset params).1.length = params.length := by
  induction params generalizing offset with
  | nil => rfl
  | cons p params ih =>
    cases hp : f.get p with
    | none =>
      rw [writeFrom_cons_of_none hp, List.length_cons, ih, List.length_cons]
    | some a =>
      by_cases hlen : vector.length - offset < p.numel
      · rw [writeFrom_cons_of_short hp hlen]
      · obtain ⟨b, -, -, hwrite⟩ := writeFrom_cons_of_le params hp
          (Nat.le_of_not_lt hlen)
        rw [hwrite, List.length_cons, ih, List.length_cons]

theorem writeFrom_of_none {i : Nat} (hi : params[i]? = some p) (hp : f.get p = none) :
    (f.writeFrom vector offset params).1[i]? = some p := by
  induction params generalizing offset i with
  | nil => cases hi
  | cons q params ih =>
    cases hq : f.get q with
    | none =>
      rw [writeFrom_cons_of_none hq]
      cases i with
      | zero => exact hi
      | succ i => exact ih hi
    | some a =>
      by_cases hlen : vector.length - offset < q.numel
      · rwa [writeFrom_cons_of_short hq hlen]
      · obtain ⟨b, -, -, hwrite⟩ := writeFrom_cons_of_le params hq
          (Nat.le_of_not_lt hlen)
        rw [hwrite]
        cases i with
        | zero =>
          obtain rfl := Option.some.inj hi
          cases hq.symm.trans hp
        | succ i => exact ih hi

end VectorSlot

/-- A vector is rejected with nothing changed exactly if it ends within a parameter (one that has a
gradient), and those before have its entries already. -/
theorem vector_rejected_iff {params : List (Param K)} {vector : List K}
    (hshaped : VectorSlot.grad.Shaped params) :
    (setParameterVector vector params = (params, false) ↔ VectorSlot.data.Stops vector params) ∧
    (setGradientVector vector params = (params, false) ↔ VectorSlot.grad.Stops vector params) := by
  constructor
  · exact VectorSlot.writeFrom_eq_iff VectorSlot.lawful_data (VectorSlot.shaped_data params)
  · rw [setGradientVector_eq]
    exact VectorSlot.writeFrom_eq_iff VectorSlot.lawful_grad hshaped

section Example

/-- Parameters with one and with two entries. -/
def twoParams : List (Param Int) :=
  [{ data := .ofList [1], grad := some (.ofList [10]) },
    { data := .ofList [2, 3], grad := some (.ofList [20, 30]) }]

theorem shaped_twoParams : VectorSlot.grad.Shaped twoParams := by
  intro p hp a ha
  rcases List.mem_pair.1 hp with rfl | rfl
  · obtain rfl := Option.some.inj ha
    rfl
  · obtain rfl := Option.some.inj ha
    rfl

theorem vector_rejected_iff_twoParams :
    setParameterVector [1, 9] twoParams = (twoParams, false) ∧
    setGradientVector [10] twoParams = (twoParams, false) := by
  constructor
  · refine (vector_rejected_iff shaped_twoParams).1.2 ?_
    exact ⟨[_], _, [], rfl, nofun, by decide, by decide, by decide⟩
  · refine (vector_rejected_iff shaped_twoParams).2.2 ?_
    exact ⟨[_], _, [], rfl, nofun, by decide, by decide, by decide⟩

/-- Of a vector that is too long the end is cut; one that is too short has been written into the first
parameter when it is rejected. -/
theorem wrong_length_written :
    (setParameterVector [7, 8, 9, 6] twoParams).2 = true ∧
    VectorSlot.data.entries (setParameterVector [7, 8, 9, 6] twoParams).1 = [7, 8, 9] ∧
    (setGradientVector [7, 8, 9, 6] twoParams).2 = true ∧
    getGradientVector (setGradientVector [7, 8, 9, 6] twoParams).1 = [7, 8, 9] ∧
    (setParameterVector [7, 8] twoParams).2 = false ∧
    VectorSlot.data.entries (setParameterVector [7, 8] twoParams).1 = [7, 2, 3] ∧
    (setGradientVector [7, 8] twoParams).2 = false ∧
    getGradientVector (setGradientVector [7, 8] twoParams).1 = [7, 20, 30] ∧
    setParameterVector [7, 8] twoParams ≠ (twoParams, false) ∧
    setGradientVector [7, 8] twoParams ≠ (twoParams, false) := by
  refine ⟨by decide, by decide, by decide, by decide, by decide, by decide, by decide, by decide, ?_, ?_⟩
  · intro h
    have hentries := congrArg (fun r => VectorSlot.data.entries r.1) h
    exact absurd hentries (by decide)
  · intro h
    have hentries := congrArg (fun r => getGradientVector r.1) h
    exact absurd hentries (by decide)

end Example

/-- A vector of gradients is read back as it was set, parameters without one are left alone, and
setting what was read changes nothing. -/
def GradientRoundTrip (params : List (Param K)) : Prop :=
  (∀ gradient, gradient.length = gradNumel params →
    (setGradientVector gradient params).2 = true ∧
      getGradientVector (setGradientVector gradient params).1 = gradient ∧
      ∀ (i : Nat) (p : Param K), params[i]? = some p → p.grad = none →
        (setGradientVector gradient params).1[i]? = some p) ∧
  setGradientVector (getGradientVector params) params = (params, true)

/-- A vector of parameters is read back as it was set, and setting what was read changes nothing. -/
def ParameterRoundTrip (params : List (Param K)) : Prop :=
  (∀ parameters, parameters.length = (params.map Param.numel).sum →
    (setParameterVector parameters params).2 = true ∧
      getParameterVector (setParameterVector parameters params).1 = some parameters) ∧
  ∃ parameters, getParameterVector params = some parameters ∧
    setParameterVector parameters params = (params, true)

theorem gradientRoundTrip {params : List (Param K)} (hshaped : VectorSlot.grad.Shaped params) :
    GradientRoundTrip params := by
  constructor
  · intro gradient hlen
    obtain ⟨hreturns, hget⟩ := getGradientVector_setGradientVector hlen
    refine ⟨hreturns, hget, fun i p hi hp => ?_⟩
    rw [setGradientVector_eq]
    exact VectorSlot.writeFrom_of_none hi hp
  · rw [setGradientVector_eq]
    refine VectorSlot.writeFrom_entries VectorSlot.lawful_grad hshaped ?_
    exact List.take_of_length_le (length_getGradientVector hshaped).le

theorem VectorSlot.numel_data (params : List (Param K)) :
    VectorSlot.data.numel params = (params.map Param.numel).sum := by
  simp [VectorSlot.numel, VectorSlot.data]

theorem parameterRoundTrip {params : List (Param K)} (h : params ≠ []) :
    ParameterRoundTrip params := by
  constructor
  · intro parameters hlen
    have hle : 0 + VectorSlot.data.numel params ≤ parameters.length := by
      rw [Nat.zero_add, VectorSlot.numel_data, hlen]
    obtain ⟨hreturns, hget⟩ := VectorSlot.writeFrom_spec VectorSlot.lawful_data hle
    refine ⟨hreturns, ?_⟩
    have hne : (setParameterVector parameters params).1 ≠ [] := by
      rw [← List.length_pos_iff, setParameterVector, VectorSlot.length_writeFrom]
      exact List.length_pos_iff.2 h
    rw [getParameterVector, if_neg hne]
    refine congrArg some (hget.trans ?_)
    rw [List.drop_zero]
    exact List.take_of_length_le (by rw [VectorSlot.numel_data, hlen])
  · refine ⟨_, if_neg h, VectorSlot.writeFrom_entries VectorSlot.lawful_data
      (VectorSlot.shaped_data params) ?_⟩
    rw [List.drop_zero]
    exact List.take_of_length_le (VectorSlot.length_entries (VectorSlot.shaped_data params)).le

/-- Gradients and parameters are read back as they were set exactly if the model has parameters. -/
theorem vector_round_trip_iff {params : List (Param K)} (hshaped : VectorSlot.grad.Shaped params) :
    GradientRoundTrip params ∧ ParameterRoundTrip params ↔ params ≠ [] := by
  constructor
  · rintro ⟨-, -, parameters, hget, -⟩ rfl
    cases hget
  · exact fun h => ⟨gradientRoundTrip hshaped, parameterRoundTrip h⟩

section Example

theorem vector_round_trip_iff_twoParams :
    GradientRoundTrip twoParams ∧ ParameterRoundTrip twoParams :=
  (vector_round_trip_iff shaped_twoParams).2 (by simp [twoParams])

/-- A model without parameters has no vector of them, though the empty vector can be set. -/
theorem no_parameters_raise :
    ([] : List Int).length = (([] : List (Param Int)).map Param.numel).sum ∧
    (setParameterVector ([] : List Int) []).2 = true ∧
    getParameterVector (setParameterVector ([] : List Int) []).1 = none ∧
    ¬ ParameterRoundTrip ([] : List (Param Int)) := by
  refine ⟨rfl, rfl, rfl, ?_⟩
  rintro ⟨-, parameters, hget, -⟩
  cases hget

end Example

end GossipRl
