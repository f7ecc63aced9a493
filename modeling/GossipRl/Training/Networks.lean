import GossipRl.Support.NdArray
import Mathlib.Algebra.Ring.Nat

/-!
# Parameters and their gradients (`training/networks.py`)

A parameter has values and, once `backward` has reached it, a gradient. The vector functions go
over the parameters that have one, or over all of them; what they have in common is said of a `VectorSlot`,
the part of a parameter that they read and write.
-/

namespace GossipRl
open Support

structure Param (K : Type*) where
  data : NdArray K
  grad : Option (NdArray K) := none

variable {K : Type*}

def Param.numel (p : Param K) : Nat := p.data.shape.prod

def getGradientVector (params : List (Param K)) : List K :=
  params.flatMap fun p => p.grad.elim [] NdArray.toList

/-- The loop of `set_gradient_vector` from `offset` on, and whether it gets to the end: it raises
where the vector is too short, with the gradients up to there replaced. -/
def setGradientVectorFrom (gradient : List K) : Nat → List (Param K) → List (Param K) × Bool
  | _, [] => ([], true)
  | offset, p :: params =>
    match p.grad with
    | none =>
      let rest := setGradientVectorFrom gradient offset params
      (p :: rest.1, rest.2)
    | some _ =>
      match NdArray.reshape p.data.shape ((gradient.drop offset).take p.numel) with
      | none => (p :: params, false)
      | some grad =>
        let rest := setGradientVectorFrom gradient (offset + p.numel) params
        ({ p with grad := some grad } :: rest.1, rest.2)

def setGradientVector (gradient : List K) (params : List (Param K)) : List (Param K) × Bool :=
  setGradientVectorFrom gradient 0 params

/-- A part of a parameter, if it has it, and how it is overwritten. -/
structure VectorSlot (K : Type*) where
  get : Param K → Option (NdArray K)
  put : NdArray K → Param K → Param K

namespace VectorSlot

def grad : VectorSlot K := ⟨Param.grad, fun a p => { p with grad := some a }⟩

def data : VectorSlot K := ⟨fun p => some p.data, fun a p => { p with data := a }⟩

/-- The entries of the slots that there are, in order. -/
def entries (f : VectorSlot K) (params : List (Param K)) : List K :=
  params.flatMap fun p => (f.get p).elim [] NdArray.toList

/-- The number of entries that `writeFrom` asks for. -/
def numel (f : VectorSlot K) (params : List (Param K)) : Nat :=
  (params.map fun p => if (f.get p).isSome then p.numel else 0).sum

/-- The loop of the functions that set a vector, from `offset` on, and whether it gets to the end. -/
def writeFrom (f : VectorSlot K) (vector : List K) : Nat → List (Param K) → List (Param K) × Bool
  | _, [] => ([], true)
  | offset, p :: params =>
    match f.get p with
    | none =>
      let rest := f.writeFrom vector offset params
      (p :: rest.1, rest.2)
    | some _ =>
      match NdArray.reshape p.data.shape ((vector.drop offset).take p.numel) with
      | none => (p :: params, false)
      | some a =>
        let rest := f.writeFrom vector (offset + p.numel) params
        (f.put a p :: rest.1, rest.2)

end VectorSlot

/-- `none` for a model without parameters: there is nothing to concatenate. -/
def getParameterVector (params : List (Param K)) : Option (List K) :=
  if params = [] then none else some (VectorSlot.data.entries params)

def setParameterVector (parameters : List K) (params : List (Param K)) : List (Param K) × Bool :=
  VectorSlot.data.writeFrom parameters 0 params

theorem setGradientVectorFrom_eq (gradient : List K) (offset : Nat) (params : List (Param K)) :
    setGradientVectorFrom gradient offset params = VectorSlot.grad.writeFrom gradient offset params := by
  induction params generalizing offset with
  | nil => rfl
  | cons p params ih =>
    simp only [setGradientVectorFrom, VectorSlot.writeFrom, ih]
    rfl

theorem setGradientVector_eq (gradient : List K) (params : List (Param K)) :
    setGradientVector gradient params = VectorSlot.grad.writeFrom gradient 0 params :=
  setGradientVectorFrom_eq gradient 0 params

/-- `zero_grad`. -/
def zeroGrad (params : List (Param K)) : List (Param K) := params.map fun p => { p with grad := none }

@[simp] theorem zeroGrad_zeroGrad (params : List (Param K)) :
    zeroGrad (zeroGrad params) = zeroGrad params := by
  simp [zeroGrad]

theorem map_data_zeroGrad (params : List (Param K)) :
    (zeroGrad params).map (·.data) = params.map (·.data) := by
  simp [zeroGrad]

/-- Without the gradients only the values are left. -/
theorem zeroGrad_eq_iff {params params' : List (Param K)} :
    zeroGrad params = zeroGrad params' ↔ params.map (·.data) = params'.map (·.data) := by
  constructor
  · intro h
    rw [← map_data_zeroGrad, h, map_data_zeroGrad]
  · intro h
    have of_data : ∀ ps : List (Param K), zeroGrad ps = (ps.map (·.data)).map fun d => { data := d } := by
      intro ps
      simp [zeroGrad]
    rw [of_data, of_data, h]

theorem zeroGrad_setGradientVectorFrom (gradient : List K) (offset : Nat) (params : List (Param K)) :
    zeroGrad (setGradientVectorFrom gradient offset params).1 = zeroGrad params := by
  induction params generalizing offset with
  | nil => rfl
  | cons p params ih =>
    unfold setGradientVectorFrom
    split
    · simpa [zeroGrad] using ih offset
    · split
      · rfl
      · simpa [zeroGrad] using ih (offset + p.numel)

@[simp] theorem zeroGrad_setGradientVector (gradient : List K) (params : List (Param K)) :
    zeroGrad (setGradientVector gradient params).1 = zeroGrad params :=
  zeroGrad_setGradientVectorFrom gradient 0 params

@[simp] theorem getGradientVector_zeroGrad (params : List (Param K)) :
    getGradientVector (zeroGrad params) = [] := by
  simp [getGradientVector, zeroGrad]

theorem setGradientVector_zeroGrad (gradient : List K) (params : List (Param K)) :
    setGradientVector gradient (zeroGrad params) = (zeroGrad params, true) := by
  have from_offset : ∀ offset, setGradientVectorFrom gradient offset (zeroGrad params) =
      (zeroGrad params, true) := by
    induction params with
    | nil => exact fun _ => rfl
    | cons p params ih =>
      intro offset
      simp only [zeroGrad, List.map_cons, setGradientVectorFrom] at ih ⊢
      rw [ih offset]
  exact from_offset 0

/-- The entries of the gradients that there are. -/
def gradNumel (params : List (Param K)) : Nat :=
  (params.map fun p => if p.grad.isSome then p.numel else 0).sum

namespace VectorSlot

/-- What is written is read back, and writing what is there changes nothing. -/
structure Lawful (f : VectorSlot K) : Prop where
  get_put : ∀ a p, f.get p ≠ none → f.get (f.put a p) = some a
  put_get : ∀ a p, f.get p = some a → f.put a p = p

theorem lawful_grad : (grad : VectorSlot K).Lawful :=
  ⟨fun _ _ _ => rfl, by rintro a ⟨data, _⟩ rfl; rfl⟩

theorem lawful_data : (data : VectorSlot K).Lawful :=
  ⟨fun _ _ _ => rfl, by rintro a ⟨_, grad⟩ ⟨⟩; rfl⟩

/-- The slots have the shapes of their parameters. -/
def Shaped (f : VectorSlot K) (params : List (Param K)) : Prop :=
  ∀ p ∈ params, ∀ a, f.get p = some a → a.shape = p.data.shape

variable {f : VectorSlot K} {vector : List K} {offset : Nat} {p : Param K} {params : List (Param K)}
  {a : NdArray K}

theorem shaped_data (params : List (Param K)) : (data : VectorSlot K).Shaped params := by
  rintro p - a ⟨⟩
  rfl

theorem Shaped.of_cons (h : f.Shaped (p :: params)) : f.Shaped params :=
  fun q hq => h q (List.mem_cons_of_mem p hq)

theorem entries_cons_of_none (h : f.get p = none) : f.entries (p :: params) = f.entries params := by
  simp [entries, h]

theorem entries_cons_of_some (h : f.get p = some a) :
    f.entries (p :: params) = a.toList ++ f.entries params := by
  simp [entries, h]

theorem numel_cons_of_none (h : f.get p = none) : f.numel (p :: params) = f.numel params := by
  simp [numel, h]

theorem numel_cons_of_some (h : f.get p = some a) :
    f.numel (p :: params) = p.numel + f.numel params := by
  simp [numel, h]

theorem length_entries (h : f.Shaped params) : (f.entries params).length = f.numel params := by
  induction params with
  | nil => rfl
  | cons p params ih =>
    cases hp : f.get p with
    | none => rw [entries_cons_of_none hp, numel_cons_of_none hp, ih h.of_cons]
    | some a =>
      rw [entries_cons_of_some hp, numel_cons_of_some hp, List.length_append, ih h.of_cons,
        NdArray.length_toList, h p (List.mem_cons_self ..) a hp, Param.numel]

theorem writeFrom_cons_of_none (h : f.get p = none) : f.writeFrom vector offset (p :: params) =
    (p :: (f.writeFrom vector offset params).1, (f.writeFrom vector offset params).2) := by
  simp only [writeFrom, h]

theorem writeFrom_cons_of_short (h : f.get p = some a) (hlen : vector.length - offset < p.numel) :
    f.writeFrom vector offset (p :: params) = (p :: params, false) := by
  have hnone : NdArray.reshape p.data.shape ((vector.drop offset).take p.numel) = none := by
    rw [NdArray.reshape_eq_none_iff, List.length_take, List.length_drop, ← Param.numel]
    omega
  simp only [writeFrom, h, hnone]

theorem writeFrom_cons_of_le (params : List (Param K)) (h : f.get p = some a)
    (hlen : p.numel ≤ vector.length - offset) :
    ∃ b : NdArray K, b.shape = p.data.shape ∧ b.toList = (vector.drop offset).take p.numel ∧
      f.writeFrom vector offset (p :: params) =
        (f.put b p :: (f.writeFrom vector (offset + p.numel) params).1,
          (f.writeFrom vector (offset + p.numel) params).2) := by
  cases hb : NdArray.reshape p.data.shape ((vector.drop offset).take p.numel) with
  | none =>
    rw [NdArray.reshape_eq_none_iff, List.length_take, List.length_drop, ← Param.numel] at hb
    omega
  | some b =>
    obtain ⟨hshape, hlist⟩ := NdArray.reshape_eq_some_iff.1 hb
    exact ⟨b, hshape, hlist, by simp only [writeFrom, h, hb]⟩

theorem writeFrom_spec (hf : f.Lawful) (h : offset + f.numel params ≤ vector.length) :
    (f.writeFrom vector offset params).2 = true ∧
      f.entries (f.writeFrom vector offset params).1 =
        (vector.drop offset).take (f.numel params) := by
  induction params generalizing offset with
  | nil => exact ⟨rfl, by simp [writeFrom, entries, numel]⟩
  | cons p params ih =>
    cases hp : f.get p with
    | none =>
      rw [numel_cons_of_none hp] at h ⊢
      obtain ⟨hreturns, hget⟩ := ih h
      rw [writeFrom_cons_of_none hp]
      exact ⟨hreturns, (entries_cons_of_none hp).trans hget⟩
    | some a =>
      rw [numel_cons_of_some hp] at h ⊢
      have hrest : offset + p.numel + f.numel params ≤ vector.length := by omega
      obtain ⟨hreturns, hget⟩ := ih hrest
      obtain ⟨b, -, hlist, hwrite⟩ := writeFrom_cons_of_le params hp
        (show p.numel ≤ vector.length - offset by omega)
      rw [hwrite]
      refine ⟨hreturns, ?_⟩
      rw [entries_cons_of_some (hf.get_put b p (by simp [hp])), hget, hlist, List.take_add,
        List.drop_drop]

end VectorSlot

theorem length_getGradientVector {params : List (Param K)}
    (h : ∀ p ∈ params, ∀ g, p.grad = some g → g.shape = p.data.shape) :
    (getGradientVector params).length = gradNumel params :=
  VectorSlot.length_entries (f := VectorSlot.grad) h

theorem getGradientVector_setGradientVector {gradient : List K} {params : List (Param K)}
    (h : gradient.length = gradNumel params) :
    (setGradientVector gradient params).2 = true ∧
      getGradientVector (setGradientVector gradient params).1 = gradient := by
  have hle : 0 + VectorSlot.grad.numel params ≤ gradient.length := by
    rw [Nat.zero_add, h]
    exact le_rfl
  obtain ⟨hreturns, hget⟩ := VectorSlot.writeFrom_spec VectorSlot.lawful_grad hle
  rw [setGradientVector_eq]
  refine ⟨hreturns, hget.trans ?_⟩
  rw [List.drop_zero]
  exact List.take_of_length_le h.le

end GossipRl
