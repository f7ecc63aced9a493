import Mathlib.Data.List.Basic
import Mathlib.Data.List.Nodup

/-!
# Insertion-ordered dictionaries

A dictionary is a list of entries with pairwise distinct keys, in the order in which the keys were
first set. Setting a known key keeps its place, a new key goes to the end, and iteration follows
the list.
-/

namespace Support

structure Dict (α β : Type*) where
  entries : List (α × β)
  nodup : (entries.map Prod.fst).Nodup

namespace Dict
variable {α β : Type*} [DecidableEq α]

/-- Value of the first entry of `k`. -/
def find (k : α) : List (α × β) → Option β
  | [] => none
  | e :: es => if e.1 = k then some e.2 else find k es

/-- `es` with the entry of `k` overwritten in place, or added at the end. -/
def put (k : α) (v : β) : List (α × β) → List (α × β)
  | [] => [(k, v)]
  | e :: es => if e.1 = k then (k, v) :: es else e :: put k v es

theorem find_eq_some {k : α} {v : β} {es : List (α × β)} (hnd : (es.map Prod.fst).Nodup) :
    find k es = some v ↔ (k, v) ∈ es := by
  induction es with
  | nil => simp [find]
  | cons e es ih =>
    obtain ⟨hne, hes⟩ := List.nodup_cons.1 hnd
    obtain ⟨k', v'⟩ := e
    by_cases h : k' = k
    · subst h
      have hmem : (k', v) ∉ es := fun hm => hne (List.mem_map.2 ⟨_, hm, rfl⟩)
      simp [find, hmem, eq_comm]
    · simp [find, h, ih hes, Ne.symm h]

theorem filter_key {k : α} {v : β} {es : List (α × β)} (hnd : (es.map Prod.fst).Nodup)
    (h : (k, v) ∈ es) : es.filter (·.1 = k) = [(k, v)] := by
  induction es with
  | nil => cases h
  | cons e es ih =>
    obtain ⟨hne, hes⟩ := List.nodup_cons.1 hnd
    rcases List.mem_cons.1 h with rfl | h
    · have hrest : es.filter (·.1 = k) = [] := by
        rw [List.filter_eq_nil_iff]
        intro e he heq
        exact hne (List.mem_map.2 ⟨e, he, of_decide_eq_true heq⟩)
      simp [hrest]
    · have hk : e.1 ≠ k := by
        rintro rfl
        exact hne (List.mem_map.2 ⟨_, h, rfl⟩)
      simp [hk, ih hes h]

theorem find_put (k k' : α) (v : β) (es : List (α × β)) :
    find k' (put k v es) = if k' = k then some v else find k' es := by
  induction es with
  | nil => simp [put, find, eq_comm]
  | cons e es ih =>
    by_cases h : e.1 = k
    · by_cases h' : k' = k
      · subst h'; simp [put, find, h]
      · simp [put, find, h, Ne.symm h', h']
    · by_cases h' : k' = k
      · subst h'; simp [put, find, h, ih]
      · simp [put, find, h, ih, h']

theorem keys_put (k : α) (v : β) (es : List (α × β)) :
    (put k v es).map Prod.fst =
      if k ∈ es.map Prod.fst then es.map Prod.fst else es.map Prod.fst ++ [k] := by
  induction es with
  | nil => simp [put]
  | cons e es ih =>
    by_cases h : e.1 = k
    · simp [put, h]
    · simp only [put, h, if_false, List.map_cons, ih, List.mem_cons, Ne.symm h, false_or]
      split <;> simp

def empty : Dict α β := ⟨[], by simp⟩

def get? (d : Dict α β) (k : α) : Option β := find k d.entries

def set (d : Dict α β) (k : α) (v : β) : Dict α β where
  entries := put k v d.entries
  nodup := by
    rw [keys_put]
    split
    · exact d.nodup
    · rename_i h
      exact List.nodup_append.2 ⟨d.nodup, by simp, by simpa using fun x hx => ne_of_mem_of_not_mem hx h⟩

def erase (d : Dict α β) (k : α) : Dict α β where
  entries := d.entries.filter fun e => e.1 ≠ k
  nodup := d.nodup.sublist (List.filter_sublist.map _)

def values (d : Dict α β) : List β := d.entries.map Prod.snd

def size (d : Dict α β) : Nat := d.entries.length

omit [DecidableEq α] in
@[simp] theorem length_values (d : Dict α β) : d.values.length = d.size := List.length_map ..

/-- The same keys, each with another value. -/
def mapValues {γ : Type*} (f : β → γ) (d : Dict α β) : Dict α γ where
  entries := d.entries.map (Prod.map id f)
  nodup := by
    rw [List.map_map]
    exact d.nodup

omit [DecidableEq α] in
@[simp] theorem values_mapValues {γ : Type*} (f : β → γ) (d : Dict α β) :
    (d.mapValues f).values = d.values.map f := by
  rw [values, values, mapValues, List.map_map, List.map_map]
  rfl

variable {d : Dict α β} {k k' : α} {v : β}

theorem get?_eq_some_iff : d.get? k = some v ↔ (k, v) ∈ d.entries := find_eq_some d.nodup

theorem get?_set (d : Dict α β) (k k' : α) (v : β) :
    (d.set k v).get? k' = if k' = k then some v else d.get? k' := find_put k k' v d.entries

@[simp] theorem get?_set_self : (d.set k v).get? k = some v := by simp [get?_set]

theorem get?_set_of_ne (h : k' ≠ k) : (d.set k v).get? k' = d.get? k' := by simp [get?_set, h]

theorem get?_erase (d : Dict α β) (k k' : α) :
    (d.erase k).get? k' = if k' = k then none else d.get? k' := by
  ext v
  rw [get?_eq_some_iff]
  by_cases h : k' = k <;> simp [erase, h, get?_eq_some_iff]

theorem get?_foldl_set (f : α → β) (ks : List α) (d : Dict α β) (k : α) :
    (ks.foldl (fun d k => d.set k (f k)) d).get? k = if k ∈ ks then some (f k) else d.get? k := by
  induction ks generalizing d with
  | nil => rfl
  | cons k' ks ih =>
    rw [List.foldl_cons, ih, get?_set]
    by_cases hk : k = k'
    · subst hk
      simp
    · simp [hk]

theorem get?_set_eq_some_iff {w : β} :
    (d.set k v).get? k' = some w ↔ k' = k ∧ v = w ∨ k' ≠ k ∧ d.get? k' = some w := by
  by_cases h : k' = k <;> simp [get?_set, h]

theorem get?_erase_eq_some_iff :
    (d.erase k).get? k' = some v ↔ k' ≠ k ∧ d.get? k' = some v := by
  by_cases h : k' = k <;> simp [get?_erase, h]

theorem erase_of_get?_eq_none (h : d.get? k = none) : d.erase k = d := by
  have hkeys : ∀ e ∈ d.entries, e.1 ≠ k := by
    rintro ⟨k', v⟩ he rfl
    cases h.symm.trans (get?_eq_some_iff.2 he)
  have hentries : (d.entries.filter fun e => e.1 ≠ k) = d.entries :=
    List.filter_eq_self.2 fun e he => by simpa using hkeys e he
  cases d
  simpa [erase] using hentries

theorem get?_mapValues {γ : Type*} (f : β → γ) (d : Dict α β) (k : α) :
    (d.mapValues f).get? k = (d.get? k).map f := by
  ext w
  simp only [get?_eq_some_iff, Option.map_eq_some_iff, mapValues, List.mem_map, Prod.exists,
    Prod.map_apply, Prod.mk.injEq, id_eq]
  constructor
  · rintro ⟨_, v, hv, rfl, rfl⟩
    exact ⟨v, hv, rfl⟩
  · rintro ⟨v, hv, rfl⟩
    exact ⟨k, v, hv, rfl, rfl⟩

theorem mem_keys_iff : k ∈ d.entries.map Prod.fst ↔ (d.get? k).isSome := by
  simp [Option.isSome_iff_exists, get?_eq_some_iff]

theorem mem_values_iff : v ∈ d.values ↔ ∃ k, d.get? k = some v := by
  simp [values, get?_eq_some_iff]

theorem nodup_values (h : ∀ k k' v, d.get? k = some v → d.get? k' = some v → k = k') :
    d.values.Nodup := by
  refine d.nodup.of_map.map_on ?_
  intro e he e' he' heq
  have hk : e.1 = e'.1 :=
    h e.1 e'.1 e.2 (get?_eq_some_iff.2 he) (get?_eq_some_iff.2 (heq ▸ he'))
  exact Prod.ext hk heq

theorem entries_eq_nil_iff : d.entries = [] ↔ ∀ k, d.get? k = none := by
  constructor
  · intro h k; simp [get?, h, find]
  · intro h
    cases he : d.entries with
    | nil => rfl
    | cons e es =>
      have : d.get? e.1 = some e.2 := get?_eq_some_iff.2 (by simp [he])
      simp [h] at this

theorem entries_set_ne_nil (d : Dict α β) (k : α) (v : β) : (d.set k v).entries ≠ [] := by
  intro h
  have := entries_eq_nil_iff.1 h k
  simp at this

end Dict

end Support
