import Mathlib.Algebra.Ring.Nat
import Mathlib.Data.Int.Notation
import Mathlib.Data.List.Induction
import Mathlib.Data.List.Nodup

/-!
# Values that go through JSON

`roundTrip` is `json.loads(json.dumps(v))`: JSON has no tuples, which become lists, and only strings
for keys, which numbers, booleans and `None` become. `none` is an exception of `json.dumps`. A value
comes back as it was exactly if it is plain (`roundTrip_eq_self_iff`).
-/

namespace Support

/-- A key of a Python dictionary. -/
inductive PyKey (K : Type*) where
  | str (s : String)
  | int (n : ℤ)
  | float (x : K)
  | bool (b : Bool)
  | null
  /-- A tuple, or another key that JSON has no string for. -/
  | other

/-- A Python value, its floats being of `K`. -/
inductive PyValue (K : Type*) where
  | null
  | bool (b : Bool)
  | int (n : ℤ)
  | float (x : K)
  /-- `np.float64`, which is a subclass of `float`. -/
  | numpyFloat (x : K)
  | str (s : String)
  | list (items : List (PyValue K))
  | tuple (items : List (PyValue K))
  | dict (entries : List (PyKey K × PyValue K))
  /-- A value that JSON has no text for, such as an array or an `np.bool_`. -/
  | other

/-- `int` has a limit for the digits it writes and reads. -/
def Written (n : ℤ) : Prop := n.natAbs < 10 ^ 4300

instance (n : ℤ) : Decidable (Written n) := inferInstanceAs (Decidable (_ < _))

variable {K : Type*}

/-- The string that `json.dumps` makes of a key; `repr` writes a float. -/
def PyKey.text (repr : K → String) : PyKey K → Option String
  | str s => some s
  | int n => if Written n then some (toString n) else none
  | float x => some (repr x)
  | bool b => some (if b then "true" else "false")
  | null => some "null"
  | other => none

section Pairs
variable {α β : Type*} [DecidableEq α] {k : α} {v : β} {entries pairs : List (α × β)}

/-- `entries[k] = v` -/
def insertKey (k : α) (v : β) : List (α × β) → List (α × β)
  | [] => [(k, v)]
  | entry :: entries =>
    if entry.1 = k then (k, v) :: entries else entry :: insertKey k v entries

/-- `dict(pairs)` -/
def dictOfPairs (pairs : List (α × β)) : List (α × β) :=
  pairs.foldl (fun entries pair => insertKey pair.1 pair.2 entries) []

theorem insertKey_of_notMem (h : k ∉ entries.map Prod.fst) :
    insertKey k v entries = entries ++ [(k, v)] := by
  induction entries with
  | nil => rfl
  | cons entry entries ih =>
    rw [List.map_cons, List.mem_cons, not_or] at h
    rw [insertKey, if_neg (Ne.symm h.1), ih h.2, List.cons_append]

theorem map_fst_insertKey : (insertKey k v entries).map Prod.fst =
    if k ∈ entries.map Prod.fst then entries.map Prod.fst else entries.map Prod.fst ++ [k] := by
  induction entries with
  | nil => rfl
  | cons entry entries ih =>
    by_cases hk : entry.1 = k
    · simp [insertKey, hk]
    · simp only [insertKey, if_neg hk, List.map_cons, ih, List.mem_cons, Ne.symm hk, false_or]
      split_ifs <;> rfl

theorem nodup_insertKey (h : (entries.map Prod.fst).Nodup) :
    ((insertKey k v entries).map Prod.fst).Nodup := by
  rw [map_fst_insertKey]
  split_ifs with hk
  · exact h
  · exact h.append (List.nodup_singleton k) (by simpa using hk)

/-- A dictionary has each key once, -/
theorem nodup_dictOfPairs (pairs : List (α × β)) : ((dictOfPairs pairs).map Prod.fst).Nodup := by
  induction pairs using List.reverseRecOn with
  | nil => exact .nil
  | append_singleton pairs pair ih =>
    rw [dictOfPairs, List.foldl_concat]
    exact nodup_insertKey ih

/-- and pairs that have each key once are its entries. -/
theorem dictOfPairs_of_nodup (h : (pairs.map Prod.fst).Nodup) : dictOfPairs pairs = pairs := by
  induction pairs using List.reverseRecOn with
  | nil => rfl
  | append_singleton pairs pair ih =>
    rw [List.map_append, List.nodup_append] at h
    rw [dictOfPairs, List.foldl_concat, ← dictOfPairs, ih h.1, insertKey_of_notMem]
    intro hmem
    exact h.2.2 pair.1 hmem pair.1 (by simp) rfl

end Pairs

namespace PyValue

/-- An entry that was read. -/
def entry (pair : String × PyValue K) : PyKey K × PyValue K := (.str pair.1, pair.2)

mutual

def roundTrip (repr : K → String) : PyValue K → Option (PyValue K)
  | null => some null
  | bool b => some (bool b)
  | int n => if Written n then some (int n) else none
  | float x | numpyFloat x => some (float x)
  | str s => some (str s)
  | list items | tuple items => (roundTripAll repr items).map list
  | dict entries => (roundTripEntries repr entries).map fun pairs =>
      dict ((dictOfPairs pairs).map entry)
  | other => none

def roundTripAll (repr : K → String) : List (PyValue K) → Option (List (PyValue K))
  | [] => some []
  | v :: vs => (roundTrip repr v).bind fun v' => (roundTripAll repr vs).map (v' :: ·)

/-- The pairs that the text of a dictionary has. -/
def roundTripEntries (repr : K → String) :
    List (PyKey K × PyValue K) → Option (List (String × PyValue K))
  | [] => some []
  | (k, v) :: es =>
    (k.text repr).bind fun s =>
      (roundTrip repr v).bind fun v' => (roundTripEntries repr es).map ((s, v') :: ·)

end

mutual

/-- `None`, booleans, numbers and strings, and lists of such values and dictionaries with strings
for keys. -/
def Plain : PyValue K → Prop
  | null | bool _ | float _ | str _ => True
  | int n => Written n
  | list items => PlainAll items
  | dict entries => PlainEntries entries ∧ (entries.map Prod.fst).Nodup
  | numpyFloat _ | tuple _ | other => False

def PlainAll : List (PyValue K) → Prop
  | [] => True
  | v :: vs => Plain v ∧ PlainAll vs

def PlainEntries : List (PyKey K × PyValue K) → Prop
  | [] => True
  | (k, v) :: es => (∃ s, k = .str s) ∧ Plain v ∧ PlainEntries es

end

variable {repr : K → String} {entries : List (PyKey K × PyValue K)}
  {pairs : List (String × PyValue K)}

theorem map_fst_roundTripEntries (h : roundTripEntries repr entries = some pairs)
    (hstr : ∀ k ∈ entries.map Prod.fst, ∃ s, k = .str s) :
    (pairs.map entry).map Prod.fst = entries.map Prod.fst := by
  induction entries generalizing pairs with
  | nil =>
    obtain rfl := Option.some.inj h
    rfl
  | cons e es ih =>
    obtain ⟨k, v⟩ := e
    obtain ⟨s, rfl⟩ := hstr k (by simp)
    simp only [roundTripEntries, Option.bind_eq_some_iff, Option.map_eq_some_iff] at h
    obtain ⟨s', hs', v', -, pairs, hpairs, rfl⟩ := h
    obtain rfl := Option.some.inj hs'
    rw [List.map_cons, List.map_cons, List.map_cons,
      ih hpairs fun k hk => hstr k (List.mem_cons_of_mem _ hk)]
    rfl

theorem dict_entries_iff (h : roundTripEntries repr entries = some pairs) :
    (dictOfPairs pairs).map entry = entries ↔
      pairs.map entry = entries ∧ (entries.map Prod.fst).Nodup := by
  have hkeys : ∀ l : List (String × PyValue K),
      (l.map entry).map Prod.fst = (l.map Prod.fst).map PyKey.str := by
    intro l
    rw [List.map_map, List.map_map]
    rfl
  have hinj : Function.Injective (PyKey.str : String → PyKey K) := fun s s' h => by cases h; rfl
  constructor
  · intro heq
    have hnodup : (entries.map Prod.fst).Nodup := by
      rw [← heq, hkeys]
      exact (nodup_dictOfPairs pairs).map hinj
    have hstr : ∀ k ∈ entries.map Prod.fst, ∃ s, k = .str s := by
      rw [← heq, hkeys]
      intro k hk
      obtain ⟨s, -, rfl⟩ := List.mem_map.1 hk
      exact ⟨s, rfl⟩
    have hpairs : (pairs.map Prod.fst).Nodup := by
      rw [← map_fst_roundTripEntries h hstr, hkeys] at hnodup
      exact hnodup.of_map
    rw [dictOfPairs_of_nodup hpairs] at heq
    exact ⟨heq, hnodup⟩
  · rintro ⟨heq, hnodup⟩
    rw [← heq, hkeys] at hnodup
    rw [dictOfPairs_of_nodup hnodup.of_map, heq]

mutual

/-- A value comes back as it was exactly if it is plain. -/
theorem roundTrip_eq_self_iff : ∀ v : PyValue K, roundTrip repr v = some v ↔ Plain v
  | null => by simp [roundTrip, Plain]
  | bool b => by simp [roundTrip, Plain]
  | int n => by simp [roundTrip, Plain]
  | float x => by simp [roundTrip, Plain]
  | numpyFloat x => by simp [roundTrip, Plain]
  | str s => by simp [roundTrip, Plain]
  | other => by simp [roundTrip, Plain]
  | tuple items => by simp [roundTrip, Plain]
  | list items => by
    rw [Plain, ← roundTripAll_eq_self_iff items]
    simp [roundTrip]
  | dict entries => by
    rw [Plain, ← roundTripEntries_eq_self_iff entries]
    simp only [roundTrip, Option.map_eq_some_iff, dict.injEq]
    constructor
    · rintro ⟨pairs, hpairs, heq⟩
      obtain ⟨hself, hnodup⟩ := (dict_entries_iff hpairs).1 heq
      exact ⟨⟨pairs, hpairs, hself⟩, hnodup⟩
    · rintro ⟨⟨pairs, hpairs, hself⟩, hnodup⟩
      exact ⟨pairs, hpairs, (dict_entries_iff hpairs).2 ⟨hself, hnodup⟩⟩

theorem roundTripAll_eq_self_iff : ∀ vs : List (PyValue K),
    roundTripAll repr vs = some vs ↔ PlainAll vs
  | [] => by simp [roundTripAll, PlainAll]
  | v :: vs => by
    rw [PlainAll, ← roundTrip_eq_self_iff v, ← roundTripAll_eq_self_iff vs]
    simp [roundTripAll, Option.bind_eq_some_iff]

theorem roundTripEntries_eq_self_iff : ∀ es : List (PyKey K × PyValue K),
    (∃ pairs, roundTripEntries repr es = some pairs ∧ pairs.map entry = es) ↔ PlainEntries es
  | [] => by simp [roundTripEntries, PlainEntries]
  | (k, v) :: es => by
    rw [PlainEntries, ← roundTrip_eq_self_iff v, ← roundTripEntries_eq_self_iff es]
    simp only [roundTripEntries, Option.bind_eq_some_iff, Option.map_eq_some_iff]
    constructor
    · rintro ⟨_, ⟨s, hs, v', hv', pairs, hpairs, rfl⟩, heq⟩
      obtain ⟨hentry, hrest⟩ := List.cons.inj heq
      obtain ⟨rfl, rfl⟩ := Prod.mk.inj hentry
      exact ⟨⟨s, rfl⟩, hv', pairs, hpairs, hrest⟩
    · rintro ⟨⟨s, rfl⟩, hv, pairs, hpairs, rfl⟩
      exact ⟨_, ⟨s, rfl, v, hv, pairs, hpairs, rfl⟩, rfl⟩

end

/-- A tuple comes back as a list, and a key that is `True` as a string. -/
example : roundTrip (fun _ : ℤ => "") (dict [(.bool true, tuple [null])]) =
    some (dict [(.str "true", list [null])]) := rfl

end PyValue

end Support
