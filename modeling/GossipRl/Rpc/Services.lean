import GossipRl.Rpc.Dispatch
import GossipRl.Support.Run

/-!
# Registering services (`rpc_server.cpp`)

`services_` owns the services, by name; `method_lookup_` points into their method maps, by method
id. A service object is a number, `objects` are the objects' contents, and a method pointer is a
place in the map of one of them: it dangles when no entry of `services_` holds that object any more.
`register_service` sets the entries of the new service's methods and leaves all others, so the
tables agree only if what it replaces and what else is registered fits (`Fits`).
-/

namespace GossipRl
open Support

variable {σ : Type*}

structure RpcService (σ : Type*) where
  name : String
  methods : Methods σ

namespace RpcService

/-- The keys of `methods`. -/
def ids (s : RpcService σ) : List UInt32 := s.methods.entries.map Prod.fst

theorem mem_ids_iff {s : RpcService σ} {id : UInt32} : id ∈ s.ids ↔ (s.methods.get? id).isSome :=
  Dict.mem_keys_iff

end RpcService

/-- `RpcMethod *`: the entry `id` of the methods of a service object. -/
structure MethodPtr where
  service : Nat
  id : UInt32
deriving DecidableEq, Repr

structure ServiceTables where
  services : Dict String Nat := .empty
  methodLookup : Dict UInt32 MethodPtr := .empty

namespace ServiceTables
variable (objects : Nat → RpcService σ)

/-- `register_service`. -/
def registerService (t : ServiceTables) (service : Nat) : ServiceTables where
  services := t.services.set (objects service).name service
  methodLookup := (objects service).ids.foldl (fun m id => m.set id ⟨service, id⟩) t.methodLookup

def step (t : ServiceTables) (service : Nat) : Option ServiceTables :=
  some (t.registerService objects service)

/-- An entry of `services_` holds the object. -/
def Held (t : ServiceTables) (service : Nat) : Prop := ∃ name, t.services.get? name = some service

/-- What `on_message` finds for a method id. -/
def method (t : ServiceTables) (id : UInt32) : Option (RpcMethod σ) :=
  (t.methodLookup.get? id).bind fun ptr => (objects ptr.service).methods.get? ptr.id

structure Consistent (t : ServiceTables) : Prop where
  /-- No entry dangles, and each is filed under the id of its method. -/
  refers : ∀ id ptr, t.methodLookup.get? id = some ptr →
    ptr.id = id ∧ t.Held ptr.service ∧ id ∈ (objects ptr.service).ids
  /-- The methods of the services are found. -/
  reaches : ∀ service, t.Held service → ∀ id ∈ (objects service).ids,
    t.methodLookup.get? id = some ⟨service, id⟩

/-- The service has all the methods of the one that it replaces, and none that a service of another
name has. -/
def Fits (t : ServiceTables) (service : Nat) : Prop :=
  (∀ old, t.services.get? (objects service).name = some old →
    ∀ id ∈ (objects old).ids, id ∈ (objects service).ids) ∧
  ∀ name other, name ≠ (objects service).name → t.services.get? name = some other →
    ∀ id ∈ (objects other).ids, id ∉ (objects service).ids

/-- Services are filed under their names. -/
def Named (t : ServiceTables) : Prop :=
  ∀ name service, t.services.get? name = some service → (objects service).name = name

variable {objects} {t : ServiceTables} {service : Nat}

theorem get?_methodLookup (t : ServiceTables) (service : Nat) (id : UInt32) :
    (t.registerService objects service).methodLookup.get? id =
      if id ∈ (objects service).ids then some ⟨service, id⟩ else t.methodLookup.get? id :=
  Dict.get?_foldl_set (fun id => (⟨service, id⟩ : MethodPtr)) ..

theorem get?_services (t : ServiceTables) (service : Nat) (name : String) :
    (t.registerService objects service).services.get? name =
      if name = (objects service).name then some service else t.services.get? name :=
  Dict.get?_set ..

theorem held_registered (t : ServiceTables) (service : Nat) :
    (t.registerService objects service).Held service :=
  ⟨(objects service).name, by rw [get?_services, if_pos rfl]⟩

theorem Named.registerService (h : t.Named objects) (service : Nat) :
    (t.registerService objects service).Named objects := by
  intro name s hs
  rw [get?_services] at hs
  split at hs
  · rename_i hname
    obtain rfl := Option.some.inj hs
    exact hname.symm
  · exact h name s hs

theorem Held.of_ne {other : Nat} (hname : (objects other).name ≠ (objects service).name)
    (hnamed : t.Named objects) (h : t.Held other) :
    (t.registerService objects service).Held other := by
  obtain ⟨name, hother⟩ := h
  refine ⟨name, ?_⟩
  rw [get?_services, if_neg (hnamed name other hother ▸ hname)]
  exact hother

theorem held_cases {other : Nat} (h : (t.registerService objects service).Held other) :
    other = service ∨
      ∃ name, name ≠ (objects service).name ∧ t.services.get? name = some other := by
  obtain ⟨name, hother⟩ := h
  rw [get?_services] at hother
  split at hother
  · exact .inl (Option.some.inj hother).symm
  · rename_i hname
    exact .inr ⟨name, hname, hother⟩

theorem Consistent.registerService (h : t.Consistent objects) (hnamed : t.Named objects)
    (hfits : t.Fits objects service) : (t.registerService objects service).Consistent objects := by
  obtain ⟨hreplaced, hothers⟩ := hfits
  constructor
  · intro id ptr hptr
    rw [get?_methodLookup] at hptr
    split at hptr
    · rename_i hid
      obtain rfl := Option.some.inj hptr
      exact ⟨rfl, held_registered t service, hid⟩
    · rename_i hid
      obtain ⟨heq, ⟨name, hheld⟩, hmem⟩ := h.refers id ptr hptr
      refine ⟨heq, .of_ne ?_ hnamed ⟨name, hheld⟩, hmem⟩
      -- a service of this name would have had its method replaced
      intro hname
      rw [hnamed name _ hheld] at hname
      exact hid (hreplaced _ (hname ▸ hheld) id hmem)
  · intro other hheld id hid
    rw [get?_methodLookup]
    rcases held_cases hheld with rfl | ⟨name, hname, hother⟩
    · rw [if_pos hid]
    · rw [if_neg (hothers name other hname hother id hid)]
      exact h.reaches other ⟨name, hother⟩ id hid

theorem Consistent.fits (h : t.Consistent objects) (hnamed : t.Named objects)
    (h' : (t.registerService objects service).Consistent objects) : t.Fits objects service := by
  constructor
  · intro old hold id hid
    by_contra hnot
    have hlookup : (t.registerService objects service).methodLookup.get? id = some ⟨old, id⟩ := by
      rw [get?_methodLookup, if_neg hnot]
      exact h.reaches old ⟨_, hold⟩ id hid
    obtain ⟨-, hheld, -⟩ := h'.refers id _ hlookup
    rcases held_cases hheld with heq | ⟨name, hname, hother⟩
    · obtain rfl : old = service := heq
      exact hnot hid
    · exact hname ((hnamed name old hother).symm.trans (hnamed _ old hold))
  · intro name other hname hother id hid hmem
    have hheld : (t.registerService objects service).Held other :=
      ⟨name, by rw [get?_services, if_neg hname]; exact hother⟩
    have hlookup := h'.reaches other hheld id hid
    rw [get?_methodLookup, if_pos hmem] at hlookup
    obtain rfl : service = other := congrArg MethodPtr.service (Option.some.inj hlookup)
    exact hname (hnamed name service hother).symm

theorem Consistent.method_eq_some_iff (h : t.Consistent objects) {id : UInt32}
    {method : RpcMethod σ} : t.method objects id = some method ↔
      ∃ service, t.Held service ∧ (objects service).methods.get? id = some method := by
  constructor
  · intro hm
    obtain ⟨ptr, hptr, hm⟩ := Option.bind_eq_some_iff.1 hm
    obtain ⟨heq, hheld, -⟩ := h.refers id ptr hptr
    exact ⟨ptr.service, hheld, heq ▸ hm⟩
  · rintro ⟨service, hheld, hm⟩
    have hid : id ∈ (objects service).ids := RpcService.mem_ids_iff.2 (by simp [hm])
    rw [ServiceTables.method, h.reaches service hheld id hid]
    exact hm

theorem Consistent.dispatch (h : t.Consistent objects) {s : RpcServer σ} {buffer : Buffer}
    {method : RpcMethod σ} (hs : ∀ id, s.methodLookup.get? id = t.method objects id)
    (hvalid : RpcServer.Valid buffer) (hheld : t.Held service)
    (hm : (objects service).methods.get? (RpcHeader.decode buffer.bytes).methodId = some method) :
    s.dispatch buffer =
      method.dispatch (RpcHeader.decode buffer.bytes) (buffer.bytes.drop RpcHeader.SIZE) := by
  rw [RpcServer.dispatch_of_valid hvalid, hs, h.method_eq_some_iff.2 ⟨service, hheld, hm⟩]

theorem named_run {services : List Nat} (h : run (step objects) {} services = some t) :
    t.Named objects := by
  refine run_invariant (P := Named objects) ?_ ?_ h
  · intro name service hs
    cases hs
  · intro t service t' ht hs
    exact Option.some.inj hs ▸ ht.registerService service

theorem consistent_empty : ({} : ServiceTables).Consistent objects := by
  constructor
  · intro id ptr hptr
    cases hptr
  · rintro service ⟨name, hs⟩
    cases hs

end ServiceTables

open ServiceTables

/-- The tables agree after every registration, exactly if every service fits what was registered
before it. -/
theorem services_consistent_iff (objects : Nat → RpcService σ) (services : List Nat) :
    (∀ registered t, registered <+: services → run (step objects) {} registered = some t →
        t.Consistent objects) ↔
      Along (step objects) (Fits objects) {} services := by
  constructor
  · rintro h registered service rest t rfl ht
    have hnext : run (step objects) {} (registered ++ [service]) =
        some (t.registerService objects service) := run_concat_eq_some.2 ⟨t, ht, rfl⟩
    refine Consistent.fits (h registered t (List.prefix_append ..) ht) (named_run ht) ?_
    exact h _ _ ⟨rest, by simp⟩ hnext
  · rintro hfits registered t ⟨rest, rfl⟩ ht
    refine run_induction (motive := fun _ t => t.Consistent objects) consistent_empty ?_
      hfits.of_append ht
    intro es t service t' hes hcons hservice hs
    obtain rfl := Option.some.inj hs
    exact hcons.registerService (named_run hes) hservice

section Example

/-- A service of one method, whose handler is left empty. -/
def oneMethod (name : String) (id : UInt32) : RpcService Unit :=
  ⟨name, Methods.registerMethod id none .empty⟩

/-- Two versions of a service: the second one has another method. -/
def twoVersions (version : Nat) : RpcService Unit :=
  oneMethod "gradients" (if version = 0 then 1 else 2)

/-- The second version replaces the first; the entry of method 1 still points into the first. -/
theorem replaced_service_dangles : ∃ t : ServiceTables,
    run (step twoVersions) {} [0, 1] = some t ∧
    t.methodLookup.get? 1 = some ⟨0, 1⟩ ∧ t.services.entries = [("gradients", 1)] ∧
    ¬ t.Consistent twoVersions := by
  refine ⟨_, rfl, rfl, rfl, fun h => ?_⟩
  obtain ⟨-, ⟨name, hheld⟩, -⟩ := h.refers 1 ⟨0, 1⟩ rfl
  have hmem : (name, 0) ∈ [("gradients", 1)] := Dict.get?_eq_some_iff.1 hheld
  simp at hmem

end Example

end GossipRl
