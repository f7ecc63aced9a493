import GossipRl.Rpc.PendingFutures

/-!
# Calls that time out

`call` is `call_async` and a `wait` on the future, which gives up when the time is over. The entry of
the request in `pending_requests_` is erased by what completes the future; `wait` does not know the
map. `SyncSession` is a client whose calls come from several threads. `latest` says which call took a
request id last, and is not part of the source: ids wrap around, and an id is pending exactly if the
future of the last call that took it is not completed (`LatestInv`).
-/

namespace GossipRl
open Support

/-- `RpcFuture::wait`, when it returns: the future has been completed or the time is over. -/
def RpcClient.wait (c : RpcClient) (future : Nat) : RpcResponse × RpcClient :=
  let st := c.futures future
  if st.completed then
    (st.response, { c with
      futures := Function.update c.futures future { st with response := st.response.movedFrom } })
  else
    ({ status := .DEADLINE_EXCEEDED, errorMessage := bytesOf "Request timed out" }, c)

/-- A synchronous call; it has no request id if it is answered at once. -/
structure SyncCall where
  requestId : Option UInt64
  future : Nat

structure SyncSession where
  channel : Channel RpcClient
  /-- The calls that wait for their futures. -/
  waiting : List SyncCall := []
  returned : List (SyncCall × RpcResponse) := []
  /-- The future of the last call that took a request id. -/
  latest : UInt64 → Option Nat := fun _ => none

inductive SyncEvent where
  | other (e : ChannelEvent SessionOp)
  | call (reserved methodId : UInt32) (payload : List UInt8)
  /-- The `i`-th waiting call returns. -/
  | ret (i : Nat)

namespace RpcClient

/-- The last calls after an action. -/
def latestAfter (c : RpcClient) (latest : UInt64 → Option Nat) :
    ClientAction → UInt64 → Option Nat
  | .call => Function.update latest c.nextRequestId (some c.nextFuture)
  | _ => latest

theorem latestAfter_of_ne (c : RpcClient) (latest : UInt64 → Option Nat) {a : ClientAction}
    (h : a ≠ .call) : c.latestAfter latest a = latest := by
  cases a with
  | call => exact absurd rfl h
  | _ => rfl

theorem latestAfter_call_of_ne (c : RpcClient) (latest : UInt64 → Option Nat) {id : UInt64}
    (h : id ≠ c.nextRequestId) : c.latestAfter latest .call id = latest id :=
  Function.update_of_ne h _ _

theorem latestAfter_call_self (c : RpcClient) (latest : UInt64 → Option Nat) :
    c.latestAfter latest .call c.nextRequestId = some c.nextFuture :=
  Function.update_self _ _ _

theorem latestAfter_eq_some {c : RpcClient} {latest : UInt64 → Option Nat} {a : ClientAction}
    {id : UInt64} {f : Nat} (h : c.latestAfter latest a id = some f) :
    latest id = some f ∨ a = .call ∧ id = c.nextRequestId ∧ f = c.nextFuture := by
  by_cases hcall : a = .call
  · subst hcall
    by_cases hid : id = c.nextRequestId
    · subst hid
      rw [latestAfter_call_self] at h
      exact .inr ⟨rfl, rfl, (Option.some.inj h).symm⟩
    · rw [latestAfter_call_of_ne c latest hid] at h
      exact .inl h
  · rw [latestAfter_of_ne c latest hcall] at h
    exact .inl h

/-- The request id that a call takes. -/
def takenId (l : Link RpcClient) : Option UInt64 :=
  match callAction l with
  | .call => some l.owner.nextRequestId
  | _ => none

end RpcClient

namespace SyncSession
open RpcClient

abbrev client (s : SyncSession) : RpcClient := s.channel.link.owner

/-- The `i`-th waiting call, `w`, returns what its `wait` does. -/
def finish (s : SyncSession) (i : Nat) (w : SyncCall) : SyncSession :=
  let (response, c) := s.client.wait w.future
  { s with
    channel := { s.channel with link := s.channel.link.mapOwner fun _ => c }
    waiting := s.waiting.eraseIdx i
    returned := s.returned ++ [(w, response)] }

def step (s : SyncSession) : SyncEvent → Option SyncSession
  | .other e => (s.channel.step session e).map fun c =>
      { s with channel := c, latest := s.client.latestAfter s.latest (actionOf s.channel.link e) }
  | .call reserved methodId payload =>
    match callAsync reserved s.channel.link methodId payload with
    | .error _ => none
    | .ok (future, l) =>
      some { s with
        channel := { s.channel with link := l }
        waiting := s.waiting ++ [⟨takenId s.channel.link, future⟩]
        latest := s.client.latestAfter s.latest (callAction s.channel.link) }
  | .ret i => (s.waiting[i]?).map (s.finish i)

end SyncSession

namespace RpcClient

/-- An id is pending with the future of the last call that took it, until that is completed. -/
structure LatestInv (latest : UInt64 → Option Nat) (c : RpcClient) : Prop extends c.PendingInv where
  made : ∀ id f, c.pendingRequests.get? id = some f → latest id = some f
  settled : ∀ id f, latest id = some f →
    (c.futures f).completed = true ∨ c.pendingRequests.get? id = some f
  lt : ∀ id f, latest id = some f → f < c.nextFuture

namespace LatestInv
variable {latest : UInt64 → Option Nat} {c c' : RpcClient} {id : UInt64} {f : Nat}

theorem get?_eq_none_iff (h : c.LatestInv latest) :
    c.pendingRequests.get? id = none ↔ ∀ f, latest id = some f → (c.futures f).completed = true := by
  constructor
  · intro hnone f hf
    refine (h.settled id f hf).resolve_right ?_
    rw [hnone]
    simp
  · intro hall
    rw [Option.eq_none_iff_forall_ne_some]
    intro f hf
    have hnot := (h.waiting id f hf).2
    rw [hall f (h.made id f hf)] at hnot
    cases hnot

theorem keep (h : c.LatestInv latest) (hpending : c'.PendingInv)
    (hnext : c.nextFuture ≤ c'.nextFuture)
    (hget : ∀ id f, c'.pendingRequests.get? id = some f → c.pendingRequests.get? id = some f)
    (hdone : ∀ f < c.nextFuture, (c.futures f).completed = true → (c'.futures f).completed = true)
    (hgone : ∀ id f, c.pendingRequests.get? id = some f →
      (c'.futures f).completed = true ∨ c'.pendingRequests.get? id = some f) :
    c'.LatestInv latest where
  toPendingInv := hpending
  made := fun id f hf => h.made id f (hget id f hf)
  settled := by
    intro id f hf
    rcases h.settled id f hf with hcompleted | hpend
    · exact .inl (hdone f (h.lt id f hf) hcompleted)
    · exact hgone id f hpend
  lt := fun id f hf => lt_of_lt_of_le (h.lt id f hf) hnext

theorem act (h : c.LatestInv latest) (a : ClientAction) :
    (c.act a).LatestInv (c.latestAfter latest a) := by
  have hinv := h.toPendingInv.act a
  cases c.act_effect a with
  | keeps hne hpending hnext hcompleted =>
    rw [latestAfter_of_ne c latest hne]
    refine h.keep hinv hnext.ge (fun id f hf => hpending ▸ hf)
      (fun f _ hdone => (hcompleted f).trans hdone) fun id f hf => .inr (hpending ▸ hf)
  | refuses hne hpending hnext hcompleted =>
    rw [latestAfter_of_ne c latest hne]
    refine h.keep hinv (by omega) (fun id f hf => hpending ▸ hf)
      (fun f _ hdone => by simp [hcompleted, hdone]) fun id f hf => .inr (hpending ▸ hf)
  | requests hpending hnext _ hcompleted =>
    refine ⟨hinv, fun id f hf => ?_, fun id f hf => ?_, fun id f hf => ?_⟩
    · rw [hpending] at hf
      rcases Dict.get?_set_eq_some_iff.1 hf with ⟨rfl, rfl⟩ | ⟨hne, hf⟩
      · exact latestAfter_call_self c latest
      · rw [latestAfter_call_of_ne c latest hne]
        exact h.made id f hf
    · rw [hpending]
      by_cases hid : id = c.nextRequestId
      · subst hid
        exact .inr (Dict.get?_set_self.trans ((latestAfter_call_self c latest).symm.trans hf))
      · rw [latestAfter_call_of_ne c latest hid] at hf
        have hlt := h.lt id f hf
        rw [hcompleted f (by omega), Dict.get?_set_of_ne hid]
        exact h.settled id f hf
    · rw [hnext]
      rcases latestAfter_eq_some hf with hf | ⟨-, -, rfl⟩
      · exact Nat.lt_succ_of_lt (h.lt id f hf)
      · exact Nat.lt_succ_self _
  | @settles _ id₀ f₀ hne hget hpending hnext hcompleted =>
    rw [latestAfter_of_ne c latest hne]
    refine h.keep hinv hnext.ge (fun id f hf => ?_) (fun f _ hdone => by simp [hcompleted, hdone])
      fun id f hf => ?_
    · rw [hpending] at hf
      exact (Dict.get?_erase_eq_some_iff.1 hf).2
    · -- the request that is erased has been completed
      by_cases heq : id = id₀
      · subst heq
        obtain rfl := Option.some.inj (hget.symm.trans hf)
        exact .inl (by simp [hcompleted])
      · rw [hpending]
        exact .inr (Dict.get?_erase_eq_some_iff.2 ⟨heq, hf⟩)
  | closes hne hpending hnext hcompleted =>
    rw [latestAfter_of_ne c latest hne]
    refine h.keep hinv hnext.ge (fun id f hf => ?_) (fun f _ hdone => by simp [hcompleted, hdone])
      fun id f hf => .inl ?_
    · rw [hpending] at hf
      cases hf
    · simp [hcompleted, Dict.mem_values_iff.2 ⟨id, hf⟩]

end LatestInv

variable {c : RpcClient} {a : ClientAction} {id : UInt64} {f : Nat}

theorem nextFuture_act (c : RpcClient) (a : ClientAction) : c.nextFuture ≤ (c.act a).nextFuture := by
  cases c.act_effect a with
  | keeps _ _ hnext => exact hnext.ge
  | refuses _ _ hnext => omega
  | requests _ hnext => omega
  | settles _ _ _ hnext => exact hnext.ge
  | closes _ _ hnext => exact hnext.ge

/-- Only a call makes a request pending, with a new future. -/
theorem get?_act (h : (c.act a).pendingRequests.get? id = some f) :
    c.pendingRequests.get? id = some f ∨ f = c.nextFuture := by
  cases c.act_effect a with
  | keeps _ hpending => exact .inl (hpending ▸ h)
  | refuses _ hpending => exact .inl (hpending ▸ h)
  | requests hpending =>
    rw [hpending] at h
    rcases Dict.get?_set_eq_some_iff.1 h with ⟨-, rfl⟩ | ⟨-, hf⟩
    · exact .inr rfl
    · exact .inl hf
  | settles _ _ hpending =>
    rw [hpending] at h
    exact .inl (Dict.get?_erase_eq_some_iff.1 h).2
  | closes _ hpending =>
    rw [hpending] at h
    cases h

theorem wait_pendingRequests (c : RpcClient) (future : Nat) :
    (c.wait future).2.pendingRequests = c.pendingRequests := by
  unfold wait
  dsimp only
  split <;> rfl

theorem wait_nextFuture (c : RpcClient) (future : Nat) :
    (c.wait future).2.nextFuture = c.nextFuture := by
  unfold wait
  dsimp only
  split <;> rfl

theorem completed_wait (c : RpcClient) (future f : Nat) :
    (((c.wait future).2).futures f).completed = (c.futures f).completed := by
  unfold wait
  dsimp only
  split
  · by_cases heq : f = future
    · simp [heq]
    · simp [heq]
  · rfl

theorem LatestInv.wait {latest : UInt64 → Option Nat} (h : c.LatestInv latest) (future : Nat) :
    ((c.wait future).2).LatestInv latest := by
  refine h.keep (h.toPendingInv.keep (wait_nextFuture c future).ge fun id f hf => ?_)
    (wait_nextFuture c future).ge (fun id f hf => ?_) (fun f _ hdone => ?_) fun id f hf => .inr ?_
  · rw [wait_pendingRequests] at hf
    exact ⟨hf, completed_wait c future f⟩
  · rwa [wait_pendingRequests] at hf
  · rwa [completed_wait]
  · rwa [wait_pendingRequests]

/-- A call returns the next future, and takes an id exactly if it makes a request. -/
theorem callAsync_future {l : Link RpcClient} {reserved methodId : UInt32} {payload : List UInt8}
    {future : Nat} {l' : Link RpcClient}
    (h : callAsync reserved l methodId payload = .ok (future, l')) :
    future = l.owner.nextFuture ∧ future < l'.owner.nextFuture := by
  have howner := callAsync_owner h
  have hfuture : future = l.owner.nextFuture := by
    unfold callAsync at h
    split at h
    · exact (Prod.mk.inj (Except.ok.inj h)).1.symm
    · split at h
      · cases h
      · exact (Prod.mk.inj (Except.ok.inj h)).1.symm
      · exact (Prod.mk.inj (Except.ok.inj h)).1.symm
  refine ⟨hfuture, ?_⟩
  change l'.owner = _ at howner
  rw [howner, hfuture]
  rcases callAction_cases l with ⟨-, heq⟩ | ⟨response, heq⟩
  · rw [heq]
    exact Nat.lt_succ_self _
  · rw [heq]
    exact Nat.lt_succ_self _

end RpcClient

namespace SyncSession
open RpcClient
variable {s s' : SyncSession} {e : SyncEvent}

/-- A waiting call, or one that has returned. -/
def Made (s : SyncSession) (w : SyncCall) : Prop :=
  w ∈ s.waiting ∨ w ∈ s.returned.map Prod.fst

/-- What a step does: the client acts, and a call with a new future may begin to wait; or a call
returns. -/
theorem step_cases (h : s.step e = some s') :
    (∃ a, s'.client = s.client.act a ∧ s'.latest = s.client.latestAfter s.latest a ∧
      s'.returned = s.returned ∧ ∀ w ∈ s'.waiting, w ∈ s.waiting ∨
        w.future = s.client.nextFuture ∧ w.future < s'.client.nextFuture ∧
          (a = .call → w.requestId = some s.client.nextRequestId)) ∨
    ∃ i w, e = .ret i ∧ s.waiting[i]? = some w ∧ s' = s.finish i w := by
  cases e with
  | other e =>
    obtain ⟨c, hc, rfl⟩ := Option.map_eq_some_iff.1 h
    exact .inl ⟨_, step_owner hc, rfl, rfl, fun w hw => .inl hw⟩
  | call reserved methodId payload =>
    simp only [step] at h
    cases hcall : callAsync reserved s.channel.link methodId payload with
    | error f => simp [hcall] at h
    | ok r =>
      obtain ⟨future, l⟩ := r
      simp only [hcall, Option.some.injEq] at h
      subst h
      obtain ⟨hfuture, hlt⟩ := callAsync_future hcall
      refine .inl ⟨_, callAsync_owner hcall, rfl, rfl, fun w hw => ?_⟩
      refine (List.mem_append.1 hw).imp_right fun hw => ?_
      obtain rfl := List.mem_singleton.1 hw
      refine ⟨hfuture, hlt, fun hcalled => ?_⟩
      simp only [takenId, hcalled]
  | ret i =>
    obtain ⟨w, hw, rfl⟩ := Option.map_eq_some_iff.1 h
    exact .inr ⟨i, w, rfl, hw, rfl⟩

/-- The futures of the calls are their own, as are those of the last calls that took an id. -/
structure Inv (s : SyncSession) : Prop where
  latest : s.client.LatestInv s.latest
  lt : ∀ w, s.Made w → w.future < s.client.nextFuture
  own : ∀ w id, s.Made w → s.latest id = some w.future → w.requestId = some id

theorem Inv.step (hs : s.Inv) (h : s.step e = some s') : s'.Inv := by
  rcases step_cases h with ⟨a, hclient, hlatest, hreturned, hwaiting⟩ |
    ⟨i, w, -, hw, rfl⟩
  · have hmade : ∀ w, s'.Made w → s.Made w ∨ w.future = s.client.nextFuture ∧
        w.future < s'.client.nextFuture ∧
          (a = .call → w.requestId = some s.client.nextRequestId) := by
      rintro w (hw | hw)
      · exact (hwaiting w hw).imp_left .inl
      · exact .inl (.inr (hreturned ▸ hw))
    refine ⟨?_, fun w hw => ?_, fun w id hw hid => ?_⟩
    · rw [hclient, hlatest]
      exact hs.latest.act a
    · rcases hmade w hw with hold | ⟨-, hlt, -⟩
      · exact lt_of_lt_of_le (hs.lt w hold) (hclient ▸ nextFuture_act s.client a)
      · exact hlt
    · rw [hlatest] at hid
      -- the new future is that of the new call, and of no call that was there before
      rcases hmade w hw, latestAfter_eq_some hid with
        ⟨hold | ⟨hnew, -, htaken⟩, hid | ⟨rfl, rfl, hf⟩⟩
      · exact hs.own w id hold hid
      · exact absurd hf (hs.lt w hold).ne
      · exact absurd hnew (hs.latest.lt id _ hid).ne
      · exact htaken rfl
  · have hmade : ∀ w', (s.finish i w).Made w' → s.Made w' := by
      rintro w' (hw' | hw')
      · exact .inl (List.mem_of_mem_eraseIdx hw')
      · rw [finish, List.map_append, List.mem_append] at hw'
        rcases hw' with hw' | hw'
        · exact .inr hw'
        · obtain rfl := List.mem_singleton.1 hw'
          exact .inl (List.mem_of_getElem? hw)
    refine ⟨hs.latest.wait w.future, fun w' hw' => ?_, fun w' id hw' => hs.own w' id (hmade w' hw')⟩
    exact lt_of_lt_of_eq (hs.lt w' (hmade w' hw')) (wait_nextFuture s.client w.future).symm

theorem inv_start {c : Channel RpcClient} (h : c.link.owner = {}) :
    Inv { channel := c } := by
  have hmade : ∀ w, ¬ Made { channel := c } w := by
    rintro w (hw | hw) <;> cases hw
  refine ⟨?_, fun w hw => absurd hw (hmade w), fun w _ hw => absurd hw (hmade w)⟩
  rw [client, h]
  exact ⟨settledInv_init.toPendingInv, nofun, nofun, nofun⟩

/-- When a call returns its request id is not pending. -/
def Erases (s : SyncSession) (e : SyncEvent) : Prop :=
  ∀ i w id s', e = .ret i → s.waiting[i]? = some w → w.requestId = some id → s.step e = some s' →
    s'.client.pendingRequests.get? id = none

/-- When a call returns the last call that took its request id, itself as a rule, has been answered:
it has not timed out. -/
def NotTimedOut (s : SyncSession) (e : SyncEvent) : Prop :=
  ∀ i w id f, e = .ret i → s.waiting[i]? = some w → w.requestId = some id →
    s.latest id = some f → (s.client.futures f).completed = true

theorem erases_iff_notTimedOut (hs : s.Inv) : s.Erases e ↔ s.NotTimedOut e := by
  constructor
  · rintro h i w id f rfl hw hid
    have hnone := h i w id (s.finish i w) rfl hw hid (Option.map_eq_some_iff.2 ⟨w, hw, rfl⟩)
    change (s.client.wait w.future).2.pendingRequests.get? id = none at hnone
    rw [wait_pendingRequests] at hnone
    exact hs.latest.get?_eq_none_iff.1 hnone f
  · rintro h i w id s' rfl hw hid hs'
    obtain ⟨w', hw', rfl⟩ := Option.map_eq_some_iff.1 hs'
    show (s.client.wait w'.future).2.pendingRequests.get? id = none
    rw [wait_pendingRequests]
    exact hs.latest.get?_eq_none_iff.2 fun f hf => h i w id f rfl hw hid hf

/-- A pending request is not one of a call that has returned: its caller can still receive the
answer. -/
def Receivable (s : SyncSession) : Prop :=
  ∀ id f, s.client.pendingRequests.get? id = some f → ∀ w ∈ s.returned.map Prod.fst, w.future ≠ f

theorem Receivable.step (h : s.Receivable) (hs : s.Inv) (hintime : s.NotTimedOut e)
    (hstep : s.step e = some s') : s'.Receivable := by
  rcases step_cases hstep with ⟨a, hclient, -, hreturned, -⟩ | ⟨i, w, rfl, hw, rfl⟩
  · intro id f hf w hw
    rw [hreturned] at hw
    rw [hclient] at hf
    rcases get?_act hf with hold | rfl
    · exact h id f hold w hw
    · exact (hs.lt w (.inr hw)).ne
  · intro id f hf w' hw'
    change (s.client.wait w.future).2.pendingRequests.get? id = some f at hf
    rw [wait_pendingRequests] at hf
    rw [finish, List.map_append, List.mem_append] at hw'
    rcases hw' with hw' | hw'
    · exact h id f hf w' hw'
    · obtain rfl := List.mem_singleton.1 hw'
      rintro rfl
      -- the future of the call that returns is completed, so it is not pending
      have hlatest := hs.latest.made id _ hf
      have hid := hs.own w' id (.inl (List.mem_of_getElem? hw)) hlatest
      have hdone := hintime i w' id _ rfl hw hid hlatest
      rw [(hs.latest.waiting id _ hf).2] at hdone
      cases hdone

/-- No request outlives the call that made it: it is erased when the call returns, and in every state
that is reached the pending requests are those of calls that can still receive an answer. -/
structure KeepsNoStale (s : SyncSession) (events : List SyncEvent) : Prop where
  erased : Along SyncSession.step Erases s events
  receivable : ∀ es s', es <+: events → run SyncSession.step s es = some s' → s'.Receivable

end SyncSession

open SyncSession

/-- The request of every synchronous call is erased when the call returns, and nothing but requests
that can still be answered is ever pending, exactly if no call that made a request times out. -/
theorem keeps_no_stale_iff {c : Channel RpcClient} (hnew : c.link.owner = {})
    (events : List SyncEvent) :
    KeepsNoStale { channel := c } events ↔
      Along SyncSession.step NotTimedOut { channel := c } events := by
  have hinv : ∀ es s, run SyncSession.step { channel := c } es = some s → s.Inv := fun es s hs =>
    run_invariant (inv_start hnew) (fun _ _ _ hs₁ hstep => hs₁.step hstep) hs
  have herased : Along SyncSession.step Erases { channel := c } events ↔
      Along SyncSession.step NotTimedOut { channel := c } events :=
    Along.congr fun es e s _ hs => erases_iff_notTimedOut (hinv es s hs)
  refine ⟨fun h => herased.1 h.erased, fun h => ⟨herased.2 h, fun es s hes hs => ?_⟩⟩
  obtain ⟨rest, rfl⟩ := hes
  refine run_induction (motive := fun _ s => s.Receivable) ?_ ?_ h.of_append hs
  · intro id f hf w hw
    cases hw
  · intro es s e s' hes ih hintime hstep
    exact ih.step (hinv es s hes) hintime hstep

section Example

/-- A call is made and answered. -/
def answeredCall : List SyncEvent :=
  [.call 0 1 [], .other (.sent 0 32), .other (.data (emptyResponse 1))]

theorem keeps_no_stale_iff_answered : ∃ c : Channel RpcClient,
    Channel.start .few {} = .ok c ∧ c.link.owner = {} ∧
    KeepsNoStale { channel := c } (answeredCall ++ [.ret 0]) := by
  obtain ⟨c, hc, hnew⟩ : ∃ c : Channel RpcClient, Channel.start .few {} = .ok c ∧
    c.link.owner = {} := ⟨_, rfl, rfl⟩
  refine ⟨c, hc, hnew, (keeps_no_stale_iff hnew _).2 (Along.concat_iff.2 ⟨?_, fun s hs => ?_⟩)⟩
  · rintro es₁ _ es₂ s₁ heq - i w id f rfl
    have hmem : SyncEvent.ret i ∈ answeredCall := by simp [heq]
    simp [answeredCall] at hmem
  · obtain ⟨s', hs', hwaiting, hlatest, hdone⟩ : ∃ s,
        run SyncSession.step { channel := c } answeredCall = some s ∧
        s.waiting = [⟨some 1, 0⟩] ∧ s.latest 1 = some 0 ∧ (s.client.futures 0).completed = true := by
      obtain rfl := Except.ok.inj hc
      exact ⟨_, rfl, rfl, rfl, rfl⟩
    obtain rfl := Option.some.inj (hs'.symm.trans hs)
    rintro i w id f ⟨⟩ hw hid hf
    rw [hwaiting] at hw
    obtain rfl := Option.some.inj hw
    obtain rfl := Option.some.inj hid
    obtain rfl := Option.some.inj (hlatest.symm.trans hf)
    exact hdone

/-- After a timeout the request stays pending though nobody waits for the answer. -/
theorem timed_out_request_stays : ∃ (c : Channel RpcClient) (s : SyncSession),
    Channel.start .few {} = .ok c ∧ c.link.owner = {} ∧
    run SyncSession.step { channel := c } [.call 0 1 [], .other (.sent 0 32), .ret 0] = some s ∧
    s.returned.map (fun r => (r.1.requestId, r.2.status)) = [(some 1, .DEADLINE_EXCEEDED)] ∧
    s.waiting = [] ∧ s.client.pendingRequests.get? 1 = some 0 ∧
    ¬ KeepsNoStale { channel := c } [.call 0 1 [], .other (.sent 0 32), .ret 0] := by
  refine ⟨_, _, rfl, rfl, rfl, rfl, rfl, rfl, fun h => ?_⟩
  have hreceivable := h.receivable _ _ List.prefix_rfl rfl
  exact hreceivable 1 0 rfl ⟨some 1, 0⟩ (List.mem_singleton_self _) rfl

end Example

end GossipRl
