import GossipRl.Rpc.ClientSession

/-!
# Futures of a connection that has gone

A future is pending under its request id until a response, a failed send or `disconnect` completes
it. `on_disconnect` clears the flag that `disconnect` looks at before it fails what is pending, so
what is pending when the peer closes is never completed. In a run in which the peer closes only
while nothing is pending, and no call takes the id of a pending request, every future is completed
once the flag is clear.
-/

namespace GossipRl
open Support

namespace RpcClient

/-- What an action does to the pending requests and to the futures: whether they are completed is
all that matters here. -/
inductive Effect (c c' : RpcClient) : ClientAction → Prop where
  | keeps {a : ClientAction} (notCall : a ≠ .call) (pending : c'.pendingRequests = c.pendingRequests)
      (next : c'.nextFuture = c.nextFuture)
      (completed : ∀ f, (c'.futures f).completed = (c.futures f).completed) : Effect c c' a
  /-- A new future is completed at once. -/
  | refuses {a : ClientAction} (notCall : a ≠ .call)
      (pending : c'.pendingRequests = c.pendingRequests) (next : c'.nextFuture = c.nextFuture + 1)
      (completed : ∀ f, (c'.futures f).completed =
        (decide (f = c.nextFuture) || (c.futures f).completed)) : Effect c c' a
  | requests (pending : c'.pendingRequests = c.pendingRequests.set c.nextRequestId c.nextFuture)
      (next : c'.nextFuture = c.nextFuture + 1)
      (fresh : (c'.futures c.nextFuture).completed = false)
      (completed : ∀ f, f ≠ c.nextFuture → (c'.futures f).completed = (c.futures f).completed) :
      Effect c c' .call
  /-- One request is completed. -/
  | settles {a : ClientAction} {id : UInt64} {f : Nat} (notCall : a ≠ .call)
      (get : c.pendingRequests.get? id = some f)
      (pending : c'.pendingRequests = c.pendingRequests.erase id)
      (next : c'.nextFuture = c.nextFuture)
      (completed : ∀ f', (c'.futures f').completed =
        (decide (f' = f) || (c.futures f').completed)) : Effect c c' a
  /-- All of them are. -/
  | closes {a : ClientAction} (notCall : a ≠ .call) (pending : c'.pendingRequests = .empty)
      (next : c'.nextFuture = c.nextFuture)
      (completed : ∀ f, (c'.futures f).completed =
        (decide (f ∈ c.pendingRequests.values) || (c.futures f).completed)) : Effect c c' a

theorem completed_update (futures : Nat → RpcFutureState) (f : Nat) {st : RpcFutureState}
    (h : st.completed = true) (f' : Nat) : (Function.update futures f st f').completed =
      (decide (f' = f) || (futures f').completed) := by
  by_cases heq : f' = f
  · subst heq
    simp [h]
  · simp [heq]

theorem act_effect (c : RpcClient) (a : ClientAction) : Effect c (c.act a) a := by
  cases a with
  | none => exact .keeps (by simp) rfl rfl fun _ => rfl
  | refuse response =>
    exact .refuses (by simp) rfl rfl (completed_update c.futures c.nextFuture rfl)
  | call =>
    refine .requests rfl rfl ?_ fun f hf => ?_
    · show (Function.update c.futures c.nextFuture _ c.nextFuture).completed = false
      rw [Function.update_self]
    · show (Function.update c.futures c.nextFuture _ f).completed = _
      rw [Function.update_of_ne hf]
  | respond requestId response =>
    cases hget : c.pendingRequests.get? requestId with
    | none =>
      simp only [act, hget]
      exact .keeps (by simp) rfl rfl fun _ => rfl
    | some f =>
      simp only [act, hget]
      exact .settles (by simp) hget complete_pendingRequests complete_nextFuture completed_complete
  | sendFailed requestId =>
    cases hget : c.pendingRequests.get? requestId with
    | none =>
      simp only [act, onSent, hget, Bool.false_eq_true, if_false]
      exact .keeps (by simp) rfl rfl fun _ => rfl
    | some f =>
      simp only [act, onSent, hget, Bool.false_eq_true, if_false]
      exact .settles (by simp) hget rfl rfl (completed_update c.futures f rfl)
  | remoteClose => exact .keeps (by simp) rfl rfl fun _ => rfl
  | disconnect =>
    simp only [act]
    split
    · exact .closes (by simp) rfl (closeAll_nextFuture ..) fun f => completed_closeAll _ _ f
    · exact .keeps (by simp) rfl rfl fun _ => rfl
  | onComplete future callback =>
    exact .keeps (by simp) (onComplete_pendingRequests callback) (onComplete_nextFuture callback)
      (completed_onComplete callback)
  | cancel future => exact .keeps (by simp) rfl rfl completed_cancel

/-- A pending future is not completed, and pending under one id only. -/
structure PendingInv (c : RpcClient) : Prop where
  waiting : ∀ id f, c.pendingRequests.get? id = some f →
    f < c.nextFuture ∧ (c.futures f).completed = false
  inj : ∀ id id' f, c.pendingRequests.get? id = some f → c.pendingRequests.get? id' = some f → id = id'

namespace PendingInv
variable {c c' : RpcClient} {id : UInt64} {f : Nat}

theorem keep (h : c.PendingInv) (hnext : c.nextFuture ≤ c'.nextFuture)
    (hpending : ∀ id f, c'.pendingRequests.get? id = some f →
      c.pendingRequests.get? id = some f ∧ (c'.futures f).completed = (c.futures f).completed) :
    c'.PendingInv where
  waiting := by
    intro id f hget
    obtain ⟨hget', hcompleted⟩ := hpending id f hget
    obtain ⟨hlt, hnot⟩ := h.waiting id f hget'
    exact ⟨by omega, hcompleted.trans hnot⟩
  inj := by
    intro id id' f hget hget'
    exact h.inj id id' f (hpending id f hget).1 (hpending id' f hget').1

theorem ne_of_erase (h : c.PendingInv) (hget : c.pendingRequests.get? id = some f) {id' : UInt64}
    {f' : Nat} (hget' : (c.pendingRequests.erase id).get? id' = some f') :
    f' ≠ f ∧ c.pendingRequests.get? id' = some f' := by
  obtain ⟨hne, hget'⟩ := Dict.get?_erase_eq_some_iff.1 hget'
  refine ⟨?_, hget'⟩
  rintro rfl
  exact hne (h.inj id' id f' hget' hget)

theorem act (h : c.PendingInv) (a : ClientAction) : (c.act a).PendingInv := by
  cases c.act_effect a with
  | keeps _ hpending hnext hcompleted =>
    exact h.keep hnext.ge fun id f hget => ⟨hpending ▸ hget, hcompleted f⟩
  | refuses _ hpending hnext hcompleted =>
    refine h.keep (by omega) fun id f hget => ?_
    rw [hpending] at hget
    have hlt := (h.waiting id f hget).1
    exact ⟨hget, by rw [hcompleted, decide_eq_false (by omega), Bool.false_or]⟩
  | requests hpending hnext hfresh hcompleted =>
    constructor
    · intro id f hget
      rw [hpending] at hget
      rcases Dict.get?_set_eq_some_iff.1 hget with ⟨-, rfl⟩ | ⟨-, hget⟩
      · exact ⟨by omega, hfresh⟩
      · obtain ⟨hlt, hnot⟩ := h.waiting id f hget
        exact ⟨by omega, (hcompleted f (by omega)).trans hnot⟩
    · intro id id' f hget hget'
      rw [hpending] at hget hget'
      rcases Dict.get?_set_eq_some_iff.1 hget with ⟨rfl, rfl⟩ | ⟨-, hget⟩ <;>
        rcases Dict.get?_set_eq_some_iff.1 hget' with ⟨rfl, hlast⟩ | ⟨-, hget'⟩
      · rfl
      · exact absurd (h.waiting id' _ hget').1 (lt_irrefl _)
      · exact absurd (h.waiting id _ (hlast ▸ hget)).1 (lt_irrefl _)
      · exact h.inj id id' f hget hget'
  | settles _ hfirst hpending hnext hcompleted =>
    refine h.keep hnext.ge fun id f hget => ?_
    rw [hpending] at hget
    obtain ⟨hne, hget⟩ := h.ne_of_erase hfirst hget
    exact ⟨hget, by rw [hcompleted, decide_eq_false hne, Bool.false_or]⟩
  | closes _ hpending hnext _ =>
    refine h.keep hnext.ge fun id f hget => ?_
    rw [hpending] at hget
    cases hget

end PendingInv

/-- The peer closes only while nothing is pending, and a call does not take the id of a pending
request. -/
def LosesNothing (c : RpcClient) : ClientAction → Prop
  | .remoteClose => c.pendingRequests.entries = []
  | .call => c.pendingRequests.get? c.nextRequestId = none
  | _ => True

/-- A future is completed or pending, and nothing is pending once the flag is clear. -/
structure SettledInv (c : RpcClient) : Prop extends c.PendingInv where
  settled : ∀ f < c.nextFuture,
    (c.futures f).completed = true ∨ ∃ id, c.pendingRequests.get? id = some f
  closed : c.connected = false → c.pendingRequests.entries = []

namespace SettledInv
variable {c : RpcClient}

theorem settled_erase (h : c.SettledInv) {id : UInt64} {f f' : Nat}
    (hget : c.pendingRequests.get? id = some f) (hf' : f' < c.nextFuture) (hne : f' ≠ f) :
    (c.futures f').completed = true ∨ ∃ id', (c.pendingRequests.erase id).get? id' = some f' := by
  refine (h.settled f' hf').imp_right ?_
  rintro ⟨id', hid'⟩
  refine ⟨id', ?_⟩
  rw [Dict.get?_erase, if_neg, hid']
  rintro rfl
  exact hne (Option.some.inj (hid'.symm.trans hget))

theorem connected_of_get? (h : c.SettledInv) {id : UInt64} {f : Nat}
    (hget : c.pendingRequests.get? id = some f) : c.connected = true := by
  by_contra hconn
  have hnil := h.closed (by simpa using hconn)
  rw [Dict.entries_eq_nil_iff.1 hnil id] at hget
  cases hget

theorem act_settled (h : c.SettledInv) {a : ClientAction} (ha : c.LosesNothing a) :
    ∀ f < (c.act a).nextFuture, ((c.act a).futures f).completed = true ∨
      ∃ id, (c.act a).pendingRequests.get? id = some f := by
  intro f hf
  cases c.act_effect a with
  | keeps _ hpending hnext hcompleted =>
    rw [hpending, hcompleted]
    exact h.settled f (by omega)
  | refuses _ hpending hnext hcompleted =>
    rw [hpending, hcompleted]
    by_cases heq : f = c.nextFuture
    · exact .inl (by simp [heq])
    · exact (h.settled f (by omega)).imp_left fun hdone => by simp [hdone]
  | requests hpending hnext hfresh hcompleted =>
    rw [hpending]
    by_cases heq : f = c.nextFuture
    · subst heq
      exact .inr ⟨c.nextRequestId, Dict.get?_set_self⟩
    · rw [hcompleted f heq]
      refine (h.settled f (by omega)).imp_right ?_
      rintro ⟨id, hget⟩
      refine ⟨id, ?_⟩
      rw [Dict.get?_set_of_ne, hget]
      rintro rfl
      exact absurd (hget.symm.trans ha) (by simp)
  | @settles _ _ f₀ _ hget hpending hnext hcompleted =>
    rw [hpending, hcompleted]
    by_cases heq : f = f₀
    · exact .inl (by simp [heq])
    · exact (h.settled_erase hget (by omega) heq).imp_left fun hdone => by simp [hdone]
  | closes _ _ hnext hcompleted =>
    rw [hcompleted]
    left
    rcases h.settled f (by omega) with hdone | hpend
    · simp [hdone]
    · simp [Dict.mem_values_iff.2 hpend]

theorem act_closed (h : c.SettledInv) {a : ClientAction} (ha : c.LosesNothing a)
    (hcall : a = .call → c.connected = true) :
    (c.act a).connected = false → (c.act a).pendingRequests.entries = [] := by
  cases a with
  | none => exact h.closed
  | refuse response => exact h.closed
  | call =>
    intro hnot
    have hnot : c.connected = false := hnot
    rw [hcall rfl] at hnot
    cases hnot
  | respond requestId response =>
    cases hget : c.pendingRequests.get? requestId with
    | none => simpa [RpcClient.act, hget] using h.closed
    | some f => simp [RpcClient.act, hget, h.connected_of_get? hget]
  | sendFailed requestId =>
    cases hget : c.pendingRequests.get? requestId with
    | none => simpa [RpcClient.act, onSent, hget] using h.closed
    | some f => simp [RpcClient.act, onSent, hget, h.connected_of_get? hget]
  | remoteClose => exact fun _ => ha
  | disconnect =>
    simp only [RpcClient.act]
    split
    · exact fun _ => rfl
    · exact h.closed
  | onComplete future callback => simpa [RpcClient.act] using h.closed
  | cancel future => exact h.closed

theorem act (h : c.SettledInv) {a : ClientAction} (ha : c.LosesNothing a)
    (hcall : a = .call → c.connected = true) : (c.act a).SettledInv :=
  ⟨h.toPendingInv.act a, h.act_settled ha, h.act_closed ha hcall⟩

end SettledInv

theorem settledInv_init : SettledInv {} where
  waiting := by
    intro id f hget
    cases hget
  inj := by
    intro id id' f hget
    cases hget
  settled := by
    intro f hf
    cases hf
  closed := fun _ => rfl

theorem owner_start {config : BufferPoolConfig} {owner : RpcClient} {c : Channel RpcClient}
    (h : Channel.start config owner = .ok c) : c.link.owner = owner := by
  obtain ⟨l, hl, rfl⟩ := map_eq_ok_iff.1 h
  exact Link.owner_startRecv hl

end RpcClient

open RpcClient

/-- If the peer closes only while nothing is pending, and no call takes the id of a pending request,
then a client that is not connected any more has no pending request, and every future is
completed. -/
theorem completed_of_disconnected {config : BufferPoolConfig} {c₀ c : Channel RpcClient}
    {events : List (ChannelEvent SessionOp)} (hstart : Channel.start config {} = .ok c₀)
    (hrun : run (Channel.step session) c₀ events = some c)
    (hloses : Along (Channel.step session)
      (fun c e => c.link.owner.LosesNothing (actionOf c.link e)) c₀ events)
    (hgone : c.link.owner.connected = false) :
    c.link.owner.pendingRequests.entries = [] ∧
      ∀ f < c.link.owner.nextFuture, (c.link.owner.futures f).completed = true := by
  have hinit : c₀.link.owner.SettledInv := by
    rw [owner_start hstart]
    exact settledInv_init
  have hinv : c.link.owner.SettledInv := by
    refine run_induction (motive := fun _ c => c.link.owner.SettledInv) hinit ?_ hloses hrun
    intro es c e c' _ hc he hstep
    rw [step_owner hstep]
    exact hc.act he connected_of_call
  have hnil := hinv.closed hgone
  refine ⟨hnil, ?_⟩
  intro f hf
  refine (hinv.settled f hf).resolve_right ?_
  rintro ⟨id, hget⟩
  rw [Dict.entries_eq_nil_iff.1 hnil id] at hget
  cases hget

section Example

def callOne : ChannelEvent SessionOp := .late (.call 0 (.async 1 []))

theorem completed_of_disconnected_call : ∃ c₀ c : Channel RpcClient,
    Channel.start .few {} = .ok c₀ ∧
    run (Channel.step session) c₀ [callOne, .late .disconnect] = some c ∧
    c.link.owner.connected = false ∧
    c.link.owner.pendingRequests.entries = [] ∧
      ∀ f < c.link.owner.nextFuture, (c.link.owner.futures f).completed = true := by
  obtain ⟨c₀, hc₀⟩ : ∃ c₀ : Channel RpcClient, Channel.start .few {} = .ok c₀ := ⟨_, rfl⟩
  obtain ⟨c, hc, hgone⟩ : ∃ c, run (Channel.step session) c₀ [callOne, .late .disconnect] = some c ∧
      c.link.owner.connected = false := by
    obtain rfl := Except.ok.inj hc₀
    exact ⟨_, rfl, rfl⟩
  have hloses : Along (Channel.step session)
      (fun c e => c.link.owner.LosesNothing (actionOf c.link e)) c₀ [callOne, .late .disconnect] := by
    refine Along.cons_iff.2 ⟨?_, fun c _ => .singleton trivial⟩
    obtain rfl := Except.ok.inj hc₀
    rfl
  exact ⟨c₀, c, hc₀, hc, hgone, completed_of_disconnected hc₀ hc hloses hgone⟩

/-- The peer closes while a request is pending: its future stays pending, `disconnect` or not, and
no operation is outstanding that could complete it. -/
theorem future_lost_at_remote_close : ∃ c₀ c : Channel RpcClient,
    Channel.start .few {} = .ok c₀ ∧
    run (Channel.step session) c₀ [callOne, .sent 0 32, .ended 0, .late .disconnect] = some c ∧
    c.link.owner.connected = false ∧ c.link.conn.sends = [] ∧ c.link.conn.recvPending = false ∧
    c.link.owner.pendingRequests.get? 1 = some 0 ∧ 0 < c.link.owner.nextFuture ∧
    (c.link.owner.futures 0).completed = false := by
  refine ⟨_, _, rfl, rfl, rfl, rfl, rfl, rfl, ?_, rfl⟩
  decide

end Example

end GossipRl
