import GossipRl.Rpc.ClientThreadsInv

/-!
# Threads of the client that ask for what they hold

A callback asks for a mutex of its own thread when it calls a method of a future whose callback is
running there, or when `disconnect` runs it and it gets to `pending_mutex_` (`Reenters`); nothing else
does. And every callback is called with its future's mutex held.
-/

namespace GossipRl
open Support

namespace ClientThreads
open RpcClient ClientFrame
variable {n : Nat} {s s' : ClientThreads n} {e : ThreadEvent n} {θ : Fin n} {m : ClientMutex}

/-! ### What is asked of an event -/

/-- The thread does not hold the mutex that it requests. -/
def NoSelfRequest (s : ClientThreads n) (e : ThreadEvent n) : Prop :=
  ∀ θ m, s.request e = some (θ, m) → m ∉ s.held θ

/-- A thread on which a callback runs holds no mutex. -/
def CallbacksHoldNothing (s : ClientThreads n) : Prop :=
  ∀ θ future, .callback future ∈ s.frames θ → s.held θ = []

/-- `call_async` or `disconnect` has found the client connected, and comes to `pending_mutex_`. -/
def entersPending : ClientFrame → Bool
  | .registering .. | .closing => true
  | _ => false

/-- A callback calls a method of a future whose callback is running on the thread; or it is run by
`disconnect`, and its `call_async` or `disconnect` gets to `pending_mutex_`. -/
def Reenters (s : ClientThreads n) : ThreadEvent n → Prop
  | .user θ call => inUserCode (s.frames θ) ∧ ∃ future ∈ call.future?, .callback future ∈ s.frames θ
  | .go θ => (∃ frame ∈ (s.frames θ).head?, entersPending frame) ∧
    ∃ futures, .failing futures ∈ s.frames θ
  | _ => False

/-- A callback is called: of a future with a callback that is completed, or by `on_complete`. -/
def RunsCallback (s : ClientThreads n) : ThreadEvent n → Prop
  | .user θ (.onComplete future _) => inUserCode (s.frames θ) ∧ future < s.client.nextFuture ∧
    s.Free (.future future) ∧ (s.client.futures future).completed
  | .go θ => ∃ future, ((∃ response, (s.frames θ).head? = some (.completing future response)) ∨
      ∃ futures, (s.frames θ).head? = some (.failing (future :: futures))) ∧
    s.Free (.future future) ∧ (s.client.futures future).callback.isSome
  | _ => False

/-! ### Requests -/

theorem Inv.not_callback (h : s.Inv) {f : Nat} (hf : (s.client.futures f).completed = false) :
    .callback f ∉ s.frames θ := by
  intro hmem
  rw [(h.ok θ _ hmem).2] at hf
  cases hf

/-- Who asks for `pending_mutex_` in a call, and holds it, is in the loop of `disconnect`. -/
theorem Inv.failing_of_held (h : s.Inv) {frame : ClientFrame} {below : List ClientFrame}
    (htop : s.frames θ = frame :: below) (hholds : .pending ∉ frame.holds)
    (hheld : .pending ∈ s.held θ) : ∃ futures, .failing futures ∈ below := by
  obtain ⟨x, hx, hpending⟩ := mem_held.1 hheld
  rw [htop] at hx
  rcases List.mem_cons.1 hx with rfl | hx
  · exact absurd hpending hholds
  · have hbase := ((h.over_below htop).1 x hx).isBase
    cases x with
    | failing futures => exact ⟨futures, hx⟩
    | callback => simp [holds] at hpending
    | _ => cases hbase

theorem Inv.noSelfRequest_go (h : s.Inv) (hne : ¬ s.Reenters (.go θ)) :
    s.NoSelfRequest (.go θ) := by
  intro θ' m hrequest hheld
  simp only [request, Option.bind_eq_some_iff, Option.map_eq_some_iff, List.head?_eq_some_iff,
    Prod.mk.injEq] at hrequest
  obtain ⟨frame, ⟨below, htop⟩, m', hm, rfl, rfl⟩ := hrequest
  have hover := (h.over_below htop).1
  have hok := h.ok θ frame (htop ▸ List.mem_cons_self ..)
  cases frame with
  | callback | waiting => cases hm
  | registering | closing =>
    obtain rfl := Option.some.inj hm
    obtain ⟨futures, hfutures⟩ := h.failing_of_held htop (by simp [holds]) hheld
    exact hne ⟨⟨_, by rw [htop]; rfl, rfl⟩, futures, htop ▸ .tail _ hfutures⟩
  | sending requestId buffer =>
    simp only [goRequest] at hm
    split at hm
    · cases hm
    · obtain rfl := Option.some.inj hm
      obtain ⟨futures, hfutures⟩ := h.failing_of_held htop (by simp [holds]) hheld
      exact (hover _ hfutures).elim
  | sendFailed requestId f =>
    obtain rfl := Option.some.inj hm
    exact h.not_callback hok.2 (future_mem_held.1 hheld)
  | failing futures =>
    cases futures with
    | nil => cases hm
    | cons f futures =>
      obtain rfl := Option.some.inj hm
      exact h.not_callback (hok.2 f (List.mem_cons_self ..)).2 (future_mem_held.1 hheld)
  | completing f response =>
    obtain rfl := Option.some.inj hm
    have hmem := future_mem_held.1 hheld
    rw [htop] at hmem
    rcases List.mem_cons.1 hmem with heq | hmem
    · cases heq
    · exact (hover _ hmem).elim

theorem Inv.noSelfRequest_user (h : s.Inv) {call : UserCall}
    (hne : ¬ s.Reenters (.user θ call)) : s.NoSelfRequest (.user θ call) := by
  intro θ' m hrequest hheld
  rw [request] at hrequest
  split at hrequest
  on_goal 2 => cases hrequest
  rename_i huser
  simp only [Option.map_eq_some_iff, Prod.mk.injEq] at hrequest
  obtain ⟨m', hm, rfl, rfl⟩ := hrequest
  cases call with
  | isReady | wait | onComplete | cancel =>
    obtain rfl := Option.some.inj hm
    exact hne ⟨huser, _, rfl, future_mem_held.1 hheld⟩
  | callAsync reserved methodId payload =>
    -- the mutex of a new future
    have hnew : m' = .future s.client.nextFuture := by
      simp only [userRequest] at hm
      split at hm
      · exact (Option.some.inj hm).symm
      · split at hm
        · exact (Option.some.inj hm).symm
        · cases hm
    rw [hnew] at hheld
    exact absurd (h.ok θ _ (future_mem_held.1 hheld)).1 (lt_irrefl _)
  | disconnect | connect => cases hm

theorem held_of_empty (h : s.frames θ = []) : s.held θ = [] := by rw [held, h, List.flatMap_nil]

/-- A thread asks for what it holds only in a callback that enters the client again. -/
theorem Inv.noSelfRequest_iff (h : s.Inv) : s.NoSelfRequest e ↔ ¬ s.Reenters e := by
  constructor
  · intro hself hre
    cases e with
    | user θ call =>
      obtain ⟨huser, f, hf, hmem⟩ := hre
      exact hself θ _ (request_user huser hf) (future_mem_held.2 hmem)
    | go θ =>
      obtain ⟨⟨frame, htop, henters⟩, futures, hmem⟩ := hre
      have hrequest : s.goRequest frame = some .pending := by
        cases frame with
        | registering | closing => rfl
        | _ => cases henters
      refine hself θ .pending ?_ (mem_held.2 ⟨_, hmem, List.mem_singleton.2 rfl⟩)
      rw [request, Option.mem_def.1 htop, Option.bind_some, hrequest]
      rfl
    | _ => exact hre
  · intro hne
    cases e with
    | user θ call => exact h.noSelfRequest_user hne
    | go θ => exact h.noSelfRequest_go hne
    | ret | lost =>
      intro θ' m hrequest
      cases hrequest
    | receive θ | sent θ =>
      intro θ' m hrequest
      simp only [request] at hrequest
      split at hrequest
      · rename_i hcond
        obtain ⟨rfl, -⟩ := Prod.mk.inj (Option.some.inj hrequest)
        rw [held_of_empty (List.isEmpty_iff.1 hcond.1)]
        exact List.not_mem_nil
      · cases hrequest
    | wake θ timedOut =>
      intro θ' m hrequest hheld
      simp only [request] at hrequest
      split at hrequest
      · rename_i f below htop
        obtain ⟨rfl, rfl⟩ := Prod.mk.inj (Option.some.inj hrequest)
        have hmem := future_mem_held.1 hheld
        rw [htop] at hmem
        rcases List.mem_cons.1 hmem with heq | hmem
        · cases heq
        · exact (h.over_below htop).1 _ hmem rfl
      · cases hrequest

/-! ### Callbacks that are called -/

/-- A thread is in the middle of one thing at most, which is not a callback. -/
def Plain (stack : List ClientFrame) : Prop :=
  stack = [] ∨ ∃ frame, stack = [frame] ∧ ∀ f, frame ≠ .callback f

theorem Plain.not_callback {stack : List ClientFrame} (h : Plain stack) (f : Nat) :
    .callback f ∉ stack := by
  rcases h with rfl | ⟨frame, rfl, hne⟩
  · exact List.not_mem_nil
  · exact fun hmem => hne f (List.mem_singleton.1 hmem).symm

theorem plain_update (h : ∀ θ, Plain (s.frames θ)) {stack : List ClientFrame}
    (hframes : s'.frames = Function.update s.frames θ stack) (hstack : Plain stack) :
    ∀ θ, Plain (s'.frames θ) := by
  intro θ'
  rw [hframes]
  by_cases hθ : θ' = θ
  · subst hθ
    rwa [Function.update_self]
  · rw [Function.update_of_ne hθ]
    exact h θ'

theorem callbacksHoldNothing_of_plain (h : ∀ θ, Plain (s.frames θ)) : s.CallbacksHoldNothing :=
  fun θ f hmem => absurd hmem ((h θ).not_callback f)

theorem not_callbacksHoldNothing {f : Nat} (h : .callback f ∈ s.frames θ) :
    ¬ s.CallbacksHoldNothing := by
  intro hnothing
  have hmem := future_mem_held.2 h
  rw [hnothing θ f h] at hmem
  cases hmem

theorem not_reenters_of_plain (h : ∀ θ, Plain (s.frames θ)) : ¬ s.Reenters e := by
  intro hre
  cases e with
  | user θ call =>
    obtain ⟨-, f, -, hmem⟩ := hre
    exact (h θ).not_callback f hmem
  | go θ =>
    obtain ⟨⟨frame, htop, henters⟩, futures, hmem⟩ := hre
    rcases h θ with hnil | ⟨x, hx, -⟩
    · simp [hnil] at hmem
    · rw [hx] at htop hmem
      obtain rfl := List.mem_singleton.1 hmem
      obtain rfl := Option.some.inj (Option.mem_def.1 htop)
      cases henters
  | _ => exact hre

theorem go_step {frame : ClientFrame} {below : List ClientFrame}
    (htop : s.frames θ = frame :: below) (hfree : ∀ m ∈ s.goRequest frame, s.Free m) :
    s.step (.go θ) = s.goStep θ below frame := by
  rw [step, if_pos]
  · simp only [perform, htop]
  · intro r hr
    simp only [request, htop, List.head?_cons, Option.bind_some, Option.mem_def,
      Option.map_eq_some_iff] at hr
    obtain ⟨m, hm, rfl⟩ := hr
    exact hfree m hm

theorem callback_mem_complete {f : Nat} (h : (s.client.futures f).callback.isSome)
    (response : RpcResponse) (below : List ClientFrame) :
    .callback f ∈ (s.complete θ f response below).frames θ := by
  have hself : (s.complete θ f response below).frames θ = _ := Function.update_self ..
  rw [hself, if_pos h]
  exact List.mem_cons_self ..

theorem runs_callback (h : s.RunsCallback e) :
    ∃ s' θ f, s.step e = some s' ∧ .callback f ∈ s'.frames θ := by
  cases e with
  | user θ call =>
    cases call with
    | onComplete f callback =>
      obtain ⟨huser, hlt, hfree, hdone⟩ := h
      refine ⟨s.onComplete θ f callback, θ, f, step_eq_some.2 ⟨?_, ?_⟩, ?_⟩
      · intro r hr
        obtain rfl := Option.some.inj ((request_user huser rfl).symm.trans hr)
        exact hfree
      · rw [perform, if_pos ⟨huser, fun g hg => Option.some.inj hg ▸ hlt⟩]
        rfl
      · rw [onComplete, if_pos hdone, push, setStack]
        simp
    | _ => exact h.elim
  | go θ =>
    obtain ⟨f, htop, hfree, hcallback⟩ := h
    rcases htop with ⟨response, htop⟩ | ⟨futures, htop⟩
    · obtain ⟨below, htop⟩ := List.head?_eq_some_iff.1 htop
      exact ⟨_, θ, f, go_step htop fun m hm => Option.some.inj hm ▸ hfree,
        callback_mem_complete hcallback ..⟩
    · obtain ⟨below, htop⟩ := List.head?_eq_some_iff.1 htop
      exact ⟨_, θ, f, go_step htop fun m hm => Option.some.inj hm ▸ hfree,
        callback_mem_complete hcallback ..⟩
  | _ => exact h.elim

theorem plain_singleton {frame : ClientFrame} (h : ∀ f, frame ≠ .callback f) : Plain [frame] :=
  .inr ⟨frame, rfl, h⟩

theorem plain_findFailed (h : ∀ θ, Plain (s.frames θ)) (hempty : s.frames θ = [])
    (requestId : UInt64) : ∀ θ', Plain ((s.findFailed θ requestId).frames θ') := by
  rw [findFailed]
  split
  · exact h
  · refine plain_update h rfl ?_
    rw [hempty]
    exact plain_singleton (by simp)

theorem plain_userStep {call : UserCall} (h : ∀ θ, Plain (s.frames θ)) (hempty : s.frames θ = [])
    (hne : ∀ f callback, call = .onComplete f callback → (s.client.futures f).completed = false)
    (hstep : s.userStep θ call = some s') : ∀ θ', Plain (s'.frames θ') := by
  have hpush : ∀ (s₁ : ClientThreads n) frame, s₁.frames = s.frames →
      (∀ f, frame ≠ .callback f) → ∀ θ', Plain ((s₁.push θ frame).frames θ') := by
    intro s₁ frame hframes hframe
    refine plain_update (s := s₁) (hframes ▸ h) rfl ?_
    rw [hframes, hempty]
    exact plain_singleton hframe
  cases call with
  | isReady | cancel | connect =>
    obtain rfl := Option.some.inj hstep
    exact h
  | wait f =>
    simp only [userStep] at hstep
    split at hstep
    · obtain rfl := Option.some.inj hstep
      exact h
    · obtain rfl := Option.some.inj hstep
      exact hpush s _ rfl (by simp)
  | onComplete f callback =>
    obtain rfl := Option.some.inj hstep
    rw [onComplete, if_neg (by rw [hne f callback rfl]; exact Bool.false_ne_true)]
    exact h
  | callAsync reserved methodId payload =>
    simp only [userStep, callAsync] at hstep
    split at hstep
    · obtain rfl := Option.some.inj hstep
      exact h
    · split at hstep
      · cases hstep
      · obtain rfl := Option.some.inj hstep
        exact h
      · obtain rfl := Option.some.inj hstep
        exact hpush _ _ rfl (by simp)
  | disconnect =>
    simp only [userStep] at hstep
    split at hstep
    · obtain rfl := Option.some.inj hstep
      exact hpush _ _ rfl (by simp)
    · obtain rfl := Option.some.inj hstep
      exact h

theorem plain_complete (h : ∀ θ, Plain (s.frames θ)) {f : Nat} {below : List ClientFrame}
    (hf : ¬ (s.client.futures f).callback.isSome) (hbelow : Plain below) (response : RpcResponse) :
    ∀ θ', Plain ((s.complete θ f response below).frames θ') := by
  refine plain_update h rfl ?_
  rw [if_neg hf]
  exact hbelow

theorem plain_goStep {frame : ClientFrame} (h : ∀ θ, Plain (s.frames θ))
    (htop : s.frames θ = [frame]) (hne : ¬ s.RunsCallback (.go θ))
    (hfree : ∀ m ∈ s.goRequest frame, s.Free m) (hstep : s.goStep θ [] frame = some s') :
    ∀ θ', Plain (s'.frames θ') := by
  cases frame with
  | callback | waiting => cases hstep
  | registering | closing =>
    obtain rfl := Option.some.inj hstep
    exact plain_update h rfl (plain_singleton (by simp))
  | sending requestId buffer =>
    simp only [goStep, Option.some.injEq] at hstep
    subst hstep
    have hpopped : ∀ conn θ', Plain
        (({ s with link := { s.link with conn := conn } }.setStack θ []).frames θ') :=
      fun conn => plain_update h rfl (.inl rfl)
    split
    · exact hpopped _
    · exact plain_findFailed (hpopped _) (Function.update_self ..) requestId
  | sendFailed =>
    obtain rfl := Option.some.inj hstep
    exact plain_update h rfl (.inl rfl)
  | failing futures =>
    cases futures with
    | nil =>
      obtain rfl := Option.some.inj hstep
      exact plain_update h rfl (.inl rfl)
    | cons f futures =>
      obtain rfl := Option.some.inj hstep
      have hloop : Plain [.failing futures] := plain_singleton (by simp)
      refine plain_complete h (fun hf => hne ⟨f, .inr ⟨futures, ?_⟩, hfree _ rfl, hf⟩) hloop _
      rw [htop]
      rfl
  | completing f response =>
    obtain rfl := Option.some.inj hstep
    refine plain_complete h (fun hf => hne ⟨f, .inl ⟨response, ?_⟩, hfree _ rfl, hf⟩) (.inl rfl) _
    rw [htop]
    rfl

theorem plain_receive {buffer : Buffer} (h : ∀ θ, Plain (s.frames θ)) (hempty : s.frames θ = [])
    (hstep : s.receive θ buffer = some s') : ∀ θ', Plain (s'.frames θ') := by
  rw [receive] at hstep
  split at hstep
  · obtain rfl := Option.some.inj hstep
    exact h
  · simp only at hstep
    split at hstep
    · obtain rfl := Option.some.inj hstep
      exact h
    · split at hstep
      · cases hstep
      · obtain rfl := Option.some.inj hstep
        refine plain_update h rfl ?_
        rw [hempty]
        exact plain_singleton (by simp)

theorem Plain.eq_nil {stack : List ClientFrame} (h : Plain stack)
    (huser : inUserCode stack = true) : stack = [] := by
  rcases h with hnil | ⟨frame, rfl, hcallback⟩
  · exact hnil
  · cases frame with
    | callback f => exact absurd rfl (hcallback f)
    | _ => cases huser

/-- As long as no callback is called, no thread is in the middle of one. -/
theorem plain_step (h : ∀ θ, Plain (s.frames θ)) (hne : ¬ s.RunsCallback e)
    (hstep : s.step e = some s') : ∀ θ, Plain (s'.frames θ) := by
  obtain ⟨hfree, hperform⟩ := step_eq_some.1 hstep
  cases e with
  | user θ call =>
    simp only [perform] at hperform
    split at hperform
    on_goal 2 => cases hperform
    rename_i hcall
    refine plain_userStep h ((h θ).eq_nil hcall.1) (fun f callback hf => ?_) hperform
    subst hf
    by_contra hdone
    exact hne ⟨hcall.1, hcall.2 f rfl, hfree _ (request_user hcall.1 rfl), by simpa using hdone⟩
  | ret θ =>
    simp only [perform] at hperform
    split at hperform
    · rename_i f below htop
      exact absurd (htop ▸ List.mem_cons_self ..) ((h θ).not_callback f)
    · cases hperform
  | receive θ buffer =>
    simp only [perform] at hperform
    split at hperform
    on_goal 2 => cases hperform
    rename_i hempty
    exact plain_receive h (List.isEmpty_iff.1 hempty) hperform
  | sent θ requestId success =>
    simp only [perform] at hperform
    split at hperform
    on_goal 2 => cases hperform
    rename_i hempty
    obtain rfl := Option.some.inj hperform
    split
    · exact h
    · exact plain_findFailed h (List.isEmpty_iff.1 hempty) requestId
  | lost =>
    obtain rfl := Option.some.inj hperform
    exact h
  | go θ =>
    rcases h θ with hnil | ⟨frame, htop, -⟩
    · simp [perform, hnil] at hperform
    · simp only [perform, htop] at hperform
      refine plain_goStep h htop hne (fun m hm => hfree (θ, m) ?_) hperform
      rw [request, htop, List.head?_cons, Option.bind_some, Option.mem_def.1 hm]
      rfl
  | wake θ timedOut =>
    rcases h θ with hnil | ⟨frame, htop, -⟩
    · simp [perform, hnil] at hperform
    · simp only [perform, htop] at hperform
      split at hperform
      · rename_i heq
        obtain ⟨-, rfl⟩ := List.cons.inj heq
        split at hperform
        · obtain rfl := Option.some.inj hperform
          exact plain_update h rfl (.inl rfl)
        · obtain rfl := Option.some.inj hperform
          exact h
      · cases hperform

/-- A client that is not connected yet, on which no thread does anything. -/
def start (n : Nat) (pool : BufferPool) : ClientThreads n where
  link := ⟨{ connected := false }, { state := .DISCONNECTED }, pool⟩

theorem inv_start (n : Nat) (pool : BufferPool) : (start n pool).Inv := by
  have hempty : ∀ id f, (start n pool).client.pendingRequests.get? id ≠ some f := nofun
  exact {
    ok := nofun
    layered := fun _ => .nil
    exclusive := nofun
    distinct := ⟨fun id f hget => absurd hget (hempty id f),
      fun id _ f hget => absurd hget (hempty id f)⟩
    undone := fun _ id f hget => absurd hget (hempty id f) }

theorem inv_run {pool : BufferPool} {es : List (ThreadEvent n)}
    (h : run step (start n pool) es = some s) : s.Inv :=
  run_invariant (inv_start n pool) (fun _ _ _ hs hstep => hs.step hstep) h

end ClientThreads

open ClientThreads

/-- A thread of the client asks for a mutex that it holds exactly if a callback enters the client
again where it must not. And no callback is ever called with a mutex held exactly if none is
called. -/
theorem callback_locks_iff (n : Nat) (pool : BufferPool) (events : List (ThreadEvent n)) :
    (Along step NoSelfRequest (start n pool) events ↔
        Along step (fun s e => ¬ s.Reenters e) (start n pool) events) ∧
      (Along step (fun s e => s.NoSelfRequest e ∧
            ∀ s', s.step e = some s' → s'.CallbacksHoldNothing) (start n pool) events ↔
        Along step (fun s e => ¬ s.RunsCallback e) (start n pool) events) := by
  constructor
  · exact Along.congr fun es e s _ hs => (inv_run hs).noSelfRequest_iff
  · refine Along.congr_invariant (I := fun s => s.Inv ∧ ∀ θ, Plain (s.frames θ))
      ⟨inv_start n pool, fun _ => .inl rfl⟩
      (fun s e s' hs hne hstep => ⟨hs.1.step hstep, plain_step hs.2 hne hstep⟩) fun s e hs => ?_
    constructor
    · rintro ⟨-, hnothing⟩ hruns
      obtain ⟨s', θ, f, hstep, hmem⟩ := runs_callback hruns
      exact not_callbacksHoldNothing hmem (hnothing s' hstep)
    · intro hne
      exact ⟨hs.1.noSelfRequest_iff.2 (not_reenters_of_plain hs.2), fun s' hstep =>
        callbacksHoldNothing_of_plain (plain_step hs.2 hne hstep)⟩

section Example

/-- A client that is not connected refuses a call; its user registers a callback, which is called at
once and asks whether the future is ready. -/
theorem callback_asks_its_future : ∃ s,
    run step (start 1 (.create {})) [.user 0 (.callAsync 0 7 []), .user 0 (.onComplete 0 5)] =
      some s ∧
    s.request (.user 0 (.isReady 0)) = some (0, .future 0) ∧ .future 0 ∈ s.held 0 ∧
    s.step (.user 0 (.isReady 0)) = none ∧ ¬ s.NoSelfRequest (.user 0 (.isReady 0)) ∧
    ¬ s.CallbacksHoldNothing := by
  refine ⟨_, rfl, rfl, by decide, rfl, fun h => h 0 _ rfl (by decide), ?_⟩
  exact not_callbacksHoldNothing (θ := 0) (f := 0) (List.mem_cons_self ..)

end Example

end GossipRl
