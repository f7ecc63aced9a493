import GossipRl.Rpc.Framing

/-!
# Accepting connections (`tcp_transport.cpp`)

`listen` submits an accept operation with `accept_callback`, which submits the next one with a
callback of another kind, and that one submits none. So once two accept callbacks have returned
nothing is outstanding on the listening socket. An accept operation is outstanding until it
completes, and its callback runs until it returns.
-/

namespace GossipRl
open Support

/-- `Endpoint`. -/
structure SocketEndpoint where
  host : String
  port : UInt16
deriving DecidableEq, Repr

inductive AcceptCallback where
  | acceptCallback
  /-- The lambda in `accept_callback`. -/
  | inner
deriving DecidableEq, Repr

/-- What an accept callback submits. -/
def AcceptCallback.rearms : AcceptCallback → List AcceptCallback
  | .acceptCallback => [.inner]
  | .inner => []

structure AcceptedConnection where
  fd : Int
  localEndpoint : SocketEndpoint
  remoteEndpoint : SocketEndpoint
  conn : TcpConnection

structure TcpTransport where
  pool : BufferPool
  listenFd : Int := -1
  localEndpoint : SocketEndpoint := ⟨"", 0⟩
  running : Bool := false
  connections : Dict UInt64 AcceptedConnection := .empty
  nextConnectionId : UInt64 := 0
  /-- The outstanding accept operations. -/
  accepts : List AcceptCallback := []
  /-- The callback that runs, the result it was given, and the peer that `getpeername` names. -/
  current : Option (AcceptCallback × Int × SocketEndpoint) := none
  /-- The sockets that were passed to `on_accept`. -/
  accepted : List Int := []

inductive ListenerEvent where
  | complete (i : Nat) (result : Int) (peer : SocketEndpoint)
  /-- The callback that runs returns. -/
  | callback
  | stop
deriving DecidableEq, Repr

namespace TcpTransport

def submitAccept (callback : AcceptCallback) (t : TcpTransport) : TcpTransport :=
  { t with accepts := t.accepts ++ [callback] }

/-- `listen`; `fd` is the result of `socket`, and the flags say whether `bind` and `listen`
succeed. -/
def listen (endpoint : SocketEndpoint) (fd : Int) (bound listening : Bool) (t : TcpTransport) :
    Bool × TcpTransport :=
  if fd < 0 then (false, { t with listenFd := fd })
  else if !bound || !listening then (false, { t with listenFd := -1 })
  else
    (true, { t with listenFd := fd, localEndpoint := endpoint, running := true }.submitAccept
      .acceptCallback)

def onAccept (clientFd : Int) (remote : SocketEndpoint) (t : TcpTransport) :
    Except Fault TcpTransport :=
  let l : Link Unit := ⟨(), {}, t.pool⟩
  l.startRecv.map fun l =>
    { t with
      pool := l.pool
      connections := t.connections.set t.nextConnectionId
        ⟨clientFd, t.localEndpoint, remote, l.conn⟩
      nextConnectionId := t.nextConnectionId + 1
      accepted := t.accepted ++ [clientFd] }

/-- The body of an accept callback. -/
def runCallback (result : Int) (peer : SocketEndpoint) (t : TcpTransport) :
    AcceptCallback → Except Fault TcpTransport
  | .acceptCallback =>
    (if 0 ≤ result then t.onAccept result peer else .ok t).map fun t =>
      if t.running then t.submitAccept .inner else t
  | .inner => if 0 ≤ result ∧ t.running then t.onAccept result peer else .ok t

def stop (t : TcpTransport) : TcpTransport :=
  { t with running := false, listenFd := -1, connections := .empty }

def step (t : TcpTransport) : ListenerEvent → Option TcpTransport
  | .complete i result peer =>
    match t.accepts[i]?, t.current with
    | some callback, none =>
      some { t with accepts := t.accepts.eraseIdx i, current := some (callback, result, peer) }
    | _, _ => none
  | .callback =>
    match t.current with
    | none => none
    | some (callback, result, peer) =>
      match runCallback result peer { t with current := none } callback with
      | .ok t => some t
      | .error _ => none
  | .stop => some t.stop

/-- The accept operations that are outstanding, or whose callback runs. -/
def armed (t : TcpTransport) : List AcceptCallback :=
  t.accepts ++ (t.current.map Prod.fst).toList

/-- Exactly one accept operation is outstanding or its callback runs. -/
def Accepting (t : TcpTransport) : Prop := t.armed.length = 1

/-- What is armed after `k` callbacks. -/
def chain : Nat → List AcceptCallback
  | 0 => [.acceptCallback]
  | 1 => [.inner]
  | _ => []

variable {t t' : TcpTransport} {e : ListenerEvent} {result : Int} {peer : SocketEndpoint} {k : Nat}

theorem onAccept_frame (h : t.onAccept result peer = .ok t') :
    t'.running = t.running ∧ t'.accepts = t.accepts ∧ t'.current = t.current := by
  unfold onAccept at h
  obtain ⟨l, -, rfl⟩ := map_eq_ok_iff.1 h
  exact ⟨rfl, rfl, rfl⟩

theorem runCallback_armed {callback : AcceptCallback} (hrunning : t.running = true)
    (h : runCallback result peer t callback = .ok t') :
    t'.running = true ∧ t'.current = t.current ∧ t'.accepts = t.accepts ++ callback.rearms := by
  -- the connection is set up, or the completion was a failure
  have hfirst : ∀ t₁ : TcpTransport,
      (if 0 ≤ result then t.onAccept result peer else .ok t) = .ok t₁ →
      t₁.running = true ∧ t₁.current = t.current ∧ t₁.accepts = t.accepts := by
    intro t₁ h₁
    split at h₁
    · obtain ⟨hrun, haccepts, hcurrent⟩ := onAccept_frame h₁
      exact ⟨hrun.trans hrunning, hcurrent, haccepts⟩
    · obtain rfl := Except.ok.inj h₁
      exact ⟨hrunning, rfl, rfl⟩
  cases callback with
  | acceptCallback =>
    unfold runCallback at h
    cases h₁ : (if 0 ≤ result then t.onAccept result peer else .ok t) with
    | error f =>
      rw [h₁] at h
      cases h
    | ok t₁ =>
      obtain ⟨hrun, hcurrent, haccepts⟩ := hfirst t₁ h₁
      rw [h₁] at h
      simp only [Except.map, hrun, if_true, Except.ok.injEq] at h
      rw [← h]
      exact ⟨hrun, hcurrent, by rw [submitAccept, haccepts]; rfl⟩
  | inner =>
    simp only [runCallback, hrunning, and_true] at h
    obtain ⟨hrun, hcurrent, haccepts⟩ := hfirst t' h
    exact ⟨hrun, hcurrent, by rw [haccepts]; exact (List.append_nil _).symm⟩

/-- `listen` has succeeded, and `k` callbacks have returned since. -/
structure ListenInv (k : Nat) (t : TcpTransport) : Prop where
  running : t.running = true
  eq_chain : t.armed = chain k

theorem chain_succ {callback : AcceptCallback} (h : chain k = [callback]) :
    chain (k + 1) = callback.rearms := by
  match k with
  | 0 =>
    obtain rfl : .acceptCallback = callback := by simpa [chain] using h
    rfl
  | 1 =>
    obtain rfl : .inner = callback := by simpa [chain] using h
    rfl
  | _ + 2 => cases h

theorem length_chain_le (k : Nat) : (chain k).length ≤ 1 := by
  match k with
  | 0 => exact le_rfl
  | 1 => exact le_rfl
  | _ + 2 => exact Nat.zero_le 1

theorem length_chain_eq_one_iff : (chain k).length = 1 ↔ k ≤ 1 := by
  match k with
  | 0 => simp [chain]
  | 1 => simp [chain]
  | _ + 2 => simp [chain]

theorem ListenInv.step (hs : ListenInv k t) (he : e ≠ .stop) (h : t.step e = some t') :
    ListenInv (if e = .callback then k + 1 else k) t' := by
  have hle := length_chain_le k
  rw [← hs.eq_chain] at hle
  cases e with
  | complete i result peer =>
    simp only [TcpTransport.step] at h
    split at h
    · rename_i callback hget hcurrent
      rw [← Option.some.inj h]
      refine ⟨hs.running, ?_⟩
      rw [if_neg (by simp), ← hs.eq_chain]
      unfold armed at hle ⊢
      -- a single operation is outstanding, and it is the one that completes
      match haccepts : t.accepts with
      | [] => simp [haccepts] at hget
      | [only] =>
        rw [haccepts] at hget
        obtain ⟨hlt, heq⟩ := List.getElem?_eq_some_iff.1 hget
        obtain rfl : i = 0 := by simpa using hlt
        rw [hcurrent]
        simpa using heq.symm
      | _ :: _ :: _ =>
        rw [haccepts] at hle
        simp at hle
    · cases h
  | callback =>
    simp only [TcpTransport.step] at h
    split at h
    · cases h
    · rename_i callback result peer hcurrent
      have haccepts : t.accepts = [] := by
        rw [armed, hcurrent] at hle
        have : t.accepts.length = 0 := by simpa using hle
        exact List.length_eq_zero_iff.1 this
      have harmed : chain k = [callback] := by
        rw [← hs.eq_chain, armed, haccepts, hcurrent]
        rfl
      split at h
      · rename_i t₁ hcall
        rw [← Option.some.inj h]
        obtain ⟨hrun, hcur, hacc⟩ := runCallback_armed (t := { t with current := none }) hs.running hcall
        refine ⟨hrun, ?_⟩
        rw [if_pos rfl, chain_succ harmed, armed, hcur, hacc]
        simp [haccepts]
      · cases h
  | stop => exact absurd rfl he

end TcpTransport

open TcpTransport

/-- After `listen`, and until `stop`, exactly one accept operation is outstanding or its callback
runs as long as at most one accept callback has returned, and not after that. -/
theorem accepting_iff {t₀ t₁ t : TcpTransport} {endpoint : SocketEndpoint} {fd : Int}
    {bound listening : Bool} {events : List ListenerEvent} (hidle : t₀.armed = [])
    (hlisten : t₀.listen endpoint fd bound listening = (true, t₁))
    (hstop : .stop ∉ events) (hrun : run TcpTransport.step t₁ events = some t) :
    t.Accepting ↔ events.count .callback ≤ 1 := by
  have hinit : ListenInv 0 t₁ := by
    unfold TcpTransport.listen at hlisten
    split at hlisten
    · cases hlisten
    · split at hlisten
      · cases hlisten
      · obtain rfl := (Prod.mk.inj hlisten).2
        refine ⟨rfl, ?_⟩
        unfold armed at hidle ⊢
        obtain ⟨haccepts, hcurrent⟩ := List.append_eq_nil_iff.1 hidle
        show t₀.accepts ++ [AcceptCallback.acceptCallback] ++
          (t₀.current.map Prod.fst).toList = _
        rw [haccepts, hcurrent]
        rfl
  have hinv : ListenInv (events.count .callback) t := by
    refine run_induction (C := fun _ e => e ≠ .stop)
      (motive := fun es t => ListenInv (es.count .callback) t) hinit ?_ ?_ hrun
    · intro es t e t' _ ht he hstep
      have hnext := ht.step he hstep
      rw [List.count_append, List.count_singleton]
      by_cases hcall : e = .callback
      · simpa [hcall] using hnext
      · simpa [hcall] using hnext
    · rintro es₁ e es₂ s rfl - rfl
      simp at hstop
  rw [Accepting, hinv.eq_chain, length_chain_eq_one_iff]

section Example

def idleTransport : TcpTransport := { pool := .create .few }

def peerOf (port : UInt16) : SocketEndpoint := ⟨"127.0.0.1", port⟩

/-- A client connects, and then another one. -/
def twoClients : List ListenerEvent :=
  [.complete 0 5 (peerOf 40001), .callback, .complete 0 6 (peerOf 40002), .callback]

theorem accepting_iff_two : ∃ t₁ t,
    idleTransport.listen (peerOf 9000) 3 true true = (true, t₁) ∧
    run TcpTransport.step t₁ twoClients = some t ∧
    (t.Accepting ↔ twoClients.count .callback ≤ 1) := by
  obtain ⟨t₁, hlisten⟩ : ∃ t₁, idleTransport.listen (peerOf 9000) 3 true true = (true, t₁) :=
    ⟨_, rfl⟩
  obtain ⟨t, hrun⟩ : ∃ t, run TcpTransport.step t₁ twoClients = some t := by
    obtain rfl := (Prod.mk.inj hlisten).2
    exact ⟨_, rfl⟩
  exact ⟨t₁, t, hlisten, hrun, accepting_iff rfl hlisten (by decide) hrun⟩

/-- A third client is not accepted any more, whatever completes. -/
theorem third_client_not_accepted : ∃ t₁ t,
    idleTransport.listen (peerOf 9000) 3 true true = (true, t₁) ∧
    run TcpTransport.step t₁ twoClients = some t ∧
    t.running = true ∧ t.accepted = [5, 6] ∧ t.accepts = [] ∧ t.current = none ∧ ¬ t.Accepting := by
  refine ⟨_, _, rfl, rfl, rfl, rfl, rfl, rfl, ?_⟩
  intro h
  cases h

end Example

end GossipRl
