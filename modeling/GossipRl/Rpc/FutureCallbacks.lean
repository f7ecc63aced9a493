import GossipRl.Rpc.PendingFutures

/-!
# Callbacks of futures

A future is completed once. `Ledger` says what must have come of the completions so far and the
callbacks registered so far: a callback has been invoked if its future is completed, once and with
the response that completed it. Every way of completing a future runs the stored callback, except
the completion of a failed send.
-/

namespace GossipRl
open Support

namespace ClientAction

/-- The callback that is registered, and its future. -/
def registration : ClientAction → List (Nat × Nat)
  | .onComplete future callback => [(future, callback)]
  | _ => []

end ClientAction

namespace RpcClient

/-- `comps` are the completions, `regs` the registrations so far. -/
structure Ledger (comps : List (Nat × RpcResponse)) (regs : List (Nat × Nat)) (c : RpcClient) :
    Prop where
  blank : ∀ f, c.nextFuture ≤ f → (c.futures f).completed = false ∧ (c.futures f).callback = none
  registered : ∀ f cb, (f, cb) ∈ regs → f < c.nextFuture
  completed : ∀ f, (c.futures f).completed = true ↔ ∃ r, (f, r) ∈ comps
  once : (comps.map Prod.fst).Nodup
  untouched : ∀ f, (c.futures f).completed = false → (c.futures f).response = {}
  stored : ∀ f, (c.futures f).completed = false →
    ∀ cb, (c.futures f).callback = some cb ↔ (f, cb) ∈ regs
  kept : ∀ f r, (f, r) ∈ comps → (∀ cb, (f, cb) ∉ regs) → (c.futures f).response = r
  named : (c.invoked.map Prod.fst).Nodup
  invoked : ∀ cb r, (cb, r) ∈ c.invoked ↔ ∃ f, (f, cb) ∈ regs ∧ (f, r) ∈ comps

theorem nodup_fst_concat {α β : Type*} {l : List (α × β)} {a : α} (h : (l.map Prod.fst).Nodup)
    (hnew : ∀ b, (a, b) ∉ l) (b : β) : ((l ++ [(a, b)]).map Prod.fst).Nodup := by
  have ha : a ∉ l.map Prod.fst := by
    intro hmem
    obtain ⟨x, hx, rfl⟩ := List.mem_map.1 hmem
    exact hnew x.2 hx
  rw [List.map_append, List.map_singleton, ← List.concat_eq_append]
  exact h.concat ha

namespace Ledger
variable {comps : List (Nat × RpcResponse)} {regs : List (Nat × Nat)} {c c' : RpcClient} {f : Nat}
  {r : RpcResponse}

/-- Only these fields of a future matter. -/
theorem of_same (h : Ledger comps regs c)
    (hsame : ∀ g, (c'.futures g).completed = (c.futures g).completed ∧
      (c'.futures g).callback = (c.futures g).callback ∧
      (c'.futures g).response = (c.futures g).response)
    (hnext : c.nextFuture ≤ c'.nextFuture) (hinvoked : c'.invoked = c.invoked) :
    Ledger comps regs c' where
  blank := by
    intro g hg
    rw [(hsame g).1, (hsame g).2.1]
    exact h.blank g (by omega)
  registered := by
    intro g cb hg
    have := h.registered g cb hg
    omega
  completed := fun g => by rw [(hsame g).1]; exact h.completed g
  once := h.once
  untouched := fun g => by rw [(hsame g).1, (hsame g).2.2]; exact h.untouched g
  stored := fun g => by rw [(hsame g).1, (hsame g).2.1]; exact h.stored g
  kept := fun g => by rw [(hsame g).2.2]; exact h.kept g
  named := by rw [hinvoked]; exact h.named
  invoked := by rw [hinvoked]; exact h.invoked

theorem not_mem_comps (h : Ledger comps regs c) (hf : (c.futures f).completed = false)
    (r : RpcResponse) : (f, r) ∉ comps := by
  intro hr
  rw [(h.completed f).2 ⟨r, hr⟩] at hf
  cases hf

theorem not_mem_invoked (h : Ledger comps regs c) (hregs : (regs.map Prod.snd).Nodup) {cb : Nat}
    (hcb : (f, cb) ∈ regs) (hf : (c.futures f).completed = false) (r : RpcResponse) :
    (cb, r) ∉ c.invoked := by
  intro hr
  obtain ⟨f', hf', hr'⟩ := (h.invoked cb r).1 hr
  obtain ⟨rfl, -⟩ := Prod.mk.inj (List.inj_on_of_nodup_map hregs hf' hcb rfl)
  exact h.not_mem_comps hf r hr'

theorem mem_invoked_settle (h : Ledger comps regs c) (hf : (c.futures f).completed = false)
    (r : RpcResponse) (cb : Nat) (r' : RpcResponse) :
    (cb, r') ∈ c.invoked ++ ((c.futures f).callback.toList.map fun cb => (cb, r)) ↔
      ∃ g, (g, cb) ∈ regs ∧ (g, r') ∈ comps ++ [(f, r)] := by
  have hstored := h.stored f hf cb
  rw [List.mem_append, h.invoked cb r']
  constructor
  · rintro (⟨g, hg, hr'⟩ | hmem)
    · exact ⟨g, hg, List.mem_append_left _ hr'⟩
    · obtain ⟨hcallback, rfl⟩ : (c.futures f).callback = some cb ∧ r = r' := by simpa using hmem
      exact ⟨f, hstored.1 hcallback, by simp⟩
  · rintro ⟨g, hg, hmem⟩
    rcases List.mem_append.1 hmem with hmem | hmem
    · exact .inl ⟨g, hg, hmem⟩
    · obtain ⟨rfl, rfl⟩ := Prod.mk.inj (List.mem_singleton.1 hmem)
      exact .inr (by simp [hstored.2 hg])

theorem settle (h : Ledger comps regs c) (hregs : (regs.map Prod.snd).Nodup)
    (hf : (c.futures f).completed = false) {st : RpcFutureState} (hst : st.completed = true)
    (hfutures : c'.futures = Function.update c.futures f st) (hlt : f < c'.nextFuture)
    (hnext : c.nextFuture ≤ c'.nextFuture)
    (hresponse : (∀ cb, (f, cb) ∉ regs) → st.response = r)
    (hinvoked : c'.invoked =
      c.invoked ++ (c.futures f).callback.toList.map fun cb => (cb, r)) :
    Ledger (comps ++ [(f, r)]) regs c' := by
  have hnew : ∀ r', (f, r') ∉ comps := h.not_mem_comps hf
  have hself : c'.futures f = st := by rw [hfutures, Function.update_self]
  have hother : ∀ g ≠ f, c'.futures g = c.futures g := by
    intro g hg
    rw [hfutures, Function.update_of_ne hg]
  have hne : ∀ g, (c'.futures g).completed = false → g ≠ f := by
    rintro g hg rfl
    rw [hself, hst] at hg
    cases hg
  exact {
    blank := by
      intro g hg
      rw [hother g (by omega)]
      exact h.blank g (by omega)
    registered := by
      intro g cb hg
      have := h.registered g cb hg
      omega
    completed := by
      intro g
      by_cases hg : g = f
      · subst hg
        rw [hself]
        exact ⟨fun _ => ⟨r, by simp⟩, fun _ => hst⟩
      · simp [hother g hg, h.completed g, hg]
    once := nodup_fst_concat h.once hnew r
    untouched := by
      intro g hg
      have hg' := hother g (hne g hg)
      rw [hg'] at hg ⊢
      exact h.untouched g hg
    stored := by
      intro g hg
      have hg' := hother g (hne g hg)
      rw [hg'] at hg ⊢
      exact h.stored g hg
    kept := by
      intro g r' hmem hnone
      rcases List.mem_append.1 hmem with hold | hlast
      · rw [hother g]
        · exact h.kept g r' hold hnone
        · rintro rfl
          exact hnew r' hold
      · obtain ⟨rfl, rfl⟩ := Prod.mk.inj (List.mem_singleton.1 hlast)
        rw [hself]
        exact hresponse hnone
    named := by
      rw [hinvoked]
      cases hcb : (c.futures f).callback with
      | none => simpa using h.named
      | some cb =>
        have hmem : (f, cb) ∈ regs := (h.stored f hf cb).1 hcb
        exact nodup_fst_concat h.named (h.not_mem_invoked hregs hmem hf) r
    invoked := by
      rw [hinvoked]
      exact h.mem_invoked_settle hf r }

theorem complete (h : Ledger comps regs c) (hregs : (regs.map Prod.snd).Nodup)
    (hlt : f < c.nextFuture) (hf : (c.futures f).completed = false) (r : RpcResponse) :
    Ledger (comps ++ [(f, r)]) regs (c.complete f r) := by
  cases hcb : (c.futures f).callback with
  | none =>
    have heq : c.complete f r = { c with
        futures := Function.update c.futures f
          { c.futures f with response := r, completed := true } } := by
      simp only [RpcClient.complete, hcb]
    rw [heq]
    exact h.settle hregs hf rfl rfl hlt le_rfl (fun _ => rfl) (by simp [hcb])
  | some cb =>
    have heq : c.complete f r = { c with
        futures := Function.update c.futures f
          { c.futures f with response := r.movedFrom, completed := true }
        invoked := c.invoked ++ [(cb, r)] } := by
      simp only [RpcClient.complete, hcb]
    rw [heq]
    refine h.settle hregs hf rfl rfl hlt le_rfl (fun hnone => ?_) (by simp [hcb])
    exact absurd ((h.stored f hf cb).1 hcb) (hnone cb)

theorem closeAll (hregs : (regs.map Prod.snd).Nodup) {fs : List Nat} (hfs : fs.Nodup)
    (h : Ledger comps regs c)
    (hopen : ∀ f ∈ fs, f < c.nextFuture ∧ (c.futures f).completed = false) :
    Ledger (comps ++ fs.map fun f =>
      (f, { status := .UNAVAILABLE, errorMessage := bytesOf "Connection closed" })) regs
      (RpcClient.closeAll fs c) := by
  induction fs generalizing comps c with
  | nil => simpa [RpcClient.closeAll] using h
  | cons f fs ih =>
    obtain ⟨hnot, hfs⟩ := List.nodup_cons.1 hfs
    obtain ⟨hlt, hf⟩ := hopen f (List.mem_cons_self ..)
    have hc := h.complete hregs hlt hf
      { status := .UNAVAILABLE, errorMessage := bytesOf "Connection closed" }
    have hrest := ih hfs hc (fun g hg => by
      obtain ⟨hlt', hg'⟩ := hopen g (List.mem_cons_of_mem f hg)
      have hne : g ≠ f := by
        rintro rfl
        exact hnot hg
      exact ⟨by simpa using hlt', by simp [completed_complete, hne, hg']⟩)
    have heq : RpcClient.closeAll (f :: fs) c =
        RpcClient.closeAll fs (c.complete f
          { status := .UNAVAILABLE, errorMessage := bytesOf "Connection closed" }) := by
      simp only [RpcClient.closeAll, List.foldl_cons, h.untouched f hf]
    rw [heq, List.map_cons, ← List.singleton_append, ← List.append_assoc]
    exact hrest

theorem mem_invoked_register (h : Ledger comps regs c) {cb : Nat} (hf : ∀ cb', (f, cb') ∉ regs)
    (cb' : Nat) (r' : RpcResponse) :
    ((cb', r') ∈ c.invoked ++
        if (c.futures f).completed then [(cb, (c.futures f).response)] else []) ↔
      ∃ g, (g, cb') ∈ regs ++ [(f, cb)] ∧ (g, r') ∈ comps := by
  rw [List.mem_append, h.invoked cb' r']
  constructor
  · rintro (⟨g, hg, hr'⟩ | hlast)
    · exact ⟨g, List.mem_append_left _ hg, hr'⟩
    · split at hlast
      · rename_i hdone
        obtain ⟨rfl, rfl⟩ := Prod.mk.inj (List.mem_singleton.1 hlast)
        obtain ⟨r, hr⟩ := (h.completed f).1 hdone
        exact ⟨f, by simp, by rwa [h.kept f r hr hf]⟩
      · cases hlast
  · rintro ⟨g, hg, hr'⟩
    rcases List.mem_append.1 hg with hold | hlast
    · exact .inl ⟨g, hold, hr'⟩
    · obtain ⟨rfl, rfl⟩ := Prod.mk.inj (List.mem_singleton.1 hlast)
      right
      rw [if_pos ((h.completed g).2 ⟨r', hr'⟩), h.kept g r' hr' hf]
      simp

theorem register (h : Ledger comps regs c) {cb : Nat} (hlt : f < c.nextFuture)
    (hf : ∀ cb', (f, cb') ∉ regs) (hcb : ∀ f', (f', cb) ∉ regs) {st : RpcFutureState}
    (hfutures : c'.futures = Function.update c.futures f st) (hnext : c'.nextFuture = c.nextFuture)
    (hcompleted : st.completed = (c.futures f).completed)
    (hwaits : (c.futures f).completed = false →
      st.callback = some cb ∧ st.response = (c.futures f).response)
    (hinvoked : c'.invoked = c.invoked ++
      if (c.futures f).completed then [(cb, (c.futures f).response)] else []) :
    Ledger comps (regs ++ [(f, cb)]) c' := by
  have hself : c'.futures f = st := by rw [hfutures, Function.update_self]
  have hother : ∀ g ≠ f, c'.futures g = c.futures g := by
    intro g hg
    rw [hfutures, Function.update_of_ne hg]
  have hsame : ∀ g, (c'.futures g).completed = (c.futures g).completed := by
    intro g
    by_cases hg : g = f
    · rw [hg, hself, hcompleted]
    · rw [hother g hg]
  exact {
    blank := by
      intro g hg
      rw [hother g (by omega)]
      exact h.blank g (by omega)
    registered := by
      intro g cb' hmem
      rw [hnext]
      rcases List.mem_append.1 hmem with hold | hlast
      · exact h.registered g cb' hold
      · obtain ⟨rfl, -⟩ := Prod.mk.inj (List.mem_singleton.1 hlast)
        exact hlt
    completed := fun g => by rw [hsame g]; exact h.completed g
    once := h.once
    untouched := by
      intro g hg
      rw [hsame g] at hg
      by_cases hgf : g = f
      · subst hgf
        rw [hself, (hwaits hg).2]
        exact h.untouched g hg
      · rw [hother g hgf]
        exact h.untouched g hg
    stored := by
      intro g hg cb'
      rw [hsame g] at hg
      by_cases hgf : g = f
      · subst hgf
        rw [hself, (hwaits hg).1]
        simp [hf cb', eq_comm]
      · rw [hother g hgf, h.stored g hg cb']
        simp [hgf]
    kept := by
      intro g r' hmem hnone
      have hg : g ≠ f := by
        rintro rfl
        exact hnone cb (by simp)
      rw [hother g hg]
      exact h.kept g r' hmem fun cb' hold => hnone cb' (List.mem_append_left _ hold)
    named := by
      rw [hinvoked]
      split
      · refine nodup_fst_concat h.named (fun r hr => ?_) _
        obtain ⟨f', hf', -⟩ := (h.invoked cb r).1 hr
        exact hcb f' hf'
      · simpa using h.named
    invoked := by
      rw [hinvoked]
      exact h.mem_invoked_register hf }

theorem onComplete (h : Ledger comps regs c) {cb : Nat} (hlt : f < c.nextFuture)
    (hf : ∀ cb', (f, cb') ∉ regs) (hcb : ∀ f', (f', cb) ∉ regs) :
    Ledger comps (regs ++ [(f, cb)]) (c.onComplete f cb) := by
  cases hdone : (c.futures f).completed with
  | true =>
    have heq : c.onComplete f cb = { c with
        futures := Function.update c.futures f
          { c.futures f with response := (c.futures f).response.movedFrom }
        invoked := c.invoked ++ [(cb, (c.futures f).response)] } := by
      simp only [RpcClient.onComplete, hdone, if_true]
    rw [heq]
    exact h.register hlt hf hcb rfl rfl rfl (by simp [hdone]) (by simp [hdone])
  | false =>
    have heq : c.onComplete f cb = { c with
        futures := Function.update c.futures f { c.futures f with callback := some cb } } := by
      simp only [RpcClient.onComplete, hdone, Bool.false_eq_true, if_false]
    rw [heq]
    exact h.register hlt hf hcb rfl rfl rfl (fun _ => ⟨rfl, rfl⟩) (by simp [hdone])

end Ledger

/-- A failed send completes its future without looking at the stored callback. -/
def CallsBack (c : RpcClient) : ClientAction → Prop
  | .sendFailed id => ∀ f, c.pendingRequests.get? id = some f → (c.futures f).callback = none
  | _ => True

theorem Ledger.act {comps : List (Nat × RpcResponse)} {regs : List (Nat × Nat)} {c : RpcClient}
    (h : Ledger comps regs c) (hpending : c.PendingInv) (hregs : (regs.map Prod.snd).Nodup)
    {a : ClientAction} (ha : c.CallsBack a)
    (hnew : ∀ f cb, a = .onComplete f cb →
      f < c.nextFuture ∧ (∀ cb', (f, cb') ∉ regs) ∧ ∀ f', (f', cb) ∉ regs) :
    Ledger (comps ++ c.completes a) (regs ++ a.registration) (c.act a) := by
  cases a with
  | onComplete f cb =>
    obtain ⟨hlt, hf, hcb⟩ := hnew f cb rfl
    show Ledger (comps ++ []) _ _
    rw [List.append_nil]
    exact h.onComplete hlt hf hcb
  | none => simpa [completes, ClientAction.registration, RpcClient.act] using h
  | refuse response =>
    show Ledger _ (regs ++ []) _
    rw [List.append_nil]
    obtain ⟨hdone, hcb⟩ := h.blank c.nextFuture le_rfl
    exact h.settle hregs hdone rfl rfl (Nat.lt_succ_self _) (Nat.le_succ _) (fun _ => rfl)
      (by rw [hcb]; exact (List.append_nil _).symm)
  | call =>
    show Ledger (comps ++ []) (regs ++ []) _
    rw [List.append_nil, List.append_nil]
    refine h.of_same (fun g => ?_) (Nat.le_succ _) rfl
    show (Function.update c.futures c.nextFuture _ g).completed = _ ∧ _
    by_cases hg : g = c.nextFuture
    · subst hg
      obtain ⟨hdone, hcb⟩ := h.blank c.nextFuture le_rfl
      simp [RpcClient.act, newFuture, hdone, hcb, h.untouched _ hdone]
    · simp [RpcClient.act, newFuture, hg]
  | respond id response =>
    show Ledger _ (regs ++ []) _
    rw [List.append_nil]
    cases hget : c.pendingRequests.get? id with
    | none => simpa [completes, RpcClient.act, hget] using h
    | some f =>
      obtain ⟨hlt, hdone⟩ := hpending.waiting id f hget
      have hc : Ledger comps regs { c with pendingRequests := c.pendingRequests.erase id } :=
        h.of_same (fun _ => ⟨rfl, rfl, rfl⟩) le_rfl rfl
      simpa [completes, RpcClient.act, hget] using hc.complete hregs hlt hdone response
  | sendFailed id =>
    show Ledger _ (regs ++ []) _
    rw [List.append_nil]
    cases hget : c.pendingRequests.get? id with
    | none => simpa [completes, RpcClient.act, onSent, hget] using h
    | some f =>
      obtain ⟨hlt, hdone⟩ := hpending.waiting id f hget
      have hcb := ha f hget
      simp only [completes, RpcClient.act, onSent, hget, Option.toList_some, List.map_cons,
        List.map_nil, Bool.false_eq_true, if_false]
      refine h.settle hregs hdone rfl rfl hlt le_rfl (fun _ => ?_) (by simp [hcb])
      rw [h.untouched f hdone]
  | remoteClose =>
    show Ledger (comps ++ []) (regs ++ []) _
    rw [List.append_nil, List.append_nil]
    exact h.of_same (fun _ => ⟨rfl, rfl, rfl⟩) le_rfl rfl
  | disconnect =>
    show Ledger _ (regs ++ []) _
    rw [List.append_nil]
    cases hconn : c.connected with
    | false => simpa [completes, RpcClient.act, hconn] using h
    | true =>
      have hfs : c.pendingRequests.values.Nodup := Dict.nodup_values hpending.inj
      have hc : Ledger comps regs { c with connected := false } :=
        h.of_same (fun _ => ⟨rfl, rfl, rfl⟩) le_rfl rfl
      have hclosed := hc.closeAll hregs hfs (fun f hf => by
        obtain ⟨id, hget⟩ := Dict.mem_values_iff.1 hf
        exact hpending.waiting id f hget)
      simp only [completes, RpcClient.act, hconn, if_true, failPending_eq]
      exact hclosed.of_same (fun _ => ⟨rfl, rfl, rfl⟩) le_rfl rfl
  | cancel f =>
    show Ledger (comps ++ []) (regs ++ []) _
    rw [List.append_nil, List.append_nil]
    refine h.of_same (fun g => ?_) le_rfl rfl
    by_cases hg : g = f
    · subst hg
      simp [RpcClient.act, RpcClient.cancel]
    · simp [RpcClient.act, RpcClient.cancel, hg]

/-- The callbacks that are registered in a run, each with its future. -/
def registrations (events : List (ChannelEvent SessionOp)) : List (Nat × Nat) :=
  events.filterMap fun
    | .late (.onComplete future callback) => some (future, callback)
    | _ => none

/-- The futures that are completed in a run, each with its response. -/
def completions (c₀ : Channel RpcClient) (events : List (ChannelEvent SessionOp)) :
    List (Nat × RpcResponse) :=
  (observe (Channel.step session)
    (fun c e => some (c.link.owner.completes (actionOf c.link e))) c₀ events).flatten

theorem completions_concat {c₀ c : Channel RpcClient} {events : List (ChannelEvent SessionOp)}
    (hrun : run (Channel.step session) c₀ events = some c) (e : ChannelEvent SessionOp) :
    completions c₀ (events ++ [e]) =
      completions c₀ events ++ c.link.owner.completes (actionOf c.link e) := by
  simp [completions, observe_concat hrun]

theorem registrations_concat (l : Link RpcClient) (events : List (ChannelEvent SessionOp))
    (e : ChannelEvent SessionOp) :
    registrations (events ++ [e]) = registrations events ++ (actionOf l e).registration := by
  rw [registrations, filterMap_concat]
  congr 1
  cases e with
  | data bs => rcases actionOf_data_cases l bs with heq | ⟨_, _, heq⟩ <;> rw [heq] <;> rfl
  | ended result =>
    show [] = (if result = 0 then ClientAction.remoteClose else .none).registration
    split <;> rfl
  | sent i result => rcases actionOf_sent_cases l i result with heq | ⟨_, heq⟩ <;> rw [heq] <;> rfl
  | pool call => rfl
  | late op =>
    cases op with
    | call reserved call =>
      cases call with
      | async methodId payload =>
        show [] = (callAction l).registration
        rcases callAction_cases l with ⟨-, heq⟩ | ⟨_, heq⟩ <;> rw [heq] <;> rfl
      | oneway methodId payload => rfl
    | disconnect => rfl
    | onComplete future callback => rfl
    | cancel future => rfl

theorem lt_of_onComplete {c c' : Channel RpcClient} {e : ChannelEvent SessionOp} {future callback : Nat}
    (h : c.step session e = some c') (he : actionOf c.link e = .onComplete future callback) :
    future < c.link.owner.nextFuture := by
  cases e with
  | data bs => rcases actionOf_data_cases c.link bs with heq | ⟨_, _, heq⟩ <;> cases heq.symm.trans he
  | ended result =>
    unfold actionOf at he
    dsimp only at he
    split at he <;> cases he
  | sent i result =>
    rcases actionOf_sent_cases c.link i result with heq | ⟨_, heq⟩ <;> cases heq.symm.trans he
  | pool call => cases he
  | late op =>
    cases op with
    | call reserved call =>
      cases call with
      | async methodId payload =>
        rcases callAction_cases c.link with ⟨-, heq⟩ | ⟨_, heq⟩ <;> cases heq.symm.trans he
      | oneway methodId payload => cases he
    | disconnect => cases he
    | onComplete future' callback' =>
      cases he
      obtain ⟨l, hlate, -⟩ := Channel.step_late_iff.1 h
      by_contra hlt
      simp only [session, if_neg hlt] at hlate
      cases hlate
    | cancel future' => cases he

theorem ledger_run {config : BufferPoolConfig} {c₀ c : Channel RpcClient}
    {events : List (ChannelEvent SessionOp)} (hstart : Channel.start config {} = .ok c₀)
    (hrun : run (Channel.step session) c₀ events = some c)
    (hcalls : Along (Channel.step session)
      (fun c e => c.link.owner.CallsBack (actionOf c.link e)) c₀ events)
    (hone : ((registrations events).map Prod.fst).Nodup)
    (hown : ((registrations events).map Prod.snd).Nodup) :
    c.link.owner.PendingInv ∧
      Ledger (completions c₀ events) (registrations events) c.link.owner := by
  have nil : c₀.link.owner.PendingInv ∧ Ledger [] [] c₀.link.owner := by
    rw [owner_start hstart]
    refine ⟨settledInv_init.toPendingInv, ?_⟩
    exact {
      blank := fun _ _ => ⟨rfl, rfl⟩
      registered := by
        intro f cb hmem
        cases hmem
      completed := by simp
      once := .nil
      untouched := fun _ _ => rfl
      stored := by simp
      kept := by
        intro f r hmem
        cases hmem
      named := .nil
      invoked := by simp }
  refine run_induction (motive := fun es c =>
    ((registrations es).map Prod.fst).Nodup → ((registrations es).map Prod.snd).Nodup →
      c.link.owner.PendingInv ∧ Ledger (completions c₀ es) (registrations es) c.link.owner)
    (fun _ _ => nil) ?_ hcalls hrun hone hown
  intro es c e c' hes ih he hstep hone hown
  rw [registrations_concat c.link, List.map_append, List.nodup_append] at hone hown
  obtain ⟨hpending, hledger⟩ := ih hone.1 hown.1
  rw [step_owner hstep, completions_concat hes, registrations_concat c.link]
  refine ⟨hpending.act _, hledger.act hpending hown.1 he ?_⟩
  intro f cb haction
  rw [haction] at hone hown
  refine ⟨lt_of_onComplete hstep haction, ?_, ?_⟩
  · intro cb' hmem
    exact hone.2.2 f (List.mem_map.2 ⟨_, hmem, rfl⟩) f (by simp [ClientAction.registration]) rfl
  · intro f' hmem
    exact hown.2.2 cb (List.mem_map.2 ⟨_, hmem, rfl⟩) cb (by simp [ClientAction.registration]) rfl

end RpcClient

open RpcClient

/-- If no failed send completes a future with a stored callback, and each future is given one
callback at most, then the callback of a completed future has been invoked once, with the response
that completed it. -/
theorem callback_invoked_once {config : BufferPoolConfig} {c₀ c : Channel RpcClient}
    {events : List (ChannelEvent SessionOp)} (hstart : Channel.start config {} = .ok c₀)
    (hrun : run (Channel.step session) c₀ events = some c)
    (hcalls : Along (Channel.step session)
      (fun c e => c.link.owner.CallsBack (actionOf c.link e)) c₀ events)
    (hone : ((registrations events).map Prod.fst).Nodup)
    (hown : ((registrations events).map Prod.snd).Nodup) {future callback : Nat}
    (hreg : (future, callback) ∈ registrations events)
    (hdone : (c.link.owner.futures future).completed = true) :
    ∃ response, (completions c₀ events).filter (·.1 = future) = [(future, response)] ∧
      c.link.owner.invoked.filter (·.1 = callback) = [(callback, response)] := by
  obtain ⟨-, h⟩ := ledger_run hstart hrun hcalls hone hown
  obtain ⟨response, hmem⟩ := (h.completed future).1 hdone
  refine ⟨response, Dict.filter_key h.once hmem, Dict.filter_key h.named ?_⟩
  exact (h.invoked callback response).2 ⟨future, hreg, hmem⟩

section Example

/-- The callback is registered first, and `disconnect` completes the future. -/
def registeredRun : List (ChannelEvent SessionOp) :=
  [callOne, .late (.onComplete 0 5), .late .disconnect]

theorem callback_invoked_once_disconnect : ∃ c₀ c : Channel RpcClient,
    Channel.start .few {} = .ok c₀ ∧ run (Channel.step session) c₀ registeredRun = some c ∧
    (c.link.owner.futures 0).completed = true ∧
    ∃ response, (completions c₀ registeredRun).filter (·.1 = 0) = [(0, response)] ∧
      c.link.owner.invoked.filter (·.1 = 5) = [(5, response)] := by
  obtain ⟨c₀, hc₀⟩ : ∃ c₀ : Channel RpcClient, Channel.start .few {} = .ok c₀ := ⟨_, rfl⟩
  obtain ⟨c, hc, hdone⟩ : ∃ c, run (Channel.step session) c₀ registeredRun = some c ∧
      (c.link.owner.futures 0).completed = true := by
    obtain rfl := Except.ok.inj hc₀
    exact ⟨_, rfl, rfl⟩
  have hcalls : Along (Channel.step session)
      (fun c e => c.link.owner.CallsBack (actionOf c.link e)) c₀ registeredRun := by
    refine Along.cons_iff.2 ⟨?_, fun c _ => Along.cons_iff.2 ⟨trivial, fun c _ =>
      .singleton trivial⟩⟩
    show CallsBack _ (callAction c₀.link)
    rcases callAction_cases c₀.link with ⟨-, heq⟩ | ⟨_, heq⟩ <;> rw [heq] <;> trivial
  exact ⟨c₀, c, hc₀, hc, hdone, callback_invoked_once hc₀ hc hcalls (by decide) (by decide)
    (by decide) hdone⟩

/-- The send fails: the future is completed, and the stored callback never invoked. -/
theorem callback_lost_at_failed_send : ∃ c₀ c : Channel RpcClient,
    Channel.start .few {} = .ok c₀ ∧
    run (Channel.step session) c₀ [callOne, .late (.onComplete 0 5), .sent 0 (-32)] = some c ∧
    (c.link.owner.futures 0).completed = true ∧ c.link.owner.invoked = [] ∧
    c.link.owner.pendingRequests.entries = [] :=
  ⟨_, _, rfl, rfl, rfl, rfl, rfl⟩

end Example

end GossipRl
