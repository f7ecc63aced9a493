import GossipRl.Rpc.ClientThreads

/-!
# The invariant of the client's threads

A future whose callback is running is completed, one that is to be completed is not, and one frame at
most holds `pending_mutex_` (`Inv`). A step keeps the invariant either because it leaves the pending
requests alone (`keep`), or because its thread has `pending_mutex_` and no other frame does (`alone`).
-/

namespace GossipRl
open Support

namespace RpcClient
variable {c c' : RpcClient} {f : Nat}

/-- Futures are allocated and completed, and only new ones become pending. -/
structure Grows (c c' : RpcClient) : Prop where
  next : c.nextFuture ≤ c'.nextFuture
  done : ∀ f, f < c.nextFuture → (c.futures f).completed = true → (c'.futures f).completed = true
  fresh : ∀ id f, c'.pendingRequests.get? id = some f →
    (∃ id', c.pendingRequests.get? id' = some f) ∨ c.nextFuture ≤ f

/-- The pending requests stay, and are not completed. -/
structure Keeps (c c' : RpcClient) : Prop where
  next : c.nextFuture ≤ c'.nextFuture
  done : ∀ f, f < c.nextFuture → (c.futures f).completed = true → (c'.futures f).completed = true
  pending : c'.pendingRequests = c.pendingRequests
  undone : ∀ id f, c.pendingRequests.get? id = some f →
    (c'.futures f).completed = (c.futures f).completed

/-- A future is pending under one id only. -/
structure DistinctPending (c : RpcClient) : Prop where
  allocated : ∀ id f, c.pendingRequests.get? id = some f → f < c.nextFuture
  inj : ∀ id id' f, c.pendingRequests.get? id = some f → c.pendingRequests.get? id' = some f → id = id'

theorem Keeps.grows (h : Keeps c c') : Grows c c' where
  next := h.next
  done := h.done
  fresh := fun id _ hget => .inl ⟨id, h.pending ▸ hget⟩

theorem Keeps.of_completed (hnext : c'.nextFuture = c.nextFuture)
    (hpending : c'.pendingRequests = c.pendingRequests)
    (hcompleted : ∀ f, (c'.futures f).completed = (c.futures f).completed) : Keeps c c' where
  next := hnext.ge
  done := fun f _ hf => (hcompleted f).trans hf
  pending := hpending
  undone := fun _ f _ => hcompleted f

theorem Keeps.refl (c : RpcClient) : Keeps c c := .of_completed rfl rfl fun _ => rfl

theorem keeps_complete (hf : ∀ id, c.pendingRequests.get? id ≠ some f) (response : RpcResponse) :
    Keeps c (c.complete f response) where
  next := complete_nextFuture.ge
  done := fun g _ hg => by rw [completed_complete, hg, Bool.or_true]
  pending := complete_pendingRequests
  undone := by
    intro id g hget
    have hne : g ≠ f := by
      rintro rfl
      exact hf id hget
    rw [completed_complete, decide_eq_false hne, Bool.false_or]

/-- Futures are completed, and fewer are pending. -/
structure Fewer (c c' : RpcClient) : Prop where
  next : c'.nextFuture = c.nextFuture
  done : ∀ f, (c.futures f).completed = true → (c'.futures f).completed = true
  pending : ∀ id f, c'.pendingRequests.get? id = some f → c.pendingRequests.get? id = some f

theorem Fewer.grows (h : Fewer c c') : Grows c c' where
  next := h.next.ge
  done := fun f _ => h.done f
  fresh := fun id f hget => .inl ⟨id, h.pending id f hget⟩

theorem Fewer.distinct (h : Fewer c c') (hc : DistinctPending c) : DistinctPending c' where
  allocated := fun id f hget => (hc.allocated id f (h.pending id f hget)).trans_eq h.next.symm
  inj := fun id id' f hget hget' => hc.inj id id' f (h.pending id f hget) (h.pending id' f hget')

theorem fewer_complete (c : RpcClient) (f : Nat) (response : RpcResponse) :
    Fewer c (c.complete f response) where
  next := complete_nextFuture
  done := fun g hg => by rw [completed_complete, hg, Bool.or_true]
  pending := fun id g hget => complete_pendingRequests (c := c) ▸ hget

theorem fewer_erase (c : RpcClient) (requestId : UInt64) :
    Fewer c { c with pendingRequests := c.pendingRequests.erase requestId } where
  next := rfl
  done := fun _ hg => hg
  pending := fun _ _ hget => (Dict.get?_erase_eq_some_iff.1 hget).2

theorem fewer_empty (c : RpcClient) : Fewer c { c with pendingRequests := .empty } where
  next := rfl
  done := fun _ hg => hg
  pending := fun _ _ hget => by cases hget

theorem get?_onSent {requestId id : UInt64} {g : Nat}
    (hget : c.pendingRequests.get? requestId = some f)
    (hg : (c.onSent requestId false).pendingRequests.get? id = some g) :
    id ≠ requestId ∧ c.pendingRequests.get? id = some g := by
  simp only [onSent, hget, Bool.false_eq_true, if_false] at hg
  exact Dict.get?_erase_eq_some_iff.1 hg

theorem completed_onSent {requestId : UInt64} (hget : c.pendingRequests.get? requestId = some f)
    (g : Nat) : ((c.onSent requestId false).futures g).completed =
      (decide (g = f) || (c.futures g).completed) := by
  simp only [onSent, hget, Bool.false_eq_true, if_false]
  exact completed_update c.futures f rfl g

theorem fewer_onSent {requestId : UInt64} (hget : c.pendingRequests.get? requestId = some f) :
    Fewer c (c.onSent requestId false) where
  next := by simp only [onSent, hget, Bool.false_eq_true, if_false]
  done := fun g hg => by rw [completed_onSent hget, hg, Bool.or_true]
  pending := fun _ _ hg => (get?_onSent hget hg).2

theorem DistinctPending.get?_set (h : DistinctPending c) {requestId id : UInt64} {g : Nat}
    (hget : (c.pendingRequests.set requestId c.nextFuture).get? id = some g) :
    g = c.nextFuture ∧ id = requestId ∨
      g < c.nextFuture ∧ c.pendingRequests.get? id = some g := by
  rcases Dict.get?_set_eq_some_iff.1 hget with ⟨rfl, rfl⟩ | ⟨-, hget⟩
  · exact .inl ⟨rfl, rfl⟩
  · exact .inr ⟨h.allocated id g hget, hget⟩

theorem DistinctPending.keeps (h : DistinctPending c) (hk : Keeps c c') : DistinctPending c' where
  allocated := fun id f hget => (h.allocated id f (hk.pending ▸ hget)).trans_le hk.next
  inj := by
    rw [hk.pending]
    exact h.inj

theorem keeps_newFuture (h : DistinctPending c) {st : RpcFutureState} (hst : st.completed = true) :
    Keeps c (c.newFuture st).2 where
  next := Nat.le_succ _
  done := fun f _ hf => (completed_update c.futures c.nextFuture hst f).trans (by simp [hf])
  pending := rfl
  undone := by
    intro id f hget
    have hlt := h.allocated id f hget
    refine (completed_update c.futures c.nextFuture hst f).trans ?_
    rw [decide_eq_false (by omega), Bool.false_or]

end RpcClient

namespace ClientFrame
variable {c c' : RpcClient} {frame : ClientFrame}

/-- What a frame knows of the client. -/
def Ok (c : RpcClient) : ClientFrame → Prop
  | callback future => future < c.nextFuture ∧ (c.futures future).completed = true
  | sendFailed requestId future =>
    c.pendingRequests.get? requestId = some future ∧ (c.futures future).completed = false
  | failing futures => futures.Nodup ∧ ∀ f ∈ futures,
    (∃ id, c.pendingRequests.get? id = some f) ∧ (c.futures f).completed = false
  | completing future _ =>
    future < c.nextFuture ∧ ∀ id, c.pendingRequests.get? id ≠ some future
  | _ => True

/-- Frames on which there may be others. -/
def isBase : ClientFrame → Bool
  | callback _ | failing _ => true
  | _ => false

/-- What a frame may have beneath it. -/
def Over : ClientFrame → ClientFrame → Prop
  | completing .., _ => False
  | waiting future, callback future' => future ≠ future'
  | _, callback _ => True
  | sending .., failing _ | sendFailed .., failing _ | failing _, failing _ => False
  | _, failing _ => True
  | _, _ => False

theorem Over.isBase {a b : ClientFrame} (h : Over a b) : b.isBase = true := by
  cases b with
  | callback | failing => rfl
  | _ => cases a <;> exact h.elim

theorem Over.of_isBase {b : ClientFrame} (hcallback : ∀ f, Over frame (callback f))
    (hfailing : ∀ fs, Over frame (failing fs)) (hb : b.isBase = true) : Over frame b := by
  cases b with
  | callback f => exact hcallback f
  | failing fs => exact hfailing fs
  | _ => cases hb

theorem Ok.grows (h : frame.Ok c) (hg : RpcClient.Grows c c') (hholds : .pending ∉ frame.holds) :
    frame.Ok c' := by
  cases frame with
  | callback future => exact ⟨h.1.trans_le hg.next, hg.done future h.1 h.2⟩
  | completing future response =>
    refine ⟨h.1.trans_le hg.next, fun id hget => ?_⟩
    rcases hg.fresh id future hget with ⟨id', hget'⟩ | hle
    · exact h.2 id' hget'
    · have := h.1
      omega
  | sendFailed | failing => exact absurd (List.mem_singleton.2 rfl) hholds
  | _ => trivial

theorem Ok.keeps (h : frame.Ok c) (hk : RpcClient.Keeps c c') : frame.Ok c' := by
  cases frame with
  | sendFailed requestId future =>
    exact ⟨hk.pending ▸ h.1, (hk.undone requestId future h.1).trans h.2⟩
  | failing futures =>
    refine ⟨h.1, fun f hf => ?_⟩
    obtain ⟨⟨id, hget⟩, hundone⟩ := h.2 f hf
    exact ⟨⟨id, hk.pending ▸ hget⟩, (hk.undone id f hget).trans hundone⟩
  | callback | completing => exact h.grows hk.grows (by simp [holds])
  | _ => trivial

end ClientFrame

namespace ClientThreads
open RpcClient ClientFrame
variable {n : Nat} {s s' : ClientThreads n} {e : ThreadEvent n} {θ : Fin n} {m : ClientMutex}

/-! ### The invariant -/

/-- `disconnect` is not in its loop. -/
def NoneFailing (s : ClientThreads n) : Prop := ∀ θ futures, .failing futures ∉ s.frames θ

structure Inv (s : ClientThreads n) : Prop where
  ok : ∀ θ, ∀ frame ∈ s.frames θ, frame.Ok s.client
  layered : ∀ θ, (s.frames θ).Pairwise Over
  exclusive : ∀ θ θ' frame frame', frame ∈ s.frames θ → frame' ∈ s.frames θ' →
    .pending ∈ frame.holds → .pending ∈ frame'.holds → θ = θ'
  distinct : DistinctPending s.client
  undone : s.NoneFailing →
    ∀ id f, s.client.pendingRequests.get? id = some f → (s.client.futures f).completed = false

theorem mem_held : m ∈ s.held θ ↔ ∃ frame ∈ s.frames θ, m ∈ frame.holds := List.mem_flatMap

theorem future_mem_held {f : Nat} : .future f ∈ s.held θ ↔ .callback f ∈ s.frames θ := by
  rw [mem_held]
  constructor
  · rintro ⟨frame, hframe, hholds⟩
    cases frame with
    | callback g =>
      obtain rfl : f = g := by simpa [holds] using hholds
      exact hframe
    | _ => simp [holds] at hholds
  · exact fun h => ⟨_, h, List.mem_singleton.2 rfl⟩

theorem step_eq_some :
    s.step e = some s' ↔ (∀ r ∈ s.request e, s.Free r.2) ∧ s.perform e = some s' := by
  rw [step]
  split
  · rename_i hfree
    exact ⟨fun h => ⟨hfree, h⟩, And.right⟩
  · rename_i hfree
    exact ⟨nofun, fun h => absurd h.1 hfree⟩

theorem request_user {call : UserCall} {f : Nat} (huser : inUserCode (s.frames θ) = true)
    (hf : f ∈ call.future?) : s.request (.user θ call) = some (θ, .future f) := by
  have hrequest : s.userRequest call = some (.future f) := by
    cases call with
    | isReady | wait | onComplete | cancel => exact congrArg (Option.map ClientMutex.future) hf
    | _ => cases hf
  rw [request, if_pos huser, hrequest]
  rfl

theorem Free.not_mem (h : s.Free m) {frame : ClientFrame} (hframe : frame ∈ s.frames θ) :
    m ∉ frame.holds := fun hm => h θ (mem_held.2 ⟨frame, hframe, hm⟩)

theorem Free.noneFailing (h : s.Free .pending) : s.NoneFailing := fun _ _ hmem =>
  h.not_mem hmem (List.mem_singleton.2 rfl)

theorem Free.over (h : s.Free .pending) {frame b : ClientFrame} (hb : b ∈ s.frames θ)
    (hbase : b.isBase = true) (hcallback : ∀ f, Over frame (.callback f)) : Over frame b := by
  cases b with
  | callback f => exact hcallback f
  | failing futures => exact absurd hb (h.noneFailing θ futures)
  | _ => cases hbase

section
variable {stack : List ClientFrame}

theorem frames_cases (hframes : s'.frames = Function.update s.frames θ stack) (θ' : Fin n) :
    θ' = θ ∧ s'.frames θ' = stack ∨ θ' ≠ θ ∧ s'.frames θ' = s.frames θ' := by
  rcases eq_or_ne θ' θ with rfl | hne
  · exact .inl ⟨rfl, by rw [hframes, Function.update_self]⟩
  · exact .inr ⟨hne, by rw [hframes, Function.update_of_ne hne]⟩

end

namespace Inv
variable {stack : List ClientFrame}

theorem keepFrames (h : s.Inv) (hk : Keeps s.client s'.client) (hframes : s'.frames = s.frames) :
    s'.Inv where
  ok := fun θ frame hframe => (h.ok θ frame (hframes ▸ hframe)).keeps hk
  layered := hframes ▸ h.layered
  exclusive := hframes ▸ h.exclusive
  distinct := h.distinct.keeps hk
  undone := by
    intro hnone id f hget
    rw [hk.pending] at hget
    rw [hk.undone id f hget]
    exact h.undone (fun θ futures => hframes ▸ hnone θ futures) id f hget

theorem layered_update (h : s.Inv) (hframes : s'.frames = Function.update s.frames θ stack)
    (hover : stack.Pairwise Over) (θ' : Fin n) : (s'.frames θ').Pairwise Over := by
  rcases frames_cases hframes θ' with ⟨-, hstack⟩ | ⟨-, hstack⟩
  · exact hstack ▸ hover
  · exact hstack ▸ h.layered θ'

theorem keep (h : s.Inv) (hk : Keeps s.client s'.client)
    (hframes : s'.frames = Function.update s.frames θ stack)
    (hnew : ∀ frame ∈ stack, frame ∈ s.frames θ ∨ frame.Ok s'.client ∧ .pending ∉ frame.holds)
    (hstay : ∀ futures, .failing futures ∈ s.frames θ → .failing futures ∈ stack)
    (hover : stack.Pairwise Over) : s'.Inv := by
  have hold : ∀ θ' frame, frame ∈ s'.frames θ' →
      frame ∈ s.frames θ' ∨ frame.Ok s'.client ∧ .pending ∉ frame.holds := by
    intro θ' frame hframe
    rcases frames_cases hframes θ' with ⟨rfl, hstack⟩ | ⟨-, hstack⟩
    · exact hnew frame (hstack ▸ hframe)
    · exact .inl (hstack ▸ hframe)
  have hholder : ∀ θ' frame, frame ∈ s'.frames θ' → .pending ∈ frame.holds →
      frame ∈ s.frames θ' := fun θ' frame hframe hholds =>
    (hold θ' frame hframe).resolve_right fun hok => hok.2 hholds
  refine ⟨fun θ' frame hframe => ?_, layered_update h hframes hover, ?_, h.distinct.keeps hk, ?_⟩
  · rcases hold θ' frame hframe with hmem | hok
    · exact (h.ok θ' frame hmem).keeps hk
    · exact hok.1
  · intro θ₁ θ₂ frame frame' hframe hframe' hholds hholds'
    exact h.exclusive θ₁ θ₂ frame frame' (hholder θ₁ frame hframe hholds)
      (hholder θ₂ frame' hframe' hholds') hholds hholds'
  · intro hnone id f hget
    have hnone' : s.NoneFailing := by
      intro θ' futures hmem
      rcases frames_cases hframes θ' with ⟨rfl, hstack⟩ | ⟨-, hstack⟩
      · exact hnone θ' futures (hstack ▸ hstay futures hmem)
      · exact hnone θ' futures (hstack ▸ hmem)
    rw [hk.pending] at hget
    rw [hk.undone id f hget]
    exact h.undone hnone' id f hget

theorem alone (h : s.Inv) (hg : Grows s.client s'.client)
    (hframes : s'.frames = Function.update s.frames θ stack)
    (halone : ∀ θ', θ' ≠ θ → ∀ frame ∈ s.frames θ', .pending ∉ frame.holds)
    (hnew : ∀ frame ∈ stack,
      (frame ∈ s.frames θ ∧ .pending ∉ frame.holds) ∨ frame.Ok s'.client)
    (hover : stack.Pairwise Over) (hdistinct : DistinctPending s'.client)
    (hundone : s'.NoneFailing → ∀ id f, s'.client.pendingRequests.get? id = some f →
      (s'.client.futures f).completed = false) : s'.Inv := by
  have hthread : ∀ θ' frame, frame ∈ s'.frames θ' → .pending ∈ frame.holds → θ' = θ := by
    intro θ' frame hframe hholds
    rcases frames_cases hframes θ' with ⟨rfl, -⟩ | ⟨hne, hstack⟩
    · rfl
    · exact absurd hholds (halone θ' hne frame (hstack ▸ hframe))
  refine ⟨fun θ' frame hframe => ?_, layered_update h hframes hover, ?_, hdistinct, hundone⟩
  · rcases frames_cases hframes θ' with ⟨rfl, hstack⟩ | ⟨hne, hstack⟩
    · rw [hstack] at hframe
      rcases hnew frame hframe with ⟨hmem, hholds⟩ | hok
      · exact (h.ok θ' frame hmem).grows hg hholds
      · exact hok
    · rw [hstack] at hframe
      exact (h.ok θ' frame hframe).grows hg (halone θ' hne frame hframe)
  · intro θ₁ θ₂ frame frame' hframe hframe' hholds hholds'
    rw [hthread θ₁ frame hframe hholds, hthread θ₂ frame' hframe' hholds']

/-- A thread goes on to `frame`, while nobody has `pending_mutex_`. -/
theorem entered {frame : ClientFrame} (h : s.Inv) (hfree : s.Free .pending)
    (hg : Grows s.client s'.client)
    (hframes : s'.frames = Function.update s.frames θ (frame :: stack))
    (hmem : ∀ b ∈ stack, b ∈ s.frames θ) (hok : frame.Ok s'.client)
    (hover : (frame :: stack).Pairwise Over) (hdistinct : DistinctPending s'.client)
    (hundone : s'.NoneFailing → ∀ id f, s'.client.pendingRequests.get? id = some f →
      (s'.client.futures f).completed = false) : s'.Inv := by
  refine h.alone hg hframes (fun _ _ _ => hfree.not_mem) (fun x hx => ?_) hover hdistinct hundone
  rcases List.mem_cons.1 hx with rfl | hx
  · exact .inr hok
  · exact .inl ⟨hmem x hx, hfree.not_mem (hmem x hx)⟩

theorem pushed {frame : ClientFrame} (h : s.Inv) (hk : Keeps s.client s'.client)
    (hframes : s'.frames = Function.update s.frames θ (frame :: s.frames θ))
    (hok : frame.Ok s'.client) (hholds : .pending ∉ frame.holds)
    (hover : ∀ b ∈ s.frames θ, Over frame b) : s'.Inv := by
  refine h.keep hk hframes (fun x hx => ?_) (fun _ => List.mem_cons_of_mem _)
    (.cons hover (h.layered θ))
  rcases List.mem_cons.1 hx with rfl | hx
  · exact .inr ⟨hok, hholds⟩
  · exact .inl hx

theorem popped {frame : ClientFrame} (h : s.Inv) (hk : Keeps s.client s'.client)
    (htop : s.frames θ = frame :: stack) (hframes : s'.frames = Function.update s.frames θ stack)
    (hholds : .pending ∉ frame.holds) : s'.Inv := by
  refine h.keep hk hframes (fun x hx => .inl (htop ▸ List.mem_cons_of_mem _ hx))
    (fun futures hmem => ?_) (List.pairwise_cons.1 (htop ▸ h.layered θ)).2
  rw [htop] at hmem
  rcases List.mem_cons.1 hmem with rfl | hmem
  · exact absurd (List.mem_singleton.2 rfl) hholds
  · exact hmem

theorem isBase_of_user (h : s.Inv) (huser : inUserCode (s.frames θ) = true) :
    ∀ b ∈ s.frames θ, b.isBase = true := by
  have hover := h.layered θ
  cases hstack : s.frames θ with
  | nil => simp
  | cons frame below =>
    rw [hstack] at huser hover
    intro b hb
    rcases List.mem_cons.1 hb with rfl | hb
    · cases b with
      | callback => rfl
      | _ => simp [inUserCode] at huser
    · exact ((List.pairwise_cons.1 hover).1 b hb).isBase

theorem callAsync {reserved methodId : UInt32} {payload : List UInt8} (h : s.Inv)
    (huser : inUserCode (s.frames θ) = true)
    (hstep : s.callAsync θ reserved methodId payload = some s') : s'.Inv := by
  rw [ClientThreads.callAsync] at hstep
  split at hstep
  · obtain rfl := Option.some.inj hstep
    exact h.keepFrames (keeps_newFuture h.distinct rfl) rfl
  · split at hstep
    · cases hstep
    · obtain rfl := Option.some.inj hstep
      exact h.keepFrames (keeps_newFuture h.distinct rfl) rfl
    · obtain rfl := Option.some.inj hstep
      refine h.pushed (.of_completed rfl rfl fun _ => rfl) rfl trivial (by simp [holds]) ?_
      exact fun b hb => .of_isBase (fun _ => trivial) (fun _ => trivial) (h.isBase_of_user huser b hb)

theorem onComplete {f callback : Nat} (h : s.Inv) (huser : inUserCode (s.frames θ) = true)
    (hf : f < s.client.nextFuture) : (s.onComplete θ f callback).Inv := by
  have hk : Keeps s.client (s.client.onComplete f callback) :=
    .of_completed (onComplete_nextFuture callback) (onComplete_pendingRequests callback)
      (completed_onComplete callback)
  rw [ClientThreads.onComplete]
  split
  · rename_i hdone
    refine h.pushed hk rfl ⟨hf.trans_le hk.next, hk.done f hf hdone⟩ (by simp [holds]) ?_
    exact fun b hb => .of_isBase (fun _ => trivial) (fun _ => trivial) (h.isBase_of_user huser b hb)
  · exact h.keepFrames hk rfl

theorem keeps_wait (c : RpcClient) (f : Nat) : Keeps c (c.wait f).2 :=
  .of_completed (wait_nextFuture c f) (wait_pendingRequests c f) (completed_wait c f)

theorem userStep {call : UserCall} (h : s.Inv) (huser : inUserCode (s.frames θ) = true)
    (halloc : ∀ f ∈ call.future?, f < s.client.nextFuture)
    (hfree : ∀ f ∈ call.future?, s.Free (.future f)) (hstep : s.userStep θ call = some s') :
    s'.Inv := by
  cases call with
  | isReady f =>
    obtain rfl := Option.some.inj hstep
    exact h
  | wait f =>
    simp only [ClientThreads.userStep] at hstep
    split at hstep
    · obtain rfl := Option.some.inj hstep
      exact h.keepFrames (keeps_wait s.client f) rfl
    · obtain rfl := Option.some.inj hstep
      refine h.pushed (.refl _) rfl trivial (by simp [holds]) ?_
      intro b hb
      cases b with
      | callback g =>
        -- the mutex was free, so that this is another future
        rintro rfl
        exact (hfree f rfl).not_mem hb (List.mem_singleton.2 rfl)
      | failing => trivial
      | _ => cases h.isBase_of_user huser _ hb
  | onComplete f callback =>
    obtain rfl := Option.some.inj hstep
    exact h.onComplete huser (halloc f rfl)
  | cancel f =>
    obtain rfl := Option.some.inj hstep
    exact h.keepFrames (.of_completed rfl rfl completed_cancel) rfl
  | callAsync reserved methodId payload => exact h.callAsync huser hstep
  | disconnect =>
    simp only [ClientThreads.userStep] at hstep
    split at hstep
    · obtain rfl := Option.some.inj hstep
      refine h.pushed (.of_completed rfl rfl fun _ => rfl) rfl trivial (by simp [holds]) ?_
      exact fun b hb => .of_isBase (fun _ => trivial) (fun _ => trivial) (h.isBase_of_user huser b hb)
    · obtain rfl := Option.some.inj hstep
      exact h
  | connect reachable =>
    obtain rfl := Option.some.inj hstep
    exact h.keepFrames (.of_completed rfl rfl fun _ => rfl) rfl

/-! ### The event loop -/

theorem receive {buffer : Buffer} (h : s.Inv) (hempty : s.frames θ = [])
    (hfree : RpcHeader.SIZE ≤ buffer.size → s.Free .pending)
    (hstep : s.receive θ buffer = some s') : s'.Inv := by
  rw [ClientThreads.receive] at hstep
  split at hstep
  · obtain rfl := Option.some.inj hstep
    exact h
  · rename_i hsize
    have hfree := hfree (Nat.le_of_not_lt hsize)
    simp only at hstep
    split at hstep
    · obtain rfl := Option.some.inj hstep
      exact h
    · rename_i f hget
      split at hstep
      · cases hstep
      · obtain rfl := Option.some.inj hstep
        have hfewer := fewer_erase s.client (RpcHeader.decode buffer.bytes).requestId
        refine h.entered (θ := θ) hfree hfewer.grows rfl (fun _ hb => hb)
          ⟨h.distinct.allocated _ f hget, fun id hget' => ?_⟩ (by simp [hempty])
          (hfewer.distinct h.distinct)
          (fun _ id f hget => h.undone hfree.noneFailing id f (hfewer.pending id f hget))
        obtain ⟨hne, hget'⟩ := Dict.get?_erase_eq_some_iff.1 hget'
        exact hne (h.distinct.inj id _ f hget' hget)

theorem findFailed (h : s.Inv) (hfree : s.Free .pending)
    (hbase : ∀ b ∈ s.frames θ, b.isBase = true) (requestId : UInt64) :
    (s.findFailed θ requestId).Inv := by
  rw [ClientThreads.findFailed]
  split
  · exact h
  · rename_i f hget
    have hundone := h.undone hfree.noneFailing
    have hover : (ClientFrame.sendFailed requestId f :: s.frames θ).Pairwise Over :=
      .cons (fun b hb => hfree.over hb (hbase b hb) fun _ => trivial) (h.layered θ)
    exact h.entered (θ := θ) hfree (Keeps.refl _).grows rfl (fun _ hb => hb)
      ⟨hget, hundone _ f hget⟩ hover h.distinct (fun _ => hundone)

/-! ### Going on -/

section
variable {below : List ClientFrame} {requestId : UInt64} {buffer : Buffer} {f : Nat}
  {futures : List Nat}

theorem over_below {frame : ClientFrame} (h : s.Inv) (htop : s.frames θ = frame :: below) :
    (∀ b ∈ below, Over frame b) ∧ below.Pairwise Over :=
  List.pairwise_cons.1 (htop ▸ h.layered θ)

theorem over_again {frame frame' : ClientFrame} (h : s.Inv) (htop : s.frames θ = frame :: below)
    (hfree : s.Free .pending) (hcallback : ∀ f, Over frame' (.callback f)) :
    (frame' :: below).Pairwise Over := by
  obtain ⟨hover, hbelow⟩ := h.over_below htop
  exact .cons (fun b hb => hfree.over (htop ▸ List.mem_cons_of_mem _ hb) (hover b hb).isBase
    hcallback) hbelow

theorem only_holder {frame : ClientFrame} (h : s.Inv) (htop : s.frames θ = frame :: below)
    (hholds : .pending ∈ frame.holds) :
    ∀ θ', θ' ≠ θ → ∀ x ∈ s.frames θ', .pending ∉ x.holds := by
  intro θ' hne x hx hpending
  exact hne (h.exclusive θ' θ x frame hx (htop ▸ List.mem_cons_self ..) hpending hholds)

theorem registering (h : s.Inv) (htop : s.frames θ = .registering requestId buffer :: below)
    (hfree : s.Free .pending) (hstep : s.goStep θ below (.registering requestId buffer) = some s') :
    s'.Inv := by
  obtain rfl := Option.some.inj hstep
  have hget : ∀ id g, (s.client.pendingRequests.set requestId s.client.nextFuture).get? id = some g →
      g = s.client.nextFuture ∧ id = requestId ∨
        g < s.client.nextFuture ∧ s.client.pendingRequests.get? id = some g := fun id g =>
    h.distinct.get?_set
  have hother : ∀ g, g < s.client.nextFuture →
      (Function.update s.client.futures s.client.nextFuture {} g).completed =
        (s.client.futures g).completed := by
    intro g hg
    rw [Function.update_of_ne (by omega)]
  refine h.entered (θ := θ) hfree
    ⟨Nat.le_succ _, fun g hg hdone => (hother g hg).trans hdone, fun id g hg => ?_⟩ rfl
    (fun b hb => htop ▸ .tail _ hb) trivial (h.over_again htop hfree fun _ => trivial)
    ⟨fun id g hg => ?_, fun id id' g hg hg' => ?_⟩ (fun _ id g hg => ?_)
  · rcases hget id g hg with ⟨rfl, -⟩ | ⟨-, hold⟩
    · exact .inr le_rfl
    · exact .inl ⟨id, hold⟩
  · show g < s.client.nextFuture + 1
    rcases hget id g hg with ⟨rfl, -⟩ | ⟨hlt, -⟩
    · exact Nat.lt_succ_self _
    · omega
  · rcases hget id g hg with ⟨hg₁, rfl⟩ | ⟨hlt, hold⟩
    · rcases hget id' g hg' with ⟨-, rfl⟩ | ⟨hlt', -⟩
      · rfl
      · omega
    · rcases hget id' g hg' with ⟨hg₁', -⟩ | ⟨-, hold'⟩
      · omega
      · exact h.distinct.inj id id' g hold hold'
  · rcases hget id g hg with ⟨rfl, -⟩ | ⟨hlt, hold⟩
    · show (Function.update s.client.futures s.client.nextFuture {} _).completed = false
      rw [Function.update_self]
    · exact (hother g hlt).trans (h.undone hfree.noneFailing id g hold)

theorem sending (h : s.Inv) (htop : s.frames θ = .sending requestId buffer :: below)
    (hfree : (s.link.conn.send buffer (some requestId)).1 = false → s.Free .pending)
    (hstep : s.goStep θ below (.sending requestId buffer) = some s') : s'.Inv := by
  obtain ⟨hover, -⟩ := h.over_below htop
  simp only [goStep] at hstep
  rcases hsend : s.link.conn.send buffer (some requestId) with ⟨sent, conn⟩
  rw [hsend] at hstep hfree
  have hpopped : ({ s with link := { s.link with conn := conn } }.setStack θ below).Inv :=
    h.popped (.of_completed rfl rfl fun _ => rfl) htop rfl (by simp [holds])
  cases sent with
  | true =>
    obtain rfl := Option.some.inj hstep
    exact hpopped
  | false =>
    obtain rfl := Option.some.inj hstep
    have hself : (Function.update s.frames θ below) θ = below := Function.update_self ..
    refine hpopped.findFailed (fun θ' hmem => ?_) (fun b hb => ?_) requestId
    · obtain ⟨x, hx, hpending⟩ := mem_held.1 hmem
      refine (hfree rfl).not_mem (?_ : x ∈ s.frames θ') hpending
      by_cases hθ : θ' = θ
      · subst hθ
        rw [htop]
        exact List.mem_cons_of_mem _ (hself ▸ hx)
      · have hsame : (Function.update s.frames θ below) θ' = s.frames θ' :=
          Function.update_of_ne hθ _ _
        exact hsame ▸ hx
    · exact (hover b (hself ▸ hb)).isBase

theorem sendFailed (h : s.Inv) (htop : s.frames θ = .sendFailed requestId f :: below)
    (hstep : s.goStep θ below (.sendFailed requestId f) = some s') : s'.Inv := by
  obtain rfl := Option.some.inj hstep
  obtain ⟨hover, hbelow⟩ := h.over_below htop
  obtain ⟨hget, -⟩ := h.ok θ _ (htop ▸ List.mem_cons_self ..)
  have hfewer := fewer_onSent hget
  refine h.alone (θ := θ) hfewer.grows rfl (h.only_holder htop (List.mem_singleton.2 rfl))
    (fun x hx => .inl ⟨htop ▸ .tail _ hx, ?_⟩) hbelow (hfewer.distinct h.distinct)
    (fun hnone id g hg => (completed_onSent hget g).trans ?_)
  · cases x with
    | callback => simp [holds]
    | _ => exact (hover _ hx).elim
  · obtain ⟨hne, hg⟩ := get?_onSent hget hg
    have hgf : g ≠ f := by
      rintro rfl
      exact hne (h.distinct.inj id requestId g hg hget)
    have hnone' : s.NoneFailing := by
      intro θ' futures hmem
      by_cases hθ : θ' = θ
      · subst hθ
        rw [htop] at hmem
        rcases List.mem_cons.1 hmem with heq | hmem
        · cases heq
        · exact (hover _ hmem).elim
      · exact h.only_holder htop (List.mem_singleton.2 rfl) θ' hθ _ hmem (List.mem_singleton.2 rfl)
    rw [decide_eq_false hgf, Bool.false_or]
    exact h.undone hnone' id g hg

theorem closing (h : s.Inv) (htop : s.frames θ = .closing :: below) (hfree : s.Free .pending)
    (hstep : s.goStep θ below .closing = some s') : s'.Inv := by
  obtain rfl := Option.some.inj hstep
  have hself : (s.setStack θ (.failing s.client.pendingRequests.values :: below)).frames θ =
      .failing s.client.pendingRequests.values :: below := Function.update_self ..
  refine h.entered (θ := θ) hfree (Keeps.refl _).grows rfl (fun b hb => htop ▸ .tail _ hb)
    ⟨Dict.nodup_values h.distinct.inj, fun f hf => ?_⟩ (h.over_again htop hfree fun _ => trivial)
    h.distinct (fun hnone => ?_)
  · obtain ⟨id, hget⟩ := Dict.mem_values_iff.1 hf
    exact ⟨⟨id, hget⟩, h.undone hfree.noneFailing id f hget⟩
  · refine absurd ?_ (hnone θ s.client.pendingRequests.values)
    rw [hself]
    exact List.mem_cons_self ..

/-- In the loop of `disconnect` there are only callbacks beneath. -/
theorem callbacks_below (h : s.Inv) (htop : s.frames θ = .failing futures :: below) :
    ∀ b ∈ below, b ∈ s.frames θ ∧ ∃ g, b = .callback g := by
  intro b hb
  have hover := (h.over_below htop).1 b hb
  refine ⟨htop ▸ .tail _ hb, ?_⟩
  cases b with
  | callback g => exact ⟨g, rfl⟩
  | _ => exact hover.elim

theorem failed (h : s.Inv) (htop : s.frames θ = .failing [] :: below)
    (hstep : s.goStep θ below (.failing []) = some s') : s'.Inv := by
  obtain rfl := Option.some.inj hstep
  have hfewer := fewer_empty s.client
  refine h.alone (θ := θ) hfewer.grows rfl (h.only_holder htop (List.mem_singleton.2 rfl))
    (fun x hx => ?_) (h.over_below htop).2 (hfewer.distinct h.distinct)
    (fun _ id f hget => by cases hget)
  obtain ⟨hmem, g, rfl⟩ := h.callbacks_below htop x hx
  exact .inl ⟨hmem, by simp [holds]⟩

theorem called {c : RpcClient} (hover : below.Pairwise Over) (hbase : ∀ b ∈ below, b.isBase = true) :
    (∀ x ∈ (if (c.futures f).callback.isSome then .callback f :: below else below),
        x = .callback f ∨ x ∈ below) ∧
      (∀ x ∈ below, x ∈ (if (c.futures f).callback.isSome then .callback f :: below else below)) ∧
      (if (c.futures f).callback.isSome then .callback f :: below else below).Pairwise Over := by
  split
  · exact ⟨fun x => List.mem_cons.1, fun x => List.mem_cons_of_mem _,
      .cons (fun b hb => .of_isBase (fun _ => trivial) (fun _ => trivial) (hbase b hb)) hover⟩
  · exact ⟨fun x => .inr, fun x hx => hx, hover⟩

theorem failing (h : s.Inv) (htop : s.frames θ = .failing (f :: futures) :: below)
    (hstep : s.goStep θ below (.failing (f :: futures)) = some s') : s'.Inv := by
  obtain ⟨hover, hbelow⟩ := h.over_below htop
  obtain ⟨hnodup, hfutures⟩ := h.ok θ _ (htop ▸ List.mem_cons_self ..)
  obtain ⟨hnotin, hnodup⟩ := List.nodup_cons.1 hnodup
  obtain ⟨id, hget⟩ := (hfutures f (List.mem_cons_self ..)).1
  have hbase : ∀ b ∈ ClientFrame.failing futures :: below, b.isBase = true := by
    intro b hb
    rcases List.mem_cons.1 hb with rfl | hb
    · rfl
    · exact (hover b hb).isBase
  have hpair : (ClientFrame.failing futures :: below).Pairwise Over := by
    refine .cons (fun b hb => ?_) hbelow
    obtain ⟨-, g, rfl⟩ := h.callbacks_below htop b hb
    trivial
  obtain ⟨hmem, hstay, hpair'⟩ := called (c := s.client) (f := f) hpair hbase
  simp only [goStep, Option.some.injEq] at hstep
  generalize { (s.client.futures f).response with
    status := .UNAVAILABLE, errorMessage := bytesOf "Connection closed" } = response at hstep
  subst hstep
  have hfewer := fewer_complete s.client f response
  have hpending : (s.client.complete f response).pendingRequests = s.client.pendingRequests :=
    complete_pendingRequests
  refine h.alone (θ := θ) hfewer.grows rfl (h.only_holder htop (List.mem_singleton.2 rfl))
    (fun x hx => ?_) hpair' (hfewer.distinct h.distinct) (fun hnone => ?_)
  · rcases hmem x hx with rfl | hx
    · refine .inr ⟨(h.distinct.allocated id f hget).trans_eq hfewer.next.symm, ?_⟩
      exact (completed_complete f).trans (by simp)
    · rcases List.mem_cons.1 hx with rfl | hx
      · refine .inr ⟨hnodup, fun g hg => ?_⟩
        obtain ⟨⟨id', hget'⟩, hundone⟩ := hfutures g (List.mem_cons_of_mem _ hg)
        have hne : g ≠ f := by
          rintro rfl
          exact hnotin hg
        refine ⟨⟨id', by rwa [← hpending] at hget'⟩, (completed_complete g).trans ?_⟩
        rw [decide_eq_false hne, Bool.false_or, hundone]
      · obtain ⟨hold, g, rfl⟩ := h.callbacks_below htop x hx
        exact .inl ⟨hold, by simp [holds]⟩
  · refine absurd ?_ (hnone θ futures)
    have hself : (s.complete θ f response (.failing futures :: below)).frames θ = _ :=
      Function.update_self ..
    rw [hself]
    exact hstay _ (List.mem_cons_self ..)

theorem completing {response : RpcResponse} (h : s.Inv)
    (htop : s.frames θ = .completing f response :: below)
    (hstep : s.goStep θ below (.completing f response) = some s') : s'.Inv := by
  obtain rfl := Option.some.inj hstep
  obtain ⟨hover, hbelow⟩ := h.over_below htop
  obtain ⟨hlt, hnot⟩ := h.ok θ _ (htop ▸ List.mem_cons_self ..)
  have hk := keeps_complete hnot response
  obtain ⟨hmem, hstay, hpair⟩ := called (c := s.client) (f := f) hbelow
    fun b hb => (hover b hb).elim
  refine h.keep (θ := θ) hk rfl (fun x hx => ?_) (fun futures hfutures => ?_) hpair
  · rcases hmem x hx with rfl | hx
    · exact .inr ⟨⟨hlt.trans_le hk.next, (completed_complete f).trans (by simp)⟩, by simp [holds]⟩
    · exact (hover x hx).elim
  · rw [htop] at hfutures
    rcases List.mem_cons.1 hfutures with heq | hfutures
    · cases heq
    · exact hstay _ hfutures

theorem goStep {frame : ClientFrame} (h : s.Inv) (htop : s.frames θ = frame :: below)
    (hfree : ∀ m ∈ s.goRequest frame, s.Free m) (hstep : s.goStep θ below frame = some s') :
    s'.Inv := by
  cases frame with
  | callback | waiting => cases hstep
  | registering requestId buffer => exact h.registering htop (hfree _ rfl) hstep
  | sending requestId buffer =>
    refine h.sending htop (fun hsend => hfree _ ?_) hstep
    rw [goRequest, hsend]
    rfl
  | sendFailed requestId f => exact h.sendFailed htop hstep
  | closing => exact h.closing htop (hfree _ rfl) hstep
  | failing futures =>
    cases futures with
    | nil => exact h.failed htop hstep
    | cons f futures => exact h.failing htop hstep
  | completing f response => exact h.completing htop hstep

end

theorem step (h : s.Inv) (hstep : s.step e = some s') : s'.Inv := by
  obtain ⟨hfree, hstep⟩ := step_eq_some.1 hstep
  cases e with
  | user θ call =>
    simp only [perform] at hstep
    split at hstep
    on_goal 2 => cases hstep
    rename_i hcall
    refine h.userStep hcall.1 hcall.2 (fun f hf => ?_) hstep
    exact hfree (θ, .future f) (request_user hcall.1 hf)
  | ret θ =>
    simp only [perform] at hstep
    split at hstep
    · rename_i f below htop
      obtain rfl := Option.some.inj hstep
      exact h.popped (.refl _) htop rfl (by simp [holds])
    · cases hstep
  | receive θ buffer =>
    simp only [perform] at hstep
    split at hstep
    · rename_i hempty
      refine h.receive (List.isEmpty_iff.1 hempty) (fun hsize => hfree (θ, .pending) ?_) hstep
      simp only [request, hempty, hsize, and_self, if_true]
      rfl
    · cases hstep
  | sent θ requestId success =>
    simp only [perform] at hstep
    split at hstep
    · rename_i hempty
      obtain rfl := Option.some.inj hstep
      cases success with
      | true => exact h
      | false =>
        refine h.findFailed (hfree (θ, .pending) ?_) ?_ requestId
        · simp only [request, hempty, Bool.not_false, and_self, if_true]
          rfl
        · rw [List.isEmpty_iff.1 hempty]
          simp
    · cases hstep
  | lost =>
    obtain rfl := Option.some.inj hstep
    exact h.keepFrames (.of_completed rfl rfl fun _ => rfl) rfl
  | go θ =>
    simp only [perform] at hstep
    split at hstep
    · cases hstep
    · rename_i frame below htop
      refine h.goStep htop (fun m hm => hfree (θ, m) ?_) hstep
      rw [request, htop, List.head?_cons, Option.bind_some, Option.mem_def.1 hm]
      rfl
  | wake θ timedOut =>
    simp only [perform] at hstep
    split at hstep
    · rename_i f below htop
      split at hstep
      · obtain rfl := Option.some.inj hstep
        exact h.popped (keeps_wait s.client f) htop rfl (by simp [holds])
      · obtain rfl := Option.some.inj hstep
        exact h
    · cases hstep

end Inv

end ClientThreads

end GossipRl
