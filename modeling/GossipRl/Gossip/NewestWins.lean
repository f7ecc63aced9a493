import GossipRl.Gossip.Aggregation
import GossipRl.Support.Newest

/-!
# Which gradient of a sender is cached

The counters of a sender grow from message to message, so the test for a stale update compares
the time of sending, and the cache entry is the newest of the messages whose handlers have come to
the test (`checked`, in the order in which they came). The callback is called for those that were
newer than all before, once their handlers have averaged. A stale message only takes a sequence
number, if it is to be answered.
-/

namespace GossipRl
open Support

variable {K : Type*}

namespace GossipMessage

/-- A sender that counts up has sent `a` before `b`. -/
def Older (a b : GossipMessage K) : Prop :=
  a.modelVersion ≤ b.modelVersion ∧ a.step ≤ b.step ∧
    (a.modelVersion < b.modelVersion ∨ a.step < b.step)

instance : DecidableRel (Older (K := K)) := fun _ _ => inferInstanceAs (Decidable (_ ∧ _ ∧ _))

theorem Older.trans (a b c : GossipMessage K) (h : a.Older b) (h' : b.Older c) : a.Older c := by
  unfold Older at *
  omega

instance : IsTrans (GossipMessage K) Older := ⟨Older.trans⟩

theorem Older.irrefl (a : GossipMessage K) : ¬ a.Older a := by
  unfold Older
  omega

theorem older_trichotomy {sent : List (GossipMessage K)} (h : sent.Pairwise Older)
    {a b : GossipMessage K} (ha : a ∈ sent) (hb : b ∈ sent) : a = b ∨ a.Older b ∨ b.Older a := by
  induction h with
  | nil => cases ha
  | cons hfirst _ ih =>
    rcases List.mem_cons.1 ha with rfl | ha'
    · rcases List.mem_cons.1 hb with rfl | hb'
      · exact .inl rfl
      · exact .inr (.inl (hfirst b hb'))
    · rcases List.mem_cons.1 hb with rfl | hb'
      · exact .inr (.inr (hfirst a ha'))
      · exact ih ha' hb'

/-- A message with a gradient that `handle_message` processes. -/
def isGradient (msg : GossipMessage K) : Bool :=
  (msg.type == .PUSH_GRADIENT || msg.type == .PUSH_PULL_GRADIENT) && msg.gradientData.isSome

end GossipMessage

open GossipMessage

/-- The entry is made from the message. -/
def GradientState.Holds (st : GradientState K) (msg : GossipMessage K) : Prop :=
  msg.gradientData = some st.gradients ∧ st.indices = msg.indices ∧
    st.modelVersion = msg.modelVersion ∧ st.step = msg.step

/-- The cache has an entry of `sender` made from `o`, or none if `o` is none. -/
def GossipProtocol.Caches (sender : String) (p : GossipProtocol K) :
    Option (GossipMessage K) → Prop
  | none => p.gradientCache.get? sender = none
  | some msg => ∃ st, p.gradientCache.get? sender = some st ∧ st.Holds msg

namespace GossipProtocol

/-- After the answer to `msg`, if it is to be answered. -/
def answered (msg : GossipMessage K) (p : GossipProtocol K) : GossipProtocol K :=
  if msg.type = .PUSH_PULL_GRADIENT then { p with sequenceNum := p.sequenceNum + 1 } else p

@[simp] theorem answered_gradientCache (msg : GossipMessage K) (p : GossipProtocol K) :
    (p.answered msg).gradientCache = p.gradientCache := by
  unfold answered
  split <;> rfl

@[simp] theorem answered_onGradientReceived (msg : GossipMessage K) (p : GossipProtocol K) :
    (p.answered msg).onGradientReceived = p.onGradientReceived := by
  unfold answered
  split <;> rfl

@[simp] theorem answered_notified (msg : GossipMessage K) (p : GossipProtocol K) :
    (p.answered msg).notified = p.notified := by
  unfold answered
  split <;> rfl

theorem aggregateGradients_callback [Field K] (p : GossipProtocol K) :
    p.aggregateGradients.onGradientReceived = p.onGradientReceived ∧
    p.aggregateGradients.notified = p.notified := by
  unfold aggregateGradients
  dsimp only
  repeat' split
  all_goals exact ⟨rfl, rfl⟩

end GossipProtocol

namespace HandlerPc

/-- The message of a handler that is about to test the cache. -/
def checking : HandlerPc K → Option (GossipMessage K)
  | .process msg _ => some msg
  | _ => none

/-- The message of a handler that is about to average and call the callback. -/
def calling : HandlerPc K → Option (GossipMessage K)
  | .aggregate msg _ => some msg
  | _ => none

/-- A handler goes on with the gradient of its message. -/
def Carries : HandlerPc K → Prop
  | .process msg gradients | .aggregate msg gradients => msg.gradientData = some gradients
  | _ => True

variable {msg : GossipMessage K} {p : GossipProtocol K}

theorem finish_eq (msg : GossipMessage K) (p : GossipProtocol K) :
    ∃ reply, finish msg p = (.done reply, p.answered msg) := by
  unfold finish GossipProtocol.answered
  split
  · exact ⟨_, rfl⟩
  · exact ⟨_, rfl⟩

theorem ofMessage_gradient {gradients : NdArray K} (hgradient : msg.isGradient)
    (hdata : msg.gradientData = some gradients) :
    ofMessage msg p =
      (.process msg gradients, { p with messagesReceived := p.messagesReceived + 1 }) := by
  unfold isGradient at hgradient
  cases ht : msg.type <;> simp [ht] at hgradient <;> simp [ofMessage, ht, hdata]

theorem ofMessage_spec (msg : GossipMessage K) (p : GossipProtocol K) :
    (ofMessage msg p).1.checking = (if msg.isGradient then some msg else none) ∧
    (ofMessage msg p).1.calling = none ∧ (ofMessage msg p).1.Carries ∧
    (ofMessage msg p).2.gradientCache = p.gradientCache ∧
    (ofMessage msg p).2.notified = p.notified ∧
    (ofMessage msg p).2.onGradientReceived = p.onGradientReceived := by
  unfold ofMessage isGradient
  cases ht : msg.type <;> cases hg : msg.gradientData <;>
    simp [finish, checking, calling, Carries, ht, hg, GossipProtocol.handlePullGradient,
      GossipProtocol.nextSequence]

end HandlerPc

namespace GossipProtocol
variable {sender : String} {p : GossipProtocol K} {o : Option (GossipMessage K)}
  {msg : GossipMessage K}

theorem Caches.of_get? {p' : GossipProtocol K} (h : p.Caches sender o)
    (hget : p'.gradientCache.get? sender = p.gradientCache.get? sender) : p'.Caches sender o := by
  cases o with
  | none => exact hget.trans h
  | some a =>
    obtain ⟨st, hst, hholds⟩ := h
    exact ⟨st, hget.trans hst, hholds⟩

theorem Caches.stale_iff (h : p.Caches sender o)
    (htri : ∀ a, o = some a → a = msg ∨ a.Older msg ∨ msg.Older a) :
    p.stale sender msg.modelVersion msg.step = true ↔ ¬ ∀ a, o = some a → a.Older msg := by
  cases o with
  | none =>
    have hget : p.gradientCache.get? sender = none := h
    simp [stale, hget]
  | some a =>
    obtain ⟨st, hst, -, -, hversion, hstep⟩ := h
    have htri := htri a rfl
    simp only [stale, hst, hversion, hstep, Option.some.injEq, forall_eq', Bool.and_eq_true,
      decide_eq_true_eq]
    unfold Older at *
    rcases htri with rfl | h | h <;> omega

theorem caches_storeGradient {gradients : NdArray K} (now : ℚ)
    (hg : msg.gradientData = some gradients) :
    (p.storeGradient now sender gradients msg.indices msg.modelVersion msg.step).Caches sender
      (some msg) :=
  ⟨_, Dict.get?_set_self, hg, rfl, rfl, rfl⟩

end GossipProtocol

namespace GossipEvent

/-- The message with a gradient that is received. -/
def gradient : GossipEvent K → Option (GossipMessage K)
  | .receive msg => if msg.isGradient then some msg else none
  | _ => none

end GossipEvent

namespace GossipSched
open GossipProtocol
variable [Field K] {s s' : GossipSched K} {e : GossipEvent K} {events : List (GossipEvent K)}

/-- What the task that goes on shows. -/
def shown (f : HandlerPc K → Option (GossipMessage K)) (s : GossipSched K) :
    GossipEvent K → Option (GossipMessage K)
  | .resume t _ => s.tasks[t]?.bind f
  | _ => none

/-- The messages that were tested against the cache, in this order. -/
def checked (s₀ : GossipSched K) (events : List (GossipEvent K)) : List (GossipMessage K) :=
  observe step (shown HandlerPc.checking) s₀ events

/-- The messages that the callback was called for, if it is given. -/
def called (s₀ : GossipSched K) (events : List (GossipEvent K)) : List (GossipMessage K) :=
  observe step (shown HandlerPc.calling) s₀ events

/-- The messages of `sender` among `msgs`. -/
def ofSender (sender : String) (msgs : List (GossipMessage K)) : List (GossipMessage K) :=
  msgs.filter (·.senderId = sender)

/-- The arguments of the callback for a message. -/
def callArgs (msg : GossipMessage K) : Option (NdArray K × Int × Int) :=
  msg.gradientData.map fun gradients => (gradients, msg.modelVersion, msg.step)

structure NewestInv (sender : String) (sent : List (GossipMessage K)) (s₀ : GossipSched K)
    (events : List (GossipEvent K)) (s : GossipSched K) : Prop where
  carries : ∀ pc ∈ s.tasks, pc.Carries
  sent : ∀ msg ∈ events.filterMap GossipEvent.gradient, msg.senderId = sender → msg ∈ sent
  received : (events.filterMap GossipEvent.gradient).Perm
    (s₀.checked events ++ s.tasks.filterMap HandlerPc.checking)
  caches : ∃ o, Newest Older o (ofSender sender (s₀.checked events)) ∧ s.protocol.Caches sender o
  called : (records Older (ofSender sender (s₀.checked events))).Perm
    (ofSender sender (s₀.called events ++ s.tasks.filterMap HandlerPc.calling))
  callback : s.protocol.onGradientReceived = s₀.protocol.onGradientReceived
  notified : s.protocol.notified =
    if s.protocol.onGradientReceived then (s₀.called events).filterMap callArgs else []

namespace NewestInv
variable {sender : String} {sent : List (GossipMessage K)} {s₀ : GossipSched K} {pc pc' : HandlerPc K}
  {p : GossipProtocol K} {t : Nat} {now : ℚ}

theorem setGradients (hrun : run step s₀ events = some s) (hs : NewestInv sender sent s₀ events s)
    (gradients : NdArray K) (indices : Option (List Int)) (modelVersion stepNum : Int) :
    NewestInv sender sent s₀ (events ++ [.setGradients gradients indices modelVersion stepNum])
      { s with protocol := s.protocol.setGradients gradients indices modelVersion stepNum } := by
  have hchecked : s₀.checked (events ++ [.setGradients gradients indices modelVersion stepNum]) =
      s₀.checked events := by
    simp [checked, observe_concat hrun, shown]
  have hcalled : s₀.called (events ++ [.setGradients gradients indices modelVersion stepNum]) =
      s₀.called events := by
    simp [GossipSched.called, observe_concat hrun, shown]
  obtain ⟨o, hnewest, hcaches⟩ := hs.caches
  exact {
    carries := hs.carries
    sent := by simpa [GossipEvent.gradient] using hs.sent
    received := by
      rw [filterMap_concat, hchecked]
      simpa [GossipEvent.gradient] using hs.received
    caches := ⟨o, by rwa [hchecked], hcaches.of_get? rfl⟩
    called := by rw [hchecked, hcalled]; exact hs.called
    callback := hs.callback
    notified := by rw [hcalled]; exact hs.notified }

theorem receive (hrun : run step s₀ events = some s) (hs : NewestInv sender sent s₀ events s)
    {msg : GossipMessage K} (hsent : msg.isGradient → msg.senderId = sender → msg ∈ sent) :
    NewestInv sender sent s₀ (events ++ [.receive msg])
      ⟨(HandlerPc.ofMessage msg s.protocol).2,
        s.tasks ++ [(HandlerPc.ofMessage msg s.protocol).1]⟩ := by
  obtain ⟨hchecking, hcalling, hcarries, hcache, hnotified, hcallback⟩ :=
    HandlerPc.ofMessage_spec msg s.protocol
  have hchecked : s₀.checked (events ++ [.receive msg]) = s₀.checked events := by
    simp [checked, observe_concat hrun, shown]
  have hcalled : s₀.called (events ++ [.receive msg]) = s₀.called events := by
    simp [GossipSched.called, observe_concat hrun, shown]
  obtain ⟨o, hnewest, hcaches⟩ := hs.caches
  exact {
    carries := by
      intro pc hpc
      rcases List.mem_append.1 hpc with hpc | hpc
      · exact hs.carries pc hpc
      · exact List.mem_singleton.1 hpc ▸ hcarries
    sent := by
      intro m hm hsender
      rw [filterMap_concat, List.mem_append] at hm
      rcases hm with hm | hm
      · exact hs.sent m hm hsender
      · rw [GossipEvent.gradient] at hm
        split at hm
        · obtain rfl : m = msg := by simpa using hm
          exact hsent (by assumption) hsender
        · simp at hm
    received := by
      rw [filterMap_concat, filterMap_concat, hchecked, hchecking, ← List.append_assoc]
      exact hs.received.append_right _
    caches := ⟨o, by rwa [hchecked], hcaches.of_get? (by rw [hcache])⟩
    called := by
      rw [hchecked, hcalled, filterMap_concat, hcalling, Option.toList_none, List.append_nil]
      exact hs.called
    callback := hcallback.trans hs.callback
    notified := by rw [hnotified, hcallback, hcalled]; exact hs.notified }

/-- A handler goes on: `hcaches`, `hrecords` and `hnotified` are what is left to show for it. -/
theorem resume (hrun : run step s₀ events = some s) (hs : NewestInv sender sent s₀ events s)
    (ht : s.tasks[t]? = some pc) (hcarries : pc'.Carries) (hchecking : pc'.checking = none)
    (hcaches : ∃ o,
      Newest Older o (ofSender sender (s₀.checked events ++ pc.checking.toList)) ∧
        p.Caches sender o)
    (hrecords : records Older (ofSender sender (s₀.checked events ++ pc.checking.toList)) =
      records Older (ofSender sender (s₀.checked events)) ++ ofSender sender pc'.calling.toList)
    (hcallback : p.onGradientReceived = s.protocol.onGradientReceived)
    (hnotified : p.notified = s.protocol.notified ++
      if s.protocol.onGradientReceived then pc.calling.toList.filterMap callArgs else []) :
    NewestInv sender sent s₀ (events ++ [.resume t now]) ⟨p, s.tasks.set t pc'⟩ := by
  have hchecked : s₀.checked (events ++ [.resume t now]) =
      s₀.checked events ++ pc.checking.toList := by
    simp [checked, observe_concat hrun, shown, ht]
  have hcalled : s₀.called (events ++ [.resume t now]) =
      s₀.called events ++ pc.calling.toList := by
    simp [GossipSched.called, observe_concat hrun, shown, ht]
  have hevents : (events ++ [GossipEvent.resume t now]).filterMap GossipEvent.gradient =
      events.filterMap GossipEvent.gradient := by
    simp [GossipEvent.gradient]
  obtain ⟨rest, hbefore, hafter⟩ := filterMap_set_perm (f := HandlerPc.checking) ht
  obtain ⟨rest', hbefore', hafter'⟩ := filterMap_set_perm (f := HandlerPc.calling) ht
  have hafter := hafter pc'
  rw [hchecking, Option.toList_none, List.nil_append] at hafter
  exact {
    carries := forall_mem_set hs.carries hcarries
    sent := by rw [hevents]; exact hs.sent
    received := by
      rw [hevents, hchecked, List.append_assoc]
      exact hs.received.trans ((hbefore.trans (hafter.symm.append_left _)).append_left _)
    caches := by rw [hchecked]; exact hcaches
    called := by
      have hswap : (s₀.called events ++ pc.calling.toList ++
          (s.tasks.set t pc').filterMap HandlerPc.calling).Perm
          (s₀.called events ++ s.tasks.filterMap HandlerPc.calling ++ pc'.calling.toList) := by
        refine ((hafter' pc').append_left _).trans ?_
        rw [List.append_assoc, List.append_assoc]
        refine List.Perm.append_left _ ((List.perm_append_comm.append_left _).trans ?_)
        rw [← List.append_assoc]
        exact hbefore'.symm.append_right _
      rw [hchecked, hcalled, hrecords]
      refine (hs.called.append_right _).trans ?_
      rw [ofSender, ofSender, ← List.filter_append]
      exact hswap.symm.filter _
    callback := hcallback.trans hs.callback
    notified := by
      rw [hnotified, hcallback, hcalled, hs.notified]
      split <;> simp }

theorem mem_sent (hs : NewestInv sender sent s₀ events s) {msg : GossipMessage K}
    (hsender : msg.senderId = sender)
    (hmem : msg ∈ s₀.checked events ++ s.tasks.filterMap HandlerPc.checking) : msg ∈ sent :=
  hs.sent msg (hs.received.mem_iff.2 hmem) hsender

/-- The message that is about to be tested and the newest one before it are of the sender's. -/
theorem trichotomy (hsent : sent.Pairwise Older) (hs : NewestInv sender sent s₀ events s)
    {msg : GossipMessage K} {gradients : NdArray K} {o : Option (GossipMessage K)}
    (hsender : msg.senderId = sender) (ht : s.tasks[t]? = some (.process msg gradients))
    (hnewest : Newest Older o (ofSender sender (s₀.checked events))) :
    ∀ a, o = some a → a = msg ∨ a.Older msg ∨ msg.Older a := by
  rintro a rfl
  obtain ⟨ha, hasender⟩ := List.mem_filter.1 hnewest.1
  refine older_trichotomy hsent ?_ ?_
  · exact hs.mem_sent (of_decide_eq_true hasender) (List.mem_append_left _ ha)
  · refine hs.mem_sent hsender (List.mem_append_right _ ?_)
    exact List.mem_filterMap.2 ⟨.process msg gradients, List.mem_of_getElem? ht, rfl⟩

theorem stale_iff (hsent : sent.Pairwise Older) (hs : NewestInv sender sent s₀ events s)
    {msg : GossipMessage K} {gradients : NdArray K} (hsender : msg.senderId = sender)
    (ht : s.tasks[t]? = some (.process msg gradients)) :
    s.protocol.stale msg.senderId msg.modelVersion msg.step = true ↔
      ¬ ∀ before ∈ ofSender sender (s₀.checked events), before.Older msg := by
  obtain ⟨o, hnewest, hcaches⟩ := hs.caches
  rw [hnewest.all_lt_iff Older.trans, hsender]
  exact hcaches.stale_iff (hs.trichotomy hsent hsender ht hnewest)

theorem process (hsent : sent.Pairwise Older) (hrun : run GossipSched.step s₀ events = some s)
    (hs : NewestInv sender sent s₀ events s) {msg : GossipMessage K} {gradients : NdArray K}
    (hsender : msg.senderId = sender) (ht : s.tasks[t]? = some (.process msg gradients))
    (hadv : (HandlerPc.process msg gradients).advance now s.protocol = some (pc', p)) :
    NewestInv sender sent s₀ (events ++ [.resume t now]) ⟨p, s.tasks.set t pc'⟩ := by
  have hpc : msg.gradientData = some gradients := hs.carries _ (List.mem_of_getElem? ht)
  have hstale := hs.stale_iff hsent hsender ht
  obtain ⟨o, hnewest, hcaches⟩ := hs.caches
  have hrecord := hnewest.all_lt_iff (b := msg) Older.trans
  have hshow : ofSender sender
      (s₀.checked events ++ (HandlerPc.process msg gradients).checking.toList) =
        ofSender sender (s₀.checked events) ++ [msg] := by
    simp [HandlerPc.checking, ofSender, hsender]
  simp only [HandlerPc.advance] at hadv
  split at hadv
  · rename_i hst
    have hnot := hstale.1 hst
    obtain ⟨reply, hfinish⟩ := HandlerPc.finish_eq msg s.protocol
    rw [hfinish] at hadv
    obtain ⟨rfl, rfl⟩ := Prod.mk.inj (Option.some.inj hadv)
    refine hs.resume hrun ht trivial rfl ?_ ?_ ?_ ?_
    · obtain ⟨a, rfl, hlt⟩ : ∃ a, o = some a ∧ ¬ a.Older msg := by simpa [hrecord] using hnot
      have hle : msg = a ∨ msg.Older a := by
        rcases hs.trichotomy hsent hsender ht hnewest a rfl with heq | hlt' | hlt'
        · exact .inl heq.symm
        · exact absurd hlt' hlt
        · exact .inr hlt'
      rw [hshow]
      exact ⟨some a, hnewest.keep hle, hcaches.of_get? (by simp)⟩
    · rw [hshow, records_concat, if_neg hnot]
      rfl
    · simp
    · simp [HandlerPc.calling]
  · rename_i hst
    have hnew : ∀ before ∈ ofSender sender (s₀.checked events), before.Older msg :=
      not_not.1 fun hnot => hst (hstale.2 hnot)
    obtain ⟨rfl, rfl⟩ := Prod.mk.inj (Option.some.inj hadv)
    refine hs.resume hrun ht hpc rfl ?_ ?_ rfl ?_
    · rw [hshow, hsender]
      exact ⟨some msg, hnewest.concat Older.trans (hrecord.1 hnew), caches_storeGradient now hpc⟩
    · rw [hshow, records_concat, if_pos hnew]
      simp [HandlerPc.calling, ofSender, hsender]
    · simp [HandlerPc.calling, storeGradient]

theorem process_of_ne (hrun : run GossipSched.step s₀ events = some s)
    (hs : NewestInv sender sent s₀ events s) {msg : GossipMessage K} {gradients : NdArray K}
    (hsender : msg.senderId ≠ sender) (ht : s.tasks[t]? = some (.process msg gradients))
    (hadv : (HandlerPc.process msg gradients).advance now s.protocol = some (pc', p)) :
    NewestInv sender sent s₀ (events ++ [.resume t now]) ⟨p, s.tasks.set t pc'⟩ := by
  have hpc : msg.gradientData = some gradients := hs.carries _ (List.mem_of_getElem? ht)
  obtain ⟨o, hnewest, hcaches⟩ := hs.caches
  have hshow : ofSender sender
      (s₀.checked events ++ (HandlerPc.process msg gradients).checking.toList) =
        ofSender sender (s₀.checked events) := by
    simp [HandlerPc.checking, ofSender, hsender]
  simp only [HandlerPc.advance] at hadv
  split at hadv
  · obtain ⟨reply, hfinish⟩ := HandlerPc.finish_eq msg s.protocol
    rw [hfinish] at hadv
    obtain ⟨rfl, rfl⟩ := Prod.mk.inj (Option.some.inj hadv)
    refine hs.resume hrun ht trivial rfl ?_ ?_ ?_ ?_
    · rw [hshow]
      exact ⟨o, hnewest, hcaches.of_get? (by simp)⟩
    · rw [hshow]
      simp [HandlerPc.calling, ofSender]
    · simp
    · simp [HandlerPc.calling]
  · obtain ⟨rfl, rfl⟩ := Prod.mk.inj (Option.some.inj hadv)
    refine hs.resume hrun ht hpc rfl ?_ ?_ rfl ?_
    · rw [hshow]
      exact ⟨o, hnewest, hcaches.of_get? (Dict.get?_set_of_ne hsender.symm)⟩
    · rw [hshow]
      simp [HandlerPc.calling, ofSender, hsender]
    · simp [HandlerPc.calling, storeGradient]

theorem aggregate (hrun : run GossipSched.step s₀ events = some s)
    (hs : NewestInv sender sent s₀ events s) {msg : GossipMessage K} {gradients : NdArray K}
    (ht : s.tasks[t]? = some (.aggregate msg gradients))
    (hadv : (HandlerPc.aggregate msg gradients).advance now s.protocol = some (pc', p)) :
    NewestInv sender sent s₀ (events ++ [.resume t now]) ⟨p, s.tasks.set t pc'⟩ := by
  have hpc : msg.gradientData = some gradients := hs.carries _ (List.mem_of_getElem? ht)
  obtain ⟨o, hnewest, hcaches⟩ := hs.caches
  obtain ⟨hcallback, hnotified⟩ := aggregateGradients_callback s.protocol
  obtain ⟨reply, hfinish⟩ := HandlerPc.finish_eq msg
    (s.protocol.aggregateGradients.notify gradients msg.modelVersion msg.step)
  simp only [HandlerPc.advance, hfinish] at hadv
  obtain ⟨rfl, rfl⟩ := Prod.mk.inj (Option.some.inj hadv)
  refine hs.resume hrun ht trivial rfl ?_ ?_ ?_ ?_
  · refine ⟨o, by simpa [HandlerPc.checking] using hnewest, hcaches.of_get? ?_⟩
    simp [notify, aggregateGradients_cache]
  · simp [HandlerPc.checking, HandlerPc.calling, ofSender]
  · simp [notify, hcallback]
  · simp only [answered_notified, notify, hcallback, hnotified, HandlerPc.calling, callArgs,
      Option.toList_some, List.filterMap_cons, List.filterMap_nil, hpc, Option.map_some]
    split <;> simp

theorem step (hsent : sent.Pairwise Older)
    (hrun : run GossipSched.step s₀ events = some s) (hs : NewestInv sender sent s₀ events s)
    (he : ∀ msg, e = .receive msg → msg.isGradient → msg.senderId = sender → msg ∈ sent)
    (h : s.step e = some s') : NewestInv sender sent s₀ (events ++ [e]) s' := by
  cases e with
  | setGradients gradients indices modelVersion stepNum =>
    obtain rfl := Option.some.inj h
    exact hs.setGradients hrun gradients indices modelVersion stepNum
  | receive msg =>
    obtain rfl := Option.some.inj h
    exact hs.receive hrun (he msg rfl)
  | resume t now =>
    obtain ⟨pc, pc', p, ht, hadv, rfl⟩ := step_resume_iff.1 h
    cases pc with
    | membership msg =>
      obtain ⟨rfl, rfl⟩ := Prod.mk.inj (Option.some.inj hadv)
      obtain ⟨o, hnewest, hcaches⟩ := hs.caches
      refine hs.resume hrun ht trivial rfl ?_ ?_ rfl ?_
      · exact ⟨o, by simpa [HandlerPc.checking] using hnewest, hcaches.of_get? rfl⟩
      · simp [HandlerPc.checking, HandlerPc.calling, ofSender]
      · simp [HandlerPc.calling]
    | process msg gradients =>
      by_cases hsender : msg.senderId = sender
      · exact hs.process hsent hrun hsender ht hadv
      · exact hs.process_of_ne hrun hsender ht hadv
    | aggregate msg gradients => exact hs.aggregate hrun ht hadv
    | done reply => cases hadv

end NewestInv

/-- The gradient messages that were received. -/
def received (events : List (GossipEvent K)) : List (GossipMessage K) :=
  events.filterMap GossipEvent.gradient

theorem newestInv_run {localPeer : Peer} {membership : MembershipManager}
    {onGradientReceived : Bool} {sender : String} {sent : List (GossipMessage K)}
    (hsent : sent.Pairwise Older) (hfrom : ∀ msg ∈ ofSender sender (received events), msg ∈ sent)
    (hrun : run step (.init localPeer membership onGradientReceived) events = some s) :
    NewestInv sender sent (.init localPeer membership onGradientReceived) events s := by
  have nil : NewestInv (K := K) sender sent (.init localPeer membership onGradientReceived) []
      (.init localPeer membership onGradientReceived) := {
    carries := by
      intro pc hpc
      cases hpc
    sent := by
      intro msg hmsg
      cases hmsg
    received := .refl _
    caches := ⟨none, .nil, rfl⟩
    called := .refl _
    callback := rfl
    notified := by cases onGradientReceived <;> rfl }
  refine run_induction (C := fun _ e => ∀ msg, e = .receive msg → msg.isGradient →
    msg.senderId = sender → msg ∈ sent) nil ?_ ?_ hrun
  · intro es s e s' hes hs he hstep
    exact hs.step hsent hes he hstep
  · rintro es₁ e es₂ s₁ rfl - msg rfl hgradient hsender
    refine hfrom msg (List.mem_filter.2 ⟨List.mem_filterMap.2 ⟨.receive msg, by simp, ?_⟩, ?_⟩)
    · simp [GossipEvent.gradient, hgradient]
    · simpa using hsender

end GossipSched

namespace GossipMessage

/-- Of `sent`, the message that was delivered and sent last. -/
def SentLast (sent delivered : List (GossipMessage K)) (msg : GossipMessage K) : Prop :=
  ∃ before after, sent = before ++ msg :: after ∧ msg ∈ delivered ∧ ∀ m ∈ after, m ∉ delivered

theorem sentLast_of_newest {sent delivered : List (GossipMessage K)} {msg : GossipMessage K}
    (hsent : sent.Pairwise Older) (hfrom : ∀ m ∈ delivered, m ∈ sent)
    (h : Newest Older (some msg) delivered) : SentLast sent delivered msg := by
  obtain ⟨before, after, rfl⟩ := List.append_of_mem (hfrom msg h.1)
  refine ⟨before, after, rfl, h.1, ?_⟩
  intro m hm hdel
  have hlater : msg.Older m :=
    (List.pairwise_cons.1 (List.pairwise_append.1 hsent).2.1).1 m hm
  rcases h.2 m hdel with rfl | holder
  · exact Older.irrefl m hlater
  · exact Older.irrefl m (Older.trans _ _ _ holder hlater)

end GossipMessage

open GossipSched GossipProtocol

/-- Of a sender that counts up, whatever is delivered in whatever order: between handlers the cache
entry is the delivered message that was sent last, and the callback has been called for those that
were newer than everything tested before them. A message that is not takes a sequence number, if it
is to be answered, and changes nothing else after its reception. -/
theorem newest_wins [Field K] {localPeer : Peer} {membership : MembershipManager}
    {onGradientReceived : Bool} {sender : String} {sent : List (GossipMessage K)}
    {events : List (GossipEvent K)} {s₀ s : GossipSched K}
    (hinit : s₀ = .init localPeer membership onGradientReceived)
    (hsent : sent.IsChain Older) (hfrom : ∀ msg ∈ ofSender sender (received events), msg ∈ sent)
    (hrun : run GossipSched.step s₀ events = some s) :
    (s.Quiescent →
      ((∃ msg, SentLast sent (ofSender sender (received events)) msg ∧
          s.protocol.Caches sender (some msg)) ∨
        ofSender sender (received events) = [] ∧ s.protocol.Caches sender none) ∧
      (s₀.checked events).Perm (received events) ∧
      (ofSender sender (s₀.called events)).Perm
        (records Older (ofSender sender (s₀.checked events)))) ∧
    s.protocol.notified =
      (if onGradientReceived then (s₀.called events).filterMap callArgs else []) ∧
    (∀ msg gradients, msg.isGradient → msg.gradientData = some gradients →
      s.step (.receive msg) = some
        ⟨{ s.protocol with messagesReceived := s.protocol.messagesReceived + 1 },
          s.tasks ++ [.process msg gradients]⟩) ∧
    ∀ t now msg gradients, s.tasks[t]? = some (.process msg gradients) → msg.senderId = sender →
      ¬ (∀ before ∈ ofSender sender (s₀.checked events), before.Older msg) →
      ∃ reply, s.step (.resume t now) =
        some ⟨s.protocol.answered msg, s.tasks.set t (.done reply)⟩ := by
  subst hinit
  have hsent := List.isChain_iff_pairwise.1 hsent
  have hs := newestInv_run hsent hfrom hrun
  refine ⟨?_, ?_, ?_, ?_⟩
  · intro hquiet
    have hchecking : s.tasks.filterMap HandlerPc.checking = [] :=
      hquiet.filterMap_eq_nil fun _ => rfl
    have hcalling : s.tasks.filterMap HandlerPc.calling = [] :=
      hquiet.filterMap_eq_nil fun _ => rfl
    have hreceived := hs.received
    rw [hchecking, List.append_nil] at hreceived
    have hcalled := hs.called
    rw [hcalling, List.append_nil] at hcalled
    obtain ⟨o, hnewest, hcaches⟩ := hs.caches
    have hnewest := hnewest.perm (hreceived.symm.filter _)
    refine ⟨?_, hreceived.symm, hcalled.symm⟩
    cases o with
    | none => exact .inr ⟨hnewest, hcaches⟩
    | some msg => exact .inl ⟨msg, sentLast_of_newest hsent hfrom hnewest, hcaches⟩
  · rw [hs.notified, hs.callback]
    rfl
  · intro msg gradients hgradient hdata
    simp only [GossipSched.step, HandlerPc.ofMessage_gradient hgradient hdata]
  · intro t now msg gradients ht hsender hnot
    obtain ⟨reply, hfinish⟩ := HandlerPc.finish_eq msg s.protocol
    have hstale := (hs.stale_iff hsent hsender ht).2 hnot
    refine ⟨reply, step_resume_iff.2 ⟨_, _, _, ht, ?_, rfl⟩⟩
    rw [HandlerPc.advance, if_pos hstale, hfinish]

section Example

def exchangeOf (sequence : Int) (xs : List ℚ) (modelVersion : Int) : GossipMessage ℚ :=
  .createPushPullGradient "b" sequence (.ofList xs) modelVersion 0 none

/-- The second message of a sender overtakes the first one, and is delivered again. -/
def overtakingRun : List (GossipEvent ℚ) :=
  [.receive (exchangeOf 2 [4] 1), .resume 0 0, .resume 0 0, .receive (exchangeOf 1 [3] 0),
    .resume 1 0, .receive (exchangeOf 2 [4] 1), .resume 2 0]

theorem newest_wins_overtaking : ∃ s,
    run GossipSched.step (.init peerA membershipA true) overtakingRun = some s ∧
    s.Quiescent ∧
    ((∃ msg, SentLast [exchangeOf 1 [3] 0, exchangeOf 2 [4] 1]
        (ofSender "b" (received overtakingRun)) msg ∧ s.protocol.Caches "b" (some msg)) ∨
      ofSender "b" (received overtakingRun) = [] ∧ s.protocol.Caches "b" none) := by
  have hsent : [exchangeOf 1 [3] 0, exchangeOf 2 [4] 1].IsChain Older :=
    .cons_cons (by decide) (.singleton _)
  have hfrom : ∀ msg ∈ ofSender "b" (received overtakingRun),
      msg ∈ [exchangeOf 1 [3] 0, exchangeOf 2 [4] 1] := by
    intro msg hmsg
    have hmsg : msg ∈ [exchangeOf 2 [4] 1, exchangeOf 1 [3] 0, exchangeOf 2 [4] 1] := hmsg
    simp only [List.mem_cons, List.not_mem_nil, or_false] at hmsg ⊢
    tauto
  have hquiet : ∀ s, run GossipSched.step (.init peerA membershipA true) overtakingRun = some s →
      s.Quiescent := by
    rintro s ⟨⟩
    exact quiescent_iff.2 rfl
  exact ⟨_, rfl, hquiet _ rfl, ((newest_wins rfl hsent hfrom rfl).1 (hquiet _ rfl)).1⟩

/-- A duplicate that is to be answered takes a sequence number. -/
theorem duplicate_takes_sequence_number : ∃ s s',
    run GossipSched.step (.init peerA membershipA true)
      [.receive (exchangeOf 1 [3] 0), .resume 0 0, .resume 0 0] = some s ∧
    run GossipSched.step s [.receive (exchangeOf 1 [3] 0), .resume 1 0] = some s' ∧
    s.Quiescent ∧ s'.Quiescent ∧ s.protocol.sequenceNum = 1 ∧ s'.protocol.sequenceNum = 2 ∧
    ∀ n, s'.protocol ≠ { s.protocol with messagesReceived := n } := by
  refine ⟨_, _, rfl, rfl, quiescent_iff.2 rfl, quiescent_iff.2 rfl, rfl, rfl, ?_⟩
  intro n heq
  have hsequence := congrArg GossipProtocol.sequenceNum heq
  cases hsequence

end Example

end GossipRl
