import GossipRl.Support.Parties
import GossipRl.Training.ExperienceDict
import GossipRl.Training.Redpanda
import Mathlib.Algebra.Ring.Int.Defs

/-!
# Replay buffers that share a topic (`RedpandaReplayBuffer`)

Agents publish the experiences that they add, and each gets those of the others from its consumer.
What is in the topic may come to a consumer in any order, any number of times or never, and there may
be messages in it that cannot be parsed. `published` says whether there is a producer and it takes
the message; a message that cannot be serialised is not sent (the exception is logged). A poll may
come at any time: starting and stopping the consumer thread is left out.
-/

namespace GossipRl
open Support

structure KafkaMessage (K δ : Type*) where
  key : Option String
  /-- The dictionary, if the bytes can be parsed. -/
  value : Option (ExperienceDict K δ)
deriving DecidableEq

/-- What `consumer.poll` returns. -/
inductive Polled (K δ : Type*) where
  | nothing
  | error
  | message (msg : KafkaMessage K δ)

structure ReplayAgent (K δ : Type*) (size : Nat) where
  agentId : String
  replay : RedpandaReplayBuffer (Experience (ExperienceContent K δ) K) size

inductive ReplayEvent (K δ : Type*) where
  | add (e : Experience (ExperienceContent K δ) K) (published : Bool)
  | poll (polled : Polled K δ)

namespace ReplayAgent
variable {K δ : Type*} {size : Nat}

def create (agentId : String) : ReplayAgent K δ size := ⟨agentId, ⟨⟨.empty⟩, .empty⟩⟩

variable [Zero K]

/-- What the consumer loop makes of a message, if it is from another agent. -/
def foreign (float32 : K → K) (agentId : String) :
    Polled K δ → Option (Experience (ExperienceContent K δ) K)
  | .message msg =>
    if msg.key.getD "" = agentId then none else msg.value.bind (Experience.fromDict float32)
  | _ => none

def add (e : Experience (ExperienceContent K δ) K) (s : ReplayAgent K δ size) :
    ReplayAgent K δ size :=
  { s with replay := { s.replay with localBuffer := ⟨s.replay.localBuffer.buffer.append e⟩ } }

/-- One round of `_consume_loop`. -/
def consume (float32 : K → K) (polled : Polled K δ) (s : ReplayAgent K δ size) :
    ReplayAgent K δ size :=
  match foreign float32 s.agentId polled with
  | none => s
  | some e =>
    { s with replay := { s.replay with receivedBuffer := s.replay.receivedBuffer.append e } }

def step (float32 : K → K) (s : ReplayAgent K δ size) : ReplayEvent K δ → Option (ReplayAgent K δ size)
  | .add e _ => some (s.add e)
  | .poll polled => some (s.consume float32 polled)

def sends (json : δ → Option δ) (s : ReplayAgent K δ size) : ReplayEvent K δ → List (KafkaMessage K δ)
  | .add e true => (e.toDict.dumps json).toList.map fun d => ⟨some s.agentId, some d⟩
  | _ => []

/-- What can be parsed has been published. -/
def admits [DecidableEq K] [DecidableEq δ] (sent : List (KafkaMessage K δ)) :
    ReplayEvent K δ → Bool
  | .poll (.message msg) => msg.value.isNone || decide (msg ∈ sent)
  | _ => true

def party (K δ : Type*) (size : Nat) [Zero K] [DecidableEq K] [DecidableEq δ] (json : δ → Option δ)
    (float32 : K → K) : Party (ReplayAgent K δ size) (ReplayEvent K δ) (KafkaMessage K δ) where
  step := step float32
  sends := sends json
  admits := admits

end ReplayAgent

abbrev SharedReplay (ι K δ : Type*) (size : Nat) := Parties ι (ReplayAgent K δ size) (KafkaMessage K δ)

def SharedReplay.start {ι K δ : Type*} {size : Nat} (ids : ι → String) : SharedReplay ι K δ size where
  state i := .create (ids i)

namespace ReplayEvent
variable {K δ : Type*}

def added? : ReplayEvent K δ → Option (Experience (ExperienceContent K δ) K)
  | .add e _ => some e
  | .poll _ => none

def received? [Zero K] (float32 : K → K) (agentId : String) :
    ReplayEvent K δ → Option (Experience (ExperienceContent K δ) K)
  | .add .. => none
  | .poll polled => ReplayAgent.foreign float32 agentId polled

end ReplayEvent

/-! ### What the buffers hold -/

namespace ReplayAgent
variable {K δ : Type*} {size : Nat} [Zero K] {float32 : K → K} {s s' : ReplayAgent K δ size}
  {agentId : String} {events : List (ReplayEvent K δ)} {e : ReplayEvent K δ}

/-- The buffers have the last experiences that were added and that came from others. -/
structure Recent (float32 : K → K) (agentId : String) (events : List (ReplayEvent K δ))
    (s : ReplayAgent K δ size) : Prop where
  named : s.agentId = agentId
  added : s.replay.localBuffer.buffer.HoldsLast (events.filterMap ReplayEvent.added?)
  received : s.replay.receivedBuffer.HoldsLast
    (events.filterMap (ReplayEvent.received? float32 agentId))

theorem Recent.add {x : Experience (ExperienceContent K δ) K} {published : Bool}
    (h : s.Recent float32 agentId events) :
    (s.add x).Recent float32 agentId (events ++ [.add x published]) where
  named := h.named
  added := by
    rw [filterMap_concat]
    exact h.added.append x
  received := by
    rw [filterMap_concat]
    show s.replay.receivedBuffer.HoldsLast (_ ++ [])
    rw [List.append_nil]
    exact h.received

theorem Recent.consume {polled : Polled K δ} (h : s.Recent float32 agentId events) :
    (s.consume float32 polled).Recent float32 agentId (events ++ [.poll polled]) := by
  obtain ⟨rfl, hadded, hreceived⟩ := h
  have hadded' : s.replay.localBuffer.buffer.HoldsLast
      ((events ++ [ReplayEvent.poll polled]).filterMap ReplayEvent.added?) := by
    rw [filterMap_concat]
    show s.replay.localBuffer.buffer.HoldsLast (_ ++ [])
    rwa [List.append_nil]
  have hlast : (events ++ [ReplayEvent.poll polled]).filterMap
      (ReplayEvent.received? float32 s.agentId) =
      events.filterMap (ReplayEvent.received? float32 s.agentId) ++
        (foreign float32 s.agentId polled).toList := filterMap_concat ..
  unfold ReplayAgent.consume
  cases hforeign : foreign float32 s.agentId polled with
  | none =>
    refine ⟨rfl, hadded', ?_⟩
    rw [hlast, hforeign, Option.toList_none, List.append_nil]
    exact hreceived
  | some x =>
    refine ⟨rfl, hadded', ?_⟩
    rw [hlast, hforeign]
    exact hreceived.append x

theorem recent_run (h : run (step float32) (create agentId : ReplayAgent K δ size) events = some s) :
    s.Recent float32 agentId events := by
  refine run_induction (motive := fun events s => s.Recent float32 agentId events)
    ⟨rfl, BoundedDeque.holdsLast_empty, BoundedDeque.holdsLast_empty⟩ ?_ .unconditional h
  rintro events s e s' - hs - hstep
  cases e with
  | add x published => exact Option.some.inj hstep ▸ hs.add
  | poll polled => exact Option.some.inj hstep ▸ hs.consume

end ReplayAgent

/-! ### Where they come from -/

section
variable {ι K δ : Type*} [Zero K] {json : δ → Option δ} {float32 : K → K} {ids : ι → String}
  {events events' : Set (ι × ReplayEvent K δ)} {i : ι}

/-- The experience is what comes through JSON of one that an agent with another id has added. -/
def AddedElsewhere (json : δ → Option δ) (float32 : K → K) (ids : ι → String)
    (events : Set (ι × ReplayEvent K δ)) (i : ι) (x : Experience (ExperienceContent K δ) K) : Prop :=
  ∃ j e, (j, .add e true) ∈ events ∧ ids j ≠ ids i ∧ e.transmitted json float32 = some x

/-- The message is an experience that the agent with its key has added. -/
def KafkaMessage.Published (json : δ → Option δ) (ids : ι → String)
    (events : Set (ι × ReplayEvent K δ)) (msg : KafkaMessage K δ) : Prop :=
  ∃ j e d, (j, .add e true) ∈ events ∧ e.toDict.dumps json = some d ∧
    msg = ⟨some (ids j), some d⟩

/-- Whatever has been received was added by an agent with another id. -/
structure ReplayAgent.Sourced {size : Nat} (json : δ → Option δ) (float32 : K → K) (ids : ι → String)
    (events : Set (ι × ReplayEvent K δ)) (i : ι) (s : ReplayAgent K δ size) : Prop where
  named : s.agentId = ids i
  received : ∀ x ∈ s.replay.receivedBuffer.items, AddedElsewhere json float32 ids events i x

theorem AddedElsewhere.mono {x : Experience (ExperienceContent K δ) K} (hle : events ⊆ events')
    (h : AddedElsewhere json float32 ids events i x) :
    AddedElsewhere json float32 ids events' i x := by
  obtain ⟨j, e, hmem, hne, he⟩ := h
  exact ⟨j, e, hle hmem, hne, he⟩

theorem KafkaMessage.Published.mono {msg : KafkaMessage K δ} (hle : events ⊆ events')
    (h : msg.Published json ids events) : msg.Published json ids events' := by
  obtain ⟨j, e, d, hmem, hd, rfl⟩ := h
  exact ⟨j, e, d, hle hmem, hd, rfl⟩

theorem KafkaMessage.Published.foreign {msg : KafkaMessage K δ}
    {x : Experience (ExperienceContent K δ) K} (h : msg.Published json ids events)
    (hx : ReplayAgent.foreign float32 (ids i) (.message msg) = some x) :
    AddedElsewhere json float32 ids events i x := by
  obtain ⟨j, e, d, hmem, hd, rfl⟩ := h
  obtain ⟨hne, hfrom⟩ : ids j ≠ ids i ∧ Experience.fromDict float32 d = some x := by
    simpa [ReplayAgent.foreign] using hx
  exact ⟨j, e, hmem, hne, by rw [Experience.transmitted, hd, Option.bind_some, hfrom]⟩

namespace ReplayAgent.Sourced
variable {size : Nat} {s : ReplayAgent K δ size}

theorem mono (hle : events ⊆ events') (h : s.Sourced json float32 ids events i) :
    s.Sourced json float32 ids events' i :=
  ⟨h.named, fun x hx => (h.received x hx).mono hle⟩

theorem consume {polled : Polled K δ} (h : s.Sourced json float32 ids events i)
    (hpolled : ∀ x, ReplayAgent.foreign float32 (ids i) polled = some x →
      AddedElsewhere json float32 ids events i x) :
    (s.consume float32 polled).Sourced json float32 ids events i := by
  unfold ReplayAgent.consume
  rw [← h.named] at hpolled
  cases hforeign : ReplayAgent.foreign float32 s.agentId polled with
  | none => exact h
  | some x =>
    refine ⟨h.named, fun y hy => ?_⟩
    rcases List.mem_append.1 (List.mem_of_mem_drop hy) with hy | hy
    · exact h.received y hy
    · rw [List.mem_singleton.1 hy]
      exact hpolled x hforeign

end ReplayAgent.Sourced

end

namespace SharedReplay
open ReplayAgent
variable {ι K δ : Type*} {size : Nat} [Zero K] [DecidableEq ι] [DecidableEq K] [DecidableEq δ]
  {json : δ → Option δ} {float32 : K → K} {ids : ι → String} {s : SharedReplay ι K δ size}
  {events : List (ι × ReplayEvent K δ)}

theorem sourced_run
    (hrun : run (Parties.step (party K δ size json float32)) (start ids) events = some s) :
    Parties.Holds (fun es i n => Sourced json float32 ids es i n)
      (fun es msg => KafkaMessage.Published json ids es msg) {x | x ∈ events} s := by
  refine Parties.Holds.run (C := fun _ _ => True) (fun es _ => {x | x ∈ es})
    ⟨fun hle h => h.mono hle, fun hle h => h.mono hle⟩ ?_ ?_ .unconditional hrun
  · rintro es s i e s' - - hs - hstep
    have hle : {x | x ∈ es} ⊆ {x | x ∈ es ++ [(i, e)]} := fun x hx => List.mem_append_left _ hx
    obtain ⟨hadmits, n, hn, rfl⟩ := Parties.step_iff.1 hstep
    have hhere := (hs.states i).mono hle
    refine ⟨hle, ?_, ?_⟩
    · show Sourced json float32 ids _ i (Function.update s.state i n i)
      rw [Function.update_self]
      cases e with
      | add x published =>
        obtain rfl := Option.some.inj hn
        exact ⟨hhere.named, hhere.received⟩
      | poll polled =>
        obtain rfl := Option.some.inj hn
        refine hhere.consume fun x hx => ?_
        cases polled with
        | message msg =>
          have hmsg : msg.value.isNone = true ∨ msg ∈ s.sent := by
            simpa [party, admits] using hadmits
          rcases hmsg with hnone | hsent
          · simp [ReplayAgent.foreign, Option.isNone_iff_eq_none.1 hnone] at hx
          · exact ((hs.sent msg hsent).mono hle).foreign hx
        | _ => cases hx
    · intro msg hmsg
      rcases e with ⟨x, _ | _⟩ | polled
      · cases hmsg
      · obtain ⟨d, hd, rfl⟩ := List.mem_map.1 hmsg
        exact ⟨i, x, d, List.mem_append_right _ (List.mem_singleton.2 rfl),
          Option.mem_toList.1 hd, by rw [hhere.named]⟩
      · cases hmsg
  · constructor
    · intro i
      exact ⟨rfl, by rintro x ⟨⟩⟩
    · rintro m ⟨⟩

end SharedReplay

/-! ### Samples -/

theorem mem_of_itemsAt {χ : Type*} {capacity : Nat} {buffer : BoundedDeque χ capacity}
    {indices : List Nat} {items : List χ} (h : itemsAt buffer indices = some items) {x : χ}
    (hx : x ∈ items) : x ∈ buffer.items := by
  have hmem : some x ∈ indices.map (buffer.items[·]?) :=
    itemsAt_eq_some_iff.1 h ▸ List.mem_map_of_mem hx
  obtain ⟨i, -, hi⟩ := List.mem_map.1 hmem
  exact List.mem_of_getElem? hi

namespace RedpandaReplayBuffer
variable {χ : Type*} {localBufferSize batchSize : Nat} {b : RedpandaReplayBuffer χ localBufferSize}
  {draws draws' : Draws} {includeRemote : Bool} {samples : List χ} {x : χ}

theorem mem_of_sampleLocal (h : b.sampleLocal draws batchSize includeRemote = some samples)
    (hx : x ∈ samples) : x ∈ b.localBuffer.buffer.items := by
  unfold sampleLocal at h
  dsimp only at h
  generalize (if includeRemote ∧ b.receivedLen ≠ 0 then batchSize / 2 else batchSize) =
    localCount at h
  split at h
  · obtain ⟨indices, -, hitems⟩ := Option.bind_eq_some_iff.1 h
    exact mem_of_itemsAt hitems hx
  · obtain rfl := Option.some.inj h
    cases hx

theorem mem_of_sampleReceived {localSamples : List χ}
    (h : b.sampleReceived draws batchSize includeRemote localSamples = some samples)
    (hx : x ∈ samples) : includeRemote = true ∧ x ∈ b.receivedBuffer.items := by
  unfold sampleReceived at h
  split at h
  · rename_i hremote
    refine ⟨hremote.1, ?_⟩
    dsimp only at h
    split at h
    · obtain ⟨indices, -, hitems⟩ := Option.bind_eq_some_iff.1 h
      exact mem_of_itemsAt hitems hx
    · obtain rfl := Option.some.inj h
      cases hx
  · obtain rfl := Option.some.inj h
    cases hx

theorem mem_of_sample (h : b.sample draws draws' batchSize includeRemote = some samples)
    (hx : x ∈ samples) :
    x ∈ b.localBuffer.buffer.items ∨ includeRemote = true ∧ x ∈ b.receivedBuffer.items := by
  obtain ⟨localSamples, hlocal, h⟩ := Option.bind_eq_some_iff.1 h
  obtain ⟨remoteSamples, hremote, h⟩ := Option.bind_eq_some_iff.1 h
  obtain rfl := Option.some.inj h
  exact (List.mem_append.1 hx).imp (mem_of_sampleLocal hlocal) (mem_of_sampleReceived hremote)

end RedpandaReplayBuffer

/-- What is sampled is one of the last experiences that the agent has added, or one of the last that
it has received from others: what comes through JSON of an experience that an agent with another id
has added. -/
theorem sampled_experiences_were_added {ι K δ : Type*} {size : Nat} [Zero K] [DecidableEq ι]
    [DecidableEq K] [DecidableEq δ] {json : δ → Option δ} {float32 : K → K} {ids : ι → String}
    {s : SharedReplay ι K δ size} {events : List (ι × ReplayEvent K δ)}
    (hrun : run (Parties.step (ReplayAgent.party K δ size json float32)) (SharedReplay.start ids) events =
      some s)
    {i : ι} {draws draws' : Draws} {batchSize : Nat} {includeRemote : Bool}
    {samples : List (Experience (ExperienceContent K δ) K)}
    (hsample : (s.state i).replay.sample draws draws' batchSize includeRemote = some samples)
    {x : Experience (ExperienceContent K δ) K} (hx : x ∈ samples) :
    x ∈ ((Parties.eventsOf i events).filterMap ReplayEvent.added?).rtake size ∨
      includeRemote = true ∧
      x ∈ ((Parties.eventsOf i events).filterMap
        (ReplayEvent.received? float32 (ids i))).rtake size ∧
      AddedElsewhere json float32 ids {x | x ∈ events} i x := by
  obtain ⟨-, hadded, hreceived⟩ := ReplayAgent.recent_run (Parties.run_state hrun i)
  have hsourced := (SharedReplay.sourced_run hrun).states i
  rcases RedpandaReplayBuffer.mem_of_sample hsample hx with hlocal | ⟨hremote, hmem⟩
  · exact .inl (hadded.mem.1 hlocal)
  · exact .inr ⟨hremote, hreceived.mem.1 hmem, hsourced.received x hmem⟩

section Example

def rewarded (reward : Int) : Experience (ExperienceContent Int Bool) Int where
  content := {
    obs := .ofList [1, 2]
    action := .python 0
    reward := reward
    nextObs := .ofList [3, 4]
    done := false
    info := true }
  priority := 1

/-- `a` adds two experiences, and `b` takes the second twice. -/
def sharedRun : List (Bool × ReplayEvent Int Bool) :=
  let sent := ((rewarded 5).toDict.dumps some).map fun d => ⟨some "a", some d⟩
  [(false, .add (rewarded 4) false), (false, .add (rewarded 5) true)] ++
    (sent.toList ++ sent.toList).map fun msg => (true, .poll (.message msg))

def sharedNames (i : Bool) : String := if i then "b" else "a"

theorem sampled_experiences_were_added_twice : ∃ s x,
    run (Parties.step (ReplayAgent.party Int Bool 8 some id)) (SharedReplay.start sharedNames)
      sharedRun = some s ∧
    (s.state true).replay.sample firstPlace firstPlace 2 = some [x, x] ∧
    AddedElsewhere some id sharedNames {x | x ∈ sharedRun} true x := by
  obtain ⟨s, hs, x, hx⟩ : ∃ s,
      run (Parties.step (ReplayAgent.party Int Bool 8 some id)) (SharedReplay.start sharedNames)
        sharedRun = some s ∧
      ∃ x, (s.state true).replay.sample firstPlace firstPlace 2 = some [x, x] := by
    refine ⟨_, rfl, ?_⟩
    exact ⟨_, rfl⟩
  refine ⟨s, x, hs, hx, ?_⟩
  rcases sampled_experiences_were_added hs hx (List.mem_cons_self ..) with hlocal | ⟨-, -, h⟩
  · cases hlocal
  · exact h

end Example

end GossipRl
