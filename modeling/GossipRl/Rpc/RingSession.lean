import GossipRl.Rpc.SharedMemoryDelivery
import GossipRl.Support.BoundedQueue
import GossipRl.Support.Run

/-!
# A producer and a consumer at one ring (`buffer_pool.hpp`)

Here `try_push` and `try_pop` are taken apart further: either loads its own position, loads the
other's and decides, copies the element, and stores its position. `Inv` says what the two positions
and either call know of the elements, and with it every step is one of a bounded queue or none
(`refines`): a push takes effect when it stores `write_pos`, a pop when it stores `read_pos`, and a
call that fails has found the queue full, or empty, when it loaded the other's position.
-/

namespace GossipRl
open Support

/-- Where `try_push` is. -/
inductive PushPc (T : Type*) where
  | idle
  | loaded (value : T) (write : UInt64)
  | storing (value : T) (write : UInt64)
  | publishing (value : T) (write : UInt64)

/-- Where `try_pop` is. -/
inductive PopPc (T : Type*) where
  | idle
  | loaded (read : UInt64)
  | copying (read : UInt64)
  | publishing (value : T) (read : UInt64)

structure RingSession (T : Type*) where
  ring : SharedRingBuffer T
  pushPc : PushPc T := .idle
  popPc : PopPc T := .idle
  /-- The values for which `try_push` returned true. -/
  pushed : List T := []
  /-- The values that `try_pop` returned. -/
  popped : List T := []

inductive RingEvent (T : Type*) where
  /-- A call of `try_push`, and its next steps. -/
  | push (value : T)
  | pushStep
  /-- A call of `try_pop`, and its next steps. -/
  | pop
  | popStep

/-- The constructor. -/
def SharedRingBuffer.attach {T : Type*} (capacity : UInt64) (region : SharedRingBuffer T) :
    SharedRingBuffer T :=
  if region.capacity = 0 then { region with capacity := capacity } else region

namespace RingSession
variable {T : Type*}

/-- Both sides attach to a region that has just been created; `data` is what lies in it. -/
def start (capacity : UInt64) (data : Nat → T) : RingSession T where
  ring := (SharedRingBuffer.attach capacity { capacity := 0, data := data }).attach capacity

def push (s : RingSession T) (value : T) : Option (RingSession T) :=
  match s.pushPc with
  | .idle => some { s with pushPc := .loaded value s.ring.writePos }
  | _ => none

def pushStep (s : RingSession T) : Option (RingSession T) :=
  match s.pushPc with
  | .idle => none
  | .loaded value write =>
    if write - s.ring.readPos ≥ s.ring.capacity then some { s with pushPc := .idle }
    else some { s with pushPc := .storing value write }
  | .storing value write =>
    some { s with
      ring := s.ring.pushStore write value
      pushPc := .publishing value write }
  | .publishing value write =>
    some { s with
      ring := s.ring.pushFinish write
      pushPc := .idle
      pushed := s.pushed ++ [value] }

def pop (s : RingSession T) : Option (RingSession T) :=
  match s.popPc with
  | .idle => some { s with popPc := .loaded s.ring.readPos }
  | _ => none

def popStep (s : RingSession T) : Option (RingSession T) :=
  match s.popPc with
  | .idle => none
  | .loaded read =>
    if read ≥ s.ring.writePos then some { s with popPc := .idle }
    else some { s with popPc := .copying read }
  | .copying read => some { s with popPc := .publishing (s.ring.popLoad read) read }
  | .publishing value read =>
    some { s with
      ring := s.ring.popFinish read
      popPc := .idle
      popped := s.popped ++ [value] }

def step (s : RingSession T) : RingEvent T → Option (RingSession T)
  | .push value => s.push value
  | .pushStep => s.pushStep
  | .pop => s.pop
  | .popStep => s.popStep

/-- The call on the queue that takes effect at a step. -/
def outcome (s : RingSession T) : RingEvent T → Option (QueueOp T)
  | .pushStep =>
    match s.pushPc with
    | .loaded _ write => if write - s.ring.readPos ≥ s.ring.capacity then some .full else none
    | .publishing value _ => some (.enqueued value)
    | _ => none
  | .popStep =>
    match s.popPc with
    | .loaded read => if read ≥ s.ring.writePos then some .empty else none
    | .publishing value _ => some (.dequeued value)
    | _ => none
  | _ => none

/-- What is in the queue. -/
def contents (s : RingSession T) : List T := s.pushed.drop s.popped.length

variable {s s' : RingSession T} {e : RingEvent T} {op : Option (QueueOp T)}

/-- What can happen at a step, with the call on the queue that takes effect. -/
inductive StepCases (s : RingSession T) : RingEvent T → Option (QueueOp T) → RingSession T → Prop
  | push (value : T) (pc : s.pushPc = .idle) :
      StepCases s (.push value) none { s with pushPc := .loaded value s.ring.writePos }
  | full (value : T) (write : UInt64) (pc : s.pushPc = .loaded value write)
      (noRoom : write - s.ring.readPos ≥ s.ring.capacity) :
      StepCases s .pushStep (some .full) { s with pushPc := .idle }
  | room (value : T) (write : UInt64) (pc : s.pushPc = .loaded value write)
      (room : ¬ write - s.ring.readPos ≥ s.ring.capacity) :
      StepCases s .pushStep none { s with pushPc := .storing value write }
  | store (value : T) (write : UInt64) (pc : s.pushPc = .storing value write) :
      StepCases s .pushStep none
        { s with ring := s.ring.pushStore write value, pushPc := .publishing value write }
  | publish (value : T) (write : UInt64) (pc : s.pushPc = .publishing value write) :
      StepCases s .pushStep (some (.enqueued value))
        { s with ring := s.ring.pushFinish write, pushPc := .idle, pushed := s.pushed ++ [value] }
  | pop (pc : s.popPc = .idle) :
      StepCases s .pop none { s with popPc := .loaded s.ring.readPos }
  | empty (read : UInt64) (pc : s.popPc = .loaded read) (nothing : read ≥ s.ring.writePos) :
      StepCases s .popStep (some .empty) { s with popPc := .idle }
  | found (read : UInt64) (pc : s.popPc = .loaded read) (something : ¬ read ≥ s.ring.writePos) :
      StepCases s .popStep none { s with popPc := .copying read }
  | copy (read : UInt64) (pc : s.popPc = .copying read) :
      StepCases s .popStep none { s with popPc := .publishing (s.ring.popLoad read) read }
  | consume (value : T) (read : UInt64) (pc : s.popPc = .publishing value read) :
      StepCases s .popStep (some (.dequeued value))
        { s with ring := s.ring.popFinish read, popPc := .idle, popped := s.popped ++ [value] }

theorem step_cases (h : s.step e = some s') : StepCases s e (s.outcome e) s' := by
  cases e with
  | push value =>
    simp only [step, push] at h
    split at h
    · rename_i hpc
      obtain rfl := Option.some.inj h
      exact .push value hpc
    · cases h
  | pushStep =>
    simp only [step, pushStep] at h
    split at h
    · cases h
    · rename_i value write hpc
      split at h
      · rename_i hfull
        obtain rfl := Option.some.inj h
        simp only [outcome, hpc, if_pos hfull]
        exact .full value write hpc hfull
      · rename_i hroom
        obtain rfl := Option.some.inj h
        simp only [outcome, hpc, if_neg hroom]
        exact .room value write hpc hroom
    · rename_i value write hpc
      obtain rfl := Option.some.inj h
      simp only [outcome, hpc]
      exact .store value write hpc
    · rename_i value write hpc
      obtain rfl := Option.some.inj h
      simp only [outcome, hpc]
      exact .publish value write hpc
  | pop =>
    simp only [step, pop] at h
    split at h
    · rename_i hpc
      obtain rfl := Option.some.inj h
      exact .pop hpc
    · cases h
  | popStep =>
    simp only [step, popStep] at h
    split at h
    · cases h
    · rename_i read hpc
      split at h
      · rename_i hempty
        obtain rfl := Option.some.inj h
        simp only [outcome, hpc, if_pos hempty]
        exact .empty read hpc hempty
      · rename_i hsome
        obtain rfl := Option.some.inj h
        simp only [outcome, hpc, if_neg hsome]
        exact .found read hpc hsome
    · rename_i read hpc
      obtain rfl := Option.some.inj h
      simp only [outcome, hpc]
      exact .copy read hpc
    · rename_i value read hpc
      obtain rfl := Option.some.inj h
      simp only [outcome, hpc]
      exact .consume value read hpc

/-- What a call of `try_push` knows. -/
def Pushing (ring : SharedRingBuffer T) : PushPc T → Prop
  | .idle => True
  | .loaded _ write => write = ring.writePos
  | .storing _ write =>
    write = ring.writePos ∧ ring.writePos.toNat < ring.readPos.toNat + ring.capacity.toNat
  | .publishing value write =>
    write = ring.writePos ∧ ring.writePos.toNat < ring.readPos.toNat + ring.capacity.toNat ∧
      ring.data (write.toNat % ring.capacity.toNat) = value

/-- What a call of `try_pop` knows. -/
def Popping (ring : SharedRingBuffer T) (pushed : List T) : PopPc T → Prop
  | .idle => True
  | .loaded read => read = ring.readPos
  | .copying read => read = ring.readPos ∧ ring.readPos.toNat < ring.writePos.toNat
  | .publishing value read =>
    read = ring.readPos ∧ ring.readPos.toNat < ring.writePos.toNat ∧
      pushed[ring.readPos.toNat]? = some value

theorem Pushing.consumed {ring : SharedRingBuffer T} {pc : PushPc T} {read : UInt64}
    (h : Pushing ring pc) (hle : ring.readPos.toNat ≤ (read + 1).toNat) :
    Pushing (ring.popFinish read) pc := by
  have hroom : ring.writePos.toNat < ring.readPos.toNat + ring.capacity.toNat →
      ring.writePos.toNat < (read + 1).toNat + ring.capacity.toNat := by omega
  cases pc with
  | idle => trivial
  | loaded value write => exact h
  | storing value write => exact ⟨h.1, hroom h.2⟩
  | publishing value write => exact ⟨h.1, hroom h.2.1, h.2.2⟩

theorem Popping.published {ring : SharedRingBuffer T} {pushed : List T} {pc : PopPc T} {value : T}
    {write : UInt64} (h : Popping ring pushed pc) (hle : ring.writePos.toNat ≤ (write + 1).toNat) :
    Popping (ring.pushFinish write) (pushed ++ [value]) pc := by
  cases pc with
  | idle => trivial
  | loaded read => exact h
  | copying read => exact ⟨h.1, h.2.trans_le hle⟩
  | publishing value' read =>
    obtain ⟨hread, hlt, hvalue⟩ := h
    refine ⟨hread, hlt.trans_le hle, ?_⟩
    show (pushed ++ [value])[ring.readPos.toNat]? = some value'
    rw [List.getElem?_append_left (List.getElem?_eq_some_iff.1 hvalue).1, hvalue]

structure Inv (s : RingSession T) : Prop where
  write : s.ring.writePos.toNat = s.pushed.length
  read : s.ring.readPos.toNat = s.popped.length
  holds : Holds s.ring.data s.ring.capacity.toNat s.pushed s.ring.readPos.toNat
    s.ring.writePos.toNat
  room : s.ring.writePos.toNat ≤ s.ring.readPos.toNat + s.ring.capacity.toNat
  pushing : Pushing s.ring s.pushPc
  popping : Popping s.ring s.pushed s.popPc

theorem start_ring (capacity : UInt64) (data : Nat → T) :
    (start capacity data).ring = { capacity := capacity, data := data } := by
  simp only [start, SharedRingBuffer.attach, if_true]
  split <;> rfl

namespace Inv

theorem start (capacity : UInt64) (data : Nat → T) : (start capacity data).Inv where
  write := by rw [start_ring]; rfl
  read := by rw [start_ring]; rfl
  holds := by rw [start_ring]; exact .empty
  room := by rw [start_ring]; exact Nat.le_add_right ..
  pushing := trivial
  popping := trivial

/-- A push is over: the slot that `try_push` has written becomes the newest element. -/
theorem publish (h : s.Inv) {value : T} {write : UInt64} (pc : s.pushPc = .publishing value write)
    (hbound : (s.pushed ++ [value]).length < UInt64.size) :
    Inv { s with
      ring := s.ring.pushFinish write
      pushPc := .idle
      pushed := s.pushed ++ [value] } := by
  have hpushing := h.pushing
  rw [pc] at hpushing
  obtain ⟨rfl, hroom, hslot⟩ := hpushing
  have hlen : (s.pushed ++ [value]).length = s.pushed.length + 1 := List.length_append
  have hnext : (s.ring.writePos + 1).toNat = s.ring.writePos.toNat + 1 := by
    refine toNat_add_one ?_
    rw [h.write, ← hlen]
    exact hbound
  have hle : s.ring.writePos.toNat ≤ (s.ring.writePos + 1).toNat := by omega
  exact
    { write := by rw [hlen, ← h.write]; exact hnext
      read := h.read
      holds := by
        show Holds s.ring.data _ _ _ (s.ring.writePos + 1).toNat
        rw [hnext]
        exact h.holds.publish h.write.symm hslot
      room := by
        show (s.ring.writePos + 1).toNat ≤ s.ring.readPos.toNat + s.ring.capacity.toNat
        omega
      pushing := trivial
      popping := h.popping.published hle }

theorem consume (h : s.Inv) {value : T} {read : UInt64} (pc : s.popPc = .publishing value read) :
    Inv { s with
      ring := s.ring.popFinish read
      popPc := .idle
      popped := s.popped ++ [value] } := by
  have hpopping := h.popping
  rw [pc] at hpopping
  obtain ⟨rfl, hlt, -⟩ := hpopping
  have hnext : (s.ring.readPos + 1).toNat = s.ring.readPos.toNat + 1 :=
    toNat_add_one (lt_of_le_of_lt hlt (UInt64.toNat_lt _))
  have hle : s.ring.readPos.toNat ≤ (s.ring.readPos + 1).toNat := by omega
  have hroom := h.room
  exact
    { write := h.write
      read := by
        show (s.ring.readPos + 1).toNat = (s.popped ++ [value]).length
        rw [hnext, h.read, List.length_append, List.length_singleton]
      holds := by
        show Holds s.ring.data _ _ (s.ring.readPos + 1).toNat _
        rw [hnext]
        exact h.holds.consume hlt
      room := by
        show s.ring.writePos.toNat ≤ (s.ring.readPos + 1).toNat + s.ring.capacity.toNat
        omega
      pushing := h.pushing.consumed hle
      popping := trivial }

/-- Until `2 ^ 64` elements have been pushed, a step keeps the invariant. -/
theorem step (h : s.Inv) (hs : StepCases s e op s') (hbound : s'.pushed.length < UInt64.size) :
    s'.Inv := by
  have hpushing := h.pushing
  have hpopping := h.popping
  cases hs with
  | push value pc => exact { h with pushing := rfl }
  | full value write pc noRoom => exact { h with pushing := trivial }
  | room value write pc room =>
    rw [pc] at hpushing
    obtain rfl : write = s.ring.writePos := hpushing
    have hroom := mt (SharedRingBuffer.full_iff h.holds.le).2 room
    exact { h with pushing := ⟨rfl, Nat.lt_of_not_le hroom⟩ }
  | store value write pc =>
    rw [pc] at hpushing
    obtain ⟨rfl, hroom⟩ := hpushing
    refine { h with holds := ?_, pushing := ⟨rfl, hroom, ?_⟩ }
    · rw [SharedRingBuffer.data_pushStore]
      exact h.holds.store hroom
    · rw [SharedRingBuffer.data_pushStore]
      exact Function.update_self ..
  | publish value write pc => exact h.publish pc hbound
  | pop pc => exact { h with popping := rfl }
  | empty read pc nothing => exact { h with popping := trivial }
  | found read pc something =>
    rw [pc] at hpopping
    obtain rfl : read = s.ring.readPos := hpopping
    rw [ge_iff_le, UInt64.le_iff_toNat_le, Nat.not_le] at something
    exact { h with popping := ⟨rfl, something⟩ }
  | copy read pc =>
    rw [pc] at hpopping
    obtain ⟨rfl, hlt⟩ := hpopping
    refine { h with popping := ⟨rfl, hlt, ?_⟩ }
    rw [SharedRingBuffer.popLoad_eq]
    exact h.holds.head hlt
  | consume value read pc => exact h.consume pc

theorem refines (h : s.Inv) (hs : StepCases s e op s') :
    match op with
    | none => s'.contents = s.contents
    | some op => QueueStep s.ring.capacity.toNat s.contents op s'.contents := by
  have hpushing := h.pushing
  have hpopping := h.popping
  have hread := h.read
  have hwrite := h.write
  have hlen : s.contents.length = s.pushed.length - s.popped.length := List.length_drop
  have hroom := h.room
  cases hs with
  | push value pc => rfl
  | full value write pc noRoom =>
    rw [pc] at hpushing
    obtain rfl : write = s.ring.writePos := hpushing
    have hfull := (SharedRingBuffer.full_iff h.holds.le).1 noRoom
    exact .full (by omega)
  | room value write pc room => rfl
  | store value write pc => rfl
  | publish value write pc =>
    rw [pc] at hpushing
    obtain ⟨rfl, hlt, -⟩ := hpushing
    have hle := h.holds.le
    show QueueStep _ s.contents _ ((s.pushed ++ [value]).drop s.popped.length)
    rw [List.drop_append_of_le_length (by omega)]
    exact .enqueued (by omega)
  | pop pc => rfl
  | empty read pc nothing =>
    rw [pc] at hpopping
    obtain rfl : read = s.ring.readPos := hpopping
    rw [ge_iff_le, UInt64.le_iff_toNat_le] at nothing
    have hnil : s.contents = [] := List.drop_eq_nil_of_le (by omega)
    show QueueStep _ s.contents _ s.contents
    rw [hnil]
    exact .empty
  | found read pc something => rfl
  | copy read pc => rfl
  | consume value read pc =>
    rw [pc] at hpopping
    obtain ⟨rfl, hlt, hvalue⟩ := hpopping
    rw [hread] at hvalue
    have hcontents : s.contents = value :: s.pushed.drop (s.popped.length + 1) :=
      List.drop_eq_getElem?_toList_append.trans (by rw [hvalue]; rfl)
    show QueueStep _ s.contents _ (s.pushed.drop (s.popped ++ [value]).length)
    rw [hcontents, List.length_append]
    exact .dequeued

end Inv

theorem StepCases.capacity (hs : StepCases s e op s') : s'.ring.capacity = s.ring.capacity := by
  cases hs <;> rfl

theorem StepCases.values (hs : StepCases s e op s') :
    s'.pushed = s.pushed ++ op.toList.filterMap QueueOp.input ∧
      s'.popped = s.popped ++ op.toList.filterMap QueueOp.output := by
  cases hs with
  | publish value write pc => exact ⟨rfl, (List.append_nil _).symm⟩
  | consume value read pc => exact ⟨(List.append_nil _).symm, rfl⟩
  | _ => exact ⟨(List.append_nil _).symm, (List.append_nil _).symm⟩

/-- The state is the one that the calls so far lead to. -/
structure Follows (cap : Nat) (ops : List (QueueOp T)) (s : RingSession T) : Prop where
  inv : s.Inv
  capacity : s.ring.capacity.toNat = cap
  trace : QueueTrace cap [] ops s.contents
  pushed : s.pushed = ops.filterMap QueueOp.input
  popped : s.popped = ops.filterMap QueueOp.output

theorem Follows.step {cap : Nat} {ops : List (QueueOp T)} (h : Follows cap ops s)
    (hs : StepCases s e op s') (hbound : s'.pushed.length < UInt64.size) :
    Follows cap (ops ++ op.toList) s' := by
  obtain ⟨hpushed, hpopped⟩ := hs.values
  have hrefines := h.inv.refines hs
  refine ⟨h.inv.step hs hbound, by rw [hs.capacity, h.capacity], ?_, ?_, ?_⟩
  · cases op with
    | none =>
      rw [Option.toList_none, List.append_nil, hrefines]
      exact h.trace
    | some op =>
      rw [h.capacity] at hrefines
      exact h.trace.concat hrefines
  · rw [hpushed, h.pushed, List.filterMap_append]
  · rw [hpopped, h.popped, List.filterMap_append]

/-- The calls on the queue that take effect in a run. -/
def calls (s₀ : RingSession T) (events : List (RingEvent T)) : List (QueueOp T) :=
  observe step outcome s₀ events

theorem follows_run {capacity : UInt64} {data : Nat → T} {events : List (RingEvent T)}
    (hrun : run step (start capacity data) events = some s)
    (hbound : s.pushed.length < UInt64.size) :
    Follows capacity.toNat ((start capacity data).calls events) s := by
  refine run_induction (motive := fun es s => s.pushed.length < UInt64.size →
    Follows capacity.toNat ((start capacity data).calls es) s) ?_ ?_ .unconditional hrun hbound
  · exact fun _ => ⟨.start capacity data, by rw [start_ring], .nil, rfl, rfl⟩
  · intro es s e s' hes ih _ hstep hbound
    have hs := step_cases hstep
    have hlen : s.pushed.length ≤ s'.pushed.length := by
      rw [hs.values.1, List.length_append]
      exact Nat.le_add_right ..
    rw [calls, observe_concat hes]
    exact (ih (by omega)).step hs hbound

end RingSession

/-- Over every interleaving of the loads and stores of a producer and a consumer, the ring is a
bounded queue: what is popped was pushed, in order, no more than `capacity` elements are held, and
a push stores into the slot of none of those. -/
theorem ring_refines_queue {T : Type*} {capacity : UInt64} {data : Nat → T}
    {events : List (RingEvent T)} {s : RingSession T}
    (hrun : run RingSession.step (.start capacity data) events = some s)
    (hbound : s.pushed.length < UInt64.size) :
    QueueTrace capacity.toNat [] ((RingSession.start capacity data).calls events) s.contents ∧
    s.pushed = ((RingSession.start capacity data).calls events).filterMap QueueOp.input ∧
    s.popped = ((RingSession.start capacity data).calls events).filterMap QueueOp.output ∧
    s.popped <+: s.pushed ∧
    s.pushed.length ≤ s.popped.length + capacity.toNat ∧
    ∀ value write, s.pushPc = .storing value write →
      ∀ i, s.popped.length ≤ i → i < s.pushed.length →
        i % capacity.toNat ≠ (write % capacity).toNat := by
  have h := RingSession.follows_run hrun hbound
  have hread := h.inv.read
  have hwrite := h.inv.write
  refine ⟨h.trace, h.pushed, h.popped, ?_, ?_, ?_⟩
  · rw [h.pushed, h.popped]
    exact h.trace.output_prefix
  · have hheld := h.trace.length_le (Nat.zero_le _)
    rw [RingSession.contents, List.length_drop] at hheld
    omega
  · intro value write hpc i hle hlt
    have hpushing := h.inv.pushing
    rw [hpc] at hpushing
    obtain ⟨rfl, hfree⟩ := hpushing
    rw [h.capacity] at hfree
    rw [UInt64.toNat_mod]
    exact mod_ne_of_lt (by omega) (by omega)

section Example

/-- With one slot: the consumer loads both positions while the first push has not been published,
and the second push finds the ring full. -/
def oneSlot : List (RingEvent Nat) :=
  [.push 7, .pushStep, .pop, .popStep, .pushStep, .pushStep, .push 8, .pop, .pushStep, .popStep]

theorem ring_refines_queue_oneSlot : ∃ s,
    run RingSession.step (.start 1 fun _ => 0) oneSlot = some s ∧
    (RingSession.start 1 fun _ => 0).calls oneSlot = [.empty, .enqueued 7, .full] ∧
    s.contents = [7] ∧
    QueueTrace 1 [] ((RingSession.start 1 fun _ => 0).calls oneSlot) s.contents := by
  obtain ⟨s, hrun⟩ : ∃ s, run RingSession.step (.start 1 fun _ => 0) oneSlot = some s := ⟨_, rfl⟩
  have hcontents : s.contents = [7] ∧ s.pushed.length < UInt64.size := by
    obtain rfl := Option.some.inj hrun
    exact ⟨rfl, by decide⟩
  exact ⟨s, hrun, rfl, hcontents.1, (ring_refines_queue hrun hcontents.2).1⟩

end Example

end GossipRl
