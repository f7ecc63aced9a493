import GossipRl.Rpc.RegionOwnership

/-!
# The counters of a ring (`buffer_pool.hpp`)

`write_pos` and `read_pos` count modulo `2 ^ 64` what has been pushed and popped (`Stands`).
`try_push`, `size`, `empty` and `full` go by their difference, which stays right when they wrap
around; `try_pop` compares them as they are. So the two ends agree exactly while both counters are in
the same lap: once `write_pos` has wrapped, nothing is ever popped again.
-/

namespace GossipRl
open Support

inductive RingCall (T : Type*) where
  | push (value : T)
  | pop

namespace SharedRingBuffer
variable {T : Type*}

def size (r : SharedRingBuffer T) : UInt64 := r.writePos - r.readPos

def empty (r : SharedRingBuffer T) : Bool := r.size == 0

def full (r : SharedRingBuffer T) : Bool := decide (r.size ≥ r.capacity)

/-- What `try_push` maintains. -/
def Within (r : SharedRingBuffer T) : Prop := r.writePos - r.readPos ≤ r.capacity

instance (r : SharedRingBuffer T) : Decidable r.Within :=
  inferInstanceAs (Decidable (_ ≤ r.capacity))

/-- By both ends, and by what the ring says of itself, there are `n` elements in it. -/
structure Counts (r : SharedRingBuffer T) (n : Nat) : Prop where
  size : r.size.toNat = n
  empty : r.empty = true ↔ n = 0
  full : r.full = true ↔ n = r.capacity.toNat
  push : ∀ value, (r.tryPush value).1 = true ↔ n < r.capacity.toNat
  pop : r.tryPop.1.isSome = true ↔ 0 < n

/-- Calls one after the other. -/
def step (r : SharedRingBuffer T) : RingCall T → Option (SharedRingBuffer T)
  | .push value => some (r.tryPush value).2
  | .pop => some r.tryPop.2

def answer (r : SharedRingBuffer T) : RingCall T → QueueOp T
  | .push value => if (r.tryPush value).1 then .enqueued value else .full
  | .pop =>
    match r.tryPop.1 with
    | some value => .dequeued value
    | none => .empty

def answers (r₀ : SharedRingBuffer T) (calls : List (RingCall T)) : List (QueueOp T) :=
  observe step (fun r call => some (r.answer call)) r₀ calls

/-- The values for which `try_push` returned true. -/
def pushed (r₀ : SharedRingBuffer T) (calls : List (RingCall T)) : List T :=
  (r₀.answers calls).filterMap QueueOp.input

/-- The values that `try_pop` returned. -/
def popped (r₀ : SharedRingBuffer T) (calls : List (RingCall T)) : List T :=
  (r₀.answers calls).filterMap QueueOp.output

variable {r r' r₀ : SharedRingBuffer T} {reads writes : Nat} {calls : List (RingCall T)}
  {call : RingCall T} {value : T}

/-! ### The two ends -/

theorem tryPush_of_lt (h : r.size < r.capacity) (value : T) :
    r.tryPush value = (true, (r.pushStore r.writePos value).pushFinish r.writePos) := by
  have hroom : ¬ r.writePos - r.readPos ≥ r.capacity := UInt64.not_le.2 h
  rw [tryPush, pushStart, if_neg hroom]

theorem tryPush_of_le (h : r.capacity ≤ r.size) (value : T) : r.tryPush value = (false, r) := by
  have hfull : r.writePos - r.readPos ≥ r.capacity := h
  rw [tryPush, pushStart, if_pos hfull]

theorem tryPop_of_lt (h : r.readPos < r.writePos) :
    r.tryPop = (some (r.popLoad r.readPos), r.popFinish r.readPos) := by
  rw [tryPop, popStart, if_neg (UInt64.not_le.2 h)]

theorem tryPop_of_le (h : r.writePos ≤ r.readPos) : r.tryPop = (none, r) := by
  rw [tryPop, popStart, if_pos h]

theorem tryPush_eq_true : (r.tryPush value).1 = true ↔ r.size < r.capacity := by
  rcases UInt64.lt_or_le r.size r.capacity with hlt | hle
  · rw [tryPush_of_lt hlt]
    exact ⟨fun _ => hlt, fun _ => rfl⟩
  · rw [tryPush_of_le hle]
    exact ⟨nofun, fun hlt => absurd hlt (UInt64.not_lt.2 hle)⟩

theorem tryPop_isSome : r.tryPop.1.isSome = true ↔ r.readPos < r.writePos := by
  rcases UInt64.lt_or_le r.readPos r.writePos with hlt | hle
  · rw [tryPop_of_lt hlt]
    exact ⟨fun _ => hlt, fun _ => rfl⟩
  · rw [tryPop_of_le hle]
    exact ⟨nofun, fun hlt => absurd hlt (UInt64.not_lt.2 hle)⟩

theorem toNat_size (r : SharedRingBuffer T) :
    r.size.toNat = (2 ^ 64 - r.readPos.toNat + r.writePos.toNat) % 2 ^ 64 := UInt64.toNat_sub ..

/-- The positions differ exactly if there is something in the ring, and `try_pop` goes by which of
them is ahead. -/
theorem size_pos_iff : 0 < r.size.toNat ↔ r.readPos ≠ r.writePos := by
  have hwrite := r.writePos.toNat_lt
  have hread := r.readPos.toNat_lt
  rw [toNat_size, ne_eq, ← UInt64.toNat_inj]
  omega

theorem Within.counts_iff (h : r.Within) : r.Counts r.size.toNat ↔ r.readPos ≤ r.writePos := by
  constructor
  · intro hcounts
    rw [← UInt64.not_lt]
    intro hlt
    -- a wrapped ring has elements, and none is found
    have hpos : 0 < r.size.toNat := size_pos_iff.2 (UInt64.ne_of_lt hlt).symm
    have hfound := tryPop_isSome.1 (hcounts.pop.2 hpos)
    exact UInt64.lt_asymm hlt hfound
  · intro hle
    refine ⟨rfl, ?_, ?_, fun value => ?_, ?_⟩
    · rw [empty, beq_iff_eq, ← UInt64.toNat_inj]
      rfl
    · have hwithin := UInt64.le_iff_toNat_le.1 h
      rw [full, decide_eq_true_iff, ge_iff_le, UInt64.le_iff_toNat_le]
      exact ⟨fun hge => le_antisymm hwithin hge, ge_of_eq⟩
    · rw [tryPush_eq_true, UInt64.lt_iff_toNat_lt]
    · rw [tryPop_isSome, size_pos_iff]
      exact ⟨UInt64.ne_of_lt, UInt64.lt_of_le_of_ne hle⟩

/-! ### What the counters stand for -/

/-- The counters stand for `reads` elements popped and `writes` pushed, of which the ring has room
for what is left. -/
structure Stands (r : SharedRingBuffer T) (reads writes : Nat) : Prop where
  read : r.readPos = UInt64.ofNat reads
  write : r.writePos = UInt64.ofNat writes
  le : reads ≤ writes
  room : writes ≤ reads + r.capacity.toNat

theorem Within.stands (h : r.Within) : r.Stands r.readPos.toNat (r.readPos.toNat + r.size.toNat) where
  read := UInt64.ofNat_toNat.symm
  write := by
    rw [← UInt64.toNat_inj, UInt64.toNat_ofNat', toNat_size]
    have hwrite := r.writePos.toNat_lt
    have hread := r.readPos.toNat_lt
    omega
  le := Nat.le_add_right ..
  room := Nat.add_le_add_left (UInt64.le_iff_toNat_le.1 h) _

namespace Stands

/-- The difference of the counters is what is left, whether they have wrapped or not. -/
theorem size (h : r.Stands reads writes) : r.size.toNat = writes - reads := by
  have hcap := r.capacity.toNat_lt
  have hle := h.le
  have hroom := h.room
  rw [toNat_size, h.read, h.write, UInt64.toNat_ofNat', UInt64.toNat_ofNat']
  omega

theorem within (h : r.Stands reads writes) : r.Within := by
  have hroom := h.room
  refine UInt64.le_iff_toNat_le.2 (h.size.trans_le ?_)
  omega

/-- As they are, they compare right in one lap only. -/
theorem readPos_le_iff (h : r.Stands reads writes) :
    r.readPos ≤ r.writePos ↔ reads / 2 ^ 64 = writes / 2 ^ 64 := by
  have hcap := r.capacity.toNat_lt
  have hle := h.le
  have hroom := h.room
  rw [UInt64.le_iff_toNat_le, h.read, h.write, UInt64.toNat_ofNat', UInt64.toNat_ofNat']
  omega

theorem push (h : r.Stands reads writes) (hlt : r.size < r.capacity) (value : T) :
    (r.tryPush value).2.Stands reads (writes + 1) := by
  rw [tryPush_of_lt hlt]
  have hroom := UInt64.lt_iff_toNat_lt.1 hlt
  rw [h.size] at hroom
  exact
    { read := h.read
      write := by
        show r.writePos + 1 = _
        rw [h.write]
        exact (UInt64.ofNat_add writes 1).symm
      le := Nat.le_succ_of_le h.le
      room := by
        show writes + 1 ≤ reads + r.capacity.toNat
        omega }

theorem pop (h : r.Stands reads writes) (hlt : r.readPos < r.writePos) :
    r.tryPop.2.Stands (reads + 1) writes := by
  rw [tryPop_of_lt hlt]
  have hpos := size_pos_iff.2 (UInt64.ne_of_lt hlt)
  rw [h.size] at hpos
  have hroom := h.room
  exact
    { read := by
        show r.readPos + 1 = _
        rw [h.read]
        exact (UInt64.ofNat_add reads 1).symm
      write := h.write
      le := by omega
      room := by
        show writes ≤ reads + 1 + r.capacity.toNat
        omega }

theorem lap_pop (h : r.Stands reads writes) (hlt : r.readPos < r.writePos) :
    (reads + 1) / 2 ^ 64 = reads / 2 ^ 64 := by
  have hwrite := r.writePos.toNat_lt
  have hread := UInt64.lt_iff_toNat_lt.1 hlt
  rw [h.read, UInt64.toNat_ofNat'] at hread
  omega

end Stands

/-! ### Runs -/

theorem answers_concat (hrun : run step r₀ calls = some r) (call : RingCall T) :
    r₀.answers (calls ++ [call]) = r₀.answers calls ++ [r.answer call] :=
  observe_concat hrun

theorem pushed_concat (hrun : run step r₀ calls = some r) (call : RingCall T) :
    r₀.pushed (calls ++ [call]) = r₀.pushed calls ++ (r.answer call).input.toList := by
  rw [pushed, answers_concat hrun, filterMap_concat, pushed]

theorem popped_concat (hrun : run step r₀ calls = some r) (call : RingCall T) :
    r₀.popped (calls ++ [call]) = r₀.popped calls ++ (r.answer call).output.toList := by
  rw [popped, answers_concat hrun, filterMap_concat, popped]

theorem answer_push_of_lt (h : r.size < r.capacity) (value : T) :
    r.answer (.push value) = .enqueued value := by
  rw [answer, if_pos (tryPush_eq_true.2 h)]

theorem answer_push_of_le (h : r.capacity ≤ r.size) (value : T) :
    r.answer (.push value) = .full := by
  rw [answer, tryPush_of_le h]
  rfl

theorem answer_pop_of_lt (h : r.readPos < r.writePos) :
    r.answer .pop = .dequeued (r.popLoad r.readPos) := by
  rw [answer, tryPop_of_lt h]

theorem answer_pop_of_le (h : r.writePos ≤ r.readPos) : r.answer .pop = .empty := by
  rw [answer, tryPop_of_le h]

/-- A call counts what it pushes or pops, and the lap of what has been popped stays. -/
theorem stands_step (h : r.Stands reads writes) (hstep : r.step call = some r') :
    r'.Stands (reads + (r.answer call).output.toList.length)
        (writes + (r.answer call).input.toList.length) ∧
      (reads + (r.answer call).output.toList.length) / 2 ^ 64 = reads / 2 ^ 64 := by
  cases call with
  | push value =>
    obtain rfl := Option.some.inj hstep
    rcases UInt64.lt_or_le r.size r.capacity with hlt | hle
    · rw [answer_push_of_lt hlt]
      exact ⟨h.push hlt value, rfl⟩
    · rw [answer_push_of_le hle, tryPush_of_le hle]
      exact ⟨h, rfl⟩
  | pop =>
    obtain rfl := Option.some.inj hstep
    rcases UInt64.lt_or_le r.readPos r.writePos with hlt | hle
    · rw [answer_pop_of_lt hlt]
      exact ⟨h.pop hlt, h.lap_pop hlt⟩
    · rw [answer_pop_of_le hle, tryPop_of_le hle]
      exact ⟨h, rfl⟩

theorem stands_run (h : r₀.Stands reads writes) (hrun : run step r₀ calls = some r) :
    r.Stands (reads + (r₀.popped calls).length) (writes + (r₀.pushed calls).length) ∧
      (reads + (r₀.popped calls).length) / 2 ^ 64 = reads / 2 ^ 64 := by
  refine run_induction (motive := fun calls r =>
    r.Stands (reads + (r₀.popped calls).length) (writes + (r₀.pushed calls).length) ∧
      (reads + (r₀.popped calls).length) / 2 ^ 64 = reads / 2 ^ 64) ⟨h, rfl⟩ ?_ .unconditional hrun
  intro calls r call r' hcalls ⟨hstands, hlap⟩ _ hstep
  obtain ⟨hstands', hlap'⟩ := stands_step hstands hstep
  rw [popped_concat hcalls, pushed_concat hcalls, List.length_append, List.length_append,
    ← Nat.add_assoc, ← Nat.add_assoc]
  exact ⟨hstands', hlap'.trans hlap⟩

theorem wrapped_run (h : r₀.Within) (hwrapped : r₀.writePos < r₀.readPos)
    (hrun : run step r₀ calls = some r) : r.writePos < r.readPos := by
  have hstands := h.stands
  obtain ⟨hstands', hlap⟩ := stands_run hstands hrun
  rw [← UInt64.not_le, hstands.readPos_le_iff] at hwrapped
  rw [← UInt64.not_le, hstands'.readPos_le_iff, hlap]
  have hle := Nat.div_le_div_right (c := 2 ^ 64) hstands.le
  have hmore := Nat.div_le_div_right (c := 2 ^ 64)
    (Nat.le_add_right (r₀.readPos.toNat + r₀.size.toNat) (r₀.pushed calls).length)
  omega

/-- And nothing is popped any more. -/
theorem popped_of_wrapped (h : r₀.Within) (hwrapped : r₀.writePos < r₀.readPos)
    (hrun : run step r₀ calls = some r) : r₀.popped calls = [] := by
  refine run_induction (motive := fun calls _ => r₀.popped calls = []) rfl ?_ .unconditional hrun
  intro calls r call r' hcalls ih _ _
  have hle := UInt64.le_of_lt (wrapped_run h hwrapped hcalls)
  rw [popped_concat hcalls, ih]
  cases call with
  | push value =>
    rw [answer]
    split <;> rfl
  | pop =>
    rw [answer_pop_of_le hle]
    rfl

/-- With room for one element, as many as one likes can go through the ring, up to the first that
wraps `write_pos` around. -/
theorem stands_pushPop (h : r.Stands reads reads) (hcap : 0 < r.capacity) (value : T)
    (hreads : reads + 1 < 2 ^ 64) : ∃ r', run step r [.push value, .pop] = some r' ∧
      r'.Stands (reads + 1) (reads + 1) ∧ r'.capacity = r.capacity := by
  have hroom : r.size < r.capacity := by
    rw [UInt64.lt_iff_toNat_lt, h.size, Nat.sub_self]
    exact UInt64.lt_iff_toNat_lt.1 hcap
  have hpushed := h.push hroom value
  have hfound : (r.tryPush value).2.readPos < (r.tryPush value).2.writePos := by
    rw [UInt64.lt_iff_toNat_lt, hpushed.read, hpushed.write, UInt64.toNat_ofNat',
      UInt64.toNat_ofNat', Nat.mod_eq_of_lt hreads, Nat.mod_eq_of_lt (by omega)]
    exact Nat.lt_succ_self _
  refine ⟨_, rfl, hpushed.pop hfound, ?_⟩
  rw [tryPop_of_lt hfound, tryPush_of_lt hroom]
  rfl

theorem exists_stands (h : r.Stands 0 0) (hcap : 0 < r.capacity) (value : T) (n : Nat)
    (hn : n < 2 ^ 64) :
    ∃ calls r', run step r calls = some r' ∧ r'.Stands n n ∧ r'.capacity = r.capacity := by
  induction n with
  | zero => exact ⟨[], r, rfl, h, rfl⟩
  | succ n ih =>
    obtain ⟨calls, r₁, hrun, hstands, hcapacity⟩ := ih (by omega)
    obtain ⟨r₂, hrun', hstands', hcapacity'⟩ :=
      stands_pushPop hstands (hcapacity ▸ hcap) value hn
    exact ⟨calls ++ [.push value, .pop], r₂, run_append_eq_some.2 ⟨r₁, hrun, hrun'⟩, hstands',
      hcapacity'.trans hcapacity⟩

theorem attach_new (capacity : UInt64) (data : Nat → T) :
    attach capacity { capacity := 0, data := data } = { capacity := capacity, data := data } :=
  if_pos rfl

theorem stands_new (capacity : UInt64) (data : Nat → T) :
    (attach capacity { capacity := 0, data := data }).Stands 0 0 := by
  rw [attach_new]
  exact ⟨rfl, rfl, le_rfl, Nat.zero_le _⟩

theorem exists_wrapped {capacity : UInt64} (hcap : 0 < capacity) (data : Nat → T) (value : T) :
    ∃ calls r, run step (attach capacity { capacity := 0, data := data }) calls = some r ∧
      r.writePos < r.readPos := by
  obtain ⟨calls, r₁, hrun, hstands, hcapacity⟩ :=
    exists_stands (stands_new capacity data) (by rwa [attach_new]) value (2 ^ 64 - 1) (by omega)
  have hroom : r₁.size < r₁.capacity := by
    rw [UInt64.lt_iff_toNat_lt, hstands.size, Nat.sub_self, hcapacity, attach_new]
    exact UInt64.lt_iff_toNat_lt.1 hcap
  have hlast := hstands.push hroom value
  refine ⟨calls ++ [.push value], _, run_concat_eq_some.2 ⟨r₁, hrun, rfl⟩, ?_⟩
  rw [← UInt64.not_le, hlast.readPos_le_iff]
  decide

/-- Of a new ring the two ends agree until `2 ^ 64` elements have been pushed. -/
theorem counts_run_iff {capacity : UInt64} {data : Nat → T}
    (hrun : run step (attach capacity { capacity := 0, data := data }) calls = some r) :
    r.Counts r.size.toNat ↔
      (pushed (attach capacity { capacity := 0, data := data }) calls).length < 2 ^ 64 := by
  obtain ⟨hstands, hlap⟩ := stands_run (stands_new capacity data) hrun
  rw [hstands.within.counts_iff, hstands.readPos_le_iff, hlap]
  omega

end SharedRingBuffer

/-- However the counters lie, both ends and `size()`, `empty()` and `full()` agree on the number of
elements exactly if `write_pos` is not behind `read_pos` as they are. Over all calls `size()` goes by
what is pushed and popped. -/
theorem ring_counters_iff {T : Type*} (r : SharedRingBuffer T) (h : r.Within) :
    (r.Counts r.size.toNat ↔ r.readPos ≤ r.writePos) ∧
      ∀ calls r', run SharedRingBuffer.step r calls = some r' → r'.Within ∧
        r'.size.toNat + (r.popped calls).length = r.size.toNat + (r.pushed calls).length := by
  refine ⟨h.counts_iff, fun calls r' hrun => ?_⟩
  obtain ⟨hstands, -⟩ := SharedRingBuffer.stands_run h.stands hrun
  have hsize := hstands.size
  have hle := hstands.le
  exact ⟨hstands.within, by omega⟩

section Example

/-- Two elements, with the counters before their first wrap. -/
def twoElements : SharedRingBuffer Nat :=
  { writePos := 18446744073709551615, readPos := 18446744073709551613, capacity := 2,
    data := fun i => i }

theorem ring_counters_iff_twoElements :
    twoElements.Within ∧ twoElements.Counts twoElements.size.toNat :=
  ⟨by decide, (ring_counters_iff twoElements (by decide)).1.2 (by decide)⟩

/-- A connection's ring with one element, after `write_pos` has wrapped. -/
def wrappedRing : SharedRingBuffer RingEntry :=
  { writePos := 0, readPos := 18446744073709551615, capacity := ShmLink.ringCapacity,
    data := fun _ => ⟨0, []⟩ }

/-- The ring is not empty, and `try_pop` finds nothing. -/
theorem wrapped_ring_not_popped :
    1 ≤ wrappedRing.capacity ∧ wrappedRing.Within ∧ wrappedRing.size = 1 ∧
      wrappedRing.empty = false ∧ wrappedRing.tryPop.1 = none ∧
      ¬ wrappedRing.Counts wrappedRing.size.toNat := by
  have hnone : wrappedRing.tryPop.1 = none := rfl
  refine ⟨by decide, by decide, by decide, by decide, hnone, fun h => ?_⟩
  have hfound := h.pop.2 (by decide)
  rw [hnone] at hfound
  cases hfound

end Example

end GossipRl
