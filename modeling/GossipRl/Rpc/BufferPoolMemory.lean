import GossipRl.Rpc.BufferPoolInv
import Mathlib.Order.Bounds.Basic

/-!
# Whose memory is whose

A handed out `Buffer` is a copy of the stored descriptor: what ties the two together is the
`pool_index`, and what a user writes to are the bytes the copy points at. `Laid` says where the
stored buffers lie, `PoolLedger` keeps the copies that are outstanding, and `PoolLedger.Inv` that
each of them still is the stored one of its index. Since the pool grows only by whole new blocks
(`acquire_eq_takeBack`), neither growing nor handing out moves a buffer, so outstanding buffers share
no byte. The counters follow the number of outstanding buffers, `peak_usage` its greatest value.
-/

namespace GossipRl
open Support

namespace Buffer

/-- All of a buffer that its user cannot change. -/
structure Handle where
  block : Nat
  offset : Nat
  capacity : Nat
  poolIndex : Nat
  registered : Bool
deriving DecidableEq, Repr

def handle (b : Buffer) : Handle := ⟨b.block, b.offset, b.capacity, b.poolIndex, b.registered⟩

/-- The bytes from `data_` to `data_ + capacity_`: a block and a position in it. -/
def Handle.memory (h : Handle) : Set (Nat × Nat) :=
  {x | x.1 = h.block ∧ h.offset ≤ x.2 ∧ x.2 < h.offset + h.capacity}

/-- The two share no byte. -/
def Handle.Apart (a b : Handle) : Prop := ∀ x ∈ a.memory, x ∉ b.memory

@[simp] theorem handle_reset (b : Buffer) : b.reset.handle = b.handle := rfl
@[simp] theorem poolIndex_handle (b : Buffer) : b.handle.poolIndex = b.poolIndex := rfl

namespace Handle.Apart
variable {a b : Handle}

theorem symm (h : a.Apart b) : b.Apart a := fun x hb ha => h x ha hb

theorem of_block_ne (h : a.block ≠ b.block) : a.Apart b := by
  rintro x ⟨ha, -⟩ ⟨hb, -⟩
  exact h (ha.symm.trans hb)

theorem of_le (h : a.offset + a.capacity ≤ b.offset) : a.Apart b := by
  rintro x ⟨-, -, ha⟩ ⟨-, hb, -⟩
  omega

end Handle.Apart

end Buffer

theorem BufferPoolStats.acquired_spec {st : BufferPoolStats} {n : Nat}
    (hn : st.currentUsage.toNat = n) (hlt : n + 1 < SizeT.modulus) :
    st.acquired.currentUsage.toNat = n + 1 ∧
      st.acquired.peakUsage.toNat = max (n + 1) st.peakUsage.toNat := by
  have hcur : (st.currentUsage + 1).toNat = n + 1 := by
    rw [UInt64.toNat_add, hn]
    exact Nat.mod_eq_of_lt hlt
  refine ⟨hcur, ?_⟩
  simp only [acquired, gt_iff_lt, UInt64.lt_iff_toNat_lt]
  split <;> omega

namespace BufferPool

def handles (p : BufferPool) : List Buffer.Handle := p.bufferStorage.map Buffer.handle

/-- Every stored buffer lies inside its memory block, and no two share a byte. -/
structure Laid (p : BufferPool) : Prop where
  inside : ∀ h ∈ p.handles, ∃ size, p.memoryBlocks[h.block]? = some size ∧
    h.offset + h.capacity ≤ size
  apart : p.handles.Pairwise Buffer.Handle.Apart

/-- The handles of the next `count` buffers, the `i`-th one `i` buffers into the new block. -/
def newHandles (p : BufferPool) (count : Nat) : List Buffer.Handle :=
  (List.range count).map fun i =>
    ⟨p.memoryBlocks.length, SizeT.mul i p.config.bufferSize, p.config.bufferSize,
      p.bufferStorage.length + i, false⟩

variable {p q p' : BufferPool} {count : Nat}

theorem handles_allocateBuffers (p : BufferPool) (count : Nat) :
    (p.allocateBuffers count).handles = p.handles ++ p.newHandles count := by
  simp [handles, allocateBuffers, newHandles, blockBuffers, Buffer.handle]

/-- While the sizes do not wrap around, the buffers of a new block follow one another in it. -/
theorem newHandles_spec (hc : count * p.config.bufferSize < SizeT.modulus) :
    (∀ h ∈ p.newHandles count, h.block = p.memoryBlocks.length ∧
      h.offset + h.capacity ≤ SizeT.mul count p.config.bufferSize) ∧
    (p.newHandles count).Pairwise Buffer.Handle.Apart := by
  have hmul : ∀ i, i ≤ count → SizeT.mul i p.config.bufferSize = i * p.config.bufferSize :=
    fun i hi => Nat.mod_eq_of_lt (lt_of_le_of_lt (Nat.mul_le_mul_right _ hi) hc)
  have hnext : ∀ i j, i < j → j ≤ count → SizeT.mul i p.config.bufferSize + p.config.bufferSize ≤
      SizeT.mul j p.config.bufferSize := by
    intro i j hij hj
    rw [hmul i (by omega), hmul j hj, ← Nat.succ_mul]
    exact Nat.mul_le_mul_right _ hij
  constructor
  · intro h hh
    obtain ⟨i, hi, rfl⟩ := List.mem_map.1 hh
    exact ⟨rfl, hnext i count (List.mem_range.1 hi) le_rfl⟩
  · refine List.pairwise_map.2 (List.Pairwise.imp_of_mem ?_ List.pairwise_lt_range)
    intro i j _ hj hij
    exact Buffer.Handle.Apart.of_le (hnext i j hij (List.mem_range.1 hj).le)

theorem Laid.allocateBuffers (h : p.Laid) (hc : count * p.config.bufferSize < SizeT.modulus) :
    (p.allocateBuffers count).Laid := by
  obtain ⟨hin, hapart⟩ := newHandles_spec hc
  constructor
  · rw [handles_allocateBuffers]
    intro b hb
    rcases List.mem_append.1 hb with hb | hb
    · obtain ⟨size, hsize, hle⟩ := h.inside b hb
      refine ⟨size, ?_, hle⟩
      show (p.memoryBlocks ++ _)[b.block]? = some size
      rw [List.getElem?_append_left (List.getElem?_eq_some_iff.1 hsize).1]
      exact hsize
    · obtain ⟨hblock, hle⟩ := hin b hb
      refine ⟨_, ?_, hle⟩
      show (p.memoryBlocks ++ _)[b.block]? = some _
      rw [hblock, List.getElem?_concat_length]
  · rw [handles_allocateBuffers, List.pairwise_append]
    refine ⟨h.apart, hapart, fun a ha b hb => Buffer.Handle.Apart.of_block_ne ?_⟩
    obtain ⟨size, hsize, -⟩ := h.inside a ha
    have := (List.getElem?_eq_some_iff.1 hsize).1
    rw [(hin b hb).1]
    omega

theorem Laid.create {config : BufferPoolConfig}
    (hc : config.initialCount * config.bufferSize < SizeT.modulus) : (create config).Laid :=
  Laid.allocateBuffers (p := ⟨config, {}, [], [], [], 0⟩) ⟨by simp [handles], .nil⟩ hc

/-- `q` is `p`, possibly after one `expand_pool` that stayed below the maximum. -/
structure Grown (p q : BufferPool) : Prop where
  wf : p.WF → q.WF
  stats : q.stats = { p.stats with expansions := q.stats.expansions }
  laid : p.totalBuffers ≤ p.config.maxCount →
    p.config.maxCount * p.config.bufferSize < SizeT.modulus → p.Laid → q.Laid
  handles : p.handles <+: q.handles

theorem Grown.refl (p : BufferPool) : p.Grown p :=
  ⟨id, rfl, fun _ _ h => h, List.prefix_rfl⟩

/-- `acquire` first makes sure that there is a free buffer, which moves no buffer, and then takes the
last free one. -/
theorem acquire_eq_takeBack (p : BufferPool) : ∃ q, p.acquire = q.takeBack ∧ p.Grown q := by
  by_cases hfree : p.freeList = []
  · obtain ⟨k, hk, -, hbound⟩ := p.expandPool_eq
    refine ⟨p.expandBy k, by simp only [acquire, hfree, List.isEmpty_nil, if_true, hk],
      (·.expandBy k), rfl, fun hle hmem hlaid => ?_, ?_⟩
    · have hcount : k * p.config.bufferSize < SizeT.modulus :=
        lt_of_le_of_lt (Nat.mul_le_mul_right _ (by have := hbound hle; omega)) hmem
      obtain ⟨hin, hapart⟩ := hlaid.allocateBuffers hcount
      exact ⟨hin, hapart⟩
    · show p.handles <+: (p.allocateBuffers k).handles
      rw [handles_allocateBuffers]
      exact List.prefix_append ..
  · have hemp : p.freeList.isEmpty = false := by simpa using hfree
    exact ⟨p, by simp only [acquire, hemp, Bool.false_eq_true, if_false], .refl p⟩

/-- Taking a buffer moves none: the buffer handed out is the stored one of its index. -/
theorem takeBack_handle {b : Buffer} (hwf : q.WF) (h : q.takeBack = .ok (some b, p')) :
    q.handles[b.poolIndex]? = some b.handle ∧ p'.handles = q.handles ∧
      p'.memoryBlocks = q.memoryBlocks ∧ p'.stats = q.stats.acquired := by
  unfold takeBack at h
  split at h
  · cases h
  · split at h
    · cases h
    · rename_i index _ _ stored hstored
      obtain ⟨rfl, rfl⟩ : stored.reset = b ∧ _ = p' := by simpa using h
      have hi := (hwf.stored index stored hstored).1
      have hget : q.handles[index]? = some stored.handle := by simp [handles, hstored]
      refine ⟨by rw [Buffer.poolIndex_reset, hi]; exact hget, ?_, rfl, rfl⟩
      show (q.bufferStorage.set index stored.reset).map Buffer.handle = q.handles
      obtain ⟨hlt, heq⟩ := List.getElem?_eq_some_iff.1 hget
      rw [List.map_set, Buffer.handle_reset, ← heq]
      exact List.set_getElem_self hlt

end BufferPool

/-! ### Callers -/

/-- A pool together with what its users hold of it, in the order it was handed out. -/
structure PoolLedger where
  pool : BufferPool
  outstanding : List Buffer.Handle

namespace PoolLedger

def create (config : BufferPoolConfig) : PoolLedger := ⟨BufferPool.create config, []⟩

/-- One call; an undefined `acquire` ends the run. -/
def step (l : PoolLedger) : PoolCall → Option PoolLedger
  | .acquire =>
    match l.pool.acquire with
    | .error _ => none
    | .ok (none, pool) => some { l with pool := pool }
    | .ok (some buffer, pool) => some ⟨pool, l.outstanding ++ [buffer.handle]⟩
  | .release buffer =>
    some ⟨l.pool.release (some buffer), l.outstanding.erase buffer.handle⟩

/-- What the users keep to: they release what they hold, and do not ask for more than
`max_count` buffers. The bytes of a released buffer are any. -/
def Allowed (l : PoolLedger) : PoolCall → Prop
  | .acquire => l.outstanding.length ≠ l.pool.config.maxCount
  | .release buffer => buffer.handle ∈ l.outstanding

instance (l : PoolLedger) : ∀ c, Decidable (l.Allowed c)
  | .acquire => inferInstanceAs (Decidable (_ ≠ _))
  | .release _ => inferInstanceAs (Decidable (_ ∈ _))

/-- The indices of the outstanding buffers are what `PoolUse` keeps. -/
def use (l : PoolLedger) : PoolUse := ⟨l.pool, l.outstanding.map (·.poolIndex)⟩

structure Inv (config : BufferPoolConfig) (l : PoolLedger) : Prop where
  use : l.use.Inv config
  laid : l.pool.Laid
  /-- What is outstanding is the stored buffer of its index. -/
  stored : ∀ h ∈ l.outstanding, l.pool.handles[h.poolIndex]? = some h
  usage : l.pool.stats.currentUsage.toNat = l.outstanding.length
  counted : l.pool.stats.currentUsage = l.pool.stats.allocations - l.pool.stats.deallocations

variable {config : BufferPoolConfig} {l l' : PoolLedger} {c : PoolCall}

theorem Inv.create (hmem : config.initialCount * config.bufferSize < SizeT.modulus) :
    (PoolLedger.create config).Inv config where
  use := .create config
  laid := .create hmem
  stored := by simp [PoolLedger.create]
  usage := rfl
  counted := (UInt64.sub_self 0).symm

theorem Inv.length_le (h : l.Inv config) (hle : config.initialCount ≤ config.maxCount) :
    l.outstanding.length ≤ config.maxCount := by
  have hlen := h.use.partition.length_eq
  have htot := h.use.wf.total
  have hbound := h.use.bound hle
  simp only [PoolLedger.use, List.length_append, List.length_map, List.length_range] at *
  omega

theorem Inv.nodup (h : l.Inv config) :
    l.pool.freeList.Nodup ∧ (l.outstanding.map (·.poolIndex)).Nodup := by
  have := h.use.partition.nodup_iff.2 List.nodup_range
  obtain ⟨hfree, hout, -⟩ := List.nodup_append.1 this
  exact ⟨hfree, hout⟩

theorem Inv.apart (h : l.Inv config) : l.outstanding.Pairwise Buffer.Handle.Apart := by
  have hne : l.outstanding.Pairwise fun a b => a.poolIndex ≠ b.poolIndex :=
    List.pairwise_map.1 h.nodup.2
  refine hne.imp_of_mem fun {a b} ha hb hab => ?_
  obtain ⟨hia, ha⟩ := List.getElem?_eq_some_iff.1 (h.stored a ha)
  obtain ⟨hib, hb⟩ := List.getElem?_eq_some_iff.1 (h.stored b hb)
  have hapart := List.pairwise_iff_getElem.1 h.laid.apart
  rcases Nat.lt_or_gt_of_ne hab with hlt | hgt
  · have := hapart _ _ hia hib hlt
    rwa [ha, hb] at this
  · have := hapart _ _ hib hia hgt
    rw [ha, hb] at this
    exact this.symm

theorem Inv.acquire (h : l.Inv config) (hle : config.initialCount ≤ config.maxCount)
    (hmem : config.maxCount * config.bufferSize < SizeT.modulus)
    (hc : l.outstanding.length ≠ config.maxCount) : ∃ l', l.step .acquire = some l' ∧
      l'.Inv config ∧ l'.pool.stats.peakUsage.toNat =
        max l'.pool.stats.currentUsage.toNat l.pool.stats.peakUsage.toNat := by
  have hlt : l.outstanding.length < config.maxCount := lt_of_le_of_ne (h.length_le hle) hc
  have hcan : l.pool.CanAcquire :=
    (h.use.canAcquire_iff hle).2 (by simpa [PoolLedger.use] using hlt)
  obtain ⟨k, b, pool, heq, hacq⟩ := BufferPool.acquire_of_canAcquire h.use.wf hcan
  change l.pool.acquire = .ok (some b, pool) at heq
  obtain ⟨q, htake, hq⟩ := l.pool.acquire_eq_takeBack
  obtain ⟨hb, hhandles, hblocks, hstats⟩ :=
    BufferPool.takeBack_handle (hq.wf h.use.wf) (htake.symm.trans heq)
  have hlaid : q.Laid := by
    refine hq.laid ?_ ?_ h.laid
    · exact h.use.config_eq ▸ h.use.bound hle
    · exact h.use.config_eq ▸ hmem
  have hmax := config.maxCount_lt
  have hused : q.stats.currentUsage.toNat = l.outstanding.length := by
    rw [hq.stats]
    exact h.usage
  obtain ⟨husage, hpeak⟩ := BufferPoolStats.acquired_spec hused (by omega)
  refine ⟨⟨pool, l.outstanding ++ [b.handle]⟩, by simp only [step, heq], ⟨?_, ?_, ?_, ?_, ?_⟩, ?_⟩
  · have := h.use.acquired hacq
    simpa [PoolLedger.use] using this
  · exact ⟨by rw [hhandles, hblocks]; exact hlaid.inside, by rw [hhandles]; exact hlaid.apart⟩
  · intro o ho
    show pool.handles[o.poolIndex]? = some o
    rw [hhandles]
    rcases List.mem_append.1 ho with ho | ho
    · obtain ⟨new, hnew⟩ := hq.handles
      have hstored := h.stored o ho
      rw [← hnew, List.getElem?_append_left (List.getElem?_eq_some_iff.1 hstored).1]
      exact hstored
    · obtain rfl := List.mem_singleton.1 ho
      exact hb
  · rw [hstats, husage]
    simp
  · show pool.stats.currentUsage = pool.stats.allocations - pool.stats.deallocations
    rw [hstats, hq.stats]
    have := h.counted
    simp only [BufferPoolStats.acquired]
    grind
  · show pool.stats.peakUsage.toNat = max pool.stats.currentUsage.toNat _
    rw [hstats, hpeak, husage, hq.stats]

theorem Inv.release (h : l.Inv config) {b : Buffer} (hb : b.handle ∈ l.outstanding) :
    ∃ l', l.step (.release b) = some l' ∧ l'.Inv config ∧
      l'.pool.stats.peakUsage = l.pool.stats.peakUsage ∧
      l'.pool.stats.currentUsage.toNat ≤ l.pool.stats.currentUsage.toNat := by
  have hmem : b.poolIndex ∈ l.outstanding.map (·.poolIndex) := List.mem_map.2 ⟨_, hb, rfl⟩
  have hlt : b.poolIndex < l.pool.bufferStorage.length := h.use.lt_of_mem hmem
  have hlen := List.length_erase_of_mem hb
  have hpos := List.length_pos_of_mem hb
  have hcounted := h.counted
  have husage : (l.pool.stats.currentUsage - 1).toNat = l.outstanding.length - 1 := by
    rw [UInt64.toNat_sub_of_le, h.usage]
    · rfl
    · rw [UInt64.le_iff_toNat_le, h.usage]
      exact hpos
  refine ⟨⟨_, _⟩, rfl, ⟨?_, ?_, fun o ho => ?_, ?_, ?_⟩, ?_, ?_⟩
  · refine (h.use.released hmem).perm ?_
    have hperm := ((List.perm_cons_erase hb).map (·.poolIndex)).erase b.poolIndex
    rwa [List.map_cons, Buffer.poolIndex_handle, List.erase_cons_head] at hperm
  · rw [BufferPool.release_of_lt hlt]
    exact ⟨h.laid.inside, h.laid.apart⟩
  · rw [BufferPool.release_of_lt hlt]
    exact h.stored o (List.mem_of_mem_erase ho)
  · rw [BufferPool.release_of_lt hlt, hlen]
    exact husage
  · rw [BufferPool.release_of_lt hlt]
    show l.pool.stats.currentUsage - 1 =
      l.pool.stats.allocations - (l.pool.stats.deallocations + 1)
    rw [hcounted]
    grind
  · rw [BufferPool.release_of_lt hlt]
  · rw [BufferPool.release_of_lt hlt, h.usage]
    show (l.pool.stats.currentUsage - 1).toNat ≤ l.outstanding.length
    omega

theorem Inv.run {calls : List PoolCall} (hle : config.initialCount ≤ config.maxCount)
    (hmem : config.maxCount * config.bufferSize < SizeT.modulus)
    (hc : Along step Allowed (PoolLedger.create config) calls) :
    ∃ l, Support.run step (PoolLedger.create config) calls = some l ∧ l.Inv config ∧
      IsGreatest (readings step (·.pool.stats.currentUsage.toNat)
        (PoolLedger.create config) calls) l.pool.stats.peakUsage.toNat := by
  induction calls using List.reverseRecOn with
  | nil =>
    have hinit : config.initialCount * config.bufferSize < SizeT.modulus :=
      lt_of_le_of_lt (Nat.mul_le_mul_right _ hle) hmem
    refine ⟨_, rfl, .create hinit, ?_⟩
    rw [readings_nil]
    exact isGreatest_singleton
  | append_singleton calls c ih =>
    obtain ⟨hcalls, hallowed⟩ := Along.concat_iff.1 hc
    obtain ⟨l, hl, hinv, hpeak⟩ := ih hcalls
    have hlast := hallowed l hl
    cases c with
    | acquire =>
      have hlast : l.outstanding.length ≠ config.maxCount := hinv.use.config_eq ▸ hlast
      obtain ⟨l', hstep, hinv', hmax⟩ := hinv.acquire hle hmem hlast
      have hrun := run_concat_eq_some.2 ⟨l, hl, hstep⟩
      refine ⟨l', hrun, hinv', ?_⟩
      rw [readings_concat hrun, hmax]
      exact hpeak.insert _
    | release b =>
      obtain ⟨l', hstep, hinv', hsame, hless⟩ := hinv.release hlast
      have hrun := run_concat_eq_some.2 ⟨l, hl, hstep⟩
      have hold := hpeak.2 (mem_readings hl)
      refine ⟨l', hrun, hinv', ?_⟩
      rw [readings_concat hrun, hsame, ← max_eq_right (hless.trans hold)]
      exact hpeak.insert _

end PoolLedger

/-- The numbers of a pool and the memory it hands out, over every run of its users. -/
theorem pool_conserves_buffers (config : BufferPoolConfig)
    (hle : config.initialCount ≤ config.maxCount)
    (hmem : config.maxCount * config.bufferSize < SizeT.modulus) (calls : List PoolCall)
    (hc : Along PoolLedger.step PoolLedger.Allowed (PoolLedger.create config) calls) :
    ∃ l, run PoolLedger.step (PoolLedger.create config) calls = some l ∧
      l.pool.freeList.Nodup ∧
      (l.pool.freeList ++ l.outstanding.map (·.poolIndex)).Perm (List.range l.pool.totalBuffers) ∧
      l.pool.totalBuffers ≤ config.maxCount ∧
      l.outstanding.Pairwise Buffer.Handle.Apart ∧
      l.pool.stats.currentUsage.toNat = l.outstanding.length ∧
      l.pool.stats.currentUsage = l.pool.stats.allocations - l.pool.stats.deallocations ∧
      IsGreatest (readings PoolLedger.step (·.pool.stats.currentUsage.toNat)
        (PoolLedger.create config) calls) l.pool.stats.peakUsage.toNat := by
  obtain ⟨l, hl, hinv, hpeak⟩ := PoolLedger.Inv.run hle hmem hc
  have htotal : l.pool.totalBuffers = l.pool.bufferStorage.length := hinv.use.wf.total
  refine ⟨l, hl, hinv.nodup.1, ?_, hinv.use.bound hle, hinv.apart, hinv.usage, hinv.counted,
    hpeak⟩
  rw [htotal]
  exact hinv.use.partition

/-- A pool that has to grow for its second buffer. -/
def BufferPoolConfig.growing : BufferPoolConfig :=
  { BufferPoolConfig.single with maxCount := 2, maxCount_lt := by decide }

/-- Both buffers are taken, the first one comes back with something written to it. -/
theorem pool_conserves_buffers_growing :
    let back : Buffer := ⟨0, 0, 64, [7], 0, false, by decide⟩
    let calls : List PoolCall := [.acquire, .acquire, .release back]
    Along PoolLedger.step PoolLedger.Allowed (PoolLedger.create .growing) calls ∧
    ∃ l, run PoolLedger.step (PoolLedger.create .growing) calls = some l ∧
      l.pool.freeList.Nodup ∧
      IsGreatest (readings PoolLedger.step (·.pool.stats.currentUsage.toNat)
        (PoolLedger.create .growing) calls) l.pool.stats.peakUsage.toNat := by
  intro back calls
  have hc : Along PoolLedger.step PoolLedger.Allowed (PoolLedger.create .growing) calls := by
    decide
  obtain ⟨l, hl, hfree, -, -, -, -, -, hpeak⟩ :=
    pool_conserves_buffers .growing (by decide) (by decide) calls hc
  exact ⟨hc, l, hl, hfree, hpeak⟩

end GossipRl
