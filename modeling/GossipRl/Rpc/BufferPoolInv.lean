import GossipRl.Rpc.BufferPool
import GossipRl.Support.Run

/-!
# Runs of the buffer pool

`BufferPool.WF` is what every operation keeps: the storage is indexed by the buffers' own indices
and the free list points into it. `acquire_of_canAcquire` and `acquire_of_not_canAcquire` say all
that `acquire` can do on such a pool. `PoolUse` adds the callers' side, the indices handed out and
not yet returned; with it the free and the outstanding indices partition the storage, which turns
the test `acquire` makes (`CanAcquire`) into a statement about the number of outstanding buffers.
-/

namespace GossipRl
open Support

namespace BufferPool

structure WF (p : BufferPool) : Prop where
  total : p.totalBuffers = p.bufferStorage.length
  stored : ∀ i (b : Buffer), p.bufferStorage[i]? = some b →
    b.poolIndex = i ∧ b.capacity = p.config.bufferSize
  free_lt : ∀ i ∈ p.freeList, i < p.bufferStorage.length

/-- A buffer is free, or the pool has not reached its maximum. -/
def CanAcquire (p : BufferPool) : Prop :=
  p.freeList ≠ [] ∨ SizeT.sub p.config.maxCount p.totalBuffers ≠ 0

instance (p : BufferPool) : Decidable p.CanAcquire := inferInstanceAs (Decidable (_ ∨ _))

/-- The indices of the next `k` buffers to be cut. -/
def newIndices (p : BufferPool) (k : Nat) : List Nat :=
  (List.range k).map (p.bufferStorage.length + ·)

/-- What a successful `acquire` did: it cut `k` more buffers and took the last free one. -/
structure Acquired (p : BufferPool) (k : Nat) (b : Buffer) (p' : BufferPool) : Prop where
  wf : p'.WF
  config : p'.config = p.config
  bytes : b.bytes = []
  capacity : b.capacity = p.config.bufferSize
  storage : p'.bufferStorage.length = p.bufferStorage.length + k
  free : p'.freeList ++ [b.poolIndex] = p.freeList ++ p.newIndices k
  bound : p.totalBuffers ≤ p.config.maxCount → p'.totalBuffers ≤ p.config.maxCount

variable {p p' : BufferPool}

@[simp] theorem length_blockBuffers (current count : Nat) :
    (p.blockBuffers current count).length = count := by simp [blockBuffers]

theorem getElem?_blockBuffers {current count i : Nat} {b : Buffer}
    (h : (p.blockBuffers current count)[i]? = some b) :
    b.poolIndex = current + i ∧ b.capacity = p.config.bufferSize := by
  simp only [blockBuffers, List.getElem?_map, Option.map_eq_some_iff] at h
  obtain ⟨j, hj, rfl⟩ := h
  obtain ⟨hlt, rfl⟩ := List.getElem?_eq_some_iff.1 hj
  simp

theorem WF.allocateBuffers (h : p.WF) (count : Nat) : (p.allocateBuffers count).WF := by
  refine ⟨rfl, fun i b hb => ?_, fun i hi => ?_⟩
  · simp only [BufferPool.allocateBuffers] at hb ⊢
    rcases Nat.lt_or_ge i p.bufferStorage.length with hlt | hge
    · rw [List.getElem?_append_left hlt] at hb
      exact h.stored i b hb
    · rw [List.getElem?_append_right hge] at hb
      have := getElem?_blockBuffers hb
      exact ⟨by omega, this.2⟩
  · simp only [BufferPool.allocateBuffers, List.mem_append, List.mem_map, List.mem_range] at hi
    simp only [BufferPool.allocateBuffers, List.length_append, length_blockBuffers]
    rcases hi with hi | ⟨j, hj, rfl⟩
    · have := h.free_lt i hi; omega
    · omega

theorem WF.expandBy (h : p.WF) (count : Nat) : (p.expandBy count).WF := by
  obtain ⟨h₁, h₂, h₃⟩ := h.allocateBuffers count
  exact ⟨h₁, h₂, h₃⟩

theorem WF.create (config : BufferPoolConfig) : (BufferPool.create config).WF := by
  have : (⟨config, {}, [], [], [], 0⟩ : BufferPool).WF := ⟨rfl, by simp, by simp⟩
  exact this.allocateBuffers _

theorem WF.release (h : p.WF) (b : Option Buffer) : (p.release b).WF := by
  cases b with
  | none => exact h
  | some b =>
    rcases Nat.lt_or_ge b.poolIndex p.bufferStorage.length with hlt | hge
    · rw [release_of_lt hlt]
      refine ⟨h.total, h.stored, fun i hi => ?_⟩
      rcases List.mem_append.1 hi with hi | hi
      · exact h.free_lt i hi
      · obtain rfl := List.mem_singleton.1 hi
        exact hlt
    · rw [release_of_le hge]
      exact h

theorem WF.takeBack (h : p.WF) (hne : p.freeList ≠ []) : ∃ b p',
    p.takeBack = .ok (some b, p') ∧ p'.WF ∧ p'.config = p.config ∧ b.bytes = [] ∧
      b.capacity = p.config.bufferSize ∧ p'.bufferStorage.length = p.bufferStorage.length ∧
      p'.totalBuffers = p.totalBuffers ∧ p'.freeList ++ [b.poolIndex] = p.freeList := by
  have hlt := h.free_lt _ (List.getLast_mem hne)
  obtain ⟨hi, hcap⟩ := h.stored _ _ (List.getElem?_eq_getElem hlt)
  simp only [BufferPool.takeBack, List.getLast?_eq_some_getLast hne, List.getElem?_eq_getElem hlt]
  refine ⟨_, _, rfl, ⟨?_, fun i b hb => ?_, fun i hmem => ?_⟩, rfl, rfl, hcap, ?_, rfl, ?_⟩
  · simpa using h.total
  · simp only [List.getElem?_set] at hb
    split at hb
    · subst i
      obtain ⟨-, rfl⟩ := hb
      exact ⟨hi, hcap⟩
    · exact h.stored i b hb
  · simpa using h.free_lt i (List.dropLast_subset _ hmem)
  · simp
  · rw [Buffer.poolIndex_reset, hi, List.dropLast_append_getLast hne]

/-- How far `acquire` lets the pool grow: by nothing exactly when it has reached its maximum, and
never past it. In particular `expand_pool` never refuses. -/
theorem expandPool_eq (p : BufferPool) : ∃ k,
    p.expandPool (min 256 (SizeT.sub p.config.maxCount p.totalBuffers)) = (true, p.expandBy k) ∧
      (k = 0 ↔ SizeT.sub p.config.maxCount p.totalBuffers = 0) ∧
      (p.totalBuffers ≤ p.config.maxCount → p.totalBuffers + k ≤ p.config.maxCount) := by
  have hmax := p.config.maxCount_lt
  have hle : p.totalBuffers ≤ p.config.maxCount →
      SizeT.sub p.config.maxCount p.totalBuffers = p.config.maxCount - p.totalBuffers :=
    fun h => SizeT.sub_of_le h hmax
  unfold expandPool
  split
  · rename_i hgt
    have hne : SizeT.sub p.config.maxCount p.totalBuffers ≠ 0 := by
      intro h0
      rw [h0, Nat.min_zero, SizeT.add, Nat.add_zero, SizeT.mod_eq_of_sub_eq_zero hmax h0] at hgt
      exact lt_irrefl _ hgt
    exact ⟨_, by rw [if_neg hne], Iff.rfl, fun h => by rw [hle h]; omega⟩
  · exact ⟨_, rfl, by omega, fun h => by rw [hle h]; omega⟩

theorem acquire_of_canAcquire (h : p.WF) (hc : p.CanAcquire) :
    ∃ k b p', p.acquire = .ok (some b, p') ∧ p.Acquired k b p' := by
  unfold acquire
  by_cases hfree : p.freeList = []
  · obtain ⟨k, hk, hk0, hbound⟩ := p.expandPool_eq
    have hk0 : k ≠ 0 := fun h0 => hc.elim (absurd hfree) (absurd (hk0.1 h0))
    have hne : (p.expandBy k).freeList ≠ [] := by
      simp [expandBy, allocateBuffers, hk0]
    obtain ⟨b, p', htake, hwf, hconf, hbytes, hcap, hsto, htot, hfr⟩ := (h.expandBy k).takeBack hne
    refine ⟨k, b, p', by simp only [hfree, List.isEmpty_nil, if_true, hk, htake],
      hwf, hconf, hbytes, hcap, ?_, hfr, fun hb => ?_⟩
    · rw [hsto]; simp [expandBy, allocateBuffers]
    · rw [htot]
      have := h.total
      have := hbound hb
      simp only [expandBy, allocateBuffers, List.length_append, length_blockBuffers]
      omega
  · obtain ⟨b, p', htake, hwf, hconf, hbytes, hcap, hsto, htot, hfr⟩ := h.takeBack hfree
    have hemp : p.freeList.isEmpty = false := by simpa using hfree
    exact ⟨0, b, p', by simp only [hemp, Bool.false_eq_true, if_false, htake],
      hwf, hconf, hbytes, hcap, hsto, by simp [hfr, newIndices], fun hb => htot ▸ hb⟩

/-- On an exhausted pool `expand_pool` reports success after adding no buffer, so `back()` is
evaluated on the empty free list. -/
theorem acquire_of_not_canAcquire (hc : ¬ p.CanAcquire) : p.acquire = .error .backOnEmpty := by
  obtain ⟨hfree, hsub⟩ := not_or.1 hc
  obtain ⟨k, hk, hk0, -⟩ := p.expandPool_eq
  obtain rfl : k = 0 := hk0.2 (not_not.1 hsub)
  have hfree : p.freeList = [] := not_not.1 hfree
  simp [acquire, hk, hfree, takeBack, expandBy, allocateBuffers]

end BufferPool

/-! ### Callers -/

/-- A pool together with the indices of the buffers handed out and not yet returned. -/
structure PoolUse where
  pool : BufferPool
  outstanding : List Nat

inductive PoolCall where
  | acquire
  | release (buffer : Buffer)

namespace PoolUse

def create (config : BufferPoolConfig) : PoolUse := ⟨BufferPool.create config, []⟩

/-- One call. Only a buffer that is outstanding may be released; an undefined `acquire` ends the
run. -/
def step (u : PoolUse) : PoolCall → Option PoolUse
  | .acquire =>
    match u.pool.acquire with
    | .error _ => none
    | .ok (none, pool) => some { u with pool := pool }
    | .ok (some buffer, pool) => some ⟨pool, u.outstanding ++ [buffer.poolIndex]⟩
  | .release buffer =>
    if buffer.poolIndex ∈ u.outstanding then
      some ⟨u.pool.release (some buffer), u.outstanding.erase buffer.poolIndex⟩
    else none

/-- The documented behaviour of `acquire`: a buffer while fewer than `max_count` are outstanding,
`nullptr` and nothing but a failure count when all are, and defined behaviour in any case. -/
def AcquireContract (u : PoolUse) : Prop :=
  (∀ f, u.pool.acquire ≠ .error f) ∧
  (u.outstanding.length < u.pool.config.maxCount →
    ∃ b pool, u.pool.acquire = .ok (some b, pool)) ∧
  (u.outstanding.length = u.pool.config.maxCount →
    u.pool.acquire = .ok (none, { u.pool with
      stats := { u.pool.stats with
        failedAllocations := u.pool.stats.failedAllocations + 1 } }))

structure Inv (config : BufferPoolConfig) (u : PoolUse) : Prop where
  config_eq : u.pool.config = config
  wf : u.pool.WF
  /-- Free and outstanding indices partition the storage. -/
  partition : (u.pool.freeList ++ u.outstanding).Perm (List.range u.pool.bufferStorage.length)
  bound : config.initialCount ≤ config.maxCount → u.pool.totalBuffers ≤ config.maxCount

variable {config : BufferPoolConfig} {u u' : PoolUse}

theorem Inv.create (config : BufferPoolConfig) : (PoolUse.create config).Inv config := by
  refine ⟨rfl, .create config, ?_, fun h => ?_⟩
  · simp [PoolUse.create, BufferPool.create, BufferPool.allocateBuffers]
  · simpa [PoolUse.create, BufferPool.create, BufferPool.allocateBuffers] using h

theorem Inv.lt_of_mem (h : u.Inv config) {i : Nat} (hi : i ∈ u.outstanding) :
    i < u.pool.bufferStorage.length :=
  List.mem_range.1 (h.partition.mem_iff.1 (List.mem_append_right _ hi))

theorem Inv.acquired (h : u.Inv config) {k : Nat} {b : Buffer} {pool : BufferPool}
    (ha : u.pool.Acquired k b pool) : Inv config ⟨pool, u.outstanding ++ [b.poolIndex]⟩ := by
  refine ⟨ha.config.trans h.config_eq, ha.wf, ?_, fun hle => ?_⟩
  · show (pool.freeList ++ (u.outstanding ++ [b.poolIndex])).Perm (List.range pool.bufferStorage.length)
    have h₁ : (pool.freeList ++ (u.outstanding ++ [b.poolIndex])).Perm
        ((pool.freeList ++ [b.poolIndex]) ++ u.outstanding) := by
      rw [List.append_assoc]
      exact List.perm_append_comm.append_left _
    have h₂ : (u.pool.freeList ++ u.pool.newIndices k ++ u.outstanding).Perm
        ((u.pool.freeList ++ u.outstanding) ++ u.pool.newIndices k) := by
      rw [List.append_assoc, List.append_assoc]
      exact List.perm_append_comm.append_left _
    rw [ha.storage, List.range_add]
    rw [ha.free] at h₁
    exact (h₁.trans h₂).trans (h.partition.append_right _)
  · have := ha.bound (h.config_eq ▸ h.bound hle)
    rwa [h.config_eq] at this

theorem Inv.released (h : u.Inv config) {b : Buffer} (hb : b.poolIndex ∈ u.outstanding) :
    Inv config ⟨u.pool.release (some b), u.outstanding.erase b.poolIndex⟩ := by
  have hlt := h.lt_of_mem hb
  have hwf := h.wf.release (some b)
  rw [BufferPool.release_of_lt hlt] at hwf ⊢
  refine ⟨h.config_eq, hwf, ?_, h.bound⟩
  show (u.pool.freeList ++ [b.poolIndex] ++ u.outstanding.erase b.poolIndex).Perm
    (List.range u.pool.bufferStorage.length)
  rw [List.append_assoc]
  exact ((List.perm_cons_erase hb).symm.append_left _).trans h.partition

theorem Inv.step {c : PoolCall} (h : u.Inv config) (hs : u.step c = some u') : u'.Inv config := by
  cases c with
  | acquire =>
    by_cases hc : u.pool.CanAcquire
    · obtain ⟨k, b, pool, heq, ha⟩ := BufferPool.acquire_of_canAcquire h.wf hc
      simp only [PoolUse.step, heq, Option.some.injEq] at hs
      exact hs ▸ h.acquired ha
    · simp [PoolUse.step, BufferPool.acquire_of_not_canAcquire hc] at hs
  | release b =>
    simp only [PoolUse.step] at hs
    split at hs
    · rename_i hb
      exact Option.some.inj hs ▸ h.released hb
    · cases hs

theorem Inv.perm {pool : BufferPool} {o o' : List Nat} (h : Inv config ⟨pool, o⟩) (hp : o.Perm o') :
    Inv config ⟨pool, o'⟩ :=
  ⟨h.config_eq, h.wf, (hp.symm.append_left _).trans h.partition, h.bound⟩

/-- An `acquire` that is defined returns a buffer: the pool fails by running into undefined
behaviour only. -/
theorem Inv.acquire_ok {pool pool' : BufferPool} {o : List Nat} {r : Option Buffer}
    (h : Inv config ⟨pool, o⟩) (ha : pool.acquire = .ok (r, pool')) :
    ∃ b, r = some b ∧ Inv config ⟨pool', o ++ [b.poolIndex]⟩ := by
  by_cases hc : pool.CanAcquire
  · obtain ⟨k, b, p, heq, hacq⟩ := BufferPool.acquire_of_canAcquire h.wf hc
    obtain ⟨rfl, rfl⟩ : some b = r ∧ p = pool' := by simpa [heq] using ha
    exact ⟨b, rfl, h.acquired hacq⟩
  · simp [BufferPool.acquire_of_not_canAcquire hc] at ha

theorem Inv.frame_step {pool : BufferPool} {o rest : List Nat} {c : PoolCall}
    (h : Inv config ⟨pool, o ++ rest⟩) (hs : PoolUse.step ⟨pool, o⟩ c = some u) :
    Inv config ⟨u.pool, u.outstanding ++ rest⟩ := by
  cases c with
  | acquire =>
    simp only [PoolUse.step] at hs
    rcases ha : pool.acquire with f | ⟨r, pool'⟩
    · simp [ha] at hs
    · obtain ⟨b, rfl, hinv⟩ := h.acquire_ok ha
      simp only [ha, Option.some.injEq] at hs
      subst hs
      refine hinv.perm ?_
      rw [List.perm_iff_count]
      intro i
      simp only [List.count_append]
      omega
  | release b =>
    simp only [PoolUse.step] at hs
    split at hs
    · rename_i hb
      have hinv := h.released (List.mem_append_left rest hb)
      rw [List.erase_append_left _ hb] at hinv
      exact Option.some.inj hs ▸ hinv
    · cases hs

theorem Inv.run {calls : List PoolCall} (h : run PoolUse.step (PoolUse.create config) calls = some u) :
    u.Inv config :=
  run_invariant (.create config) (fun _ _ _ hi hs => hi.step hs) h

/-- Below its maximum a pool can serve exactly while some of the `max_count` buffers are not
outstanding. -/
theorem Inv.canAcquire_iff (h : u.Inv config) (hle : config.initialCount ≤ config.maxCount) :
    u.pool.CanAcquire ↔ u.outstanding.length < config.maxCount := by
  have hlen := h.partition.length_eq
  simp only [List.length_append, List.length_range] at hlen
  have htot := h.wf.total
  have hbound := h.bound hle
  rw [BufferPool.CanAcquire, h.config_eq, SizeT.sub_of_le hbound config.maxCount_lt,
    ← List.length_pos_iff]
  omega

theorem Inv.acquireContract_iff (h : u.Inv config) (hle : config.initialCount ≤ config.maxCount) :
    u.AcquireContract ↔ u.outstanding.length < config.maxCount := by
  rw [← h.canAcquire_iff hle]
  constructor
  · rintro ⟨hdef, -, -⟩
    by_contra hc
    exact hdef _ (BufferPool.acquire_of_not_canAcquire hc)
  · intro hc
    obtain ⟨k, b, pool, heq, -⟩ := BufferPool.acquire_of_canAcquire h.wf hc
    have hlt := (h.canAcquire_iff hle).1 hc
    rw [← h.config_eq] at hlt
    exact ⟨fun f => by simp [heq], fun _ => ⟨b, pool, heq⟩, fun hmax => absurd hmax hlt.ne⟩

end PoolUse

/-- `pool` is the state of a pool built with `config` after some calls of its users. -/
def BufferPool.Reached (config : BufferPoolConfig) (pool : BufferPool) : Prop :=
  ∃ calls outstanding,
    run PoolUse.step (PoolUse.create config) calls = some ⟨pool, outstanding⟩

namespace BufferPool.Reached
variable {config : BufferPoolConfig} {pool : BufferPool}

theorem wf (h : Reached config pool) : pool.WF :=
  let ⟨_, _, hrun⟩ := h
  (PoolUse.Inv.run hrun).wf

theorem config_eq (h : Reached config pool) : pool.config = config :=
  let ⟨_, _, hrun⟩ := h
  (PoolUse.Inv.run hrun).config_eq

theorem create (config : BufferPoolConfig) : Reached config (BufferPool.create config) :=
  ⟨[], [], rfl⟩

end BufferPool.Reached

/-- In a run of a pool every `acquire` behaves as documented exactly if none is made while all
`max_count` buffers are outstanding. -/
theorem acquire_contract_along_iff (config : BufferPoolConfig)
    (hle : config.initialCount ≤ config.maxCount) (calls : List PoolCall) :
    Along PoolUse.step (fun u c => c = .acquire → u.AcquireContract) (PoolUse.create config) calls ↔
      Along PoolUse.step (fun u c => c = .acquire → u.outstanding.length < config.maxCount)
        (PoolUse.create config) calls := by
  constructor <;> intro h es₁ c es₂ u heq hrun hc
  · exact ((PoolUse.Inv.run hrun).acquireContract_iff hle).1 (h es₁ c es₂ u heq hrun hc)
  · exact ((PoolUse.Inv.run hrun).acquireContract_iff hle).2 (h es₁ c es₂ u heq hrun hc)

/-- A pool of one buffer, for runs on fixed inputs. -/
def BufferPoolConfig.single : BufferPoolConfig where
  bufferSize := 64
  initialCount := 1
  maxCount := 1

theorem acquire_contract_along_iff_single :
    BufferPoolConfig.single.initialCount ≤ BufferPoolConfig.single.maxCount ∧
      (Along PoolUse.step (fun u c => c = .acquire → u.AcquireContract)
          (PoolUse.create .single) [.acquire] ↔
        Along PoolUse.step
          (fun u c => c = .acquire → u.outstanding.length < BufferPoolConfig.single.maxCount)
          (PoolUse.create .single) [.acquire]) :=
  ⟨le_rfl, acquire_contract_along_iff .single le_rfl [.acquire]⟩

/-- With the only buffer outstanding, `acquire` evaluates `back()` on the empty free list. -/
theorem acquire_contract_fails_at_maximum :
    BufferPoolConfig.single.initialCount ≤ BufferPoolConfig.single.maxCount ∧
    0 < BufferPoolConfig.single.bufferSize ∧
    ∃ u, run PoolUse.step (PoolUse.create .single) [.acquire] = some u ∧
      u.outstanding.length = u.pool.config.maxCount ∧
      u.pool.acquire = .error .backOnEmpty ∧ ¬ u.AcquireContract := by
  refine ⟨le_rfl, by decide, _, rfl, rfl, rfl, fun h => h.1 .backOnEmpty rfl⟩

end GossipRl
