import GossipRl.Rpc.BufferPoolInv

/-!
# The limits of a buffer pool (`buffer_pool.cpp`)

`acquire` and `expand_pool` subtract `total_buffers_` from `max_count`, on `size_t`. Nothing makes
the configuration start below its maximum: a pool with more initial buffers than `max_count` asks,
once all of them are taken, for almost `2 ^ 64` more.
-/

namespace GossipRl
open Support

namespace SizeT

/-- `a - b` does not wrap around. -/
def SubExact (a b : Nat) : Prop := (sub a b : Int) = (a : Int) - (b : Int)

theorem subExact_iff {a b : Nat} (ha : a < modulus) : SubExact a b ↔ b ≤ a := by
  constructor
  · intro h
    unfold SubExact at h
    omega
  · intro h
    rw [SubExact, sub_of_le h ha]
    omega

end SizeT

namespace BufferPool

/-- The subtraction in `expand_pool(count)`, if it is reached. -/
def ExpandExact (p : BufferPool) (count : Nat) : Prop :=
  SizeT.add p.totalBuffers count > p.config.maxCount →
    SizeT.SubExact p.config.maxCount p.totalBuffers

/-- The subtractions in `acquire`. -/
def AcquireExact (p : BufferPool) : Prop :=
  p.freeList.isEmpty →
    SizeT.SubExact p.config.maxCount p.totalBuffers ∧
      p.ExpandExact (min 256 (SizeT.sub p.config.maxCount p.totalBuffers))

theorem acquireExact_iff {p : BufferPool} :
    p.AcquireExact ↔ (p.freeList = [] → p.totalBuffers ≤ p.config.maxCount) := by
  simp only [AcquireExact, ExpandExact, List.isEmpty_iff, SizeT.subExact_iff p.config.maxCount_lt]
  exact imp_congr_right fun _ => ⟨And.left, fun h => ⟨h, fun _ => h⟩⟩

end BufferPool

namespace PoolUse

/-- The subtractions of a call. -/
def Exact (u : PoolUse) : PoolCall → Prop
  | .acquire => u.pool.AcquireExact
  | .release _ => True

/-- `acquire` is called while a buffer of the initial ones is in. -/
def WithinInitial (config : BufferPoolConfig) (u : PoolUse) (c : PoolCall) : Prop :=
  c = .acquire → u.outstanding.length < config.initialCount

variable {config : BufferPoolConfig} {u u' : PoolUse} {c : PoolCall}

/-- No buffer has been added to the initial ones. -/
structure Unexpanded (config : BufferPoolConfig) (u : PoolUse) : Prop where
  inv : u.Inv config
  total : u.pool.totalBuffers = config.initialCount

theorem Unexpanded.create (config : BufferPoolConfig) : (PoolUse.create config).Unexpanded config :=
  ⟨.create config, by simp [PoolUse.create, BufferPool.create, BufferPool.allocateBuffers]⟩

theorem Inv.freeList_eq_nil_iff (h : u.Inv config) :
    u.pool.freeList = [] ↔ u.pool.totalBuffers ≤ u.outstanding.length := by
  have hlen := h.partition.length_eq
  have htotal := h.wf.total
  simp only [List.length_append, List.length_range] at hlen
  rw [← List.length_eq_zero_iff]
  omega

theorem Unexpanded.step (h : u.Unexpanded config) (hc : u.WithinInitial config c)
    (hs : u.step c = some u') : u'.Unexpanded config := by
  refine ⟨h.inv.step hs, ?_⟩
  cases c with
  | acquire =>
    have hne : u.pool.freeList ≠ [] := by
      have hlt := hc rfl
      rw [Ne, h.inv.freeList_eq_nil_iff, h.total]
      omega
    obtain ⟨b, pool, htake, -, -, -, -, -, htotal, -⟩ := h.inv.wf.takeBack hne
    have hemp : u.pool.freeList.isEmpty = false := by simpa using hne
    have hacquire : u.pool.acquire = .ok (some b, pool) := by
      simp only [BufferPool.acquire, hemp, Bool.false_eq_true, if_false, htake]
    simp only [PoolUse.step, hacquire, Option.some.injEq] at hs
    subst hs
    exact htotal.trans h.total
  | release b =>
    simp only [PoolUse.step] at hs
    split at hs
    · rename_i hb
      rw [BufferPool.release_of_lt (h.inv.lt_of_mem hb)] at hs
      exact Option.some.inj hs ▸ h.total
    · cases hs

/-- With too many initial buffers, the subtractions are exact as long as they are not all taken. -/
theorem Unexpanded.exact_iff (h : u.Unexpanded config) (hlt : config.maxCount < config.initialCount)
    (c : PoolCall) : u.Exact c ↔ u.WithinInitial config c := by
  cases c with
  | release b => exact ⟨fun _ => nofun, fun _ => trivial⟩
  | acquire =>
    have hmax : ¬ u.pool.totalBuffers ≤ u.pool.config.maxCount := by
      rw [h.total, h.inv.config_eq]
      omega
    rw [Exact, BufferPool.acquireExact_iff, h.inv.freeList_eq_nil_iff, h.total]
    constructor
    · intro hexact _
      by_contra hge
      exact hmax (h.total ▸ hexact (Nat.le_of_not_lt hge))
    · intro hwithin hle
      have := hwithin rfl
      omega

theorem Inv.exact (h : u.Inv config) (hle : config.initialCount ≤ config.maxCount) (c : PoolCall) :
    u.Exact c := by
  cases c with
  | release b => trivial
  | acquire =>
    refine BufferPool.acquireExact_iff.2 fun _ => ?_
    rw [h.config_eq]
    exact h.bound hle

/-- With too many initial buffers, a run that never takes all of them leaves the pool as large as it
was. -/
theorem unexpanded_run {calls : List PoolCall}
    (hc : Along PoolUse.step (WithinInitial config) (PoolUse.create config) calls)
    (h : run PoolUse.step (PoolUse.create config) calls = some u) : u.Unexpanded config :=
  run_induction (motive := fun _ u => u.Unexpanded config) (.create config)
    (fun _ _ _ _ _ hu hwithin hs => hu.step hwithin hs) hc h

theorem along_exact_iff {calls : List PoolCall} (hlt : config.maxCount < config.initialCount) :
    Along PoolUse.step Exact (PoolUse.create config) calls ↔
      Along PoolUse.step (WithinInitial config) (PoolUse.create config) calls :=
  Along.congr_invariant (I := Unexpanded config) (.create config)
    (fun _ _ _ hu hwithin hs => hu.step hwithin hs) fun _ c hu => hu.exact_iff hlt c

end PoolUse

open PoolUse

/-- A pool never subtracts below zero and never outgrows its limits, exactly if it starts within its
maximum or its initial buffers are never all taken when another one is asked for. -/
theorem pool_limits_iff (config : BufferPoolConfig) (calls : List PoolCall) :
    (Along PoolUse.step Exact (PoolUse.create config) calls ∧
        ∀ n ∈ readings PoolUse.step (·.pool.totalBuffers) (PoolUse.create config) calls,
          n ≤ max config.initialCount config.maxCount) ↔
      config.initialCount ≤ config.maxCount ∨
        Along PoolUse.step (WithinInitial config) (PoolUse.create config) calls := by
  rcases Nat.lt_or_ge config.maxCount config.initialCount with hlt | hle
  · rw [along_exact_iff hlt]
    constructor
    · exact fun h => .inr h.1
    · rintro (hle | hwithin)
      · omega
      · refine ⟨hwithin, ?_⟩
        rintro n ⟨es, u, ⟨rest, rfl⟩, hu, rfl⟩
        exact (unexpanded_run hwithin.of_append hu).total.le.trans (le_max_left ..)
  · refine ⟨fun _ => .inl hle, fun _ => ⟨?_, ?_⟩⟩
    · exact fun es c _ u _ hu => (PoolUse.Inv.run hu).exact hle c
    · rintro n ⟨es, u, -, hu, rfl⟩
      exact ((PoolUse.Inv.run hu).bound hle).trans (le_max_right ..)

/-- A pool that starts with more buffers than it may have. -/
def BufferPoolConfig.oversized : BufferPoolConfig :=
  { BufferPoolConfig.single with initialCount := 3, initialCount_lt := by decide }

/-- All initial buffers are taken: the next `acquire` computes `1 - 3`, and `expand_pool` asks for
that many buffers. -/
theorem oversized_pool_wraps : ∃ u,
    run PoolUse.step (PoolUse.create .oversized) [.acquire, .acquire, .acquire] = some u ∧
    u.pool.freeList = [] ∧
    SizeT.sub u.pool.config.maxCount u.pool.totalBuffers = 2 ^ 64 - 2 ∧
    SizeT.add u.pool.totalBuffers 256 > u.pool.config.maxCount ∧
    ¬ Along PoolUse.step Exact (PoolUse.create .oversized)
        [.acquire, .acquire, .acquire, .acquire] := by
  obtain ⟨u, hu, hfree, htotal, hmax⟩ : ∃ u,
      run PoolUse.step (PoolUse.create .oversized) [.acquire, .acquire, .acquire] = some u ∧
      u.pool.freeList = [] ∧ u.pool.totalBuffers = 3 ∧ u.pool.config.maxCount = 1 :=
    ⟨_, rfl, rfl, rfl, rfl⟩
  refine ⟨u, hu, hfree, by rw [htotal, hmax]; decide, by rw [htotal, hmax]; decide, fun h => ?_⟩
  have hexact := h [.acquire, .acquire, .acquire] .acquire [] u rfl hu
  have hle := BufferPool.acquireExact_iff.1 hexact hfree
  omega

end GossipRl
