import GossipRl.Support.Dict
import Mathlib.Algebra.Ring.Nat
import Mathlib.Data.List.Perm.Basic
import Mathlib.Data.List.Range

/-!
# The buffer pool (`buffer_pool.hpp`, `buffer_pool.cpp`)

A pool cuts memory blocks into buffers of one size and keeps the indices of the free ones on a
stack. `size_t` is 64 bits wide: sums, differences and products of sizes are taken modulo `2 ^ 64`
(`SizeT`), as the code takes them; the event counters are `UInt64`. Evaluating `back()` on an empty
vector, or an index past the end of one, is undefined behaviour: these are the values of `Fault`.
-/

namespace GossipRl

namespace SizeT

def modulus : Nat := 2 ^ 64

def add (a b : Nat) : Nat := (a + b) % modulus

def sub (a b : Nat) : Nat := (a + (modulus - b % modulus)) % modulus

def mul (a b : Nat) : Nat := a * b % modulus

variable {a b : Nat}

theorem sub_of_le (h : b ≤ a) (ha : a < modulus) : sub a b = a - b := by
  have hb : b % modulus = b := Nat.mod_eq_of_lt (by omega)
  have : a + (modulus - b) = (a - b) + modulus := by omega
  rw [sub, hb, this, Nat.add_mod_right, Nat.mod_eq_of_lt (by omega)]

theorem mod_eq_of_sub_eq_zero (ha : a < modulus) (h : sub a b = 0) : b % modulus = a := by
  have hb : b % modulus < modulus := Nat.mod_lt _ (by decide)
  rcases Nat.lt_or_ge (a + (modulus - b % modulus)) modulus with hlt | hge
  · rw [sub, Nat.mod_eq_of_lt hlt] at h; omega
  · rw [sub, Nat.mod_eq_sub_mod hge, Nat.mod_eq_of_lt (by omega)] at h; omega

end SizeT

/-- Undefined behaviour a call can run into. -/
inductive Fault where
  | backOnEmpty
  | indexOutOfRange
deriving DecidableEq, Repr

/-- A view of `capacity` bytes at `offset` in memory block `block`; `bytes` are the first `size_`
of them. -/
structure Buffer where
  block : Nat
  offset : Nat
  capacity : Nat
  bytes : List UInt8
  poolIndex : Nat
  registered : Bool
  size_le : bytes.length ≤ capacity

namespace Buffer

/-- The constructor, `data_` being at `offset` in a block. -/
def create (block offset capacity poolIndex : Nat) (registered : Bool) : Buffer :=
  ⟨block, offset, capacity, [], poolIndex, registered, Nat.zero_le _⟩

def size (b : Buffer) : Nat := b.bytes.length

def remaining (b : Buffer) : Nat := b.capacity - b.size

def reset (b : Buffer) : Buffer := { b with bytes := [], size_le := Nat.zero_le _ }

/-- The kernel stores `bs` at `data_`, then `set_size(bs.size())`. -/
def receive (b : Buffer) (bs : List UInt8) : Buffer :=
  { b with bytes := bs.take b.capacity, size_le := List.length_take_le _ _ }

/-- Appends as much of `src` as still fits. -/
def write (b : Buffer) (src : List UInt8) : Buffer where
  block := b.block
  offset := b.offset
  capacity := b.capacity
  bytes := b.bytes ++ src.take (min src.length b.remaining)
  poolIndex := b.poolIndex
  registered := b.registered
  size_le := by
    have := b.size_le
    simp only [remaining, size, List.length_append, List.length_take]
    omega

variable (b : Buffer) (src : List UInt8)

@[simp] theorem poolIndex_reset : b.reset.poolIndex = b.poolIndex := rfl
@[simp] theorem poolIndex_write : (b.write src).poolIndex = b.poolIndex := rfl

variable {b src}

theorem bytes_receive (h : src.length ≤ b.capacity) : (b.receive src).bytes = src :=
  List.take_of_length_le h

theorem bytes_write (h : b.bytes.length + src.length ≤ b.capacity) :
    (b.write src).bytes = b.bytes ++ src := by
  have : min src.length b.remaining = src.length := by simp only [remaining, size]; omega
  simp [write, this]

end Buffer

structure BufferPoolConfig where
  bufferSize : Nat := 64 * 1024
  initialCount : Nat := 1024
  maxCount : Nat := 16384
  bufferSize_lt : bufferSize < SizeT.modulus := by decide
  initialCount_lt : initialCount < SizeT.modulus := by decide
  maxCount_lt : maxCount < SizeT.modulus := by decide

structure BufferPoolStats where
  allocations : UInt64 := 0
  deallocations : UInt64 := 0
  currentUsage : UInt64 := 0
  peakUsage : UInt64 := 0
  failedAllocations : UInt64 := 0
  expansions : UInt64 := 0
deriving DecidableEq, Repr

/-- The counters after one more buffer is handed out; the loop on `peak_usage` keeps the larger
value. -/
def BufferPoolStats.acquired (st : BufferPoolStats) : BufferPoolStats :=
  let current := st.currentUsage + 1
  { st with
    allocations := st.allocations + 1
    currentUsage := current
    peakUsage := if current > st.peakUsage then current else st.peakUsage }

structure BufferPool where
  config : BufferPoolConfig
  stats : BufferPoolStats
  /-- Sizes of the allocated blocks. -/
  memoryBlocks : List Nat
  bufferStorage : List Buffer
  /-- Stack of free indices, its top (`back()`) last. -/
  freeList : List Nat
  totalBuffers : Nat

namespace BufferPool

/-- The buffers cut from a new block, `i` of them from storage index `current` on. -/
def blockBuffers (p : BufferPool) (current count : Nat) : List Buffer :=
  (List.range count).map fun i =>
    { block := p.memoryBlocks.length
      offset := SizeT.mul i p.config.bufferSize
      capacity := p.config.bufferSize
      bytes := []
      poolIndex := current + i
      registered := false
      size_le := Nat.zero_le _ }

def allocateBuffers (p : BufferPool) (count : Nat) : BufferPool :=
  let current := p.bufferStorage.length
  let storage := p.bufferStorage ++ p.blockBuffers current count
  { p with
    memoryBlocks := p.memoryBlocks ++ [SizeT.mul count p.config.bufferSize]
    bufferStorage := storage
    freeList := p.freeList ++ (List.range count).map (current + ·)
    totalBuffers := storage.length }

/-- The constructor. -/
def create (config : BufferPoolConfig) : BufferPool :=
  allocateBuffers ⟨config, {}, [], [], [], 0⟩ config.initialCount

/-- The tail of `expand_pool`, once the count is fixed. -/
def expandBy (p : BufferPool) (count : Nat) : BufferPool :=
  let p := p.allocateBuffers count
  { p with stats := { p.stats with expansions := p.stats.expansions + 1 } }

def expandPool (p : BufferPool) (count : Nat) : Bool × BufferPool :=
  if SizeT.add p.totalBuffers count > p.config.maxCount then
    let count := SizeT.sub p.config.maxCount p.totalBuffers
    if count = 0 then (false, p) else (true, p.expandBy count)
  else
    (true, p.expandBy count)

/-- The second half of `acquire`: `back()`, `pop_back()` and the handle on the stored buffer. -/
def takeBack (p : BufferPool) : Except Fault (Option Buffer × BufferPool) :=
  match p.freeList.getLast? with
  | none => .error .backOnEmpty
  | some index =>
    match p.bufferStorage[index]? with
    | none => .error .indexOutOfRange
    | some stored =>
      .ok (some stored.reset,
        { p with
          freeList := p.freeList.dropLast
          bufferStorage := p.bufferStorage.set index stored.reset
          stats := p.stats.acquired })

def acquire (p : BufferPool) : Except Fault (Option Buffer × BufferPool) :=
  if p.freeList.isEmpty then
    match p.expandPool (min 256 (SizeT.sub p.config.maxCount p.totalBuffers)) with
    | (false, p) =>
      .ok (none, { p with
        stats := { p.stats with failedAllocations := p.stats.failedAllocations + 1 } })
    | (true, p) => p.takeBack
  else
    p.takeBack

def release (p : BufferPool) : Option Buffer → BufferPool
  | none => p
  | some buffer =>
    if p.bufferStorage.length ≤ buffer.poolIndex then p
    else
      { p with
        freeList := p.freeList ++ [buffer.poolIndex]
        stats := { p.stats with
          deallocations := p.stats.deallocations + 1
          currentUsage := p.stats.currentUsage - 1 } }

variable {p : BufferPool} {b : Buffer}

theorem release_of_le (h : p.bufferStorage.length ≤ b.poolIndex) : p.release (some b) = p :=
  if_pos h

theorem release_of_lt (h : b.poolIndex < p.bufferStorage.length) :
    p.release (some b) =
      { p with
        freeList := p.freeList ++ [b.poolIndex]
        stats := { p.stats with
          deallocations := p.stats.deallocations + 1
          currentUsage := p.stats.currentUsage - 1 } } :=
  if_neg (Nat.not_le.2 h)

end BufferPool

end GossipRl
