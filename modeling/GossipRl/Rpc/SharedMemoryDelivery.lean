import GossipRl.Rpc.SharedMemory
import GossipRl.Support.SlotRing

/-!
# What arrives over shared memory

`Delivers` is what the two ends see: the messages handed out are those `send` took, in order and
unchanged, a `poll_recv` that finds the ring empty has handed out all of them, and no message is
taken that cannot be carried whole. `Fits` is the condition on the steps under which the code keeps
to it: a message has to fit into the array of an entry and into a buffer of the receiver, the
positions must not wrap around, and once an entry is off the ring there has to be a buffer for it.
`Inv` follows the entries through the ring; it says for either end what it knows in the middle of a
call, whatever the other end did meanwhile.
-/

namespace GossipRl
open Support

namespace RingEntry

/-- The array holds the message, and a receiver's buffer does. -/
def Carries (config : BufferPoolConfig) (bytes : List UInt8) : Prop :=
  bytes.length ≤ dataSize ∧ bytes.length ≤ config.bufferSize

theorem writeTo_ofBytes {bytes : List UInt8} {b : Buffer} (hsize : bytes.length ≤ dataSize)
    (hempty : b.bytes = []) (hcap : bytes.length ≤ b.capacity) :
    ∃ b', (ofBytes bytes).writeTo b = .ok b' ∧ b'.bytes = bytes := by
  have hdata : (ofBytes bytes).data = bytes := by
    rw [ofBytes, Nat.min_eq_left hsize]
    exact List.take_length
  have hnat : (ofBytes bytes).size.toNat = bytes.length := by
    simp only [dataSize] at hsize
    simp only [ofBytes, UInt32.toNat_ofNat']
    omega
  refine ⟨b.write bytes, ?_, ?_⟩
  · rw [writeTo, hdata, hnat, List.take_length, if_pos (Nat.min_le_left ..)]
  · have hroom : b.bytes.length + bytes.length ≤ b.capacity := by simpa [hempty] using hcap
    rw [Buffer.bytes_write hroom, hempty, List.nil_append]

end RingEntry

theorem toNat_add_one {x : UInt64} (h : x.toNat + 1 < UInt64.size) : (x + 1).toNat = x.toNat + 1 := by
  rw [UInt64.toNat_add]
  exact Nat.mod_eq_of_lt h

namespace SharedRingBuffer
variable {T : Type*} {r : SharedRingBuffer T} {write read : UInt64}

/-- With the read position behind the write position, the difference is what lies in the ring. -/
theorem full_iff (hle : r.readPos.toNat ≤ r.writePos.toNat) :
    r.writePos - r.readPos ≥ r.capacity ↔
      r.readPos.toNat + r.capacity.toNat ≤ r.writePos.toNat := by
  have hsub : (r.writePos - r.readPos).toNat = r.writePos.toNat - r.readPos.toNat :=
    UInt64.toNat_sub_of_le _ _ (UInt64.le_iff_toNat_le.2 hle)
  rw [ge_iff_le, UInt64.le_iff_toNat_le, hsub]
  omega

theorem pushStart_eq_some (hle : r.readPos.toNat ≤ r.writePos.toNat) :
    r.pushStart = some write ↔
      write = r.writePos ∧ r.writePos.toNat < r.readPos.toNat + r.capacity.toNat := by
  rw [pushStart]
  split
  · rename_i hfull
    have hfull := (full_iff hle).1 hfull
    constructor
    · rintro ⟨⟩
    · rintro ⟨-, hlt⟩
      omega
  · rename_i hroom
    have hroom := mt (full_iff hle).2 hroom
    constructor
    · intro h
      exact ⟨(Option.some.inj h).symm, by omega⟩
    · rintro ⟨rfl, -⟩
      rfl

theorem data_pushStore {value : T} : (r.pushStore write value).data =
    Function.update r.data (write.toNat % r.capacity.toNat) value := by
  rw [pushStore, UInt64.toNat_mod]

theorem popLoad_eq : r.popLoad read = r.data (read.toNat % r.capacity.toNat) := by
  rw [popLoad, UInt64.toNat_mod]

theorem popStart_eq_some :
    r.popStart = some read ↔ read = r.readPos ∧ r.readPos.toNat < r.writePos.toNat := by
  simp only [popStart, ge_iff_le, UInt64.le_iff_toNat_le]
  split
  · constructor
    · rintro ⟨⟩
    · rintro ⟨-, hlt⟩
      omega
  · constructor
    · intro h
      exact ⟨(Option.some.inj h).symm, by omega⟩
    · rintro ⟨rfl, -⟩
      rfl

theorem popStart_eq_none : r.popStart = none ↔ r.writePos.toNat ≤ r.readPos.toNat := by
  simp only [popStart, ge_iff_le, UInt64.le_iff_toNat_le]
  split <;> simp_all

end SharedRingBuffer

namespace ShmLink

/-- What the two ends are promised. -/
structure Delivers (config : BufferPoolConfig) (l : ShmLink) : Prop where
  /-- Nothing is handed out twice, out of order or changed. -/
  ordered : l.handedOut <+: l.sent
  /-- Nothing is lost: a `poll_recv` comes back empty-handed only after handing out everything. -/
  complete : l.step .poll = some l → l.handedOut = l.sent
  whole : ∀ m ∈ l.sent, RingEntry.Carries config m
  defined : l.fault = none

/-- `send` returns false. -/
def Refuses (l : ShmLink) : Prop := l.sender.state ≠ .CONNECTED ∨ l.ring.pushStart = none

/-- The condition on a step. -/
def Fits (config : BufferPoolConfig) (l : ShmLink) : ShmEvent → Prop
  | .send buffer =>
    l.Refuses ∨ RingEntry.Carries config buffer.bytes ∧ l.sent.length + 1 < UInt64.size
  | .pollStep => ∀ entry, l.recvPc = .acquiring entry → l.receiver.pool.CanAcquire
  | _ => True

instance (config : BufferPoolConfig) (l : ShmLink) : ∀ e, Decidable (l.Fits config e)
  | .send _ => inferInstanceAs (Decidable ((_ ∨ _) ∨ (_ ∧ _) ∧ _))
  | .pollStep =>
    match h : l.recvPc with
    | .acquiring _ =>
      decidable_of_iff l.receiver.pool.CanAcquire (by simp [Fits, h])
    | .idle | .copying _ | .popping .. => isTrue (by simp [Fits, h])
  | .sendStep | .poll | .pool .. | .close => isTrue trivial

/-- What a call of `send` knows. -/
def Sending (config : BufferPoolConfig) (ring : SharedRingBuffer RingEntry) : SendPc → Prop
  | .idle => True
  | .storing buffer entry write =>
    entry = .ofBytes buffer.bytes ∧ RingEntry.Carries config buffer.bytes ∧
      write = ring.writePos ∧ write.toNat + 1 < UInt64.size ∧
      ring.writePos.toNat < ring.readPos.toNat + ring.capacity.toNat
  | .publishing buffer entry write =>
    entry = .ofBytes buffer.bytes ∧ RingEntry.Carries config buffer.bytes ∧
      write = ring.writePos ∧ write.toNat + 1 < UInt64.size ∧
      ring.data (write.toNat % ring.capacity.toNat) = entry

/-- What a call of `poll_recv` knows. -/
def Receiving (ring : SharedRingBuffer RingEntry) (sent handedOut : List (List UInt8)) :
    RecvPc → Prop
  | .idle => ring.readPos.toNat = handedOut.length
  | .copying read =>
    ring.readPos.toNat = handedOut.length ∧ read = ring.readPos ∧
      ring.readPos.toNat < ring.writePos.toNat
  | .popping read entry =>
    ring.readPos.toNat = handedOut.length ∧ read = ring.readPos ∧
      ring.readPos.toNat < ring.writePos.toNat ∧
      ∃ m, sent[handedOut.length]? = some m ∧ entry = .ofBytes m
  | .acquiring entry =>
    ring.readPos.toNat = handedOut.length + 1 ∧
      ∃ m, sent[handedOut.length]? = some m ∧ entry = .ofBytes m

theorem Receiving.published {ring : SharedRingBuffer RingEntry} {sent handedOut : List (List UInt8)}
    {pc : RecvPc} {write : UInt64} (h : Receiving ring sent handedOut pc) (m : List UInt8)
    (hle : ring.writePos.toNat ≤ (write + 1).toNat) :
    Receiving (ring.pushFinish write) (sent ++ [m]) handedOut pc := by
  have happend : ∀ {i : Nat} {m' : List UInt8}, sent[i]? = some m' →
      (sent ++ [m])[i]? = some m' := by
    intro i m' hm
    rw [List.getElem?_append_left (List.getElem?_eq_some_iff.1 hm).1]
    exact hm
  cases pc with
  | idle => exact h
  | copying read =>
    obtain ⟨hlen, hread, hlt⟩ := h
    exact ⟨hlen, hread, hlt.trans_le hle⟩
  | popping read entry =>
    obtain ⟨hlen, hread, hlt, m', hm', hentry⟩ := h
    exact ⟨hlen, hread, hlt.trans_le hle, m', happend hm', hentry⟩
  | acquiring entry =>
    obtain ⟨hlen, m', hm', hentry⟩ := h
    exact ⟨hlen, m', happend hm', hentry⟩

theorem Sending.popped {config : BufferPoolConfig} {ring : SharedRingBuffer RingEntry} {pc : SendPc}
    {read : UInt64} (h : Sending config ring pc) (hle : ring.readPos.toNat ≤ (read + 1).toNat) :
    Sending config (ring.popFinish read) pc := by
  cases pc with
  | idle => trivial
  | storing buffer entry write =>
    obtain ⟨hentry, hcarries, hwrite, hlt, hroom⟩ := h
    refine ⟨hentry, hcarries, hwrite, hlt, ?_⟩
    show ring.writePos.toNat < (read + 1).toNat + ring.capacity.toNat
    omega
  | publishing buffer entry write => exact h

structure Inv (config : BufferPoolConfig) (l : ShmLink) : Prop where
  wf : l.receiver.pool.WF
  config_eq : l.receiver.pool.config = config
  capacity : 0 < l.ring.capacity.toNat
  written : l.ring.writePos.toNat = l.sent.length
  ring : Holds l.ring.data l.ring.capacity.toNat (l.sent.map RingEntry.ofBytes)
    l.ring.readPos.toNat l.ring.writePos.toNat
  sending : Sending config l.ring l.sendPc
  receiving : Receiving l.ring l.sent l.handedOut l.recvPc
  ordered : l.handedOut <+: l.sent
  whole : ∀ m ∈ l.sent, RingEntry.Carries config m
  defined : l.fault = none

variable {senderConfig config : BufferPoolConfig} {l l' : ShmLink} {e : ShmEvent}

theorem Inv.create : (create senderConfig config).Inv config where
  wf := .create config
  config_eq := rfl
  capacity := show 0 < ringCapacity.toNat by decide
  written := rfl
  ring := .empty
  sending := trivial
  receiving := rfl
  ordered := List.prefix_rfl
  whole := by simp [ShmLink.create]
  defined := rfl

theorem Inv.delivers (h : l.Inv config) : l.Delivers config := by
  refine ⟨h.ordered, fun hpoll => ?_, h.whole, h.defined⟩
  have hrecv := h.receiving
  simp only [step, h.defined, Option.isSome_none, Bool.false_eq_true, if_false, poll] at hpoll
  split at hpoll
  · rename_i hidle
    rw [hidle] at hrecv
    split at hpoll
    · rename_i hempty
      have hle := SharedRingBuffer.popStart_eq_none.1 hempty
      have hlen : l.ring.readPos.toNat = l.handedOut.length := hrecv
      have hwritten := h.written
      exact h.ordered.eq_of_length_le (by omega)
    · have := congrArg recvPc (Option.some.inj hpoll)
      simp [hidle] at this
  · cases hpoll

/-! ### Steps of the sender -/

theorem Inv.send {buffer : Buffer} (h : l.Inv config) (hfits : l.Fits config (.send buffer))
    (hs : l.send buffer = some l') : l'.Inv config := by
  unfold ShmLink.send at hs
  split at hs
  · split at hs
    · exact Option.some.inj hs ▸ h
    · rename_i hstate
      split at hs
      · exact Option.some.inj hs ▸ h
      · rename_i write hwrite
        obtain rfl := Option.some.inj hs
        have hle := h.ring.le
        obtain ⟨rfl, hroom⟩ := (SharedRingBuffer.pushStart_eq_some hle).1 hwrite
        rcases hfits with (hclosed | hfull) | ⟨hcarries, hlt⟩
        · exact absurd hclosed hstate
        · rw [hfull] at hwrite
          cases hwrite
        · rw [← h.written] at hlt
          exact { h with sending := ⟨rfl, hcarries, rfl, hlt, hroom⟩ }
  · cases hs

theorem Inv.sendStep (h : l.Inv config) (hs : l.sendStep = some l') : l'.Inv config := by
  have hsend := h.sending
  unfold ShmLink.sendStep at hs
  split at hs
  · cases hs
  · rename_i buffer entry write hpc
    rw [hpc] at hsend
    obtain ⟨hentry, hcarries, rfl, hlt, hroom⟩ := hsend
    obtain rfl := Option.some.inj hs
    refine { h with ring := ?_, sending := ?_, receiving := ?_ }
    · rw [SharedRingBuffer.data_pushStore]
      exact h.ring.store hroom
    · refine ⟨hentry, hcarries, rfl, hlt, ?_⟩
      rw [SharedRingBuffer.data_pushStore]
      exact Function.update_self ..
    · exact h.receiving
  · rename_i buffer entry write hpc
    rw [hpc] at hsend
    obtain ⟨rfl, hcarries, rfl, hlt, hslot⟩ := hsend
    obtain rfl := Option.some.inj hs
    have hnext := toNat_add_one hlt
    have hwritten := h.written
    have hring := h.ring.publish (by rw [List.length_map, hwritten]) hslot
    refine { h with written := ?_, ring := ?_, sending := trivial, receiving := ?_, ordered := ?_,
                    whole := ?_ }
    · show (l.ring.writePos + 1).toNat = (l.sent ++ [buffer.bytes]).length
      rw [hnext, hwritten, List.length_append, List.length_singleton]
    · show Holds l.ring.data _ ((l.sent ++ [buffer.bytes]).map _) _ (l.ring.writePos + 1).toNat
      rw [hnext, List.map_append]
      exact hring
    · exact h.receiving.published buffer.bytes (by rw [hnext]; exact Nat.le_succ _)
    · exact h.ordered.trans (List.prefix_append ..)
    · intro m hm
      rcases List.mem_append.1 hm with hm | hm
      · exact h.whole m hm
      · exact List.mem_singleton.1 hm ▸ hcarries

/-! ### Steps of the receiver -/

theorem Inv.poll (h : l.Inv config) (hs : l.poll = some l') : l'.Inv config := by
  have hrecv := h.receiving
  unfold ShmLink.poll at hs
  split at hs
  · rename_i hidle
    rw [hidle] at hrecv
    split at hs
    · exact Option.some.inj hs ▸ h
    · rename_i read hread
      obtain ⟨rfl, hlt⟩ := SharedRingBuffer.popStart_eq_some.1 hread
      obtain rfl := Option.some.inj hs
      exact { h with receiving := ⟨hrecv, rfl, hlt⟩ }
  · cases hs

/-- With a buffer in the pool the message taken off the ring is handed out whole. -/
theorem Inv.handOut {entry : RingEntry} (h : l.Inv config) (hpc : l.recvPc = .acquiring entry)
    (hcan : l.receiver.pool.CanAcquire) : (l.handOut entry).Inv config := by
  have hrecv := h.receiving
  rw [hpc] at hrecv
  obtain ⟨hlen, m, hm, rfl⟩ := hrecv
  obtain ⟨hsize, hfit⟩ := h.whole m (List.mem_of_getElem? hm)
  obtain ⟨k, b, pool, hacquire, hacq⟩ := BufferPool.acquire_of_canAcquire h.wf hcan
  have hcap : m.length ≤ b.capacity := by
    rw [hacq.capacity, h.config_eq]
    exact hfit
  obtain ⟨b', hwrite, hbytes⟩ := RingEntry.writeTo_ofBytes hsize hacq.bytes hcap
  simp only [ShmLink.handOut, hacquire, hwrite]
  refine { h with wf := hacq.wf, config_eq := hacq.config.trans h.config_eq, receiving := ?_,
                  ordered := ?_ }
  · show l.ring.readPos.toNat = (l.handedOut ++ [b'.bytes]).length
    rw [hlen, List.length_append, List.length_singleton]
  · rw [hbytes]
    exact prefix_concat h.ordered hm

theorem Inv.pollStep (h : l.Inv config) (hfits : l.Fits config .pollStep)
    (hs : l.pollStep = some l') : l'.Inv config := by
  have hrecv := h.receiving
  unfold ShmLink.pollStep at hs
  split at hs
  · cases hs
  · rename_i read hpc
    rw [hpc] at hrecv
    obtain ⟨hlen, rfl, hlt⟩ := hrecv
    obtain rfl := Option.some.inj hs
    have hhead := h.ring.head hlt
    rw [hlen, List.getElem?_map, Option.map_eq_some_iff] at hhead
    obtain ⟨m, hm, hentry⟩ := hhead
    refine { h with receiving := ⟨hlen, rfl, hlt, m, hm, ?_⟩ }
    rw [SharedRingBuffer.popLoad_eq, hlen]
    exact hentry.symm
  · rename_i read entry hpc
    rw [hpc] at hrecv
    obtain ⟨hlen, rfl, hlt, m, hm, hentry⟩ := hrecv
    obtain rfl := Option.some.inj hs
    have hnext : (l.ring.readPos + 1).toNat = l.ring.readPos.toNat + 1 :=
      toNat_add_one (lt_of_le_of_lt hlt (UInt64.toNat_lt _))
    refine { h with ring := ?_, sending := ?_, receiving := ⟨?_, m, hm, hentry⟩ }
    · show Holds l.ring.data _ _ (l.ring.readPos + 1).toNat _
      rw [hnext]
      exact h.ring.consume hlt
    · exact h.sending.popped (by rw [hnext]; exact Nat.le_succ _)
    · show (l.ring.readPos + 1).toNat = l.handedOut.length + 1
      rw [hnext, hlen]
  · rename_i entry hpc
    obtain rfl := Option.some.inj hs
    exact h.handOut hpc (hfits entry hpc)

/-! ### Runs -/

theorem Inv.usePool {side : ShmSide} {call : PoolCall} (h : l.Inv config)
    (hs : l.usePool side call = some l') : l'.Inv config := by
  cases side with
  | sender =>
    obtain ⟨pool, -, rfl⟩ := Option.map_eq_some_iff.1 hs
    exact { h with }
  | receiver =>
    obtain ⟨pool, hpool, rfl⟩ := Option.map_eq_some_iff.1 hs
    cases call with
    | acquire =>
      by_cases hcan : l.receiver.pool.CanAcquire
      · obtain ⟨k, b, p, hacquire, hacq⟩ := BufferPool.acquire_of_canAcquire h.wf hcan
        simp only [poolCall, hacquire] at hpool
        obtain rfl := Option.some.inj hpool
        exact { h with wf := hacq.wf, config_eq := hacq.config.trans h.config_eq }
      · simp [poolCall, BufferPool.acquire_of_not_canAcquire hcan] at hpool
    | release b =>
      obtain rfl := Option.some.inj hpool
      refine { h with wf := h.wf.release (some b), config_eq := ?_ }
      rw [← h.config_eq]
      show (l.receiver.pool.release (some b)).config = l.receiver.pool.config
      rcases Nat.lt_or_ge b.poolIndex l.receiver.pool.bufferStorage.length with hlt | hge
      · rw [BufferPool.release_of_lt hlt]
      · rw [BufferPool.release_of_le hge]

theorem Inv.step (h : l.Inv config) (hfits : l.Fits config e) (hs : l.step e = some l') :
    l'.Inv config := by
  simp only [ShmLink.step, h.defined, Option.isSome_none, Bool.false_eq_true, if_false] at hs
  cases e with
  | send buffer => exact h.send hfits hs
  | sendStep => exact h.sendStep hs
  | poll => exact h.poll hs
  | pollStep => exact h.pollStep hfits hs
  | pool side call => exact h.usePool hs
  | close =>
    simp only at hs
    split at hs
    · obtain rfl := Option.some.inj hs
      exact { h with defined := rfl }
    · cases hs

end ShmLink

/-- Over every interleaving of the two ends and the other users of their pools: while what is sent
fits, all of it arrives. -/
theorem shm_delivers_of_fits (senderConfig config : BufferPoolConfig) (es : List ShmEvent)
    (l : ShmLink) (hrun : run ShmLink.step (.create senderConfig config) es = some l)
    (hfits : Along ShmLink.step (ShmLink.Fits config) (.create senderConfig config) es) :
    l.Delivers config := by
  have hinv : l.Inv config := by
    refine run_induction (motive := fun _ l => l.Inv config) .create ?_ hfits hrun
    intro es l e l' _ h hfit hstep
    exact h.step hfit hstep
  exact hinv.delivers

/-- A message of `n` zero bytes in a buffer of 64 KiB. -/
def Buffer.zeros (n : Nat) : Buffer where
  block := 0
  offset := 0
  capacity := 64 * 1024
  bytes := List.replicate (min n (64 * 1024)) 0
  poolIndex := 0
  registered := false
  size_le := by simp

/-- A pool of one buffer of the default size. -/
def BufferPoolConfig.one : BufferPoolConfig :=
  { BufferPoolConfig.single with bufferSize := 64 * 1024, bufferSize_lt := by decide }

/-- Both calls from start to end. -/
def sendAndPoll (buffer : Buffer) : List ShmEvent :=
  [.send buffer, .sendStep, .sendStep, .poll, .pollStep, .pollStep, .pollStep]

theorem shm_delivers_of_fits_one : ∃ l,
    run ShmLink.step (.create .single .single) (sendAndPoll (.zeros 3)) = some l ∧
      Along ShmLink.step (ShmLink.Fits .single) (.create .single .single)
        (sendAndPoll (.zeros 3)) ∧
      l.Delivers .single ∧ l.handedOut = [[0, 0, 0]] := by
  have hfits : Along ShmLink.step (ShmLink.Fits .single) (.create .single .single)
      (sendAndPoll (.zeros 3)) := by decide
  exact ⟨_, rfl, hfits, shm_delivers_of_fits .single .single _ _ rfl hfits, rfl⟩

/-- What is longer than the array, and fits into the receiver's buffer, makes it read past the
array. -/
theorem RingEntry.writeTo_too_long {bytes : List UInt8} {b : Buffer} (hlong : dataSize < bytes.length)
    (hsize : bytes.length < UInt32.size) (hempty : b.bytes = []) (hcap : bytes.length ≤ b.capacity) :
    (ofBytes bytes).writeTo b = .error .indexOutOfRange := by
  have hdata : (ofBytes bytes).data.length = dataSize := by
    simp only [ofBytes, List.length_take]
    omega
  have hnat : (ofBytes bytes).size.toNat = bytes.length := by
    simp only [ofBytes, UInt32.toNat_ofNat']
    exact Nat.mod_eq_of_lt hsize
  have hroom : b.remaining = b.capacity := by simp [Buffer.remaining, Buffer.size, hempty]
  rw [writeTo, hdata, hnat, hroom, Nat.min_eq_left hcap, if_neg (Nat.not_le.2 hlong)]

/-- Between pools of the default buffer size every message longer than the array does so. -/
theorem send_too_long (buffer : Buffer) (hlong : RingEntry.dataSize < buffer.bytes.length)
    (hcap : buffer.bytes.length ≤ 64 * 1024) : ∃ l,
      run ShmLink.step (.create .one .one) (sendAndPoll buffer) = some l ∧
        l.sent = [buffer.bytes] ∧ l.handedOut = [] ∧ l.fault = some .indexOutOfRange := by
  have hbefore : ∃ l, run ShmLink.step (.create .one .one)
      [.send buffer, .sendStep, .sendStep, .poll, .pollStep, .pollStep] = some l ∧
      l.recvPc = .acquiring (.ofBytes buffer.bytes) ∧ l.sent = [buffer.bytes] ∧
      l.handedOut = [] ∧ l.fault = none ∧ l.receiver.pool = .create .one :=
    ⟨_, rfl, rfl, rfl, rfl, rfl, rfl⟩
  obtain ⟨l, hl, hpc, hsent, hout, hfault, hpool⟩ := hbefore
  have hacquire : ∃ pool, (BufferPool.create .one).acquire =
      .ok (some ⟨0, 0, 64 * 1024, [], 0, false, Nat.zero_le _⟩, pool) := ⟨_, rfl⟩
  obtain ⟨pool, hacquire⟩ := hacquire
  have hwrite : (RingEntry.ofBytes buffer.bytes).writeTo
      ⟨0, 0, 64 * 1024, [], 0, false, Nat.zero_le _⟩ = .error .indexOutOfRange :=
    RingEntry.writeTo_too_long hlong (lt_of_le_of_lt hcap (by decide)) rfl hcap
  have hlast : l.step .pollStep = some { l with fault := some .indexOutOfRange } := by
    simp [ShmLink.step, hfault, ShmLink.pollStep, hpc, ShmLink.handOut, hpool, hacquire, hwrite]
  exact ⟨_, run_concat_eq_some.2 ⟨l, hl, hlast⟩, hsent, hout, rfl⟩

/-- A message of one byte more than an entry holds is taken and then read past the array, and with
the receiver's only buffer in use the second of two short messages is gone from the ring when there
turns out to be no buffer for it. -/
theorem shm_delivery_fails :
    (∃ l, run ShmLink.step (.create .one .one) (sendAndPoll (.zeros 65533)) = some l ∧
      l.sent = [(Buffer.zeros 65533).bytes] ∧ l.handedOut = [] ∧ ¬ l.Delivers .one) ∧
    ∃ l, run ShmLink.step (.create .one .one) (sendAndPoll (.zeros 1) ++ sendAndPoll (.zeros 1)) =
        some l ∧ l.sent = [[0], [0]] ∧ l.handedOut = [[0]] ∧ l.ring.popStart = none ∧
      ¬ l.Delivers .one := by
  constructor
  · obtain ⟨l, hl, hsent, hout, hfault⟩ := send_too_long (.zeros 65533)
      (by simp only [Buffer.zeros, List.length_replicate]; decide)
      (by simp only [Buffer.zeros, List.length_replicate]; decide)
    refine ⟨l, hl, hsent, hout, fun h => ?_⟩
    rw [h.defined] at hfault
    cases hfault
  · refine ⟨_, rfl, rfl, rfl, rfl, fun h => ?_⟩
    cases h.defined

end GossipRl
