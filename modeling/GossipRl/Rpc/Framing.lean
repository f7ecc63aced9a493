import GossipRl.Rpc.PoolDemand

/-!
# Messages and receive completions

The transport has no notion of a frame: `recvData` passes what one receive completion delivered to
the message callback. `Endpoint.recorded` keeps the byte strings its callback was called with; that
changes nothing else (`run_recorded`), and along any run the record is the list of the chunks
(`delivered_eq_chunks`). So a stream of frames comes out frame by frame exactly if it was cut at
the frame boundaries.
-/

namespace GossipRl
open Support

variable {χ ο : Type*}

namespace Endpoint

/-- `E` with a record of the byte strings that its message callback is called with. -/
def recorded (E : Endpoint χ ο) : Endpoint (χ × List (List UInt8)) ο where
  onMessage l buffer :=
    (E.onMessage (l.mapOwner Prod.fst) buffer).map
      (Link.mapOwner fun c => (c, l.owner.2 ++ [buffer.bytes]))
  handed c := E.handed c.1
  onEnd result c := (E.onEnd result c.1, c.2)
  onSent requestId success c := (E.onSent requestId success c.1, c.2)
  late op l :=
    (E.late op (l.mapOwner Prod.fst)).map (Except.map (Link.mapOwner fun c => (c, l.owner.2)))

end Endpoint

namespace Link

theorem startRecv_mapOwner {χ' : Type*} (f : χ → χ') (l : Link χ) :
    (l.mapOwner f).startRecv = l.startRecv.map (mapOwner f) := by
  unfold startRecv
  by_cases h : l.conn.state = .CONNECTED
  · cases ha : l.pool.acquire with
    | error e => simp [mapOwner, h, ha, Except.map]
    | ok r =>
      obtain ⟨_ | b, pool⟩ := r
      · simp [mapOwner, h, ha, Except.map]
      · simp [mapOwner, h, ha, Except.map]
  · simp [mapOwner, h, Except.map]

theorem owner_startRecv {l l' : Link χ} (h : l.startRecv = .ok l') : l'.owner = l.owner := by
  unfold startRecv at h
  by_cases hst : l.conn.state = .CONNECTED
  · cases ha : l.pool.acquire with
    | error e => simp [hst, ha] at h
    | ok r =>
      obtain ⟨_ | b, pool⟩ := r
      · simp only [hst, ha, ne_eq, not_true, if_false, Except.ok.injEq] at h
        subst h; rfl
      · simp only [hst, ha, ne_eq, not_true, if_false, Except.ok.injEq] at h
        subst h; rfl
  · simp only [ne_eq, hst, not_false_iff, if_true, Except.ok.injEq] at h
    rw [h]

end Link

namespace Channel
variable {E : Endpoint χ ο}

/-- The channel without its record. -/
def forget (c : Channel (χ × List (List UInt8))) : Channel χ := ⟨c.link.mapOwner Prod.fst, c.users⟩

theorem recvData_recorded {l : Link (χ × List (List UInt8))} (bs : List UInt8) :
    (l.recvData (some E.recorded.onMessage) bs).map (Link.mapOwner Prod.fst) =
      (l.mapOwner Prod.fst).recvData (some E.onMessage) bs := by
  cases hb : l.conn.recvBuffer with
  | none => simp [Link.recvData, Link.mapOwner, hb, Except.map]
  | some buffer =>
    have hb' : (l.mapOwner Prod.fst).conn.recvBuffer = some buffer := hb
    rw [Link.recvData_eq _ _ hb, Link.recvData_eq _ _ hb']
    simp only [Endpoint.recorded, Link.mapConn, Link.mapOwner]
    cases E.onMessage _ _ with
    | error f => rfl
    | ok l₁ =>
      exact (Link.startRecv_mapOwner Prod.fst
        (l₁.mapOwner fun c => (c, l.owner.2 ++ [(buffer.receive bs).bytes]))).symm

theorem step_recorded (c : Channel (χ × List (List UInt8))) (e : ChannelEvent ο) :
    (c.step E.recorded e).map forget = c.forget.step E e := by
  have hforget : c.forget = ⟨c.link.mapOwner Prod.fst, c.users⟩ := rfl
  rw [hforget]
  cases e with
  | data bs =>
    have hrec := recvData_recorded (E := E) (l := c.link) bs
    cases hb : c.link.conn.recvBuffer with
    | none => simp [step, Link.mapOwner, hb]
    | some buffer =>
      have hb' : (c.link.mapOwner Prod.fst).conn.recvBuffer = some buffer := hb
      by_cases hc : c.link.conn.recvPending = true ∧ 0 < bs.length ∧ bs.length ≤ buffer.capacity
      · have hc' : (c.link.mapOwner Prod.fst).conn.recvPending = true ∧ 0 < bs.length ∧
          bs.length ≤ buffer.capacity := hc
        simp only [step, hb, hb', if_pos hc, if_pos hc', ← hrec]
        cases c.link.recvData (some E.recorded.onMessage) bs <;> rfl
      · have hc' : ¬ ((c.link.mapOwner Prod.fst).conn.recvPending = true ∧ 0 < bs.length ∧
          bs.length ≤ buffer.capacity) := hc
        simp only [step, hb, hb', if_neg hc, if_neg hc', Option.map_none]
  | ended result =>
    by_cases hc : c.link.conn.recvPending = true ∧ result ≤ 0
    · have hc' : (c.link.mapOwner Prod.fst).conn.recvPending = true ∧ result ≤ 0 := hc
      simp only [step, if_pos hc, if_pos hc']
      rfl
    · have hc' : ¬ ((c.link.mapOwner Prod.fst).conn.recvPending = true ∧ result ≤ 0) := hc
      simp only [step, if_neg hc, if_neg hc', Option.map_none]
  | sent i result =>
    simp only [step, Link.sendCompletion, Link.mapOwner]
    cases c.link.conn.sends[i]? with
    | none => rfl
    | some op =>
      simp only [Option.map_some, Endpoint.recorded]
      cases op.callback <;> rfl
  | pool call =>
    simp only [step, Link.mapOwner, Option.map_map]
    rfl
  | late op =>
    simp only [step, Endpoint.recorded]
    rcases E.late op (c.link.mapOwner Prod.fst) with _ | (_ | l) <;> rfl

theorem run_recorded (c : Channel (χ × List (List UInt8))) (events : List (ChannelEvent ο)) :
    (run (step E.recorded) c events).map forget = run (step E) c.forget events := by
  induction events generalizing c with
  | nil => rfl
  | cons e events ih =>
    rw [run_cons, run_cons, ← step_recorded]
    cases c.step E.recorded e with
    | none => rfl
    | some c₁ => exact ih c₁

/-- Only a receive completion with data adds to the record, and it adds what it delivered. -/
theorem step_record {c c' : Channel (χ × List (List UInt8))} {e : ChannelEvent ο}
    (h : c.step E.recorded e = some c') :
    c'.link.owner.2 = c.link.owner.2 ++ chunks [e] := by
  cases e with
  | data bs =>
    obtain ⟨buffer, l, hb, -, -, hle, hr, rfl⟩ := step_data_iff.1 h
    rw [Link.recvData_eq _ _ hb] at hr
    simp only [Endpoint.recorded] at hr
    cases hm : E.onMessage
        ((c.link.mapConn fun c =>
          { c with
            recvBuffer := none
            recvPending := false
            stats := c.stats.received bs.length }).mapOwner Prod.fst) (buffer.receive bs) with
    | error f => simp [hm, Except.map, Except.bind] at hr
    | ok l₁ =>
      simp only [hm, Except.map, Except.bind] at hr
      rw [Link.owner_startRecv hr]
      show c.link.owner.2 ++ [(buffer.receive bs).bytes] = _
      rw [Buffer.bytes_receive hle]
      rfl
  | ended result =>
    obtain ⟨-, rfl⟩ := step_ended_iff.1 h
    simp [chunks, Link.recvEnd, Link.mapOwner, Link.mapConn, Endpoint.recorded]
  | sent i result =>
    obtain ⟨l, hl, rfl⟩ := step_sent_iff.1 h
    unfold Link.sendCompletion at hl
    cases hs : c.link.conn.sends[i]? with
    | none => simp [hs] at hl
    | some op =>
      simp only [hs, Option.some.injEq] at hl
      subst hl
      cases op.callback <;> simp [chunks, Endpoint.recorded]
  | pool call =>
    obtain ⟨u, -, rfl⟩ := step_pool_iff.1 h
    simp [chunks]
  | late op =>
    obtain ⟨l, hl, rfl⟩ := step_late_iff.1 h
    simp only [Endpoint.recorded] at hl
    rcases ho : E.late op (c.link.mapOwner Prod.fst) with _ | (_ | l₁)
    · simp [ho] at hl
    · simp [ho, Except.map] at hl
    · simp only [ho, Option.map_some, Except.map, Option.some.injEq, Except.ok.injEq] at hl
      subst hl
      simp [chunks, Link.mapOwner]

theorem run_record {c c' : Channel (χ × List (List UInt8))} {events : List (ChannelEvent ο)}
    (h : run (step E.recorded) c events = some c') :
    c'.link.owner.2 = c.link.owner.2 ++ chunks events := by
  refine run_induction (motive := fun es s => s.link.owner.2 = c.link.owner.2 ++ chunks es) ?_ ?_
    .unconditional h
  · simp [chunks]
  · intro es s e s' _ ih _ hstep
    rw [step_record hstep, ih, List.append_assoc, chunks_append]

end Channel

/-- The byte strings that the message callback is called with in the run of `events` from `c`. -/
def Endpoint.delivered (E : Endpoint χ ο) (c : Channel χ) (events : List (ChannelEvent ο)) :
    Option (List (List UInt8)) :=
  (run (Channel.step E.recorded) ⟨c.link.mapOwner (·, []), c.users⟩ events).map (·.link.owner.2)

theorem Endpoint.delivered_eq_chunks (E : Endpoint χ ο) {c c' : Channel χ}
    {events : List (ChannelEvent ο)} (h : run (Channel.step E) c events = some c') :
    E.delivered c events = some (chunks events) := by
  have hrun := Channel.run_recorded (E := E) ⟨c.link.mapOwner (·, []), c.users⟩ events
  have hforget : Channel.forget ⟨c.link.mapOwner (·, ([] : List (List UInt8))), c.users⟩ = c := rfl
  rw [hforget, h] at hrun
  obtain ⟨d, hd, -⟩ := Option.map_eq_some_iff.1 hrun
  have hrec := Channel.run_record hd
  rw [Endpoint.delivered, hd, Option.map_some, hrec]
  rfl

/-- A run that runs into undefined behaviour delivers nothing that could be relied on. -/
theorem Endpoint.delivered_eq_none (E : Endpoint χ ο) {c : Channel χ}
    {events : List (ChannelEvent ο)} (h : run (Channel.step E) c events = none) :
    E.delivered c events = none := by
  have hrun := Channel.run_recorded (E := E) ⟨c.link.mapOwner (·, []), c.users⟩ events
  have hforget : Channel.forget ⟨c.link.mapOwner (·, ([] : List (List UInt8))), c.users⟩ = c := rfl
  rw [hforget, h, Option.map_eq_none_iff] at hrun
  rw [Endpoint.delivered, hrun, Option.map_none]

/-- When the receive completions deliver the bytes of `frames`, the message callback is called with
just these frames exactly if each completion delivered one of them and the pool has had the buffers
that the steps asked for. -/
theorem delivered_eq_frames_iff {E : Endpoint χ ο} (D : E.Draws) {c : Channel χ}
    {events : List (ChannelEvent ο)} {frames : List (List UInt8)} (hwf : c.link.pool.WF)
    (hpossible : Along (Channel.step E) (Channel.Possible E) c events)
    (hstream : (chunks events).flatten = frames.flatten) :
    E.delivered c events = some frames ↔
      (chunks events).map List.length = frames.map List.length ∧
        Along (Channel.step E) (fun c e => c.link.pool.Supplies (c.demand D e)) c events := by
  rw [← Channel.run_defined_iff D hwf hpossible]
  cases hrun : run (Channel.step E) c events with
  | none => simp [E.delivered_eq_none hrun]
  | some c' =>
    rw [E.delivered_eq_chunks hrun, Option.some.injEq, List.eq_iff_flatten_eq]
    exact ⟨fun h => ⟨h.2, c', rfl⟩, fun h => ⟨hstream, h.1⟩⟩

section Example

/-- A pool of four buffers. -/
def BufferPoolConfig.few : BufferPoolConfig where
  bufferSize := 128
  initialCount := 4
  maxCount := 4

/-- A client that waits for the responses 7 and 8, and the two responses. -/
def twoPending : RpcClient := { pendingRequests := (Dict.empty.set 7 0).set 8 1 }

def emptyResponse (requestId : UInt64) : List UInt8 :=
  (RpcServer.responseHeader requestId {} 0).encode ++ leEncode 4 0

theorem delivered_eq_frames_iff_single : ∃ c,
    Channel.start .few twoPending = .ok c ∧
    (RpcClient.endpoint.delivered c [.data (emptyResponse 7)] = some [emptyResponse 7] ↔
      [(emptyResponse 7).length] = [(emptyResponse 7).length] ∧
        Along (Channel.step RpcClient.endpoint)
          (fun c e => c.link.pool.Supplies (c.demand RpcClient.draws e)) c
          [.data (emptyResponse 7)]) := by
  obtain ⟨c, hc⟩ : ∃ c, Channel.start .few twoPending = .ok c := ⟨_, rfl⟩
  have hlen : (emptyResponse 7).length = 36 := by simp [emptyResponse, RpcHeader.SIZE]
  have hpossible : c.Possible RpcClient.endpoint (.data (emptyResponse 7)) := by
    obtain rfl := Except.ok.inj hc
    exact ⟨_, rfl, rfl, by rw [hlen]; decide, by rw [hlen]; decide⟩
  exact ⟨c, hc, delivered_eq_frames_iff RpcClient.draws (Channel.wf_start hc) (.singleton hpossible)
    rfl⟩

/-- Two responses that arrive in one receive completion are one message to the client. -/
theorem joined_frames_delivered_as_one : ∃ c,
    Channel.start .few twoPending = .ok c ∧
    (∀ id, (emptyResponse id).length ≤ BufferPoolConfig.few.bufferSize) ∧
    (chunks ([.data (emptyResponse 7 ++ emptyResponse 8)] : List (ChannelEvent Unit))).flatten =
      [emptyResponse 7, emptyResponse 8].flatten ∧
    RpcClient.endpoint.delivered c [.data (emptyResponse 7 ++ emptyResponse 8)] =
      some [emptyResponse 7 ++ emptyResponse 8] ∧
    RpcClient.endpoint.delivered c [.data (emptyResponse 7 ++ emptyResponse 8)] ≠
      some [emptyResponse 7, emptyResponse 8] := by
  have hlen : ∀ id, (emptyResponse id).length = 36 := fun id => by
    simp [emptyResponse, RpcHeader.SIZE]
  refine ⟨_, rfl, fun id => by rw [hlen]; decide, ?_, rfl, ?_⟩
  · simp [chunks]
  · intro h
    have h' : [emptyResponse 7 ++ emptyResponse 8] = [emptyResponse 7, emptyResponse 8] :=
      Option.some.inj h
    simp at h'

end Example

end GossipRl
