import GossipRl.Rpc.PendingFutures

/-!
# Short sends

The kernel may take only a part of a frame. The completion callback of `send` treats any result that
is not negative as a success and does not compare it with the length of the frame: a short send is
reported and counted as if it were whole, and nothing submits the rest of the frame.
-/

namespace GossipRl
open Support

variable {χ ο : Type*}

namespace Link
variable {l l' : Link χ} {onSent : UInt64 → Bool → χ → χ} {i : Nat} {result : Int} {op : SendOp}

/-- What the completion of a send tells the callback of that send: a recorder is put in the place of
the owner. -/
def reports (l : Link χ) (i : Nat) (result : Int) : List (UInt64 × Bool) :=
  ((l.mapOwner fun _ => []).sendCompletion
    (fun requestId success told => told ++ [(requestId, success)]) i result).elim [] Link.owner

theorem reports_eq (hop : l.conn.sends[i]? = some op) :
    l.reports i result = op.callback.toList.map (·, decide (0 ≤ result)) := by
  cases hcb : op.callback with
  | none => simp [reports, sendCompletion, mapOwner, hop, hcb]
  | some requestId => simp [reports, sendCompletion, mapOwner, hop, hcb]

theorem conn_sendCompletion (hop : l.conn.sends[i]? = some op)
    (h : l.sendCompletion onSent i result = some l') :
    l'.conn.sends = l.conn.sends.eraseIdx i ∧
    (0 ≤ result → l'.conn.stats.messagesSent = l.conn.stats.messagesSent + 1 ∧
      l'.conn.stats.errors = l.conn.stats.errors) ∧
    (result < 0 → l'.conn.stats.messagesSent = l.conn.stats.messagesSent) := by
  unfold sendCompletion at h
  rw [hop] at h
  obtain rfl := Option.some.inj h
  refine ⟨rfl, fun hpos => ?_, fun hneg => ?_⟩
  · simp only [if_pos hpos, and_self]
  · simp only [if_neg (Int.not_le.2 hneg)]

/-- The callback of the send is told of a failure, or an error is counted. -/
def ReportsFailure (l l' : Link χ) (i : Nat) (result : Int) : Prop :=
  (∃ requestId, (requestId, false) ∈ l.reports i result) ∨
    l'.conn.stats.errors ≠ l.conn.stats.errors

/-- Of the sends submitted from the completion on, the first has the rest of the frame. -/
def SubmitsRest (l l' : Link χ) (i : Nat) (result : Int) (op : SendOp) : Prop :=
  ∃ next later, l'.conn.sends = l.conn.sends.eraseIdx i ++ next :: later ∧
    next.buffer.bytes = op.buffer.bytes.drop result.toNat

/-- From `l` to `l'` the `i`-th send, `op`, completes with `result`: success is told and counted only
if the socket has taken the whole frame, and a short send is gone on with or reported. -/
structure CompletesWhole (l l' : Link χ) (i : Nat) (result : Int) (op : SendOp) : Prop where
  told : ∀ requestId, (requestId, true) ∈ l.reports i result → op.buffer.bytes.length ≤ result
  counted : l'.conn.stats.messagesSent ≠ l.conn.stats.messagesSent →
    op.buffer.bytes.length ≤ result
  rest : 0 ≤ result → result < op.buffer.bytes.length →
    l.ReportsFailure l' i result ∨ l.SubmitsRest l' i result op

/-- A completion does what it should exactly if the send failed or was not short. -/
theorem completesWhole_iff (hop : l.conn.sends[i]? = some op)
    (h : l.sendCompletion onSent i result = some l') :
    l.CompletesWhole l' i result op ↔ result < 0 ∨ op.buffer.bytes.length ≤ result := by
  obtain ⟨-, hsuccess, hfailure⟩ := conn_sendCompletion hop h
  constructor
  · intro hwhole
    rcases Int.lt_or_le result 0 with hneg | hpos
    · exact .inl hneg
    · refine .inr (hwhole.counted ?_)
      rw [(hsuccess hpos).1]
      simp
  · rintro (hneg | hfull)
    · refine ⟨fun requestId htold => ?_, fun hcounted => absurd (hfailure hneg) hcounted,
        fun hpos => absurd hneg (Int.not_lt.2 hpos)⟩
      rw [reports_eq hop] at htold
      obtain ⟨id, -, heq⟩ := List.mem_map.1 htold
      have htrue : decide (0 ≤ result) = true := (Prod.mk.inj heq).2
      exact absurd hneg (Int.not_lt.2 (of_decide_eq_true htrue))
    · exact ⟨fun _ _ => hfull, fun _ => hfull, fun _ hshort => absurd hfull (Int.not_le.2 hshort)⟩

end Link

namespace Channel

/-- A completion of a send does what it should. -/
def CompletesWhole (E : Endpoint χ ο) (c : Channel χ) : ChannelEvent ο → Prop
  | .sent i result => ∀ op l', c.link.conn.sends[i]? = some op →
      c.link.sendCompletion E.onSent i result = some l' → c.link.CompletesWhole l' i result op
  | _ => True

/-- The kernel takes a frame as a whole or not at all. -/
def NotShort (c : Channel χ) : ChannelEvent ο → Prop
  | .sent i result => ∀ op, c.link.conn.sends[i]? = some op →
      result < 0 ∨ op.buffer.bytes.length ≤ result
  | _ => True

theorem completesWhole_iff_notShort (E : Endpoint χ ο) (c : Channel χ) (e : ChannelEvent ο) :
    c.CompletesWhole E e ↔ c.NotShort e := by
  cases e with
  | sent i result =>
    refine forall_congr' fun op => ⟨fun h hop => ?_, fun h l' hop hl' => ?_⟩
    · obtain ⟨l', hl'⟩ : ∃ l', c.link.sendCompletion E.onSent i result = some l' :=
        ⟨_, by rw [Link.sendCompletion, hop]⟩
      exact (Link.completesWhole_iff hop hl').1 (h l' hop hl')
    · exact (Link.completesWhole_iff hop hl').2 (h hop)
  | data bs => exact Iff.rfl
  | ended result => exact Iff.rfl
  | pool call => exact Iff.rfl
  | late op => exact Iff.rfl

end Channel

/-- In a run every send is reported and counted as sent only once the socket has the whole frame, and
what is left of it is submitted next or its failure reported, exactly if no send of the run is
short. -/
theorem sends_complete_whole_iff (E : Endpoint χ ο) (c : Channel χ) (events : List (ChannelEvent ο)) :
    Along (Channel.step E) (Channel.CompletesWhole E) c events ↔
      Along (Channel.step E) Channel.NotShort c events :=
  Along.congr fun _ e c _ _ => Channel.completesWhole_iff_notShort E c e

section Example

/-- Of the 32 bytes of a call the kernel takes five: the call is told that it was sent, a message is
counted, and the other bytes are not submitted. -/
theorem short_send_counts_as_sent : ∃ c₀ c c' : Channel RpcClient,
    Channel.start .few {} = .ok c₀ ∧
    run (Channel.step RpcClient.session) c₀ [callOne] = some c ∧
    c.link.conn.sends.map (·.buffer.bytes.length) = [32] ∧
    c.step RpcClient.session (.sent 0 5) = some c' ∧
    c.link.reports 0 5 = [(1, true)] ∧ c'.link.conn.stats.messagesSent = 1 ∧
    c'.link.conn.sends = [] ∧
    ¬ Along (Channel.step RpcClient.session) (Channel.CompletesWhole RpcClient.session) c₀
      [callOne, .sent 0 5] := by
  refine ⟨_, _, _, rfl, rfl, by decide, rfl, by decide, by decide, rfl, fun h => ?_⟩
  have hwhole := h [callOne] (.sent 0 5) [] _ rfl rfl _ _ rfl rfl
  exact absurd (hwhole.counted (by decide)) (by decide)

end Example

end GossipRl
