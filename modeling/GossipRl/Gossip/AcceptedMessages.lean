import GossipRl.Gossip.WireRoundTrip

/-!
# The bytes that `unpack` accepts

`unpack` does not look at every bit: flags that it does not know are skipped, the flag of the indices
counts only beside that of the gradient, and of the payload it takes what is there. Apart from that
it accepts what `pack` writes and nothing else (`unpack_eq_some_iff`): `frontWith` is a front with the
flags and the length of the payload that the bytes have. So a message that was unpacked can be packed
again, and bytes that several messages were packed into have one reading.
-/

namespace GossipRl
open Support

theorem MessageType.value_of_ofValue {n : Nat} {t : MessageType} (h : ofValue n = some t) :
    t.value = n := by
  unfold ofValue at h
  split at h
  all_goals first
    | obtain rfl := Option.some.inj h
      rfl
    | cases h

namespace NpArray

/-- A one-dimensional array, which is all that `np.frombuffer` gives. -/
def IsFlat (dtype : DType) (a : NpArray) : Prop := a.dtype = dtype ∧ ∃ n, a.shape = [n]

theorem isFlat_of_frombuffer {dtype : DType} {data : List UInt8} {a : NpArray}
    (h : frombuffer dtype data = some a) : a.IsFlat dtype ∧ a.bytes = data := by
  unfold frombuffer at h
  split at h
  · obtain rfl := Option.some.inj h
    exact ⟨⟨rfl, _, rfl⟩, rfl⟩
  · cases h

theorem IsFlat.frombuffer {dtype : DType} {a : NpArray} (h : a.IsFlat dtype)
    (hsize : 0 < dtype.itemsize) : frombuffer dtype a.bytes = some a := by
  obtain ⟨rfl, n, hn⟩ := h
  exact frombuffer_bytes hn hsize

end NpArray

namespace GradientFields
variable {g : GradientFields}

/-- The flags say which arrays there are. -/
structure Flagged (flags : UInt8) (g : GradientFields) : Prop where
  gradient : flags &&& 0x02 ≠ 0 ↔ g.gradientData ≠ none
  indices : g.gradientData ≠ none → (flags &&& 0x04 ≠ 0 ↔ g.indices ≠ none)

/-- The fields are what `unpack` can give: without a gradient all are left at their defaults. -/
def Plain (g : GradientFields) : Prop :=
  match g.gradientData with
  | none => g = {}
  | some gradients => gradients.IsFlat .float32 ∧ ∀ i, g.indices = some i → i.IsFlat .int64

theorem Plain.received (h : g.Plain) : g.received = some g := by
  obtain ⟨gradientData, indices, modelVersion, step⟩ := g
  cases gradientData with
  | none =>
    obtain ⟨-, rfl, rfl, rfl⟩ := GradientFields.mk.inj h
    rfl
  | some gradients =>
    obtain ⟨hgradients, hindices⟩ := h
    have hg := hgradients.frombuffer (by decide)
    cases indices with
    | none => simp [GradientFields.received, receivedIndices, hg]
    | some indices =>
      have hi := (hindices indices rfl).frombuffer (by decide)
      simp [GradientFields.received, receivedIndices, hg, hi]

end GradientFields

open GradientFields

section Reading
variable {flags : UInt8} {data : List UInt8} {off off' : Nat}

/-- What is read from the offset `off` to `off'` is `bs`. -/
def Occupies (data : List UInt8) (off off' : Nat) (bs : List UInt8) : Prop :=
  off' = off + bs.length ∧ data.drop off = bs ++ data.drop off'

theorem Occupies.nil : Occupies data off off [] := ⟨rfl, rfl⟩

theorem Occupies.append {bs bs' : List UInt8} {off'' : Nat} (h : Occupies data off off' bs)
    (h' : Occupies data off' off'' bs') : Occupies data off off'' (bs ++ bs') := by
  obtain ⟨rfl, hdrop⟩ := h
  obtain ⟨rfl, hdrop'⟩ := h'
  refine ⟨by rw [List.length_append, Nat.add_assoc], ?_⟩
  rw [hdrop, hdrop', List.append_assoc]

theorem occupies_of_beRead {k n : Nat} (h : beRead k data off = some n) :
    Occupies data off (off + k) (beEncode k n) :=
  ⟨by rw [length_beEncode], (drop_of_beRead h).2⟩

theorem occupies_slice {k : Nat} (h : off + k ≤ data.length) :
    Occupies data off (off + k) (slice data off k) :=
  ⟨by rw [length_slice h], drop_eq_slice_append data off k⟩

theorem occupies_getElem {b : UInt8} (h : data[off]? = some b) : Occupies data off (off + 1) [b] := by
  obtain ⟨hlt, rfl⟩ := List.getElem?_eq_some_iff.1 h
  exact ⟨rfl, List.drop_eq_getElem_cons hlt⟩

theorem occupies_unpackTarget {targetId : Option String}
    (h : unpackTarget flags data off = some (targetId, off')) (hle : off' ≤ data.length) :
    (flags &&& 0x01 ≠ 0 ↔ targetId ≠ none) ∧
      (∀ t, targetId = some t → (utf8Encode t).length < 256 ^ 2) ∧
      Occupies data off off' (targetBytes targetId) := by
  unfold unpackTarget at h
  split at h
  · rename_i hflag
    obtain ⟨length, hlength, h⟩ := Option.bind_eq_some_iff.1 h
    obtain ⟨t, ht, h⟩ := Option.bind_eq_some_iff.1 h
    obtain ⟨rfl, rfl⟩ := Prod.mk.inj (Option.some.inj h)
    have hbytes := utf8Encode_of_utf8Decode ht
    have hlen : (utf8Encode t).length = length := by rw [hbytes, length_slice hle]
    refine ⟨iff_of_true hflag (by simp), ?_, ?_⟩
    · rintro _ ⟨⟩
      rw [hlen]
      exact beRead_lt hlength
    · rw [targetBytes, hlen, hbytes]
      exact (occupies_of_beRead hlength).append (occupies_slice hle)
  · rename_i hflag
    obtain ⟨rfl, rfl⟩ := Prod.mk.inj (Option.some.inj h)
    exact ⟨iff_of_false hflag (by simp), by rintro t ⟨⟩, .nil⟩

theorem occupies_unpackIndices {indices : Option NpArray}
    (h : unpackIndices flags data off = some (indices, off')) (hle : off' ≤ data.length) :
    (flags &&& 0x04 ≠ 0 ↔ indices ≠ none) ∧ (∀ i, indices = some i → i.IsFlat .int64) ∧
      Occupies data off off' (indicesBytes indices) := by
  unfold unpackIndices at h
  split at h
  · rename_i hflag
    obtain ⟨length, hlength, h⟩ := Option.bind_eq_some_iff.1 h
    obtain ⟨i, hi, h⟩ := Option.bind_eq_some_iff.1 h
    obtain ⟨rfl, rfl⟩ := Prod.mk.inj (Option.some.inj h)
    obtain ⟨hflat, hbytes⟩ := NpArray.isFlat_of_frombuffer hi
    refine ⟨iff_of_true hflag (by simp), by rintro _ ⟨⟩; exact hflat, ?_⟩
    rw [indicesBytes, hbytes, length_slice hle]
    exact (occupies_of_beRead hlength).append (occupies_slice hle)
  · rename_i hflag
    obtain ⟨rfl, rfl⟩ := Prod.mk.inj (Option.some.inj h)
    exact ⟨iff_of_false hflag (by simp), by rintro i ⟨⟩, .nil⟩

theorem occupies_unpackGradient {g : GradientFields}
    (h : unpackGradient flags data off = some (g, off')) (hle : off' ≤ data.length) :
    g.Flagged flags ∧ g.Plain ∧ g.Fits ∧ Occupies data off off' g.gradientBytes := by
  unfold unpackGradient at h
  split at h
  · rename_i hflag
    obtain ⟨modelVersion, hversion, h⟩ := Option.bind_eq_some_iff.1 h
    obtain ⟨step, hstep, h⟩ := Option.bind_eq_some_iff.1 h
    obtain ⟨length, hlength, h⟩ := Option.bind_eq_some_iff.1 h
    obtain ⟨gradients, hgradients, h⟩ := Option.bind_eq_some_iff.1 h
    obtain ⟨⟨indices, off₁⟩, hindices, h⟩ := Option.bind_eq_some_iff.1 h
    obtain ⟨rfl, rfl⟩ := Prod.mk.inj (Option.some.inj h)
    obtain ⟨hflat, hbytes⟩ := NpArray.isFlat_of_frombuffer hgradients
    obtain ⟨hflag', hflat', hocc⟩ := occupies_unpackIndices hindices hle
    have hlen : off + 24 + length ≤ data.length := by
      have := hocc.1
      omega
    refine ⟨⟨iff_of_true hflag (by simp), fun _ => hflag'⟩, ⟨hflat, hflat'⟩, fun _ => ?_, ?_⟩
    · have := beRead_lt hversion
      have := beRead_lt hstep
      simp only
      omega
    · rw [gradientBytes]
      simp only [hbytes, length_slice hlen, Int.toNat_natCast]
      exact (occupies_of_beRead hversion).append ((occupies_of_beRead hstep).append
        ((occupies_of_beRead hlength).append ((occupies_slice hlen).append hocc)))
  · rename_i hflag
    obtain ⟨rfl, rfl⟩ := Prod.mk.inj (Option.some.inj h)
    refine ⟨⟨iff_of_false hflag (by simp), fun hne => absurd rfl hne⟩, rfl, fun hne => absurd rfl hne, .nil⟩

end Reading

namespace WireMessage
variable {m m' : WireMessage} {data rest : List UInt8} {flags : UInt8} {n : Nat}

/-- The bytes before the payload, with these flags and this length of the payload. -/
def frontWith (flags : UInt8) (n : Nat) (m : WireMessage) : List UInt8 :=
  beEncode 1 m.type.value ++ (beEncode 2 (utf8Encode m.senderId).length ++
    (utf8Encode m.senderId ++ (beEncode 8 m.sequence.toNat ++ (beEncode 8 m.timestamp.toNat ++
      ([flags] ++ (targetBytes m.targetId ++ (m.gradientBytes ++
        (beEncode 4 m.incarnation.toNat ++ beEncode 4 n))))))))

/-- The message is one that `unpack` can give, from bytes with these flags. -/
structure Unpacked (flags : UInt8) (n : Nat) (rest : List UInt8) (m : WireMessage) : Prop where
  sender : (utf8Encode m.senderId).length < 256 ^ 2
  sequence : 0 ≤ m.sequence ∧ m.sequence < 256 ^ 8
  targetFlag : flags &&& 0x01 ≠ 0 ↔ m.targetId ≠ none
  target : ∀ t, m.targetId = some t → (utf8Encode t).length < 256 ^ 2
  flagged : m.Flagged flags
  plain : m.Plain
  fits : m.Fits
  incarnation : 0 ≤ m.incarnation ∧ m.incarnation < 256 ^ 4
  length : n < 256 ^ 4
  /-- Of the payload there is what there is, at most as long as it should be. -/
  payload : m.payload = if n > 0 then some (rest.take n) else none

theorem unpacked_of_unpack (h : unpack data = some m) :
    ∃ flags n rest, data = m.frontWith flags n ++ rest ∧ m.Unpacked flags n rest := by
  unfold unpack at h
  obtain ⟨msgType, hmsgType, h⟩ := Option.bind_eq_some_iff.1 h
  obtain ⟨senderLen, hsenderLen, h⟩ := Option.bind_eq_some_iff.1 h
  obtain ⟨senderId, hsenderId, h⟩ := Option.bind_eq_some_iff.1 h
  obtain ⟨sequence, hsequence, h⟩ := Option.bind_eq_some_iff.1 h
  obtain ⟨timestamp, htimestamp, h⟩ := Option.bind_eq_some_iff.1 h
  obtain ⟨flags, hflags, h⟩ := Option.bind_eq_some_iff.1 h
  obtain ⟨⟨targetId, off₁⟩, htarget, h⟩ := Option.bind_eq_some_iff.1 h
  obtain ⟨⟨gradient, off₂⟩, hgradient, h⟩ := Option.bind_eq_some_iff.1 h
  obtain ⟨incarnation, hincarnation, h⟩ := Option.bind_eq_some_iff.1 h
  obtain ⟨payloadLen, hpayloadLen, h⟩ := Option.bind_eq_some_iff.1 h
  obtain ⟨type, htype, h⟩ := Option.bind_eq_some_iff.1 h
  obtain rfl := Option.some.inj h
  have hle : off₂ ≤ data.length := by
    have := (drop_of_beRead hincarnation).1
    omega
  obtain ⟨hflagged, hplain, hfits, hoccGradient⟩ := occupies_unpackGradient hgradient hle
  have hle₁ : off₁ ≤ data.length := by
    have := hoccGradient.1
    omega
  obtain ⟨htargetFlag, htargetLen, hoccTarget⟩ := occupies_unpackTarget htarget hle₁
  have hle₀ : 3 + senderLen ≤ data.length := by
    have := (drop_of_beRead hsequence).1
    omega
  have hsender := utf8Encode_of_utf8Decode hsenderId
  have hsenderLength : (utf8Encode senderId).length = senderLen := by
    rw [hsender, length_slice hle₀]
  have hsequenceLt : (sequence : Int) < 256 ^ 8 := by exact_mod_cast beRead_lt hsequence
  have hincarnationLt : (incarnation : Int) < 256 ^ 4 := by exact_mod_cast beRead_lt hincarnation
  have htime : (UInt64.ofNat timestamp).toNat = timestamp :=
    UInt64.toNat_ofNat_of_lt' (beRead_lt htimestamp)
  have hocc : Occupies data 0 (off₂ + 4 + 4) (frontWith flags payloadLen
      { type := type
        senderId := senderId
        sequence := sequence
        targetId := targetId
        incarnation := incarnation
        toGradientFields := gradient
        timestamp := UInt64.ofNat timestamp }) := by
    simp only [frontWith, Int.toNat_natCast, MessageType.value_of_ofValue htype, htime,
      hsender, length_slice hle₀]
    exact (occupies_of_beRead hmsgType).append ((occupies_of_beRead hsenderLen).append
      ((occupies_slice hle₀).append ((occupies_of_beRead hsequence).append
        ((occupies_of_beRead htimestamp).append ((occupies_getElem hflags).append
          (hoccTarget.append (hoccGradient.append
            ((occupies_of_beRead hincarnation).append (occupies_of_beRead hpayloadLen)))))))))
  refine ⟨flags, payloadLen, data.drop (off₂ + 8), hocc.2, ?_⟩
  exact {
    sender := hsenderLength ▸ beRead_lt hsenderLen
    sequence := ⟨Int.natCast_nonneg _, hsequenceLt⟩
    targetFlag := htargetFlag
    target := htargetLen
    flagged := hflagged
    plain := hplain
    fits := hfits
    incarnation := ⟨Int.natCast_nonneg _, hincarnationLt⟩
    length := beRead_lt hpayloadLen
    payload := rfl }

theorem unpack_of_unpacked (h : m.Unpacked flags n rest) :
    unpack (m.frontWith flags n ++ rest) = some m := by
  obtain ⟨data, hdata⟩ : ∃ data, data = m.frontWith flags n ++ rest := ⟨_, rfl⟩
  rw [← hdata]
  have h₀ : data.drop 0 = m.frontWith flags n ++ rest := hdata
  simp only [frontWith, List.append_assoc] at h₀
  have h₁ := drop_add h₀ (length_beEncode 1 _)
  have h₂ := drop_add h₁ (length_beEncode 2 _)
  have h₃ := drop_add h₂ rfl
  have h₄ := drop_add h₃ (length_beEncode 8 _)
  have h₅ := drop_add h₄ (length_beEncode 8 _)
  have h₆ := drop_add h₅ (k := 1) rfl
  have h₇ := drop_add h₆ rfl
  have h₈ := drop_add h₇ rfl
  have h₉ := drop_add h₈ (length_beEncode 4 _)
  have h₁₀ := drop_add h₉ (length_beEncode 4 _)
  have hsequence : m.sequence.toNat < 256 ^ 8 := by
    have := h.sequence
    omega
  have hincarnation : m.incarnation.toNat < 256 ^ 4 := by
    have := h.incarnation
    omega
  have hsender : utf8Decode (slice data 3 (utf8Encode m.senderId).length) = some m.senderId := by
    rw [slice_of_drop h₂ rfl, utf8Decode_utf8Encode]
  unfold unpack
  refine (bind_of_eq_some (beRead_of_drop h₀ (by decide) m.type.value_lt)).trans ?_
  refine (bind_of_eq_some (beRead_of_drop h₁ (by decide) h.sender)).trans ?_
  refine (bind_of_eq_some hsender).trans ?_
  refine (bind_of_eq_some (beRead_of_drop h₃ (by decide) hsequence)).trans ?_
  refine (bind_of_eq_some (beRead_of_drop h₄ (by decide) m.timestamp.toNat_lt)).trans ?_
  refine (bind_of_eq_some (getElem?_of_drop h₅)).trans ?_
  refine (bind_of_eq_some (unpackTarget_of_drop h.targetFlag h.target h₆)).trans ?_
  dsimp only
  rw [unpackGradient_of_drop h.flagged.gradient h.flagged.indices h.fits h₇, h.plain.received]
  refine (bind_of_eq_some rfl).trans ?_
  refine (bind_of_eq_some (beRead_of_drop h₈ (by decide) hincarnation)).trans ?_
  refine (bind_of_eq_some (beRead_of_drop h₉ (by decide) h.length)).trans ?_
  refine (bind_of_eq_some m.type.ofValue_value).trans ?_
  simp only [slice, h₁₀, ← h.payload, Int.toNat_of_nonneg h.sequence.1,
    Int.toNat_of_nonneg h.incarnation.1, UInt64.ofNat_toNat]

end WireMessage

open WireMessage

variable {m : WireMessage} {data : List UInt8}

/-- `unpack` gives a message exactly for the bytes that have its fields in the order of `pack`, with
flags that say which there are, and whatever follows the payload. -/
theorem unpack_eq_some_iff : unpack data = some m ↔
    ∃ flags n rest, data = m.frontWith flags n ++ rest ∧ m.Unpacked flags n rest := by
  constructor
  · exact unpacked_of_unpack
  · rintro ⟨flags, n, rest, rfl, h⟩
    exact unpack_of_unpacked h

namespace WireMessage

/-- The message as `pack` takes it: an empty payload is none. -/
def normal (m : WireMessage) : WireMessage := { m with payload := m.payload.filter (· ≠ []) }

theorem counters_of_unpacked {flags : UInt8} {n : Nat} {rest : List UInt8}
    (h : m.Unpacked flags n rest) :
    (0 ≤ m.modelVersion ∧ m.modelVersion < 256 ^ 8) ∧ 0 ≤ m.step ∧ m.step < 256 ^ 8 := by
  cases hg : m.gradientData with
  | none =>
    have hplain := h.plain
    rw [Plain, hg] at hplain
    obtain ⟨-, -, hversion, hstep⟩ := GradientFields.mk.inj hplain
    rw [hversion, hstep]
    decide
  | some gradients => exact h.fits (by rw [hg]; exact Option.some_ne_none _)

theorem carried_normal {flags : UInt8} {n : Nat} {rest : List UInt8}
    (h : m.Unpacked flags n rest) : m.normal.Carried where
  sender := Nat.le_of_lt_succ h.sender
  target t ht := Nat.le_of_lt_succ (h.target t ht)
  sequence := h.sequence
  modelVersion := (counters_of_unpacked h).1
  step := (counters_of_unpacked h).2
  incarnation := h.incarnation
  payload p hp := by
    obtain ⟨hpayload, hne⟩ := Option.filter_eq_some_iff.1 hp
    have hlen := h.length
    rw [h.payload] at hpayload
    split at hpayload
    · obtain rfl := Option.some.inj hpayload
      refine ⟨List.length_pos_iff.2 (of_decide_eq_true hne), ?_⟩
      rw [List.length_take]
      omega
    · cases hpayload
  gradient := by
    have hplain := h.plain
    cases hg : m.gradientData with
    | none =>
      rw [Plain, hg] at hplain
      obtain ⟨-, hindices, hversion, hstep⟩ := GradientFields.mk.inj hplain
      exact .inr ⟨hg, hversion, hstep, hindices⟩
    | some gradients =>
      rw [Plain, hg] at hplain
      exact .inl ⟨gradients, hg, hplain.1.1, hplain.1.2, fun i hi => hplain.2 i hi⟩

theorem pack_normal (m : WireMessage) : m.normal.pack = m.pack := by
  have hpayload : m.normal.payloadBytes = m.payloadBytes := by
    unfold payloadBytes normal
    rcases m.payload with _ | _ | ⟨b, p⟩ <;> rfl
  unfold pack
  rw [hpayload]
  rfl

end WireMessage

/-- A message is unpacked from its own bytes, whatever comes after them. -/
theorem unpack_append (hm : m.Carried) {bytes : List UInt8} (hpack : m.pack = some bytes)
    (rest : List UInt8) : unpack (bytes ++ rest) = some m := by
  obtain ⟨hpacks, rfl⟩ := pack_eq_some_iff.1 hpack
  rw [unpack_front hpacks (List.append_assoc ..), hm.received, Option.map_some, List.take_left,
    hm.payload_eq]

/-- What was unpacked can be packed, and unpacked from that again; only an empty payload, which comes
of a message that was cut, is lost. -/
theorem unpacked_message_packs (h : unpack data = some m) :
    ∃ bytes, m.pack = some bytes ∧ unpack bytes = some m.normal := by
  obtain ⟨flags, n, rest, -, hm⟩ := unpack_eq_some_iff.1 h
  have hcarried := carried_normal hm
  have hpack : m.normal.pack = some (m.normal.front ++ m.normal.payloadBytes) :=
    pack_eq_some_iff.2 ⟨hcarried.packs, rfl⟩
  have hunpack := unpack_append hcarried hpack []
  rw [List.append_nil] at hunpack
  exact ⟨_, pack_normal m ▸ hpack, hunpack⟩

section Example

/-- The payload that is announced is missing altogether. -/
theorem unpacked_message_packs_cut : ∃ m bytes,
    unpack (payloadPingBytes.take 32) = some m ∧ m.payload = some [] ∧
    m.pack = some bytes ∧ unpack bytes = some m.normal := by
  obtain ⟨m, hm, hpayload⟩ : ∃ m, unpack (payloadPingBytes.take 32) = some m ∧
      m.payload = some [] := by
    refine ⟨{ payloadPing with payload := some [] }, ?_, rfl⟩
    decide
  obtain ⟨bytes, hpack, hunpack⟩ := unpacked_message_packs hm
  exact ⟨m, bytes, hm, hpayload, hpack, hunpack⟩

end Example

theorem mapM_pack_cons {ms : List WireMessage} {chunks : List (List UInt8)} :
    (m :: ms).mapM pack = some chunks ↔
      ∃ bytes rest, m.pack = some bytes ∧ ms.mapM pack = some rest ∧ bytes :: rest = chunks := by
  simp [List.mapM_cons, Option.bind_eq_some_iff]

theorem unpack_flatten {ms : List WireMessage} (hm : m.Carried) {chunks : List (List UInt8)}
    (hpack : (m :: ms).mapM pack = some chunks) : unpack chunks.flatten = some m := by
  obtain ⟨bytes, rest, hbytes, -, rfl⟩ := mapM_pack_cons.1 hpack
  exact unpack_append hm hbytes rest.flatten

/-- Bytes that messages were packed into, one after the other, have one reading: the format marks
where a message ends. -/
theorem packed_messages_eq {ms ms' : List WireMessage} (hms : ∀ m ∈ ms, m.Carried)
    (hms' : ∀ m ∈ ms', m.Carried) {chunks chunks' : List (List UInt8)}
    (hpack : ms.mapM pack = some chunks) (hpack' : ms'.mapM pack = some chunks')
    (hbytes : chunks.flatten = chunks'.flatten) : ms = ms' := by
  have hnil : unpack ([] : List (List UInt8)).flatten = none := rfl
  induction ms generalizing ms' chunks chunks' with
  | nil =>
    obtain rfl : [] = chunks := Option.some.inj hpack
    cases ms' with
    | nil => rfl
    | cons m' ms' =>
      have hread := unpack_flatten (hms' m' List.mem_cons_self) hpack'
      rw [← hbytes, hnil] at hread
      cases hread
  | cons m ms ih =>
    have hread := unpack_flatten (hms m List.mem_cons_self) hpack
    cases ms' with
    | nil =>
      obtain rfl : [] = chunks' := Option.some.inj hpack'
      rw [hbytes, hnil] at hread
      cases hread
    | cons m' ms' =>
      -- both sides start with the same message, so with the same bytes
      have hread' := unpack_flatten (hms' m' List.mem_cons_self) hpack'
      obtain rfl : m = m' := Option.some.inj ((hbytes ▸ hread).symm.trans hread')
      obtain ⟨bytes, rest, hm, hrest, rfl⟩ := mapM_pack_cons.1 hpack
      obtain ⟨bytes', rest', hm', hrest', rfl⟩ := mapM_pack_cons.1 hpack'
      obtain rfl := Option.some.inj (hm.symm.trans hm')
      rw [List.flatten_cons, List.flatten_cons, List.append_cancel_left_eq] at hbytes
      rw [ih (fun x hx => hms x (List.mem_cons_of_mem m hx))
        (fun x hx => hms' x (List.mem_cons_of_mem m hx)) hrest hrest' hbytes]

section Example

theorem carried_payloadPing : payloadPing.Carried := by
  refine ⟨by decide, ?_, by decide, by decide, by decide, by decide, ?_, .inr ⟨rfl, rfl, rfl, rfl⟩⟩
  · rintro t ⟨⟩
    decide
  · rintro p ⟨⟩
    decide

theorem packed_messages_eq_two :
    [payloadPing, payloadPing] = [payloadPing, { payloadPing with payload := some ([7] ++ [8]) }] := by
  have hcarried : ∀ m ∈ [payloadPing, payloadPing], m.Carried := by
    intro m hm
    have : m = payloadPing := by simpa using hm
    exact this ▸ carried_payloadPing
  have hpack : [payloadPing, payloadPing].mapM pack = some [payloadPingBytes, payloadPingBytes] := by
    decide
  exact packed_messages_eq hcarried hcarried hpack hpack rfl

end Example

end GossipRl
