import GossipRl.Gossip.Wire

/-!
# What `unpack` makes of packed bytes

A message that packs gives `front ++ payloadBytes`: everything up to the length of the payload, then
the payload. `unpack_front` says what `unpack` gets from a front and whatever follows it, and
`front_le_of_unpack_take` that it gets nothing from less than a front, since every field before
is read at an offset that the lengths read before fix.
-/

namespace GossipRl
open Support

def targetBytes : Option String → List UInt8
  | none => []
  | some targetId => beEncode 2 (utf8Encode targetId).length ++ utf8Encode targetId

def indicesBytes : Option NpArray → List UInt8
  | none => []
  | some indices => beEncode 8 indices.bytes.length ++ indices.bytes

theorem packInt_eq_some_iff {k : Nat} {n : Int} {bs : List UInt8} :
    packInt k n = some bs ↔ (0 ≤ n ∧ n < 256 ^ k) ∧ beEncode k n.toNat = bs := by
  by_cases h : 0 ≤ n ∧ n < 256 ^ k
  · simp [packInt, h]
  · simp [packInt, h]

theorem packInt_length (k n : Nat) (h : n < 256 ^ k) : packInt k n = some (beEncode k n) :=
  packInt_eq_some_iff.2 ⟨⟨by omega, by exact_mod_cast h⟩, by simp⟩

theorem NpArray.length_lt (a : NpArray) : a.bytes.length < 256 ^ 8 := by
  have := a.size_lt
  omega

theorem packIndices_eq (indices : Option NpArray) :
    packIndices indices = some (indicesBytes indices) := by
  cases indices with
  | none => rfl
  | some indices => simp [packIndices, indicesBytes, packInt_length 8 _ indices.length_lt]

theorem packTarget_eq_some_iff {targetId : Option String} {bs : List UInt8} :
    packTarget targetId = some bs ↔
      (∀ t, targetId = some t → (utf8Encode t).length < 256 ^ 2) ∧ targetBytes targetId = bs := by
  cases targetId with
  | none => simp [packTarget, targetBytes]
  | some t =>
    simp only [packTarget, Option.bind_eq_bind, Option.bind_eq_some_iff, packInt_eq_some_iff,
      targetBytes, Option.some.injEq, forall_eq']
    constructor
    · rintro ⟨_, ⟨⟨-, hlt⟩, rfl⟩, rfl⟩
      exact ⟨by exact_mod_cast hlt, by simp⟩
    · rintro ⟨hlt, rfl⟩
      exact ⟨_, ⟨⟨by omega, by exact_mod_cast hlt⟩, rfl⟩, by simp⟩

namespace GradientFields
variable {g : GradientFields}

def gradientBytes (g : GradientFields) : List UInt8 :=
  match g.gradientData with
  | none => []
  | some gradients =>
    beEncode 8 g.modelVersion.toNat ++ (beEncode 8 g.step.toNat ++
      (beEncode 8 gradients.bytes.length ++ (gradients.bytes ++ indicesBytes g.indices)))

/-- The counters fit, if they are packed. -/
def Fits (g : GradientFields) : Prop :=
  g.gradientData ≠ none →
    (0 ≤ g.modelVersion ∧ g.modelVersion < 256 ^ 8) ∧ 0 ≤ g.step ∧ g.step < 256 ^ 8

theorem packGradient_eq_some_iff {bs : List UInt8} :
    g.packGradient = some bs ↔ g.Fits ∧ g.gradientBytes = bs := by
  obtain ⟨gradientData, indices, modelVersion, step⟩ := g
  cases gradientData with
  | none => simp [packGradient, gradientBytes, Fits]
  | some gradients =>
    simp only [packGradient, gradientBytes, Fits, packIndices_eq, Option.bind_eq_bind,
      Option.bind_eq_some_iff, packInt_eq_some_iff, packInt_length 8 _ gradients.length_lt,
      Option.some.injEq, exists_eq_left']
    constructor
    · rintro ⟨_, ⟨hversion, rfl⟩, _, ⟨hstep, rfl⟩, rfl⟩
      exact ⟨fun _ => ⟨hversion, hstep⟩, by simp⟩
    · rintro ⟨hfits, rfl⟩
      obtain ⟨hversion, hstep⟩ := hfits (by simp)
      exact ⟨_, ⟨hversion, rfl⟩, _, ⟨hstep, rfl⟩, by simp⟩

/-- What `np.frombuffer` makes of the indices. -/
def receivedIndices : Option NpArray → Option (Option NpArray)
  | none => some none
  | some indices => (NpArray.frombuffer .int64 indices.bytes).map some

/-- What `np.frombuffer` makes of the arrays. -/
def received (g : GradientFields) : Option GradientFields :=
  match g.gradientData with
  | none => some {}
  | some gradients => do
    let gradients ← NpArray.frombuffer .float32 gradients.bytes
    let indices ← receivedIndices g.indices
    some ⟨some gradients, indices, g.modelVersion, g.step⟩

end GradientFields

namespace WireMessage
variable {m : WireMessage} {bytes : List UInt8}

/-- All of the packed message that comes before the payload. -/
def front (m : WireMessage) : List UInt8 :=
  beEncode 1 m.type.value ++ (beEncode 2 (utf8Encode m.senderId).length ++
    (utf8Encode m.senderId ++ (beEncode 8 m.sequence.toNat ++ (beEncode 8 m.timestamp.toNat ++
      (m.metadataFlags :: (targetBytes m.targetId ++ (m.gradientBytes ++
        (beEncode 4 m.incarnation.toNat ++ beEncode 4 m.payloadBytes.length))))))))

/-- Every number fits in its field. -/
structure Packs (m : WireMessage) : Prop where
  sender : (utf8Encode m.senderId).length < 256 ^ 2
  sequence : 0 ≤ m.sequence ∧ m.sequence < 256 ^ 8
  target : ∀ t, m.targetId = some t → (utf8Encode t).length < 256 ^ 2
  gradient : m.Fits
  incarnation : 0 ≤ m.incarnation ∧ m.incarnation < 256 ^ 4
  payload : m.payloadBytes.length < 256 ^ 4

theorem pack_eq_some_iff : m.pack = some bytes ↔ m.Packs ∧ m.front ++ m.payloadBytes = bytes := by
  simp only [pack, Option.bind_eq_bind, Option.bind_eq_some_iff, packInt_eq_some_iff,
    packTarget_eq_some_iff, GradientFields.packGradient_eq_some_iff, Option.some.injEq]
  constructor
  · rintro ⟨_, ⟨⟨-, h₁⟩, rfl⟩, _, ⟨h₂, rfl⟩, _, ⟨h₃, rfl⟩, _, ⟨h₄, rfl⟩, _, ⟨h₅, rfl⟩,
      _, ⟨⟨-, h₆⟩, rfl⟩, rfl⟩
    exact ⟨⟨by exact_mod_cast h₁, h₂, h₃, h₄, h₅, by exact_mod_cast h₆⟩, by simp [front]⟩
  · rintro ⟨⟨h₁, h₂, h₃, h₄, h₅, h₆⟩, rfl⟩
    exact ⟨_, ⟨⟨by omega, by exact_mod_cast h₁⟩, rfl⟩, _, ⟨h₂, rfl⟩, _, ⟨h₃, rfl⟩, _, ⟨h₄, rfl⟩,
      _, ⟨h₅, rfl⟩, _, ⟨⟨by omega, by exact_mod_cast h₆⟩, rfl⟩, by simp [front]⟩

theorem flag_target : m.metadataFlags &&& 0x01 ≠ 0 ↔ m.targetId ≠ none := by
  unfold metadataFlags GradientFields.flags
  cases m.targetId <;> cases m.gradientData <;> cases m.indices <;> simp <;> decide

theorem flag_gradient : m.metadataFlags &&& 0x02 ≠ 0 ↔ m.gradientData ≠ none := by
  unfold metadataFlags GradientFields.flags
  cases m.targetId <;> cases m.gradientData <;> cases m.indices <;> simp <;> decide

theorem flag_indices (h : m.gradientData ≠ none) :
    m.metadataFlags &&& 0x04 ≠ 0 ↔ m.indices ≠ none := by
  unfold metadataFlags GradientFields.flags
  cases hg : m.gradientData with
  | none => exact absurd hg h
  | some gradients => cases m.targetId <;> cases m.indices <;> simp <;> decide

end WireMessage

section Reading
variable {flags : UInt8} {data rest : List UInt8} {off off' n : Nat}

theorem unpackTarget_of_drop {targetId : Option String} (hflag : flags &&& 0x01 ≠ 0 ↔ targetId ≠ none)
    (hlen : ∀ t, targetId = some t → (utf8Encode t).length < 256 ^ 2)
    (h : data.drop off = targetBytes targetId ++ rest) :
    unpackTarget flags data off = some (targetId, off + (targetBytes targetId).length) := by
  cases targetId with
  | none =>
    rw [unpackTarget, if_neg (by simpa using hflag)]
    simp [targetBytes]
  | some t =>
    rw [targetBytes, List.append_assoc] at h
    have h₂ := drop_add h (length_beEncode 2 _)
    rw [unpackTarget, if_pos (by simpa using hflag), beRead_of_drop h (by decide) (hlen t rfl)]
    simp [slice_of_drop h₂ rfl, targetBytes, Nat.add_assoc]

theorem unpackIndices_of_drop {indices : Option NpArray}
    (hflag : flags &&& 0x04 ≠ 0 ↔ indices ≠ none) (h : data.drop off = indicesBytes indices ++ rest) :
    unpackIndices flags data off =
      (GradientFields.receivedIndices indices).map (·, off + (indicesBytes indices).length) := by
  cases indices with
  | none =>
    rw [unpackIndices, if_neg (by simpa using hflag)]
    simp [indicesBytes, GradientFields.receivedIndices]
  | some indices =>
    rw [indicesBytes, List.append_assoc] at h
    have h₂ := drop_add h (length_beEncode 8 _)
    rw [unpackIndices, if_pos (by simpa using hflag),
      beRead_of_drop h (by decide) indices.length_lt]
    simp only [Option.bind_eq_bind, Option.bind_some, slice_of_drop h₂ rfl]
    rw [GradientFields.receivedIndices]
    cases NpArray.frombuffer .int64 indices.bytes <;> simp [indicesBytes, Nat.add_assoc]

theorem unpackGradient_of_drop {g : GradientFields} (hflag : flags &&& 0x02 ≠ 0 ↔ g.gradientData ≠ none)
    (hindices : g.gradientData ≠ none → (flags &&& 0x04 ≠ 0 ↔ g.indices ≠ none)) (hfits : g.Fits)
    (h : data.drop off = g.gradientBytes ++ rest) :
    unpackGradient flags data off = g.received.map (·, off + g.gradientBytes.length) := by
  obtain ⟨gradientData, indices, modelVersion, step⟩ := g
  cases gradientData with
  | none =>
    rw [unpackGradient, if_neg (by simpa using hflag)]
    simp [GradientFields.gradientBytes, GradientFields.received]
  | some gradients =>
    simp only [GradientFields.gradientBytes, List.append_assoc] at h
    obtain ⟨hversion, hstep⟩ : (0 ≤ modelVersion ∧ modelVersion < 256 ^ 8) ∧
        0 ≤ step ∧ step < 256 ^ 8 := hfits (by simp)
    have h₂ := drop_add h (length_beEncode 8 _)
    have h₃ := drop_add h₂ (length_beEncode 8 _)
    have h₄ := drop_add h₃ (length_beEncode 8 _)
    have h₅ := drop_add h₄ rfl
    rw [unpackGradient, if_pos (by simpa using hflag),
      beRead_of_drop h (by decide) (by omega), beRead_of_drop h₂ (by decide) (by omega),
      beRead_of_drop h₃ (by decide) gradients.length_lt]
    simp only [Option.bind_eq_bind, Option.bind_some, slice_of_drop h₄ rfl,
      unpackIndices_of_drop (hindices (by simp)) h₅, GradientFields.received,
      Int.toNat_of_nonneg hversion.1, Int.toNat_of_nonneg hstep.1]
    cases NpArray.frombuffer .float32 gradients.bytes with
    | none => rfl
    | some received =>
      cases GradientFields.receivedIndices indices with
      | none => rfl
      | some receivedIndices => simp [GradientFields.gradientBytes]; omega

theorem unpackTarget_take {targetId t : Option String}
    (hflag : flags &&& 0x01 ≠ 0 ↔ targetId ≠ none)
    (hlen : ∀ t, targetId = some t → (utf8Encode t).length < 256 ^ 2)
    (h : data.drop off = targetBytes targetId ++ rest)
    (hread : unpackTarget flags (data.take n) off = some (t, off')) :
    off' = off + (targetBytes targetId).length := by
  cases targetId with
  | none =>
    rw [unpackTarget, if_neg (by simpa using hflag)] at hread
    cases hread
    rfl
  | some s =>
    rw [targetBytes, List.append_assoc] at h
    rw [unpackTarget, if_pos (by simpa using hflag)] at hread
    simp only [Option.bind_eq_bind, Option.bind_eq_some_iff, Option.some.injEq] at hread
    obtain ⟨length, hlength, _, -, heq⟩ := hread
    have htrue := (beRead_take hlength).1
    rw [beRead_of_drop h (by decide) (hlen s rfl)] at htrue
    cases heq
    cases htrue
    simp [targetBytes, Nat.add_assoc]

theorem unpackIndices_take {indices indices' : Option NpArray}
    (hflag : flags &&& 0x04 ≠ 0 ↔ indices ≠ none) (h : data.drop off = indicesBytes indices ++ rest)
    (hread : unpackIndices flags (data.take n) off = some (indices', off')) :
    off' = off + (indicesBytes indices).length := by
  cases indices with
  | none =>
    rw [unpackIndices, if_neg (by simpa using hflag)] at hread
    cases hread
    rfl
  | some indices =>
    rw [indicesBytes, List.append_assoc] at h
    rw [unpackIndices, if_pos (by simpa using hflag)] at hread
    simp only [Option.bind_eq_bind, Option.bind_eq_some_iff, Option.some.injEq] at hread
    obtain ⟨length, hlength, _, -, heq⟩ := hread
    have htrue := (beRead_take hlength).1
    rw [beRead_of_drop h (by decide) indices.length_lt] at htrue
    cases heq
    cases htrue
    simp [indicesBytes, Nat.add_assoc]

theorem unpackGradient_take {g g' : GradientFields}
    (hflag : flags &&& 0x02 ≠ 0 ↔ g.gradientData ≠ none)
    (hindices : g.gradientData ≠ none → (flags &&& 0x04 ≠ 0 ↔ g.indices ≠ none))
    (h : data.drop off = g.gradientBytes ++ rest)
    (hread : unpackGradient flags (data.take n) off = some (g', off')) :
    off' = off + g.gradientBytes.length := by
  obtain ⟨gradientData, indices, modelVersion, step⟩ := g
  cases gradientData with
  | none =>
    rw [unpackGradient, if_neg (by simpa using hflag)] at hread
    cases hread
    rfl
  | some gradients =>
    simp only [GradientFields.gradientBytes, List.append_assoc] at h
    have h₃ := drop_add (drop_add h (length_beEncode 8 _)) (length_beEncode 8 _)
    have h₅ := drop_add (drop_add h₃ (length_beEncode 8 _)) rfl
    rw [unpackGradient, if_pos (by simpa using hflag)] at hread
    simp only [Option.bind_eq_bind, Option.bind_eq_some_iff, Option.some.injEq] at hread
    obtain ⟨_, -, _, -, length, hlength, _, -, ⟨indices', off₂⟩, hread, heq⟩ := hread
    have htrue := (beRead_take hlength).1
    rw [beRead_of_drop h₃ (by decide) gradients.length_lt] at htrue
    cases heq
    cases htrue
    rw [unpackIndices_take (hindices (by simp)) h₅ hread]
    simp [GradientFields.gradientBytes]
    omega

end Reading

namespace WireMessage
variable {m m' : WireMessage} {data rest : List UInt8} {n : Nat}

/-- Where the fields of the packed `m` lie in `data`; after them comes `rest`. -/
structure LaidOut (m : WireMessage) (data rest : List UInt8) : Prop where
  type : ∃ r, data.drop 0 = beEncode 1 m.type.value ++ r
  senderLen : ∃ r, data.drop 1 = beEncode 2 (utf8Encode m.senderId).length ++ r
  sender : ∃ r, data.drop 3 = utf8Encode m.senderId ++ r
  sequence : ∃ r, data.drop (3 + (utf8Encode m.senderId).length) =
    beEncode 8 m.sequence.toNat ++ r
  timestamp : ∃ r, data.drop (3 + (utf8Encode m.senderId).length + 8) =
    beEncode 8 m.timestamp.toNat ++ r
  flags : ∃ r, data.drop (3 + (utf8Encode m.senderId).length + 16) = m.metadataFlags :: r
  target : ∃ r, data.drop (3 + (utf8Encode m.senderId).length + 17) = targetBytes m.targetId ++ r
  gradient : ∃ r, data.drop (3 + (utf8Encode m.senderId).length + 17 +
    (targetBytes m.targetId).length) = m.gradientBytes ++ r
  incarnation : ∃ r, data.drop (3 + (utf8Encode m.senderId).length + 17 +
    (targetBytes m.targetId).length + m.gradientBytes.length) =
      beEncode 4 m.incarnation.toNat ++ r
  payloadLen : ∃ r, data.drop (3 + (utf8Encode m.senderId).length + 17 +
    (targetBytes m.targetId).length + m.gradientBytes.length + 4) =
      beEncode 4 m.payloadBytes.length ++ r
  payload : data.drop (3 + (utf8Encode m.senderId).length + 17 +
    (targetBytes m.targetId).length + m.gradientBytes.length + 8) = rest

theorem length_front (m : WireMessage) :
    m.front.length = 3 + (utf8Encode m.senderId).length + 17 + (targetBytes m.targetId).length +
      m.gradientBytes.length + 8 := by
  simp only [front, List.length_append, List.length_cons, length_beEncode]
  omega

theorem laidOut (h : data = m.front ++ rest) : m.LaidOut data rest := by
  have h₀ : data.drop 0 = m.front ++ rest := h
  simp only [front, List.append_assoc, List.cons_append] at h₀
  have h₁ := drop_add h₀ (length_beEncode 1 _)
  have h₂ := drop_add h₁ (length_beEncode 2 _)
  have h₃ := drop_add h₂ rfl
  have h₄ := drop_add h₃ (length_beEncode 8 _)
  have h₅ := drop_add h₄ (length_beEncode 8 _)
  have h₆ := drop_add (a := [m.metadataFlags]) h₅ rfl
  have h₇ := drop_add h₆ rfl
  have h₈ := drop_add h₇ rfl
  have h₉ := drop_add h₈ (length_beEncode 4 _)
  have h₁₀ := drop_add h₉ (length_beEncode 4 _)
  exact ⟨⟨_, h₀⟩, ⟨_, h₁⟩, ⟨_, h₂⟩, ⟨_, h₃⟩, ⟨_, h₄⟩, ⟨_, h₅⟩, ⟨_, h₆⟩, ⟨_, h₇⟩, ⟨_, h₈⟩, ⟨_, h₉⟩, h₁₀⟩

theorem unpack_front (h : m.Packs) (hdata : data = m.front ++ rest) :
    unpack data = m.received.map fun gradient =>
      { m with
        toGradientFields := gradient
        payload :=
          if m.payloadBytes.length > 0 then some (rest.take m.payloadBytes.length) else none } := by
  obtain ⟨⟨_, h₀⟩, ⟨_, h₁⟩, ⟨_, h₂⟩, ⟨_, h₃⟩, ⟨_, h₄⟩, ⟨_, h₅⟩, ⟨_, h₆⟩, ⟨_, h₇⟩, ⟨_, h₈⟩,
    ⟨_, h₉⟩, h₁₀⟩ := laidOut hdata
  have hsequence : m.sequence.toNat < 256 ^ 8 := by
    have := h.sequence
    omega
  have hsender : utf8Decode (slice data 3 (utf8Encode m.senderId).length) = some m.senderId := by
    rw [slice_of_drop h₂ rfl, utf8Decode_utf8Encode]
  unfold unpack
  refine (bind_of_eq_some (beRead_of_drop h₀ (by decide) m.type.value_lt)).trans ?_
  refine (bind_of_eq_some (beRead_of_drop h₁ (by decide) h.sender)).trans ?_
  refine (bind_of_eq_some hsender).trans ?_
  refine (bind_of_eq_some (beRead_of_drop h₃ (by decide) hsequence)).trans ?_
  refine (bind_of_eq_some (beRead_of_drop h₄ (by decide) m.timestamp.toNat_lt)).trans ?_
  refine (bind_of_eq_some (getElem?_of_drop h₅)).trans ?_
  refine (bind_of_eq_some (unpackTarget_of_drop flag_target h.target h₆)).trans ?_
  dsimp only
  rw [unpackGradient_of_drop flag_gradient flag_indices h.gradient h₇]
  cases m.received with
  | none => rfl
  | some gradient =>
    have hincarnation : m.incarnation.toNat < 256 ^ 4 := by
      have := h.incarnation
      omega
    refine (bind_of_eq_some rfl).trans ?_
    refine (bind_of_eq_some (beRead_of_drop h₈ (by decide) hincarnation)).trans ?_
    refine (bind_of_eq_some (beRead_of_drop h₉ (by decide) h.payload)).trans ?_
    refine (bind_of_eq_some m.type.ofValue_value).trans ?_
    simp only [slice, h₁₀, Int.toNat_of_nonneg h.sequence.1, Int.toNat_of_nonneg h.incarnation.1,
      UInt64.ofNat_toNat]
    rfl

theorem front_le_of_unpack_take (h : m.Packs) (hdata : data = m.front ++ rest)
    (hread : unpack (data.take n) = some m') : m.front.length ≤ n := by
  obtain ⟨⟨_, h₀⟩, ⟨_, h₁⟩, ⟨_, h₂⟩, ⟨_, h₃⟩, ⟨_, h₄⟩, ⟨_, h₅⟩, ⟨_, h₆⟩, ⟨_, h₇⟩, ⟨_, h₈⟩,
    ⟨_, h₉⟩, -⟩ := laidOut hdata
  unfold unpack at hread
  obtain ⟨_, -, hread⟩ := Option.bind_eq_some_iff.1 hread
  obtain ⟨senderLen, hsender, hread⟩ := Option.bind_eq_some_iff.1 hread
  obtain ⟨_, -, hread⟩ := Option.bind_eq_some_iff.1 hread
  obtain ⟨_, -, hread⟩ := Option.bind_eq_some_iff.1 hread
  obtain ⟨_, -, hread⟩ := Option.bind_eq_some_iff.1 hread
  obtain ⟨flags, hflags, hread⟩ := Option.bind_eq_some_iff.1 hread
  obtain ⟨⟨target, off₁⟩, htarget, hread⟩ := Option.bind_eq_some_iff.1 hread
  obtain ⟨⟨gradient, off₂⟩, hgradient, hread⟩ := Option.bind_eq_some_iff.1 hread
  obtain ⟨_, -, hread⟩ := Option.bind_eq_some_iff.1 hread
  obtain ⟨_, hpayload, -⟩ := Option.bind_eq_some_iff.1 hread
  have hsenderLen := (beRead_take hsender).1
  rw [beRead_of_drop h₁ (by decide) h.sender] at hsenderLen
  cases hsenderLen
  have hflag := (getElem?_take hflags).1
  rw [getElem?_of_drop h₅] at hflag
  cases hflag
  rw [unpackTarget_take flag_target h.target h₆ htarget] at hgradient
  rw [unpackGradient_take flag_gradient flag_indices h₇ hgradient] at hpayload
  have hle := (beRead_take hpayload).2
  rw [length_front]
  omega

/-- What the format carries: numbers that fit, arrays as `unpack` builds them, no empty payload, and
no gradient fields without a gradient. -/
structure Carried (m : WireMessage) : Prop where
  sender : (utf8Encode m.senderId).length ≤ 65535
  target : ∀ t, m.targetId = some t → (utf8Encode t).length ≤ 65535
  sequence : 0 ≤ m.sequence ∧ m.sequence < 2 ^ 64
  modelVersion : 0 ≤ m.modelVersion ∧ m.modelVersion < 2 ^ 64
  step : 0 ≤ m.step ∧ m.step < 2 ^ 64
  incarnation : 0 ≤ m.incarnation ∧ m.incarnation < 2 ^ 32
  payload : ∀ p, m.payload = some p → 1 ≤ p.length ∧ p.length ≤ 2 ^ 32 - 1
  gradient :
    (∃ g, m.gradientData = some g ∧ g.dtype = .float32 ∧ (∃ n, g.shape = [n]) ∧
      ∀ i, m.indices = some i → i.dtype = .int64 ∧ ∃ n, i.shape = [n]) ∨
    m.gradientData = none ∧ m.modelVersion = 0 ∧ m.step = 0 ∧ m.indices = none

theorem Carried.packs (h : m.Carried) : m.Packs := by
  refine ⟨?_, h.sequence, ?_, fun _ => ⟨h.modelVersion, h.step⟩, h.incarnation, ?_⟩
  · have := h.sender
    omega
  · intro t ht
    have := h.target t ht
    omega
  · cases hp : m.payload with
    | none => simp [payloadBytes, hp]
    | some p =>
      have := (h.payload p hp).2
      simp only [payloadBytes, hp, Option.getD_some]
      omega

theorem Carried.received (h : m.Carried) : m.received = some m.toGradientFields := by
  obtain ⟨header, ⟨gradientData, indices, modelVersion, step⟩, timestamp, payload⟩ := m
  rcases h.gradient with ⟨g, hg, hdtype, ⟨n, hn⟩, hindices⟩ | ⟨hg, hversion, hstep, hindices⟩
  · cases hg
    have hgradients : NpArray.frombuffer .float32 g.bytes = some g := by
      rw [← hdtype]
      exact NpArray.frombuffer_bytes hn (by simp [hdtype, DType.itemsize])
    cases indices with
    | none => simp [GradientFields.received, GradientFields.receivedIndices, hgradients]
    | some i =>
      obtain ⟨hdtype, k, hk⟩ := hindices i rfl
      have hi : NpArray.frombuffer .int64 i.bytes = some i := by
        rw [← hdtype]
        exact NpArray.frombuffer_bytes hk (by simp [hdtype, DType.itemsize])
      simp [GradientFields.received, GradientFields.receivedIndices, hgradients, hi]
  · cases hg
    cases hversion
    cases hstep
    cases hindices
    rfl

theorem Carried.payload_eq (h : m.Carried) :
    (if m.payloadBytes.length > 0 then some m.payloadBytes else none) = m.payload := by
  unfold payloadBytes
  cases hp : m.payload with
  | none => rfl
  | some p =>
    have hpos : p.length > 0 := (h.payload p hp).1
    exact if_pos hpos

/-- The bytes of the arrays are whole numbers of the items that `unpack` takes them for. -/
def WholeItems (m : WireMessage) : Prop :=
  ∀ g, m.gradientData = some g → g.bytes.length % 4 = 0 ∧
    ∀ i, m.indices = some i → i.bytes.length % 8 = 0

theorem received_eq_none_iff : m.received = none ↔ ¬ m.WholeItems := by
  obtain ⟨header, ⟨gradientData, indices, modelVersion, step⟩, timestamp, payload⟩ := m
  cases gradientData with
  | none => simp [GradientFields.received, WholeItems]
  | some g =>
    have hg := g.frombuffer_eq_none_iff .float32
    rw [DType.itemsize] at hg
    cases hgradients : NpArray.frombuffer .float32 g.bytes with
    | none => simp [GradientFields.received, WholeItems, hgradients, hg.1 hgradients]
    | some g' =>
      have hwhole : g.bytes.length % 4 = 0 := by
        by_contra hne
        simp [hg.2 hne] at hgradients
      cases indices with
      | none =>
        simp [GradientFields.received, GradientFields.receivedIndices, WholeItems, hgradients, hwhole]
      | some i =>
        have hi := i.frombuffer_eq_none_iff .int64
        rw [DType.itemsize] at hi
        simp [GradientFields.received, GradientFields.receivedIndices, WholeItems, hgradients, hwhole]
        exact Option.eq_none_iff_forall_ne_some.symm.trans hi

end WireMessage

open WireMessage

/-- What the format carries is unpacked as it was. -/
theorem unpack_pack {m : WireMessage} (h : m.Carried) :
    ∃ bytes, m.pack = some bytes ∧ unpack bytes = some m := by
  refine ⟨_, pack_eq_some_iff.2 ⟨h.packs, rfl⟩, ?_⟩
  rw [unpack_front h.packs rfl, h.received, Option.map_some, List.take_length, h.payload_eq]

section Example

/-- One `float32` and one `int64`, with a target and a payload. -/
def sparsePush : WireMessage where
  type := .PUSH_GRADIENT
  senderId := "a"
  sequence := 1
  targetId := some "é"
  gradientData := some ⟨.float32, [1], [0, 0, 128, 63], rfl, by decide⟩
  indices := some ⟨.int64, [1], [5, 0, 0, 0, 0, 0, 0, 0], rfl, by decide⟩
  modelVersion := 3
  step := 4
  timestamp := 0
  payload := some [7]

theorem unpack_pack_sparsePush :
    ∃ bytes, sparsePush.pack = some bytes ∧ unpack bytes = some sparsePush := by
  refine unpack_pack ⟨by decide, ?_, by decide, by decide, by decide, by decide, ?_, ?_⟩
  · intro t ht
    cases ht
    decide
  · intro p hp
    cases hp
    decide
  · refine .inl ⟨_, rfl, rfl, ⟨1, rfl⟩, ?_⟩
    intro i hi
    cases hi
    exact ⟨rfl, 1, rfl⟩

end Example

/-- A cut is detected exactly if it comes before the payload, or the arrays are not unpacked even
from the whole. -/
theorem truncation_detected_iff {m : WireMessage} {bytes : List UInt8} {n : Nat}
    (hpack : m.pack = some bytes) (hn : n < bytes.length) :
    unpack (bytes.take n) = none ↔
      n < bytes.length - m.payloadBytes.length ∨ ¬ m.WholeItems := by
  obtain ⟨hpacks, rfl⟩ := pack_eq_some_iff.1 hpack
  rw [List.length_append, Nat.add_sub_cancel]
  by_cases hlt : n < m.front.length
  · refine iff_of_true ?_ (.inl hlt)
    cases hread : unpack ((m.front ++ m.payloadBytes).take n) with
    | none => rfl
    | some m' =>
      have := front_le_of_unpack_take hpacks rfl hread
      omega
  · have htake : (m.front ++ m.payloadBytes).take n =
        m.front ++ m.payloadBytes.take (n - m.front.length) := by
      rw [List.take_append, List.take_of_length_le (by omega)]
    rw [unpack_front hpacks htake, Option.map_eq_none_iff, received_eq_none_iff,
      or_iff_right hlt]

section Example

def payloadPing : WireMessage where
  type := .PING
  senderId := "a"
  sequence := 1
  targetId := some "b"
  timestamp := 0
  payload := some [7, 8]

def payloadPingBytes : List UInt8 :=
  [1, 0, 1, 97, 0, 0, 0, 0, 0, 0, 0, 1, 0, 0, 0, 0, 0, 0, 0, 0, 1, 0, 1, 98, 0, 0, 0, 0, 0, 0, 0, 2,
    7, 8]

theorem truncation_detected_iff_payloadPing :
    payloadPing.pack = some payloadPingBytes ∧ 31 < payloadPingBytes.length ∧
    (unpack (payloadPingBytes.take 31) = none ↔
      31 < payloadPingBytes.length - payloadPing.payloadBytes.length ∨ ¬ payloadPing.WholeItems) :=
  ⟨by decide, by decide, truncation_detected_iff (by decide) (by decide)⟩

/-- Without its last byte the message is unpacked with a shorter payload. -/
theorem cut_payload_not_detected :
    payloadPing.pack = some payloadPingBytes ∧
    unpack (payloadPingBytes.take 33) = some { payloadPing with payload := some [7] } := by
  have hpack : payloadPing.pack = some payloadPingBytes := by decide
  have hcut : payloadPingBytes.take 33 = payloadPing.front ++ [7] := by decide
  exact ⟨hpack, unpack_front (pack_eq_some_iff.1 hpack).1 hcut⟩

end Example

end GossipRl
