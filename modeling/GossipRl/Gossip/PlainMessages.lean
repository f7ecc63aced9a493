import GossipRl.Gossip.WireRoundTrip

/-!
# Messages without a gradient

`pack` writes version, step and indices only next to a gradient, and tests the payload by its truth
where it tests the other optional fields for `None`. So these fields of a message without a gradient
come back as their defaults (`unpack_plain`).
-/

namespace GossipRl
open Support

namespace WireMessage
variable {m : WireMessage}

/-- What comes back of a payload: an empty one is not there. -/
def payloadBack : Option (List UInt8) → Option (List UInt8)
  | some [] => none
  | payload => payload

theorem payloadBack_eq (m : WireMessage) :
    (if m.payloadBytes.length > 0 then some m.payloadBytes else none) = payloadBack m.payload := by
  unfold payloadBytes
  cases m.payload with
  | none => rfl
  | some p => cases p <;> rfl

theorem payloadBack_eq_none_iff {payload : Option (List UInt8)} :
    payloadBack payload = none ↔ payload = none ∨ payload = some [] := by
  rcases payload with _ | _ | ⟨b, p⟩ <;> simp [payloadBack]

/-- A message without a gradient that packs is unpacked with the defaults of the gradient fields. -/
theorem unpack_plain (hpacks : m.Packs) (hgrad : m.gradientData = none) :
    unpack (m.front ++ m.payloadBytes) =
      some { m with toGradientFields := {}, payload := payloadBack m.payload } := by
  have hreceived : m.received = some {} := by
    unfold GradientFields.received
    rw [hgrad]
  rw [unpack_front hpacks rfl, hreceived, Option.map_some, List.take_length, payloadBack_eq]

/-- The message that comes back has version, step and indices of the one sent, and a payload exactly
if that has one. -/
def PlainFieldsKept (m : WireMessage) : Prop :=
  ∃ bytes m', m.pack = some bytes ∧ unpack bytes = some m' ∧ m'.modelVersion = m.modelVersion ∧
    m'.step = m.step ∧ m'.indices = m.indices ∧ (m'.payload = none ↔ m.payload = none)

end WireMessage

open WireMessage

/-- Version, step, indices and payload of a message without a gradient are kept exactly if it packs
and the first three are the defaults and the payload is not empty. -/
theorem plain_fields_kept_iff {m : WireMessage} (hgrad : m.gradientData = none) :
    m.PlainFieldsKept ↔
      m.Packs ∧ m.modelVersion = 0 ∧ m.step = 0 ∧ m.indices = none ∧ m.payload ≠ some [] := by
  constructor
  · rintro ⟨bytes, m', hpack, hunpack, hversion, hstep, hindices, hpayload⟩
    obtain ⟨hpacks, rfl⟩ := pack_eq_some_iff.1 hpack
    rw [unpack_plain hpacks hgrad] at hunpack
    obtain rfl := Option.some.inj hunpack
    refine ⟨hpacks, hversion.symm, hstep.symm, hindices.symm, fun hempty => ?_⟩
    have hnone := hpayload.1 (payloadBack_eq_none_iff.2 (.inr hempty))
    cases hnone.symm.trans hempty
  · rintro ⟨hpacks, hversion, hstep, hindices, hpayload⟩
    refine ⟨_, _, pack_eq_some_iff.2 ⟨hpacks, rfl⟩, unpack_plain hpacks hgrad, hversion.symm,
      hstep.symm, hindices.symm, ?_⟩
    exact payloadBack_eq_none_iff.trans (or_iff_left hpayload)

section Example

/-- A request for gradients, with a payload. -/
def pullGradient : WireMessage where
  type := .PULL_GRADIENT
  senderId := "a"
  sequence := 1
  timestamp := 0
  payload := some [7]

theorem packs_pullGradient : pullGradient.Packs := by
  refine ⟨by decide, by decide, ?_, fun h => absurd rfl h, by decide, by decide⟩
  rintro t ⟨⟩

theorem plain_fields_kept_pullGradient : pullGradient.PlainFieldsKept :=
  (plain_fields_kept_iff rfl).2 ⟨packs_pullGradient, rfl, rfl, rfl, by decide⟩

/-- A request with version 3 and step 4, the index 5 and an empty payload. -/
def versionedPull : WireMessage :=
  { sparsePush with
    type := .PULL_GRADIENT
    targetId := none
    gradientData := none
    payload := some [] }

/-- None of this comes back. -/
theorem versioned_pull_dropped : ∃ bytes m', versionedPull.pack = some bytes ∧
    unpack bytes = some m' ∧ m'.modelVersion = 0 ∧ m'.step = 0 ∧ m'.indices = none ∧
    m'.payload = none ∧ ¬ versionedPull.PlainFieldsKept := by
  have hpacks : versionedPull.Packs := by
    refine ⟨by decide, by decide, ?_, fun h => absurd rfl h, by decide, by decide⟩
    rintro t ⟨⟩
  refine ⟨_, _, pack_eq_some_iff.2 ⟨hpacks, rfl⟩, unpack_plain hpacks rfl, rfl, rfl, rfl, rfl, ?_⟩
  rintro ⟨bytes, m', hpack, hunpack, hversion, -⟩
  obtain ⟨-, rfl⟩ := pack_eq_some_iff.1 hpack
  rw [unpack_plain hpacks rfl] at hunpack
  obtain rfl := Option.some.inj hunpack
  cases hversion

end Example

end GossipRl
