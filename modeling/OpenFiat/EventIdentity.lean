import OpenFiat.GossipNode

/-!
# Events under one id

The id of an event hashes its type, payload, time stamp, origin and signature without their
lengths, and the signature covers another such concatenation. Two valid envelopes with one id
therefore agree on the origin, the time stamp, the signature and on the type followed by the
payload. That leaves a word equation for the place where the type ends, and `overlap_prefix`
solves it as far as is needed: the places can only differ if the longer type goes on with the
specification number of the shorter one and a zero byte.
-/
namespace OpenFiat.EventIdentity
open ProgramAddress NodePayloads WireBytes GossipEvents GossipNode

/-- The head of every peer id with an inlined Ed25519 key. -/
def peerIdPrefix : List UInt8 := [0, 36, 8, 1, 18, 32]

/-- The peer id is the prefix followed by a key, and the platform reads that key from it. -/
def CarriesKey (P : GossipPlatform) (origin : PeerId) : Prop :=
  ∃ key : PublicKey, origin.bytes = peerIdPrefix ++ key.bytes ∧
    P.publicKeyFromPeerId origin = some key

theorem CarriesKey.length {P : GossipPlatform} {origin : PeerId} (h : CarriesKey P origin) :
    origin.bytes.length = 38 := by
  obtain ⟨key, hbytes, -⟩ := h
  rw [hbytes, List.length_append, key.length_eq]
  rfl

variable {e₁ e₂ : EventEnvelope}

/-- Ids that hash the same bytes belong to one author, one time and one signature, and the
types followed by the payloads are the same. -/
theorem fields_of_idInput (h : e₁.idInput = e₂.idInput)
    (hsig₁ : signatureBytes e₁.signature = some e₁.signature.bytes ∧
      e₁.signature.bytes.length = 64)
    (hsig₂ : signatureBytes e₂.signature = some e₂.signature.bytes ∧
      e₂.signature.bytes.length = 64) (horigin : e₁.origin.bytes.length = e₂.origin.bytes.length) :
    utf8 e₁.eventType ++ e₁.payload = utf8 e₂.eventType ++ e₂.payload ∧
      e₁.timestamp = e₂.timestamp ∧ e₁.origin = e₂.origin ∧ e₁.signature = e₂.signature := by
  unfold EventEnvelope.idInput idBytes at h
  rw [hsig₁.1, hsig₂.1, Option.getD_some] at h
  obtain ⟨h, hsignature⟩ := List.append_inj' h (hsig₁.2.trans hsig₂.2.symm)
  obtain ⟨h, horiginBytes⟩ := List.append_inj' h horigin
  obtain ⟨h, htimestamp⟩ := List.append_inj' h (by rw [length_bigEndian, length_bigEndian])
  have hwidth (t : UInt64) : t.toNat < 256 ^ 8 := t.toNat_lt
  have htime := bigEndian_injOn (hwidth e₁.timestamp) (hwidth e₂.timestamp) htimestamp
  refine ⟨h, UInt64.toNat_inj.mp htime, ?_, ?_⟩
  · exact congrArg PeerId.mk horiginBytes
  · exact congrArg Signature.mk hsignature

/-- A word that commutes past two words with a peer id in third place starts as the first of
them does, unless it is empty. -/
theorem overlap_prefix {s₁ s₂ k₁ k₂ d : List UInt8} (hs₁ : s₁.length = 2) (hs₂ : s₂.length = 2)
    (h : s₁ ++ (peerIdPrefix ++ k₁) ++ d = d ++ (s₂ ++ (peerIdPrefix ++ k₂))) :
    d = [] ∨ s₁ ++ [0] <+: d := by
  obtain ⟨a, b, rfl⟩ := List.length_eq_two.mp hs₁
  obtain ⟨a', b', rfl⟩ := List.length_eq_two.mp hs₂
  simp only [peerIdPrefix, List.cons_append, List.nil_append] at h
  -- shifted by one or two places, the zero of the prefix would meet another of its bytes
  rcases d with _ | ⟨x, _ | ⟨y, _ | ⟨z, d⟩⟩⟩
  · exact .inl rfl
  · simp at h
  · simp at h
  · simp only [List.cons_append, List.cons.injEq] at h
    obtain ⟨rfl, rfl, rfl, -⟩ := h
    exact .inr ⟨d, rfl⟩

/-- The type of the second event goes on, after the type of the first, with the specification
number of the first and a zero byte. -/
def Extends (e₁ e₂ : EventEnvelope) : Prop :=
  utf8 e₁.eventType ++ bigEndian 2 e₁.ofsSpec.toNat ++ [0] <+: utf8 e₂.eventType

/-- Agreement on everything that a signature covers. -/
structure SameEvent (e₁ e₂ : EventEnvelope) : Prop where
  eventType : e₁.eventType = e₂.eventType
  ofsSpec : e₁.ofsSpec = e₂.ofsSpec
  origin : e₁.origin = e₂.origin
  timestamp : e₁.timestamp = e₂.timestamp
  payload : e₁.payload = e₂.payload

theorem SameEvent.symm (h : SameEvent e₁ e₂) : SameEvent e₂ e₁ :=
  ⟨h.eventType.symm, h.ofsSpec.symm, h.origin.symm, h.timestamp.symm, h.payload.symm⟩

theorem SameEvent.not_extends (h : SameEvent e₁ e₂) : ¬ Extends e₁ e₂ := by
  intro hext
  have hlen := hext.length_le
  rw [h.eventType] at hlen
  simp only [List.length_append, length_bigEndian, List.length_singleton] at hlen
  omega

/-- The signed bytes decide where the type ends, up to an extension. -/
theorem sameEvent_of_signable {key₁ key₂ d : List UInt8}
    (hkey₁ : e₁.origin.bytes = peerIdPrefix ++ key₁)
    (hkey₂ : e₂.origin.bytes = peerIdPrefix ++ key₂) (htime : e₁.timestamp = e₂.timestamp)
    (horigin : e₁.origin = e₂.origin) (htype : utf8 e₂.eventType = utf8 e₁.eventType ++ d)
    (hpayload : e₁.payload = d ++ e₂.payload) (hsignable : e₁.signable = e₂.signable) :
    SameEvent e₁ e₂ ∨ Extends e₁ e₂ := by
  have hword : bigEndian 2 e₁.ofsSpec.toNat ++
        (peerIdPrefix ++ (key₁ ++ bigEndian 8 e₁.timestamp.toNat)) ++ d =
      d ++ (bigEndian 2 e₂.ofsSpec.toNat ++
        (peerIdPrefix ++ (key₂ ++ bigEndian 8 e₂.timestamp.toNat))) := by
    unfold EventEnvelope.signable signableBytes at hsignable
    rw [hkey₁, hkey₂, htype, hpayload] at hsignable
    simp only [List.append_assoc, List.append_cancel_left_eq] at hsignable
    refine (List.append_left_inj e₂.payload).mp ?_
    simpa using hsignable
  rcases overlap_prefix (length_bigEndian _ _) (length_bigEndian _ _) hword with rfl | hprefix
  · left
    rw [List.append_nil, List.nil_append] at hword
    have hspec := (List.append_inj hword (by rw [length_bigEndian, length_bigEndian])).1
    have hwidth (n : UInt16) : n.toNat < 256 ^ 2 := n.toNat_lt
    refine ⟨utf8_injective (htype.trans (List.append_nil _)).symm, ?_, horigin, htime, hpayload⟩
    exact UInt16.toNat_inj.mp (bigEndian_injOn (hwidth _) (hwidth _) hspec)
  · right
    unfold Extends
    rw [htype, List.append_assoc]
    exact (List.prefix_append_right_inj _).mpr hprefix

/-- Valid envelopes with one id describe one event exactly when neither type extends the
other. -/
theorem same_id_same_event_iff {π : Type} (P : GossipPlatform) (g₁ g₂ : GossipService π)
    (now₁ now₂ : UInt64) (e₁ e₂ : EventEnvelope)
    (hhash : P.sha256 e₁.idInput = P.sha256 e₂.idInput → e₁.idInput = e₂.idInput)
    (hsign : ∀ key signature m m', verify P key m signature = true →
      verify P key m' signature = true → m = m')
    (horigin₁ : CarriesKey P e₁.origin) (horigin₂ : CarriesKey P e₂.origin)
    (h₁ : validate P now₁ g₁ e₁ = .ok ()) (h₂ : validate P now₂ g₂ e₂ = .ok ())
    (hid : e₁.id = e₂.id) :
    SameEvent e₁ e₂ ↔ ¬ Extends e₁ e₂ ∧ ¬ Extends e₂ e₁ := by
  constructor
  · intro hsame
    exact ⟨hsame.not_extends, hsame.symm.not_extends⟩
  rintro ⟨hext₁, hext₂⟩
  obtain ⟨-, -, key₁, hkey₁, hverify₁, hmatch₁⟩ := validate_ok.mp h₁
  obtain ⟨-, -, key₂, hkey₂, hverify₂, hmatch₂⟩ := validate_ok.mp h₂
  have hinput : e₁.idInput = e₂.idInput :=
    hhash (hmatch₁.trans (hid.trans hmatch₂.symm))
  obtain ⟨hcontent, htime, horigin, hsignature⟩ := fields_of_idInput hinput
    (signatureBytes_of_verify hverify₁) (signatureBytes_of_verify hverify₂)
    (horigin₁.length.trans horigin₂.length.symm)
  obtain ⟨k₁, hbytes₁, hread₁⟩ := horigin₁
  obtain ⟨k₂, hbytes₂, hread₂⟩ := horigin₂
  have hkey : key₁ = key₂ := by
    rw [originKey, hread₁] at hkey₁
    rw [originKey, hread₂] at hkey₂
    rw [horigin, hread₂] at hread₁
    exact Option.some.inj (hkey₁.symm.trans (hread₁.symm.trans hkey₂))
  have hsignable : e₁.signable = e₂.signable := by
    rw [hkey, hsignature] at hverify₁
    exact hsign key₂ e₂.signature _ _ hverify₁ hverify₂
  rcases List.append_eq_append_iff.mp hcontent with ⟨d, htype, hpayload⟩ | ⟨d, htype, hpayload⟩
  · exact (sameEvent_of_signable hbytes₁ hbytes₂ htime horigin htype hpayload
      hsignable).resolve_right hext₁
  · exact ((sameEvent_of_signable hbytes₂ hbytes₁ htime.symm horigin.symm htype hpayload
      hsignable.symm).resolve_right hext₂).symm

def printableKey : PublicKey := .filled 65

def printableOrigin : PeerId := ⟨peerIdPrefix ++ printableKey.bytes⟩

/-- The bytes between the type and the payload in what this origin signs at time zero. -/
def seam : List UInt8 := bigEndian 2 2100 ++ printableOrigin.bytes ++ bigEndian 8 0

def seamId : Digest := .filled 1

/-- An event whose payload starts with the seam. -/
def shortEvent : EventEnvelope where
  id := seamId
  eventType := "A"
  ofsSpec := 2100
  version := 1
  origin := printableOrigin
  timestamp := 0
  ttl := 8
  priority := .advertisement
  signature := ⟨List.replicate 64 0⟩
  payload := seam

def longEvent : EventEnvelope :=
  { shortEvent with
    eventType := "A" ++ String.ofList (seam.map fun b => Char.ofNat b.toNat)
    payload := [] }

def seamPlatform : GossipPlatform where
  sha256 input := if input = shortEvent.idInput then seamId else .filled 0
  verifyBytes key message _ := key = printableKey ∧ message = shortEvent.signable
  publicKeyFromPeerId origin := if origin = printableOrigin then some printableKey else none

def seamNode : GossipService Unit := .new 0 ⟨[]⟩ ∅

theorem seamPlatform_signs_once (key : PublicKey) (signature : Signature) (m m' : List UInt8)
    (h : verify seamPlatform key m signature = true)
    (h' : verify seamPlatform key m' signature = true) : m = m' := by
  unfold verify at h h'
  cases hbytes : signatureBytes signature with
  | none =>
    rw [hbytes] at h
    cases h
  | some =>
    rw [hbytes] at h h'
    exact (of_decide_eq_true h).2.trans (of_decide_eq_true h').2.symm

theorem carriesKey_printableOrigin : CarriesKey seamPlatform printableOrigin :=
  ⟨printableKey, rfl, rfl⟩

/-- Two copies of an event with different hop budgets. -/
theorem same_id_same_event_iff_copies :
    SameEvent shortEvent { shortEvent with ttl := 3 } ↔
      ¬ Extends shortEvent { shortEvent with ttl := 3 } ∧
        ¬ Extends { shortEvent with ttl := 3 } shortEvent :=
  same_id_same_event_iff seamPlatform seamNode seamNode 0 0 _ _ (fun _ => rfl)
    seamPlatform_signs_once carriesKey_printableOrigin carriesKey_printableOrigin
    (by decide +kernel) (by decide +kernel) rfl

/-- One signature and one id for two events: the seam can be read as a part of the payload or
as a part of the type. -/
theorem one_id_two_events :
    (∀ key signature m m', verify seamPlatform key m signature = true →
      verify seamPlatform key m' signature = true → m = m') ∧
      CarriesKey seamPlatform shortEvent.origin ∧ CarriesKey seamPlatform longEvent.origin ∧
      shortEvent.idInput = longEvent.idInput ∧ shortEvent.signable = longEvent.signable ∧
      validate seamPlatform 0 seamNode shortEvent = .ok () ∧
      validate seamPlatform 0 seamNode longEvent = .ok () ∧ shortEvent.id = longEvent.id ∧
      shortEvent.eventType ≠ longEvent.eventType ∧ shortEvent.payload ≠ longEvent.payload := by
  refine ⟨seamPlatform_signs_once, carriesKey_printableOrigin, carriesKey_printableOrigin, ?_⟩
  decide +kernel

end OpenFiat.EventIdentity
