import OpenFiat.EventIdentity

/-!
# What a signature covers

Three kinds of bytes are signed with one key: domain preimages, which start with the length of
their tag, the signable bytes of gossip envelopes, which start with the event type, and
challenges, which start with the name of a domain. The length is written in four bytes. A tag
that is long enough makes it wrap around, and well before that its first byte becomes a capital
letter.
-/
namespace OpenFiat.SigningDomains
open GossipEvents NodePayloads WireBytes

/-- The body is the payload in JSON. -/
def preimageRaw (tag : String) (body : List UInt8) : List UInt8 :=
  bigEndian 4 ((utf8 tag).length % 2 ^ 32) ++ utf8 tag ++ body

structure Challenge where
  subject : String
  nonce : String
  expiresAt : Timestamp
deriving DecidableEq

def signingBytes (c : Challenge) (domain : String) : List UInt8 :=
  utf8 (domain ++ ":" ++ c.subject ++ ":" ++ c.nonce)

/-- The domains of the wallet challenges and the one of the earnings challenges. -/
def challengeDomains : List String :=
  ["openfiat-my-reservations", "openfiat-my-trades", "openfiat-my-disputes",
    "openfiat-my-settlements", "openfiat-my-trade-channel", "openfiat-my-reviews",
    "openfiat-counterparties", "openfiat-earnings"]

/-- Preimages of tags below so many bytes determine their tag and their body. -/
def Determined (bound : ℕ) : Prop :=
  ∀ tag tag' body body', (utf8 tag).length < bound → (utf8 tag').length < bound →
    preimageRaw tag body = preimageRaw tag' body' → tag = tag' ∧ body = body'

/-- Nothing else that is signed looks like a preimage of a tag below so many bytes. -/
structure Separated (bound : ℕ) : Prop where
  gossip : ∀ tag body eventType ofsSpec origin timestamp payload, (utf8 tag).length < bound →
    isPascalCase eventType = true →
      signableBytes eventType ofsSpec origin timestamp payload ≠ preimageRaw tag body
  challenge : ∀ tag body c, ∀ domain ∈ challengeDomains, (utf8 tag).length < bound →
    signingBytes c domain ≠ preimageRaw tag body

/-- From this length on the first byte of the header is a capital letter. -/
def letterLength : ℕ := 65 * 2 ^ 24

theorem utf8_append (s t : String) : utf8 (s ++ t) = utf8 s ++ utf8 t := by
  simp [utf8]

theorem exists_length_utf8 (n : ℕ) : ∃ tag, (utf8 tag).length = n := by
  induction n with
  | zero => exact ⟨"", rfl⟩
  | succ n ih =>
    obtain ⟨tag, rfl⟩ := ih
    exact ⟨tag ++ "a", by rw [utf8_append, List.length_append]; rfl⟩

theorem head_utf8 {name : String} (h : isPascalCase name = true) :
    ∃ byte, (utf8 name).head? = some byte ∧ 65 ≤ byte.toNat := by
  have hutf8 : utf8 name = name.toList.flatMap String.utf8EncodeChar := by
    conv_lhs => rw [← String.ofList_toList (s := name)]
    rw [utf8, String.toUTF8, String.toByteArray_ofList, List.utf8Encode, List.data_toByteArray]
  rw [hutf8]
  have hupper := (Bool.and_eq_true_iff.mp h).1
  cases hname : name.toList with
  | nil => simp [hname] at hupper
  | cons c =>
    rw [hname] at hupper
    have hrange : 65 ≤ c.val.toNat ∧ c.val.toNat ≤ 90 := of_decide_eq_true hupper
    have hascii : String.utf8EncodeChar c = [UInt8.ofNat c.val.toNat] :=
      if_pos (hrange.2.trans (by decide))
    refine ⟨UInt8.ofNat c.val.toNat, by rw [List.flatMap_cons, hascii]; rfl, ?_⟩
    rw [UInt8.toNat_ofNat_of_lt' (show c.val.toNat < 2 ^ 8 by omega)]
    exact hrange.1

theorem head_signingBytes (c : Challenge) {domain : String} (h : domain ∈ challengeDomains) :
    (signingBytes c domain).head? = some 111 := by
  have hhead : ∀ d ∈ challengeDomains, (utf8 d).head? = some 111 := by decide +kernel
  simp [signingBytes, utf8_append, hhead domain h]

section Preimages
variable {tag : String} {body : List UInt8}

/-- The header of a tag of moderate length starts with a small byte. -/
theorem head_preimageRaw (h : (utf8 tag).length < letterLength) (body : List UInt8) :
    ∃ byte, (preimageRaw tag body).head? = some byte ∧ byte.toNat < 65 := by
  have hhead (n : ℕ) : (bigEndian 4 n).head? = some (UInt8.ofNat (n / 2 ^ 24)) := by
    simp [bigEndian, littleEndian, Nat.div_div_eq_div_mul]
  have hbyte : (utf8 tag).length / 2 ^ 24 < 65 :=
    Nat.div_lt_of_lt_mul (by rwa [Nat.mul_comm])
  refine ⟨_, by rw [preimageRaw, Nat.mod_eq_of_lt (h.trans (by decide)), List.head?_append,
    List.head?_append, hhead]; rfl, ?_⟩
  rwa [UInt8.toNat_ofNat_of_lt' (hbyte.trans (by decide))]

/-- A tag of this length looks like an event type and what follows it. -/
theorem signableBytes_eq_preimageRaw (h : (utf8 tag).length = letterLength) :
    signableBytes "A" 0 ⟨0 :: utf8 tag⟩ 0x3131313131313131 [] =
      preimageRaw tag (utf8 "11111111") := by
  have hheader : bigEndian 4 ((utf8 tag).length % 2 ^ 32) = [65, 0, 0, 0] := by
    rw [h]
    decide
  have htime : bigEndian 8 (0x3131313131313131 : UInt64).toNat = utf8 "11111111" := by decide
  rw [preimageRaw, hheader, signableBytes, List.append_nil, htime]
  rfl

end Preimages

theorem determined_iff (bound : ℕ) : Determined bound ↔ bound ≤ 2 ^ 32 := by
  constructor
  · intro h
    by_contra hlong
    obtain ⟨tag, htag⟩ := exists_length_utf8 (2 ^ 32)
    -- the header wraps around to the one of the empty tag
    have heq : preimageRaw tag [] = preimageRaw "" (utf8 tag) := by
      rw [preimageRaw, htag, List.append_nil]
      rfl
    obtain ⟨rfl, -⟩ := h tag "" [] _ (by omega) ((Nat.zero_le _).trans_lt (not_le.mp hlong)) heq
    cases htag
  · intro hbound tag tag' body body' htag htag' heq
    have hlow (n : ℕ) (hn : n < bound) : n % 2 ^ 32 = n ∧ n < 256 ^ 4 :=
      ⟨Nat.mod_eq_of_lt (hn.trans_le hbound), hn.trans_le hbound⟩
    rw [preimageRaw, preimageRaw, (hlow _ htag).1, (hlow _ htag').1, List.append_assoc,
      List.append_assoc] at heq
    obtain ⟨hheader, hrest⟩ := List.append_inj heq (by rw [length_bigEndian, length_bigEndian])
    have hlength := bigEndian_injOn (hlow _ htag).2 (hlow _ htag').2 hheader
    obtain ⟨hbytes, rfl⟩ := List.append_inj hrest hlength
    exact ⟨utf8_injective hbytes, rfl⟩

/-- Preimages are injective exactly as long as the length of the tag fits its four bytes, and
the three kinds of signed bytes are apart exactly as long as its first byte is no letter. -/
theorem separated_iff (bound : ℕ) :
    (Determined bound ↔ bound ≤ 2 ^ 32) ∧ (Separated bound ↔ bound ≤ letterLength) := by
  refine ⟨determined_iff bound, fun h => ?_, fun hbound => ⟨?_, ?_⟩⟩
  · by_contra hlong
    obtain ⟨tag, htag⟩ := exists_length_utf8 letterLength
    exact h.gossip tag _ _ _ _ _ _ (htag.trans_lt (Nat.lt_of_not_le hlong)) (by decide)
      (signableBytes_eq_preimageRaw htag)
  · intro tag body eventType ofsSpec origin timestamp payload htag hname heq
    obtain ⟨byte, hhead, hletter⟩ := head_utf8 hname
    obtain ⟨byte', hhead', hsmall⟩ := head_preimageRaw (htag.trans_le hbound) body
    rw [← heq] at hhead'
    simp only [signableBytes, List.head?_append, hhead, Option.some_or,
      Option.some.injEq] at hhead'
    rw [hhead'] at hletter
    omega
  · intro tag body c domain hdomain htag heq
    obtain ⟨byte, hhead, hsmall⟩ := head_preimageRaw (htag.trans_le hbound) body
    rw [← heq, head_signingBytes c hdomain, Option.some.injEq] at hhead
    rw [← hhead] at hsmall
    exact absurd hsmall (by decide)

/-- A gossip envelope and a domain preimage with a number for its body are the same bytes. -/
theorem envelope_is_preimage : ∃ tag origin timestamp, isPascalCase "A" = true ∧
    signableBytes "A" 0 origin timestamp [] = preimageRaw tag (utf8 "11111111") := by
  obtain ⟨tag, htag⟩ := exists_length_utf8 letterLength
  exact ⟨tag, _, _, by decide, signableBytes_eq_preimageRaw htag⟩

end OpenFiat.SigningDomains
