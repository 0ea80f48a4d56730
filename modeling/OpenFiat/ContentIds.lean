import OpenFiat.DigitGroups
import OpenFiat.ProgramAddress
import OpenFiat.WireFields

/-!
# Content identifiers

A content identifier is kept as the text in which it was spelled: `b`, then the base32 digits of
four varints (version, codec, hash function, length of the digest) and the digest. Base32 is read
strictly, so text and bytes determine each other. The varints are not: one that is padded with
continuation bytes is accepted, and the same content then has several identifiers.
-/
namespace OpenFiat.ContentIds
open DigitGroups ProgramAddress WireFields

def base32Digit (c : Char) : Option ℕ :=
  if 'a' ≤ c ∧ c ≤ 'z' then some (c.toNat - 'a'.toNat)
  else if '2' ≤ c ∧ c ≤ '7' then some (c.toNat - '2'.toNat + 26)
  else none

def base32Char (digit : ℕ) : Char := "abcdefghijklmnopqrstuvwxyz234567".toList.getD digit 'a'

structure Decoder where
  out : List UInt8
  buffer : ℕ
  bits : ℕ

/-- The buffer is a word of sixteen bits. -/
def decodeChar (s : Decoder) (c : Char) : Option Decoder := do
  let digit ← base32Digit c
  let buffer := (s.buffer * 2 ^ 5 + digit) % 2 ^ 16
  let bits := s.bits + 5
  if 8 ≤ bits then
    return ⟨s.out ++ [UInt8.ofNat (buffer / 2 ^ (bits - 8))], buffer, bits - 8⟩
  else
    return ⟨s.out, buffer, bits⟩

/-- What is left over must be zero padding of less than a digit. -/
def base32LowerDecode (input : List Char) : Option (List UInt8) := do
  let s ← input.foldlM decodeChar ⟨[], 0, 0⟩
  if 5 ≤ s.bits ∨ s.buffer % 2 ^ s.bits ≠ 0 then none else return s.out

structure Encoder where
  out : List Char
  buffer : ℕ
  bits : ℕ

def drain (buffer : ℕ) : ℕ → List Char → List Char × ℕ
  | bits + 5, out => drain buffer bits (out ++ [base32Char (buffer / 2 ^ bits % 2 ^ 5)])
  | bits, out => (out, bits)

def encodeByte (s : Encoder) (byte : UInt8) : Encoder :=
  let buffer := (s.buffer * 2 ^ 8 + byte.toNat) % 2 ^ 16
  let (out, bits) := drain buffer (s.bits + 8) s.out
  ⟨out, buffer, bits⟩

def base32LowerEncode (bytes : List UInt8) : List Char :=
  let s := bytes.foldl encodeByte ⟨[], 0, 0⟩
  if 0 < s.bits then s.out ++ [base32Char (s.buffer * 2 ^ (5 - s.bits) % 2 ^ 5)] else s.out

theorem base32Digit_base32Char {d : ℕ} (h : d < 2 ^ 5) : base32Digit (base32Char d) = some d := by
  revert d
  decide +kernel

theorem base32Char_of_digit {c : Char} {d : ℕ} (h : base32Digit c = some d) :
    d < 2 ^ 5 ∧ base32Char d = c := by
  have hascii : c.toNat < 128 := by
    by_contra hlarge
    have hsmall (e : Char) (he : e.toNat < 128) : ¬ c ≤ e := fun hle =>
      hlarge (lt_of_le_of_lt (UInt32.le_iff_toNat_le.mp hle) he)
    simp [base32Digit, hsmall 'z' (by decide), hsmall '7' (by decide)] at h
  have htable : ∀ n < 128, ((base32Digit (Char.ofNat n)).all fun d =>
      d < 2 ^ 5 ∧ base32Char d = Char.ofNat n) = true := by decide +kernel
  have hc := htable c.toNat hascii
  rw [Char.ofNat_toNat, h] at hc
  simpa using hc

/-! ### The digits and the bytes spell one number -/

def numbers (bytes : List UInt8) : List ℕ := bytes.map UInt8.toNat

theorem numbers_lt (bytes : List UInt8) : ∀ n ∈ numbers bytes, n < 2 ^ 8 := by
  simp only [numbers, List.forall_mem_map]
  exact fun byte _ => byte.toNat_lt

theorem decode_digits (ds : List ℕ) (h : ∀ d ∈ ds, d < 2 ^ 5) : ∃ s : Decoder,
    (ds.map base32Char).foldlM decodeChar ⟨[], 0, 0⟩ = some s ∧ s.bits < 8 ∧
      Carries 5 8 ds (numbers s.out) s.buffer s.bits := by
  induction ds using List.reverseRecOn with
  | nil => exact ⟨_, rfl, by decide, carries_nil 5 8⟩
  | append_singleton ds d ih =>
    obtain ⟨s, hs, hbits, hcarries⟩ := ih fun e he => h e (by simp [he])
    have hd : d < 2 ^ 5 := h d (by simp)
    have hpush := hcarries.push hd (by omega : s.bits + 5 ≤ 16)
    rw [List.map_append, List.foldlM_append, hs]
    simp only [Option.bind_eq_bind, Option.bind_some, List.map_singleton, List.foldlM_cons,
      List.foldlM_nil, decodeChar, base32Digit_base32Char hd, Option.pure_def]
    by_cases hfull : 8 ≤ s.bits + 5
    · refine ⟨_, by rw [if_pos hfull]; rfl, show s.bits + 5 - 8 < 8 by omega, ?_⟩
      rw [← Nat.sub_add_cancel hfull] at hpush
      simpa [numbers] using hpush.emit
    · exact ⟨_, by rw [if_neg hfull]; rfl, show s.bits + 5 < 8 by omega, hpush⟩

theorem drain_carries (buffer : ℕ) {ds out : List ℕ} {bits : ℕ}
    (h : Carries 8 5 ds out buffer bits) : ∃ out' bits', drain buffer bits (out.map base32Char) =
      (out'.map base32Char, bits') ∧ bits' < 5 ∧ Carries 8 5 ds out' buffer bits' := by
  induction bits using Nat.strongRecOn generalizing out with
  | ind bits ih =>
    by_cases hfull : 5 ≤ bits
    · obtain ⟨rest, rfl⟩ := Nat.exists_eq_add_of_le' hfull
      obtain ⟨out', bits', hdrain, hrest⟩ := ih rest (by omega) h.emit
      refine ⟨out', bits', ?_, hrest⟩
      rw [drain, ← hdrain, List.map_append, List.map_singleton]
    · refine ⟨out, bits, ?_, by omega, h⟩
      rw [drain]
      omega

/-- The text of some bytes: as many digits as they need, zeros at the end. -/
theorem encode_digits (bytes : List UInt8) : ∃ ds : List ℕ, ∃ pad < 5,
    base32LowerEncode bytes = ds.map base32Char ∧ (∀ d ∈ ds, d < 2 ^ 5) ∧
      5 * ds.length = 8 * bytes.length + pad ∧
      value (2 ^ 5) ds = value (2 ^ 8) (numbers bytes) * 2 ^ pad := by
  have hloop : ∃ out, (bytes.foldl encodeByte ⟨[], 0, 0⟩).out = out.map base32Char ∧
      (bytes.foldl encodeByte ⟨[], 0, 0⟩).bits < 5 ∧ Carries 8 5 (numbers bytes) out
        (bytes.foldl encodeByte ⟨[], 0, 0⟩).buffer (bytes.foldl encodeByte ⟨[], 0, 0⟩).bits := by
    induction bytes using List.reverseRecOn with
    | nil => exact ⟨[], rfl, by decide, carries_nil 8 5⟩
    | append_singleton bytes byte ih =>
      obtain ⟨out, hout, hbits, hcarries⟩ := ih
      have hpush := hcarries.push byte.toNat_lt (show _ ≤ 16 by omega)
      obtain ⟨out', bits', hdrain, hsmall, hcarries'⟩ := drain_carries _ hpush
      rw [List.foldl_concat, encodeByte, hout]
      simp only [hdrain]
      exact ⟨out', rfl, hsmall, by simpa [numbers] using hcarries'⟩
  obtain ⟨out, hout, hbits, hcarries⟩ := hloop
  simp only [base32LowerEncode]
  generalize bytes.foldl encodeByte ⟨[], 0, 0⟩ = s at hout hbits hcarries
  have hlength : 8 * bytes.length = 5 * out.length + s.bits := by
    simpa [numbers] using hcarries.length_eq
  split_ifs with hpending
  · refine ⟨out ++ [s.buffer * 2 ^ (5 - s.bits) % 2 ^ 5], 5 - s.bits, by omega, ?_, ?_, ?_,
      hcarries.pad hbits.le⟩
    · simp [hout]
    · exact List.forall_mem_append.mpr
        ⟨hcarries.small, List.forall_mem_singleton.mpr (Nat.mod_lt _ (by decide))⟩
    · simp only [List.length_append, List.length_singleton]
      omega
  · have hzero : s.bits = 0 := by omega
    refine ⟨out, 0, by decide, hout, hcarries.small, by omega, ?_⟩
    have hvalue := hcarries.value_eq
    rw [hzero, pow_zero, Nat.mod_one, Nat.mul_one, Nat.add_zero] at hvalue
    rw [hvalue, pow_zero, Nat.mul_one]

theorem decode_encode (bytes : List UInt8) :
    base32LowerDecode (base32LowerEncode bytes) = some bytes := by
  obtain ⟨ds, pad, hpad, htext, hds, hlength, hvalue⟩ := encode_digits bytes
  obtain ⟨s, hs, hbits, hcarries⟩ := decode_digits ds hds
  have hcarried := hcarries.length_eq
  rw [numbers, List.length_map] at hcarried
  -- the pending bits are the padding, so the bytes are as many and spell the same number
  obtain ⟨rfl, hsame⟩ : s.bits = pad ∧ s.out.length = bytes.length := by omega
  have hnumber := hcarries.value_eq
  rw [hvalue] at hnumber
  have hzero : s.buffer % 2 ^ s.bits = 0 := by
    have hmod := congrArg (· % 2 ^ s.bits) hnumber
    simpa using hmod.symm
  have hout : numbers s.out = numbers bytes := by
    refine value_inj (by simpa [numbers] using hsame) (numbers_lt _) (numbers_lt _) ?_
    rw [hzero] at hnumber
    exact (Nat.eq_of_mul_eq_mul_right (Nat.two_pow_pos _) hnumber).symm
  have hbytes : s.out = bytes := List.map_injective_iff.mpr (fun _ _ => UInt8.toNat_inj.mp) hout
  rw [htext, base32LowerDecode, hs]
  simp [hzero, hpad, hbytes]

theorem encode_of_decode {input : List Char} {bytes : List UInt8}
    (h : base32LowerDecode input = some bytes) : input = base32LowerEncode bytes := by
  have hvalid : ∃ ds : List ℕ, (∀ d ∈ ds, d < 2 ^ 5) ∧ input = ds.map base32Char := by
    simp only [base32LowerDecode, Option.bind_eq_bind, Option.bind_eq_some_iff] at h
    obtain ⟨s, hs, -⟩ := h
    generalize (⟨[], 0, 0⟩ : Decoder) = start at hs
    induction input generalizing start with
    | nil => exact ⟨[], by simp, rfl⟩
    | cons c input ih =>
      simp only [List.foldlM_cons, decodeChar, Option.bind_eq_bind, Option.bind_eq_some_iff] at hs
      obtain ⟨next, ⟨d, hd, -⟩, hs⟩ := hs
      obtain ⟨ds, hds, rfl⟩ := ih next hs
      obtain ⟨hlt, hc⟩ := base32Char_of_digit hd
      exact ⟨d :: ds, List.forall_mem_cons.mpr ⟨hlt, hds⟩, by rw [List.map_cons, hc]⟩
  obtain ⟨ds, hds, rfl⟩ := hvalid
  obtain ⟨s, hs, hbits, hcarries⟩ := decode_digits ds hds
  simp only [base32LowerDecode, hs, Option.bind_eq_bind, Option.bind_some] at h
  split_ifs at h with hrest
  obtain rfl : s.out = bytes := by simpa using h
  obtain ⟨hpad, hzero⟩ : s.bits < 5 ∧ s.buffer % 2 ^ s.bits = 0 := by
    simpa [not_or, not_le] using hrest
  obtain ⟨es, pad, hpad', htext, hes, hlength, hvalue⟩ := encode_digits s.out
  have hcarried := hcarries.length_eq
  rw [numbers, List.length_map] at hcarried
  obtain ⟨rfl, hsame⟩ : s.bits = pad ∧ ds.length = es.length := by omega
  have hnumber := hcarries.value_eq
  rw [hzero, ← hvalue] at hnumber
  rw [htext, value_inj hsame hds hes hnumber]

def codecRaw : ℕ := 0x55

def codecDagPb : ℕ := 0x70

/-- The codec, and the digest that follows the four varints. -/
def readHeader (bytes : List UInt8) : Option (ℕ × Digest) := do
  let (version, cursor) ← readVarint 9 bytes
  guard (version = 1)
  let (codec, cursor) ← readVarint 9 cursor
  guard (codec = codecRaw ∨ codec = codecDagPb)
  let (hash, cursor) ← readVarint 9 cursor
  guard (hash = 0x12)
  let (length, cursor) ← readVarint 9 cursor
  guard (length = 32)
  if h : cursor.length = 32 then return (codec, ⟨cursor, h⟩) else none

/-- The bytes that a text spells. -/
def bytesOf (input : String) : Option (List UInt8) :=
  match input.toList with
  | 'b' :: digits => base32LowerDecode digits
  | _ => none

/-- A text that was accepted. -/
structure Cid where
  text : String
  accepted : ((bytesOf text).bind readHeader).isSome = true
deriving DecidableEq

namespace Cid

def parse (input : String) : Option Cid :=
  if h : ((bytesOf input).bind readHeader).isSome = true then some ⟨input, h⟩ else none

def fromBinary (bytes : List UInt8) : Option Cid :=
  parse (String.ofList ('b' :: base32LowerEncode bytes))

def toBinary (cid : Cid) : List UInt8 := (bytesOf cid.text).getD []

def header (cid : Cid) : ℕ × Digest := ((bytesOf cid.text).bind readHeader).get cid.accepted

def codec (cid : Cid) : ℕ := cid.header.1

def digest (cid : Cid) : Digest := cid.header.2

def isVerifiable (cid : Cid) : Bool := cid.codec = codecRaw

/-- Everything but the digest. -/
def blockPrefix (cid : Cid) : List UInt8 := cid.toBinary.take (cid.toBinary.length - 32)

def matchesContent (sha256 : List UInt8 → Digest) (cid : Cid) (content : List UInt8) : Bool :=
  cid.digest = sha256 content

end Cid

section Headers
variable {bytes bytes' : List UInt8} {codec : ℕ} {digest : Digest}

theorem readHeader_some (h : readHeader bytes = some (codec, digest)) : ∃ r₁ r₂ r₃,
    readVarint 9 bytes = some (1, r₁) ∧ readVarint 9 r₁ = some (codec, r₂) ∧
      readVarint 9 r₂ = some (0x12, r₃) ∧ readVarint 9 r₃ = some (32, digest.bytes) ∧
      (codec = codecRaw ∨ codec = codecDagPb) := by
  simp only [readHeader, Option.bind_eq_bind, Option.bind_eq_some_iff, Option.guard_eq_some'] at h
  obtain ⟨⟨version, r₁⟩, h₁, -, hversion, ⟨c, r₂⟩, h₂, -, hcodec, ⟨hash, r₃⟩, h₃, -, hhash,
    ⟨length, r₄⟩, h₄, -, hlength, h⟩ := h
  split_ifs at h
  obtain ⟨rfl, rfl⟩ : c = codec ∧ ⟨r₄, ‹_›⟩ = digest := by simpa using h
  exact ⟨r₁, r₂, r₃, hversion ▸ h₁, h₂, hhash ▸ h₃, hlength ▸ h₄, hcodec⟩

/-- The header is fixed by the codec and the widths of its varints. -/
theorem eq_of_readHeader (h : readHeader bytes = some (codec, digest))
    (h' : readHeader bytes' = some (codec, digest))
    (hwidths : varintWidths 4 bytes = varintWidths 4 bytes') : bytes = bytes' := by
  obtain ⟨r₁, r₂, r₃, h₁, h₂, h₃, h₄, -⟩ := readHeader_some h
  obtain ⟨s₁, s₂, s₃, g₁, g₂, g₃, g₄, -⟩ := readHeader_some h'
  rw [varintWidths_succ h₁, varintWidths_succ h₂, varintWidths_succ h₃, varintWidths_succ h₄,
    varintWidths_succ g₁, varintWidths_succ g₂, varintWidths_succ g₃, varintWidths_succ g₄]
    at hwidths
  simp only [List.cons.injEq, and_true] at hwidths
  obtain ⟨hw₁, hw₂, hw₃, hw₄⟩ := hwidths
  have hr₃ : r₃ = s₃ := by
    rw [eq_padded_of_readVarint h₄, eq_padded_of_readVarint g₄, hw₄]
  have hr₂ : r₂ = s₂ := by
    rw [eq_padded_of_readVarint h₃, eq_padded_of_readVarint g₃, hw₃, hr₃]
  have hr₁ : r₁ = s₁ := by
    rw [eq_padded_of_readVarint h₂, eq_padded_of_readVarint g₂, hw₂, hr₂]
  rw [eq_padded_of_readVarint h₁, eq_padded_of_readVarint g₁, hw₁, hr₁]

end Headers

namespace Cid
variable {cid : Cid} {bytes : List UInt8} {input : String}

theorem bytesOf_eq_some : bytesOf input = some bytes ↔
    input = String.ofList ('b' :: base32LowerEncode bytes) := by
  constructor
  · intro h
    unfold bytesOf at h
    split at h
    · next digits hdigits => rw [← encode_of_decode h, ← hdigits, String.ofList_toList]
    · cases h
  · rintro rfl
    simp [bytesOf, String.toList_ofList, decode_encode]

theorem bytesOf_text (cid : Cid) : bytesOf cid.text = some cid.toBinary := by
  obtain ⟨bytes, hbytes, -⟩ := Option.bind_eq_some_iff.mp
    (Option.some_get cid.accepted).symm
  rw [toBinary, hbytes, Option.getD_some]

theorem readHeader_toBinary (cid : Cid) :
    readHeader cid.toBinary = some (cid.codec, cid.digest) := by
  have hheader : (bytesOf cid.text).bind readHeader = some cid.header :=
    (Option.some_get cid.accepted).symm
  rwa [bytesOf_text] at hheader

theorem toBinary_eq (cid : Cid) : cid.toBinary = cid.blockPrefix ++ cid.digest.bytes := by
  obtain ⟨r₁, r₂, r₃, h₁, h₂, h₃, h₄, -⟩ := readHeader_some cid.readHeader_toBinary
  obtain ⟨head, hhead⟩ := (((suffix_of_readVarint h₄).trans (suffix_of_readVarint h₃)).trans
    (suffix_of_readVarint h₂)).trans (suffix_of_readVarint h₁)
  rw [blockPrefix, ← hhead, List.length_append, cid.digest.length_eq, Nat.add_sub_cancel,
    List.take_left]

/-- An identifier that is rebuilt from the digest of some content is one of that content. -/
theorem digest_of_append {head : List UInt8} {digest : Digest}
    (h : cid.toBinary = head ++ digest.bytes) : cid.digest = digest := by
  rw [toBinary_eq] at h
  have hbytes := (List.append_inj' h (cid.digest.length_eq.trans digest.length_eq.symm)).2
  revert hbytes
  cases cid.digest
  rintro rfl
  rfl

theorem text_injective {c d : Cid} (h : c.text = d.text) : c = d := by
  cases c
  cases h
  rfl

theorem toBinary_injective : Function.Injective toBinary := by
  intro c d h
  apply text_injective
  rw [bytesOf_eq_some.mp (bytesOf_text c), bytesOf_eq_some.mp (bytesOf_text d), h]

theorem parse_eq_some : parse input = some cid ↔ cid.text = input := by
  unfold parse
  constructor
  · intro h
    split_ifs at h
    rw [← Option.some.inj h]
  · rintro rfl
    exact dif_pos cid.accepted

theorem fromBinary_eq_some : fromBinary bytes = some cid ↔ cid.toBinary = bytes := by
  rw [fromBinary, parse_eq_some, ← bytesOf_eq_some, bytesOf_text, Option.some.injEq]

theorem exists_fromBinary {codec : ℕ} {digest : Digest}
    (h : readHeader bytes = some (codec, digest)) : ∃ cid, fromBinary bytes = some cid ∧
      cid.toBinary = bytes ∧ cid.codec = codec ∧ cid.digest = digest := by
  have hbytes : bytesOf (String.ofList ('b' :: base32LowerEncode bytes)) = some bytes :=
    bytesOf_eq_some.mpr rfl
  let cid : Cid := ⟨_, by rw [hbytes, Option.bind_some, h, Option.isSome_some]⟩
  have hbinary : cid.toBinary = bytes := by rw [toBinary, hbytes, Option.getD_some]
  have hheader := cid.readHeader_toBinary
  rw [hbinary, h] at hheader
  obtain ⟨hcodec, hdigest⟩ := Prod.mk.inj (Option.some.inj hheader)
  exact ⟨cid, fromBinary_eq_some.mpr hbinary, hbinary, hcodec.symm, hdigest.symm⟩

end Cid

/-- What a node may be given for an identifier. -/
inductive Spelling where
  | text (input : String)
  | binary (bytes : List UInt8)

namespace Spelling

def cid : Spelling → Option Cid
  | .text input => Cid.parse input
  | .binary bytes => Cid.fromBinary bytes

def bytes : Spelling → List UInt8
  | .text input => (bytesOf input).getD []
  | .binary bytes => bytes

/-- In how many bytes each varint of the header is written. -/
def headerWidths (x : Spelling) : List ℕ := varintWidths 4 x.bytes

theorem toBinary_of_cid {x : Spelling} {c : Cid} (h : x.cid = some c) : c.toBinary = x.bytes := by
  cases x with
  | text =>
    obtain rfl := Cid.parse_eq_some.mp h
    rfl
  | binary => exact Cid.fromBinary_eq_some.mp h

end Spelling

/-- Two spellings of the same content give one identifier exactly if they write each varint of the
header in the same number of bytes. -/
theorem one_cid_iff_same_widths (x y : Spelling) (c d : Cid) (hx : x.cid = some c)
    (hy : y.cid = some d) (hcodec : c.codec = d.codec) (hdigest : c.digest = d.digest) :
    c = d ↔ x.headerWidths = y.headerWidths := by
  rw [Spelling.headerWidths, Spelling.headerWidths, ← Spelling.toBinary_of_cid hx,
    ← Spelling.toBinary_of_cid hy]
  constructor
  · rintro rfl
    rfl
  · intro hwidths
    have hd := d.readHeader_toBinary
    rw [← hcodec, ← hdigest] at hd
    exact Cid.toBinary_injective (eq_of_readHeader c.readHeader_toBinary hd hwidths)

def plainBytes : List UInt8 := [0x01, 0x55, 0x12, 0x20] ++ List.replicate 32 7

def paddedBytes : List UInt8 := [0x81, 0x00, 0x55, 0x12, 0x20] ++ List.replicate 32 7

def plainText : String := "bafkreiaha4dqobyha4dqobyha4dqobyha4dqobyha4dqobyha4dqobyha4"

theorem readHeader_plain : readHeader plainBytes = some (codecRaw, .filled 7) := by decide

theorem one_cid_iff_same_widths_plain : ∃ c d, (Spelling.text plainText).cid = some c ∧
    (Spelling.binary plainBytes).cid = some d ∧ c = d := by
  obtain ⟨d, hd, hplain, -, -⟩ := Cid.exists_fromBinary readHeader_plain
  have htext : (Spelling.text plainText).cid = some d :=
    (congrArg Cid.parse (by decide +kernel)).trans hd
  have hwidths : (Spelling.text plainText).headerWidths =
      (Spelling.binary plainBytes).headerWidths := by
    rw [Spelling.headerWidths, ← Spelling.toBinary_of_cid htext, hplain]
    rfl
  have hbinary : (Spelling.binary plainBytes).cid = some d := hd
  exact ⟨d, d, htext, hbinary,
    (one_cid_iff_same_widths _ _ d d htext hbinary rfl rfl).mpr hwidths⟩

/-- The version may be written in two bytes, and the same content then has two identifiers. -/
theorem padded_version_accepted : ∃ c d, Cid.fromBinary plainBytes = some c ∧
    Cid.fromBinary paddedBytes = some d ∧ c.codec = d.codec ∧ c.digest = d.digest ∧ c ≠ d := by
  obtain ⟨c, hc, hplain, hcodec, hdigest⟩ := Cid.exists_fromBinary readHeader_plain
  have hheader : readHeader paddedBytes = some (codecRaw, .filled 7) := by decide
  obtain ⟨d, hd, hpadded, hcodec', hdigest'⟩ := Cid.exists_fromBinary hheader
  refine ⟨c, d, hc, hd, hcodec.trans hcodec'.symm, hdigest.trans hdigest'.symm, ?_⟩
  rintro rfl
  rw [hplain] at hpadded
  exact absurd hpadded (by decide)

end OpenFiat.ContentIds
