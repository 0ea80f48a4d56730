import OpenFiat.WireBytes

/-!
# Protobuf fields

A message is a sequence of fields. Each starts with a key, which says the number of the field and
how its payload is written; what is read after it depends on that wire type alone. A reader that
knows nothing of a number can therefore step over its payload.
-/
namespace OpenFiat.WireFields
open WireBytes

/-- Seven bits to a byte, lowest first, in at most `count` bytes. -/
def readVarint : ℕ → List UInt8 → Option (ℕ × List UInt8)
  | 0, _ => none
  | _ + 1, [] => none
  | count + 1, byte :: rest =>
    if byte.toNat < 128 then some (byte.toNat, rest)
    else (readVarint count rest).map fun r => (byte.toNat - 128 + 128 * r.1, r.2)

section Varints
variable {count v n : ℕ} {bytes rest more : List UInt8}

theorem readVarint_varint {k : ℕ} (h : n < 128 ^ count) (hcount : count ≤ k) (hpos : 0 < count)
    (rest : List UInt8) : readVarint count (varint k n ++ rest) = some (n, rest) := by
  induction count generalizing n k with
  | zero => omega
  | succ count ih =>
    obtain ⟨k, rfl⟩ : ∃ j, k = j + 1 := ⟨k - 1, by omega⟩
    unfold varint
    split_ifs with hsmall
    · simp [readVarint, toNat_ofNat (show n < 256 by omega), hsmall]
    · have hrest : n / 128 < 128 ^ count := Nat.div_lt_of_lt_mul (by rwa [← pow_succ'])
      have hmore : 0 < count := by
        rcases Nat.eq_zero_or_pos count with rfl | hmore
        · omega
        · exact hmore
      have hbyte : (UInt8.ofNat (n % 128 + 128)).toNat = n % 128 + 128 := toNat_ofNat (by omega)
      have hread := ih hrest (Nat.le_of_succ_le_succ hcount) hmore
      simp only [List.cons_append, readVarint, hbyte, hread, Option.map_some]
      rw [if_neg (by omega)]
      simp only [Option.some.injEq, Prod.mk.injEq, and_true]
      omega

/-- A number in exactly so many bytes: a lenient reader takes every width. -/
def padded : ℕ → ℕ → List UInt8
  | 0, _ => []
  | 1, n => [UInt8.ofNat n]
  | width + 2, n => UInt8.ofNat (n % 128 + 128) :: padded (width + 1) (n / 128)

/-- How many bytes the varint at the front takes. -/
def varintWidth (bytes : List UInt8) : ℕ :=
  (bytes.takeWhile fun byte => 128 ≤ byte.toNat).length + 1

/-- What is read fixes, with its width, the bytes that were read. -/
theorem eq_padded_of_readVarint (h : readVarint count bytes = some (v, rest)) :
    bytes = padded (varintWidth bytes) v ++ rest := by
  induction count generalizing bytes v with
  | zero => simp [readVarint] at h
  | succ count ih =>
    cases bytes with
    | nil => simp [readVarint] at h
    | cons byte bytes =>
      have hlt := byte.toNat_lt
      unfold readVarint at h
      split_ifs at h with hlast
      · obtain ⟨rfl, rfl⟩ : byte.toNat = v ∧ bytes = rest := by simpa using h
        have hwidth : varintWidth (byte :: bytes) = 1 := by simp [varintWidth, hlast]
        simp [hwidth, padded]
      · obtain ⟨⟨w, rest'⟩, hread, heq⟩ := Option.map_eq_some_iff.mp h
        obtain ⟨rfl, rfl⟩ : byte.toNat - 128 + 128 * w = v ∧ rest' = rest := by simpa using heq
        have hwidth : varintWidth (byte :: bytes) =
            (bytes.takeWhile fun byte => 128 ≤ byte.toNat).length + 2 := by
          simp [varintWidth, not_lt.mp hlast]
        have hbyte : (byte.toNat - 128 + 128 * w) % 128 + 128 = byte.toNat := by omega
        have hquotient : (byte.toNat - 128 + 128 * w) / 128 = w := by omega
        rw [hwidth, padded, hbyte, hquotient, UInt8.ofNat_toNat]
        exact congrArg (byte :: ·) (ih hread)

theorem readVarint_append (h : readVarint count bytes = some (v, rest)) (more : List UInt8) :
    readVarint count (bytes ++ more) = some (v, rest ++ more) := by
  induction count generalizing bytes v with
  | zero => simp [readVarint] at h
  | succ count ih =>
    cases bytes with
    | nil => simp [readVarint] at h
    | cons byte bytes =>
      unfold readVarint at h
      simp only [List.cons_append, readVarint]
      split_ifs at h ⊢ with hlast
      · obtain ⟨rfl, rfl⟩ : byte.toNat = v ∧ bytes = rest := by simpa using h
        rfl
      · obtain ⟨⟨w, rest'⟩, hread, heq⟩ := Option.map_eq_some_iff.mp h
        obtain ⟨rfl, rfl⟩ : byte.toNat - 128 + 128 * w = v ∧ rest' = rest := by simpa using heq
        rw [ih hread]
        rfl

theorem length_padded (width n : ℕ) : (padded width n).length = width := by
  induction width using Nat.twoStepInduction generalizing n with
  | zero => rfl
  | one => rfl
  | more width _ ih => simp [padded, ih]

theorem length_of_readVarint (h : readVarint count bytes = some (v, rest)) :
    rest.length < bytes.length := by
  have hbytes := congrArg List.length (eq_padded_of_readVarint h)
  rw [List.length_append, length_padded, varintWidth] at hbytes
  omega

theorem suffix_of_readVarint (h : readVarint count bytes = some (v, rest)) : rest <:+ bytes :=
  ⟨_, (eq_padded_of_readVarint h).symm⟩

theorem drop_varintWidth (h : readVarint count bytes = some (v, rest)) :
    bytes.drop (varintWidth bytes) = rest := by
  have hbytes := eq_padded_of_readVarint h
  generalize varintWidth bytes = width at hbytes ⊢
  rw [hbytes, List.drop_left' (length_padded width v)]

/-- The widths of so many varints in a row. -/
def varintWidths : ℕ → List UInt8 → List ℕ
  | 0, _ => []
  | count + 1, bytes => varintWidth bytes :: varintWidths count (bytes.drop (varintWidth bytes))

theorem varintWidths_succ {k : ℕ} (h : readVarint count bytes = some (v, rest)) :
    varintWidths (k + 1) bytes = varintWidth bytes :: varintWidths k rest := by
  rw [varintWidths, drop_varintWidth h]

end Varints

inductive Payload where
  | varint (n : ℕ)
  | fixed64
  | bytes (b : List UInt8)
  | fixed32
deriving DecidableEq, Repr

/-- A varint of 64 bits: in the tenth byte only the lowest bit counts. -/
def readWord (input : List UInt8) : Option (ℕ × List UInt8) :=
  (readVarint 10 input).map fun r => (r.1 % 2 ^ 64, r.2)

def lengthDelimited (input : List UInt8) : Option (List UInt8 × List UInt8) := do
  let (length, rest) ← readWord input
  if rest.length < length then none else some (rest.take length, rest.drop length)

def takeBytes (count : ℕ) (input : List UInt8) : Option (List UInt8) :=
  if input.length < count then none else some (input.drop count)

/-- Groups have no length to step over, and wire types 6 and 7 do not exist. -/
def readPayload (wire : ℕ) (input : List UInt8) : Option (Payload × List UInt8) :=
  match wire with
  | 0 => (readWord input).map fun r => (.varint r.1, r.2)
  | 1 => (takeBytes 8 input).map fun rest => (.fixed64, rest)
  | 2 => (lengthDelimited input).map fun r => (.bytes r.1, r.2)
  | 5 => (takeBytes 4 input).map fun rest => (.fixed32, rest)
  | _ => none

abbrev Field := ℕ × Payload

def readField (input : List UInt8) : Option (Field × List UInt8) := do
  let (key, rest) ← readWord input
  let (payload, rest) ← readPayload (key % 8) rest
  return ((key / 8, payload), rest)

def fieldsFrom : ℕ → List UInt8 → Option (List Field)
  | _, [] => some []
  | 0, _ => none
  | fuel + 1, input => do
    let (field, rest) ← readField input
    let fields ← fieldsFrom fuel rest
    return field :: fields

/-- Each field takes a byte at least, so the length of the input is fuel enough. -/
def fields (input : List UInt8) : Option (List Field) := fieldsFrom input.length input

section Reading
variable {input rest : List UInt8} {field : Field} {payload : Payload} {n wire : ℕ}

theorem readWord_append {word : ℕ} (h : readWord input = some (word, rest)) (more : List UInt8) :
    readWord (input ++ more) = some (word, rest ++ more) := by
  obtain ⟨⟨v, rest'⟩, hread, heq⟩ := Option.map_eq_some_iff.mp h
  obtain ⟨rfl, rfl⟩ : v % 2 ^ 64 = word ∧ rest' = rest := by simpa using heq
  rw [readWord, readVarint_append hread]
  rfl

theorem length_of_readWord {word : ℕ} (h : readWord input = some (word, rest)) :
    rest.length < input.length := by
  obtain ⟨⟨v, rest'⟩, hread, heq⟩ := Option.map_eq_some_iff.mp h
  obtain ⟨rfl, rfl⟩ : v % 2 ^ 64 = word ∧ rest' = rest := by simpa using heq
  exact length_of_readVarint hread

theorem lengthDelimited_some {b : List UInt8} (h : lengthDelimited input = some (b, rest)) :
    ∃ length, readWord input = some (length, b ++ rest) ∧ b.length = length := by
  simp only [lengthDelimited, Option.bind_eq_bind, Option.bind_eq_some_iff] at h
  obtain ⟨⟨length, tail⟩, hword, h⟩ := h
  split_ifs at h with hshort
  obtain ⟨rfl, rfl⟩ : tail.take length = b ∧ tail.drop length = rest := by simpa using h
  refine ⟨length, by rw [hword, List.take_append_drop], ?_⟩
  rw [List.length_take]
  exact Nat.min_eq_left (not_lt.mp hshort)

theorem lengthDelimited_of_word {b : List UInt8} (h : readWord input = some (b.length, b ++ rest)) :
    lengthDelimited input = some (b, rest) := by
  simp [lengthDelimited, h]

theorem takeBytes_some {count : ℕ} (h : takeBytes count input = some rest) :
    ∃ taken, input = taken ++ rest ∧ taken.length = count := by
  unfold takeBytes at h
  split_ifs at h with hshort
  refine ⟨input.take count, ?_, by rw [List.length_take]; omega⟩
  rw [← Option.some.inj h, List.take_append_drop]

/-- The payload is a part of the input, and what is read does not depend on what follows. -/
theorem readPayload_some (h : readPayload wire input = some (payload, rest)) :
    rest.length ≤ input.length ∧
      ∀ more, readPayload wire (input ++ more) = some (payload, rest ++ more) := by
  have htake {count : ℕ} {rest : List UInt8} (h : takeBytes count input = some rest) :
      rest.length ≤ input.length ∧
        ∀ more, takeBytes count (input ++ more) = some (rest ++ more) := by
    obtain ⟨taken, rfl, rfl⟩ := takeBytes_some h
    simp [takeBytes]
  unfold readPayload at h
  split at h
  · obtain ⟨⟨word, rest'⟩, hword, heq⟩ := Option.map_eq_some_iff.mp h
    cases heq
    exact ⟨(length_of_readWord hword).le, fun more => by
      simp [readPayload, readWord_append hword]⟩
  · obtain ⟨rest', hrest, heq⟩ := Option.map_eq_some_iff.mp h
    cases heq
    exact ⟨(htake hrest).1, fun more => by simp [readPayload, (htake hrest).2]⟩
  · obtain ⟨⟨b, rest'⟩, hdelimited, heq⟩ := Option.map_eq_some_iff.mp h
    cases heq
    obtain ⟨length, hword, rfl⟩ := lengthDelimited_some hdelimited
    refine ⟨?_, fun more => ?_⟩
    · have hlength := length_of_readWord hword
      rw [List.length_append] at hlength
      change rest'.length ≤ input.length
      omega
    · have hmore := readWord_append hword more
      rw [List.append_assoc] at hmore
      simp [readPayload, lengthDelimited_of_word hmore]
  · obtain ⟨rest', hrest, heq⟩ := Option.map_eq_some_iff.mp h
    cases heq
    exact ⟨(htake hrest).1, fun more => by simp [readPayload, (htake hrest).2]⟩
  · cases h

theorem readField_some (h : readField input = some (field, rest)) :
    rest.length < input.length ∧
      ∀ more, readField (input ++ more) = some (field, rest ++ more) := by
  simp only [readField, Option.bind_eq_bind, Option.bind_eq_some_iff, Option.pure_def,
    Option.some.injEq, Prod.mk.injEq] at h
  obtain ⟨⟨key, tail⟩, hkey, ⟨payload, rest'⟩, hpayload, rfl, rfl⟩ := h
  obtain ⟨hle, hmore⟩ := readPayload_some hpayload
  exact ⟨hle.trans_lt (length_of_readWord hkey), fun more => by
    simp [readField, readWord_append hkey, hmore]⟩

theorem fieldsFrom_congr {fuel fuel' : ℕ} (h : input.length ≤ fuel) (h' : input.length ≤ fuel') :
    fieldsFrom fuel input = fieldsFrom fuel' input := by
  induction fuel generalizing fuel' input with
  | zero =>
    obtain rfl : input = [] := List.length_eq_zero_iff.mp (by omega)
    simp [fieldsFrom]
  | succ fuel ih =>
    cases input with
    | nil => simp [fieldsFrom]
    | cons byte input =>
      obtain ⟨fuel', rfl⟩ : ∃ k, fuel' = k + 1 := ⟨fuel' - 1, by simp at h'; omega⟩
      unfold fieldsFrom
      cases hread : readField (byte :: input) with
      | none => rfl
      | some r =>
        have hshorter := (readField_some hread).1
        simp only [Option.bind_eq_bind, Option.bind_some]
        rw [ih (by omega) (show r.2.length ≤ fuel' by omega)]

@[simp] theorem fields_nil : fields [] = some [] := rfl

theorem fields_of_readField (h : readField input = some (field, rest)) :
    fields input = (fields rest).map (field :: ·) := by
  cases input with
  | nil => simp [readField, readWord, readVarint] at h
  | cons byte input =>
    have hshorter := (readField_some h).1
    rw [List.length_cons] at hshorter
    simp only [fields, List.length_cons, fieldsFrom, h, Option.bind_eq_bind, Option.bind_some]
    rw [fieldsFrom_congr (by omega : rest.length ≤ input.length) le_rfl]
    cases fieldsFrom rest.length rest <;> rfl

theorem fields_append {fs : List Field} (h : fields input = some fs) (more : List UInt8) :
    fields (input ++ more) = (fields more).map (fs ++ ·) := by
  induction hn : input.length using Nat.strongRecOn generalizing input fs with
  | ind n ih =>
    cases input with
    | nil =>
      obtain rfl : [] = fs := by simpa using h
      simp
    | cons byte input =>
      cases hread : readField (byte :: input) with
      | none => simp [fields, fieldsFrom, hread] at h
      | some r =>
        obtain ⟨field, rest⟩ := r
        obtain ⟨hshorter, hmore⟩ := readField_some hread
        rw [fields_of_readField hread] at h
        obtain ⟨tail, htail, rfl⟩ := Option.map_eq_some_iff.mp h
        rw [fields_of_readField (hmore more), ih rest.length (hn ▸ hshorter) htail rfl,
          Option.map_map]
        rfl

end Reading

def writeVarintField (number n : ℕ) : List UInt8 := varint 10 (8 * number) ++ varint 10 n

def writeBytes (number : ℕ) (b : List UInt8) : List UInt8 :=
  varint 10 (8 * number + 2) ++ varint 10 b.length ++ b

section Writing
variable {number n : ℕ} {b : List UInt8}

theorem readWord_varint (h : n < 2 ^ 64) (rest : List UInt8) :
    readWord (varint 10 n ++ rest) = some (n, rest) := by
  rw [readWord, readVarint_varint (h.trans (by decide)) le_rfl (by decide), Option.map_some,
    Nat.mod_eq_of_lt h]

theorem readField_writeVarintField (hnumber : number < 2 ^ 61) (hn : n < 2 ^ 64)
    (rest : List UInt8) :
    readField (writeVarintField number n ++ rest) = some ((number, .varint n), rest) := by
  have hkey : 8 * number % 8 = 0 ∧ 8 * number / 8 = number := by omega
  rw [writeVarintField, List.append_assoc, readField, readWord_varint (by omega)]
  simp [hkey, readPayload, readWord_varint hn]

theorem readField_writeBytes (hnumber : number < 2 ^ 61) (hb : b.length < 2 ^ 64)
    (rest : List UInt8) :
    readField (writeBytes number b ++ rest) = some ((number, .bytes b), rest) := by
  have hkey : (8 * number + 2) % 8 = 2 ∧ (8 * number + 2) / 8 = number := by omega
  rw [writeBytes, List.append_assoc, List.append_assoc, readField, readWord_varint (by omega)]
  simp [hkey, readPayload, lengthDelimited_of_word (readWord_varint hb (b ++ rest))]

theorem fields_writeBytes (hnumber : number < 2 ^ 61) (hb : b.length < 2 ^ 64)
    (rest : List UInt8) :
    fields (writeBytes number b ++ rest) = (fields rest).map ((number, .bytes b) :: ·) :=
  fields_of_readField (readField_writeBytes hnumber hb rest)

/-- The size of a field whose key takes one byte. -/
def fieldSize (payload : ℕ) : ℕ := 1 + (varint 10 payload).length + payload

theorem length_le_writeBytes (number : ℕ) (b : List UInt8) :
    b.length ≤ (writeBytes number b).length := by
  simp only [writeBytes, List.length_append]
  omega

theorem fields_flatMap {α : Type} (hnumber : number < 2 ^ 61) (encode : α → List UInt8) (l : List α)
    (h : (l.flatMap fun a => writeBytes number (encode a)).length < 2 ^ 64) (rest : List UInt8) :
    fields ((l.flatMap fun a => writeBytes number (encode a)) ++ rest) =
      (fields rest).map ((l.map fun a => (number, .bytes (encode a))) ++ ·) := by
  induction l with
  | nil => simp
  | cons a l ih =>
    have hle := length_le_writeBytes number (encode a)
    rw [List.flatMap_cons, List.length_append] at h
    rw [List.flatMap_cons, List.append_assoc, fields_writeBytes hnumber (by omega),
      ih (by omega), Option.map_map]
    rfl

end Writing

end OpenFiat.WireFields
