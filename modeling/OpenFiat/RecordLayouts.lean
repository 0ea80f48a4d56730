import OpenFiat.WireBytes

/-!
# Records of a fixed size in a byte buffer

A layout writes each value of a type to the same number of bytes and reads it back. Layouts of
words combine to layouts of arrays and of records, field after field. A buffer is read and
written at offsets that the code computes by hand: `slice`, `overwrite` and `resize` are these
accesses, and their lemmas turn an access to a concatenation into one to a single part of it.
-/
namespace OpenFiat.RecordLayouts
open WireBytes

def slice (offset count : ℕ) (data : List UInt8) : List UInt8 := (data.drop offset).take count

/-- Copies bytes over those at an offset; a range beyond the end aborts. -/
def overwrite (data : List UInt8) (offset : ℕ) (bytes : List UInt8) : Option (List UInt8) :=
  if offset + bytes.length ≤ data.length then
    some (data.take offset ++ bytes ++ data.drop (offset + bytes.length))
  else none

def resize (count : ℕ) (data : List UInt8) : List UInt8 :=
  data.take count ++ List.replicate (count - data.length) 0

/-- Writes one chunk after the other and returns the cursor behind the last. -/
def overwriteFrom (data : List UInt8) (cursor : ℕ) :
    List (List UInt8) → Option (List UInt8 × ℕ)
  | [] => some (data, cursor)
  | chunk :: chunks =>
    (overwrite data cursor chunk).bind fun data => overwriteFrom data (cursor + chunk.length) chunks

section Buffers
variable {before middle after bytes data : List UInt8} {offset count : ℕ}

theorem slice_append (hoffset : before.length = offset) (hcount : middle.length = count) :
    slice offset count (before ++ (middle ++ after)) = middle := by
  subst hoffset hcount
  rw [slice, List.drop_left, List.take_left]

theorem slice_field {fields : List (List UInt8)} {sizes : List ℕ} {k : ℕ}
    (hsizes : fields.map List.length = sizes) (hfield : fields[k]? = some middle)
    (hcount : sizes[k]? = some count) (trailing : List UInt8) :
    slice (sizes.take k).sum count (fields.flatten ++ trailing) = middle := by
  subst hsizes
  obtain ⟨hlt, rfl⟩ := List.getElem?_eq_some_iff.mp hfield
  rw [List.getElem?_map, hfield, Option.map_some, Option.some.injEq] at hcount
  have hoffset : (fields.take k).flatten.length = ((fields.map List.length).take k).sum := by
    rw [List.length_flatten, List.map_take]
  have hsplit : fields.flatten ++ trailing =
      (fields.take k).flatten ++ (fields[k] ++ ((fields.drop (k + 1)).flatten ++ trailing)) := by
    rw [← List.append_assoc fields[k], ← List.flatten_cons, ← List.drop_eq_getElem_cons hlt,
      ← List.append_assoc, ← List.flatten_append, List.take_append_drop]
  rw [hsplit]
  exact slice_append hoffset hcount

theorem slice_append_right (h : before.length ≤ offset) :
    slice offset count (before ++ after) = slice (offset - before.length) count after := by
  rw [slice, slice, List.drop_append, List.drop_eq_nil_of_le h, List.nil_append]

theorem overwrite_append (hoffset : before.length = offset)
    (hlength : bytes.length = middle.length) :
    overwrite (before ++ (middle ++ after)) offset bytes = some (before ++ (bytes ++ after)) := by
  subst hoffset
  have hfits : before.length + bytes.length ≤ (before ++ (middle ++ after)).length := by
    simp only [List.length_append]
    omega
  have hdrop : (before ++ (middle ++ after)).drop (before.length + bytes.length) = after := by
    rw [← List.append_assoc, hlength, ← List.length_append, List.drop_left]
  rw [overwrite, if_pos hfits, hdrop, List.take_left, List.append_assoc]

theorem resize_of_le (h : data.length ≤ count) :
    resize count data = data ++ List.replicate (count - data.length) 0 := by
  rw [resize, List.take_of_length_le h]

theorem overwriteFrom_append (chunks : List (List UInt8)) (hoffset : before.length = offset)
    (hlength : chunks.flatten.length = middle.length) :
    overwriteFrom (before ++ (middle ++ after)) offset chunks =
      some (before ++ (chunks.flatten ++ after), offset + middle.length) := by
  induction chunks generalizing before middle offset with
  | nil =>
    obtain rfl : middle = [] := List.eq_nil_of_length_eq_zero hlength.symm
    rfl
  | cons chunk chunks ih =>
    -- The chunk takes the place of the first bytes, the loop that of the others.
    rw [List.flatten_cons, List.length_append] at hlength
    have hfirst : chunk.length = (middle.take chunk.length).length := by
      rw [List.length_take]
      omega
    have hrest : chunks.flatten.length = (middle.drop chunk.length).length := by
      rw [List.length_drop]
      omega
    have hsplit : before ++ (middle ++ after) =
        before ++ (middle.take chunk.length ++ (middle.drop chunk.length ++ after)) := by
      rw [← List.append_assoc (middle.take _), List.take_append_drop]
    have hcursor : (before ++ chunk).length = offset + chunk.length := by
      rw [List.length_append, hoffset]
    rw [overwriteFrom, hsplit, overwrite_append hoffset hfirst, Option.bind_some,
      ← List.append_assoc before chunk, ih hcursor hrest, List.flatten_cons,
      List.append_assoc before, List.append_assoc chunk]
    refine congrArg some (Prod.ext rfl ?_)
    omega

end Buffers

/-- A string of a fixed number of bytes. -/
structure Block (count : ℕ) where
  bytes : List UInt8
  length_eq : bytes.length = count
deriving DecidableEq, Repr

def Block.zero (count : ℕ) : Block count := ⟨List.replicate count 0, List.length_replicate⟩

structure Layout (α : Type) where
  size : ℕ
  encode : α → List UInt8
  decode : List UInt8 → α
  length_encode : ∀ a, (encode a).length = size
  decode_encode : ∀ a, decode (encode a) = a

namespace Layout
variable {α β : Type}

theorem encode_injective (L : Layout α) : Function.Injective L.encode :=
  Function.LeftInverse.injective L.decode_encode

/-- The value at the front of a buffer that is long enough. -/
def read (L : Layout α) (data : List UInt8) : Option α :=
  if L.size ≤ data.length then some (L.decode (data.take L.size)) else none

theorem read_encode_append (L : Layout α) (a : α) (rest : List UInt8) :
    L.read (L.encode a ++ rest) = some a := by
  have hfits : L.size ≤ (L.encode a ++ rest).length := by
    rw [List.length_append, L.length_encode]
    exact Nat.le_add_right _ _
  rw [read, if_pos hfits, ← L.length_encode a, List.take_left, L.decode_encode]

theorem read_of_short (L : Layout α) {data : List UInt8} (h : data.length < L.size) :
    L.read data = none :=
  if_neg (Nat.not_le.mpr h)

/-- The same bytes read as another type. -/
def via (L : Layout α) (unpack : β → α) (pack : α → β) (h : Function.LeftInverse pack unpack) :
    Layout β where
  size := L.size
  encode b := L.encode (unpack b)
  decode bytes := pack (L.decode bytes)
  length_encode _ := L.length_encode _
  decode_encode b := (congrArg pack (L.decode_encode _)).trans (h b)

theorem length_pair_encode (L : Layout α) (M : Layout β) (p : α × β) :
    (L.encode p.1 ++ M.encode p.2).length = L.size + M.size := by
  rw [List.length_append, L.length_encode, M.length_encode]

theorem pair_decode_encode (L : Layout α) (M : Layout β) (p : α × β) :
    (L.decode ((L.encode p.1 ++ M.encode p.2).take L.size),
      M.decode ((L.encode p.1 ++ M.encode p.2).drop L.size)) = p := by
  rw [← L.length_encode p.1, List.take_left, List.drop_left, L.decode_encode, M.decode_encode]

def pair (L : Layout α) (M : Layout β) : Layout (α × β) where
  size := L.size + M.size
  encode p := L.encode p.1 ++ M.encode p.2
  decode bytes := (L.decode (bytes.take L.size), M.decode (bytes.drop L.size))
  length_encode := length_pair_encode L M
  decode_encode := pair_decode_encode L M

def entries (L : Layout α) {count : ℕ} (f : Fin count → α) : List (List UInt8) :=
  List.ofFn fun i => L.encode (f i)

theorem length_entries_flatten (L : Layout α) {count : ℕ} (f : Fin count → α) :
    (L.entries f).flatten.length = count * L.size := by
  induction count with
  | zero => rw [entries, List.ofFn_zero, Nat.zero_mul, List.flatten_nil, List.length_nil]
  | succ count ih =>
    rw [entries, List.ofFn_succ, List.flatten_cons, List.length_append, L.length_encode,
      Nat.succ_mul, Nat.add_comm]
    exact congrArg (· + L.size) (ih fun i => f i.succ)

theorem slice_entries_flatten (L : Layout α) {count : ℕ} (f : Fin count → α) (i : Fin count) :
    slice (i * L.size) L.size (L.entries f).flatten = L.encode (f i) := by
  induction count with
  | zero => exact i.elim0
  | succ count ih =>
    rw [entries, List.ofFn_succ, List.flatten_cons]
    cases i using Fin.cases with
    | zero =>
      rw [slice, Fin.val_zero, Nat.zero_mul, List.drop_zero, ← L.length_encode (f 0),
        List.take_left]
    | succ i =>
      have hpast : (L.encode (f 0)).length ≤ i.succ * L.size := by
        rw [L.length_encode, Fin.val_succ, Nat.succ_mul]
        exact Nat.le_add_left _ _
      rw [slice_append_right hpast, L.length_encode, Fin.val_succ, Nat.succ_mul,
        Nat.add_sub_cancel]
      exact ih (fun j => f j.succ) i

def array (count : ℕ) (L : Layout α) : Layout (Fin count → α) where
  size := count * L.size
  encode f := (L.entries f).flatten
  decode bytes := fun i => L.decode (slice (i * L.size) L.size bytes)
  length_encode := L.length_entries_flatten
  decode_encode f := funext fun i =>
    (congrArg L.decode (L.slice_entries_flatten f i)).trans (L.decode_encode _)

end Layout

theorem uint64_decode_encode (n : UInt64) :
    UInt64.ofNat (ofLittleEndian (littleEndian 8 n.toNat)) = n := by
  rw [ofLittleEndian_littleEndian n.toNat_lt, UInt64.ofNat_toNat]

theorem uint16_decode_encode (n : UInt16) :
    UInt16.ofNat (ofLittleEndian (littleEndian 2 n.toNat)) = n := by
  rw [ofLittleEndian_littleEndian n.toNat_lt, UInt16.ofNat_toNat]

theorem uint8_decode_encode (n : UInt8) : [n].headD 0 = n := rfl

def u64 : Layout UInt64 where
  size := 8
  encode n := littleEndian 8 n.toNat
  decode bytes := UInt64.ofNat (ofLittleEndian bytes)
  length_encode _ := length_littleEndian 8 _
  decode_encode := uint64_decode_encode

def i64 : Layout Int64 := u64.via Int64.toUInt64 Int64.ofUInt64 fun _ => rfl

def u16 : Layout UInt16 where
  size := 2
  encode n := littleEndian 2 n.toNat
  decode bytes := UInt16.ofNat (ofLittleEndian bytes)
  length_encode _ := length_littleEndian 2 _
  decode_encode := uint16_decode_encode

def u8 : Layout UInt8 where
  size := 1
  encode n := [n]
  decode bytes := bytes.headD 0
  length_encode _ := List.length_singleton
  decode_encode := uint8_decode_encode

def Block.ofBytes (count : ℕ) (bytes : List UInt8) : Block count :=
  if h : bytes.length = count then ⟨bytes, h⟩ else .zero count

theorem Block.ofBytes_bytes {count : ℕ} (b : Block count) : Block.ofBytes count b.bytes = b :=
  dif_pos b.length_eq

def block (count : ℕ) : Layout (Block count) where
  size := count
  encode b := b.bytes
  decode bytes := Block.ofBytes count bytes
  length_encode b := b.length_eq
  decode_encode := Block.ofBytes_bytes

end OpenFiat.RecordLayouts
