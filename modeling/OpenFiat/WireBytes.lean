import Mathlib.Algebra.Order.Ring.Int

/-!
# Bytes of words and containers

Fixed-width words in either byte order, and two forms of the containers. In Borsh a list is its
length as a four-byte little-endian word followed by its elements, and an optional value is a
tag byte followed by the value, if any. Postcard writes lengths and wide integers as varints,
seven bits to a byte.
-/
namespace OpenFiat.WireBytes

def littleEndian : ℕ → ℕ → List UInt8
  | 0, _ => []
  | width + 1, n => UInt8.ofNat n :: littleEndian width (n / 256)

def ofLittleEndian (bytes : List UInt8) : ℕ :=
  bytes.foldr (fun b acc => b.toNat + 256 * acc) 0

def bigEndian (width n : ℕ) : List UInt8 := (littleEndian width n).reverse

@[simp] theorem length_littleEndian (width n : ℕ) : (littleEndian width n).length = width := by
  induction width generalizing n with
  | zero => rfl
  | succ width ih => rw [littleEndian, List.length_cons, ih]

@[simp] theorem length_bigEndian (width n : ℕ) : (bigEndian width n).length = width := by
  rw [bigEndian, List.length_reverse, length_littleEndian]

theorem ofLittleEndian_littleEndian {width n : ℕ} (h : n < 256 ^ width) :
    ofLittleEndian (littleEndian width n) = n := by
  induction width generalizing n with
  | zero => exact (Nat.lt_one_iff.mp h).symm
  | succ width ih =>
    have hrest : n / 256 < 256 ^ width := Nat.div_lt_of_lt_mul (by rwa [← pow_succ'])
    change (UInt8.ofNat n).toNat + 256 * ofLittleEndian (littleEndian width (n / 256)) = n
    rw [ih hrest]
    exact Nat.mod_add_div n 256

theorem littleEndian_ofLittleEndian (bytes : List UInt8) :
    littleEndian bytes.length (ofLittleEndian bytes) = bytes := by
  induction bytes with
  | nil => rfl
  | cons b bytes ih =>
    have hb := b.toNat_lt
    change UInt8.ofNat (b.toNat + 256 * ofLittleEndian bytes) ::
      littleEndian bytes.length ((b.toNat + 256 * ofLittleEndian bytes) / 256) = b :: bytes
    have hrest : (b.toNat + 256 * ofLittleEndian bytes) / 256 = ofLittleEndian bytes := by omega
    have hbyte : UInt8.ofNat (b.toNat + 256 * ofLittleEndian bytes) = b := by
      apply UInt8.toNat_inj.mp
      rw [UInt8.toNat_ofNat']
      omega
    rw [hrest, ih, hbyte]

theorem bigEndian_injOn {width m n : ℕ} (hm : m < 256 ^ width) (hn : n < 256 ^ width)
    (h : bigEndian width m = bigEndian width n) : m = n := by
  have hlittle := congrArg ofLittleEndian (List.reverse_inj.mp h)
  rwa [ofLittleEndian_littleEndian hm, ofLittleEndian_littleEndian hn] at hlittle

/-- A signed word in two's complement. -/
def signedLittleEndian (width : ℕ) (n : ℤ) : List UInt8 :=
  littleEndian width (n % 256 ^ width).toNat

@[simp] theorem length_signedLittleEndian (width : ℕ) (n : ℤ) :
    (signedLittleEndian width n).length = width :=
  length_littleEndian _ _

section Containers
variable {α : Type}

def boolByte (b : Bool) : List UInt8 := [if b then 1 else 0]

def vec (encode : α → List UInt8) (l : List α) : List UInt8 :=
  littleEndian 4 l.length ++ l.flatMap encode

def option (encode : α → List UInt8) : Option α → List UInt8
  | none => [0]
  | some a => 1 :: encode a

theorem length_flatMap_of_fixed {encode : α → List UInt8} {size : ℕ}
    (h : ∀ a, (encode a).length = size) (l : List α) :
    (l.flatMap encode).length = l.length * size := by
  induction l with
  | nil => exact (Nat.zero_mul size).symm
  | cons a l ih =>
    rw [List.flatMap_cons, List.length_append, h, ih, List.length_cons, Nat.succ_mul, Nat.add_comm]

def varint : ℕ → ℕ → List UInt8
  | 0, _ => []
  | count + 1, n =>
    if n < 128 then [UInt8.ofNat n] else UInt8.ofNat (n % 128 + 128) :: varint count (n / 128)

theorem toNat_ofNat {n : ℕ} (h : n < 256) : (UInt8.ofNat n).toNat = n :=
  UInt8.toNat_ofNat_of_lt' h

theorem length_varint_le (count n : ℕ) : (varint count n).length ≤ count := by
  induction count generalizing n with
  | zero => exact le_rfl
  | succ count ih =>
    unfold varint
    split_ifs
    · exact Nat.succ_le_succ (Nat.zero_le count)
    · exact Nat.succ_le_succ (ih _)

/-- A sequence in postcard: its length, then the elements. -/
def seq (encode : α → List UInt8) (l : List α) : List UInt8 :=
  varint 10 l.length ++ l.flatMap encode

def byteSeq (bytes : List UInt8) : List UInt8 := varint 10 bytes.length ++ bytes

end Containers

end OpenFiat.WireBytes
