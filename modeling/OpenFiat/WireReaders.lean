import OpenFiat.WireBytes

/-!
# Readers of wire bytes

A reader takes a value off the front of a byte string and leaves the rest. `Reads` says that it
undoes an encoding whatever follows; it is kept by the ways in which encodings are composed:
length-framed bytes, pairs, counted sequences and values built from others.
-/
namespace OpenFiat.WireReaders
open WireBytes

variable {α β : Type}

abbrev Reader (α : Type) := List UInt8 → Option (α × List UInt8)

def Reads (read : Reader α) (encode : α → List UInt8) : Prop :=
  ∀ a rest, read (encode a ++ rest) = some (a, rest)

variable {encode : α → List UInt8} {read : Reader α}

theorem Reads.append_inj (h : Reads read encode) {a b : α} {rest rest' : List UInt8}
    (heq : encode a ++ rest = encode b ++ rest') : a = b ∧ rest = rest' := by
  have hread := h a rest
  rw [heq, h b rest'] at hread
  exact Prod.mk.inj (Option.some.inj hread.symm)

theorem Reads.injective (h : Reads read encode) : Function.Injective encode :=
  fun _ _ heq => (h.append_inj (congrArg (· ++ []) heq)).1

def readVarint : Reader ℕ
  | [] => none
  | b :: rest =>
    if b.toNat < 128 then some (b.toNat, rest)
    else (readVarint rest).map fun r => (b.toNat - 128 + 128 * r.1, r.2)

theorem readVarint_varint {count n : ℕ} (h : n < 128 ^ (count + 1)) (rest : List UInt8) :
    readVarint (varint (count + 1) n ++ rest) = some (n, rest) := by
  induction count generalizing n with
  | zero =>
    have hsmall : n < 128 := by simpa using h
    rw [varint, if_pos hsmall, List.singleton_append, readVarint, toNat_ofNat (by omega),
      if_pos hsmall]
  | succ count ih =>
    rw [varint]
    by_cases hsmall : n < 128
    · rw [if_pos hsmall, List.singleton_append, readVarint, toNat_ofNat (by omega),
        if_pos hsmall]
    · have hrest : n / 128 < 128 ^ (count + 1) := Nat.div_lt_of_lt_mul (by rwa [← pow_succ'])
      have hbyte : (UInt8.ofNat (n % 128 + 128)).toNat = n % 128 + 128 :=
        toNat_ofNat (by omega)
      have hmore : ¬ n % 128 + 128 < 128 := by omega
      have hsum : n % 128 + 128 - 128 + 128 * (n / 128) = n := by omega
      rw [if_neg hsmall, List.cons_append, readVarint, hbyte, if_neg hmore, ih hrest,
        Option.map_some, hsum]

def fullVarint (n : ℕ) : List UInt8 := varint (n + 1) n

theorem reads_fullVarint : Reads readVarint fullVarint := by
  intro n rest
  have hpow : n < 128 ^ (n + 1) :=
    (Nat.lt_pow_self (by decide)).trans (Nat.pow_lt_pow_right (by decide) (Nat.lt_succ_self n))
  exact readVarint_varint hpow rest

def frame (bytes : List UInt8) : List UInt8 := fullVarint bytes.length ++ bytes

def readFrame : Reader (List UInt8) := fun bytes =>
  (readVarint bytes).bind fun r =>
    if r.1 ≤ r.2.length then some (r.2.take r.1, r.2.drop r.1) else none

theorem reads_frame : Reads readFrame frame := by
  intro bytes rest
  have hle : bytes.length ≤ (bytes ++ rest).length := by
    rw [List.length_append]
    exact Nat.le_add_right _ _
  rw [frame, List.append_assoc, readFrame, reads_fullVarint, Option.bind_some, if_pos hle,
    List.take_left, List.drop_left]

def pair (encode : α → List UInt8) (encode' : β → List UInt8) (p : α × β) : List UInt8 :=
  encode p.1 ++ encode' p.2

def readPair (read : Reader α) (read' : Reader β) : Reader (α × β) := fun bytes =>
  (read bytes).bind fun r => (read' r.2).map fun r' => ((r.1, r'.1), r'.2)

theorem reads_pair {read' : Reader β} {encode' : β → List UInt8} (h : Reads read encode)
    (h' : Reads read' encode') : Reads (readPair read read') (pair encode encode') := by
  intro p rest
  rw [pair, List.append_assoc, readPair, h, Option.bind_some, h', Option.map_some]

def readMany (read : Reader α) : ℕ → Reader (List α)
  | 0, bytes => some ([], bytes)
  | count + 1, bytes =>
    (read bytes).bind fun r => (readMany read count r.2).map fun r' => (r.1 :: r'.1, r'.2)

theorem readMany_flatMap (h : Reads read encode) (l : List α) (rest : List UInt8) :
    readMany read l.length (l.flatMap encode ++ rest) = some (l, rest) := by
  induction l with
  | nil => rfl
  | cons a l ih =>
    rw [List.flatMap_cons, List.append_assoc, List.length_cons, readMany, h, Option.bind_some,
      ih, Option.map_some]

def counted (encode : α → List UInt8) (l : List α) : List UInt8 :=
  fullVarint l.length ++ l.flatMap encode

def readCounted (read : Reader α) : Reader (List α) := fun bytes =>
  (readVarint bytes).bind fun r => readMany read r.1 r.2

theorem reads_counted (h : Reads read encode) : Reads (readCounted read) (counted encode) := by
  intro l rest
  rw [counted, List.append_assoc, readCounted, reads_fullVarint, Option.bind_some,
    readMany_flatMap h]

/-- A value that is read as another one and built from it. -/
def readAs (read : Reader α) (build : α → Option β) : Reader β := fun bytes =>
  (read bytes).bind fun r => (build r.1).map fun b => (b, r.2)

theorem reads_as (h : Reads read encode) {view : β → α} {build : α → Option β}
    (hbuild : ∀ b, build (view b) = some b) :
    Reads (readAs read build) fun b => encode (view b) := by
  intro b rest
  rw [readAs, h (view b) rest, Option.bind_some, hbuild, Option.map_some]

end OpenFiat.WireReaders
