import OpenFiat.NodePayloads
import Mathlib.Data.String.Basic
import Mathlib.Logic.Equiv.List

/-!
# Spelled identities

Several registries put the base58 spelling of a peer id into their storage keys, beside a colon
and a text of another origin. No spelling contains a colon, so such a key can be taken apart
whatever the text is.
-/
namespace OpenFiat.PeerSpelling
open NodePayloads

/-- The letters and digits of ASCII without `0`, `O`, `I` and `l`. -/
def isBase58 (c : Char) : Bool := c.isAlphanum && c ∉ ['0', 'O', 'I', 'l']

structure Base58 where
  encode : List UInt8 → String
  injective : Function.Injective encode
  alphabet : ∀ bytes, (encode bytes).toList.all isBase58 = true

theorem Base58.colon_notMem (B : Base58) (bytes : List UInt8) :
    ':' ∉ (B.encode bytes).toList := by
  intro h
  have hcolon := List.all_eq_true.mp (B.alphabet bytes) ':' h
  revert hcolon
  decide

theorem takeWhile_ne {α : Type} [DecidableEq α] {x : α} {l : List α} (h : x ∉ l) (rest : List α) :
    (l ++ x :: rest).takeWhile (· ≠ x) = l := by
  rw [List.takeWhile_append_of_pos]
  · simp
  · intro a ha
    exact decide_eq_true (ne_of_mem_of_not_mem ha h)

theorem dropWhile_ne {α : Type} [DecidableEq α] {x : α} {l : List α} (h : x ∉ l) (rest : List α) :
    (l ++ x :: rest).dropWhile (· ≠ x) = x :: rest := by
  rw [List.dropWhile_append_of_pos]
  · simp
  · intro a ha
    exact decide_eq_true (ne_of_mem_of_not_mem ha h)

/-- The last colon of a key is the one before the spelling. -/
theorem Base58.append_colon_inj (B : Base58) {text text' : String} {bytes bytes' : List UInt8}
    (h : text ++ ":" ++ B.encode bytes = text' ++ ":" ++ B.encode bytes') :
    text = text' ∧ bytes = bytes' := by
  have hlist := congrArg (fun s => s.toList.reverse.takeWhile (· ≠ ':')) h
  have hlast (text : String) (bytes : List UInt8) :
      (text ++ ":" ++ B.encode bytes).toList.reverse.takeWhile (· ≠ ':') =
        (B.encode bytes).toList.reverse := by
    have hrev : (text ++ ":" ++ B.encode bytes).toList.reverse =
        (B.encode bytes).toList.reverse ++ ':' :: text.toList.reverse := by
      simp [String.toList_append]
    rw [hrev]
    exact takeWhile_ne (by simpa using B.colon_notMem bytes) _
  simp only [hlast] at hlist
  have hspelled : B.encode bytes = B.encode bytes' :=
    String.toList_injective (List.reverse_inj.mp hlist)
  rw [hspelled] at h
  have htext := congrArg String.toList h
  simp only [String.toList_append, List.append_assoc] at htext
  exact ⟨String.toList_injective (List.append_cancel_right htext), B.injective hspelled⟩

/-! Digests are spelled in lower-case hexadecimal digits. -/

def isHexDigit (c : Char) : Bool := c.isDigit || ('a' ≤ c && c ≤ 'f')

def hexDigits (bytes : List UInt8) : List Char :=
  bytes.flatMap fun b => [Nat.digitChar (b.toNat / 16), Nat.digitChar (b.toNat % 16)]

theorem isHexDigit_digitChar : ∀ n < 16, isHexDigit (Nat.digitChar n) = true := by decide

theorem all_isHexDigit (bytes : List UInt8) : (hexDigits bytes).all isHexDigit = true := by
  refine List.all_eq_true.mpr fun c hc => ?_
  obtain ⟨b, -, hc⟩ := List.mem_flatMap.mp hc
  have hb := b.toNat_lt
  simp only [List.mem_cons, List.not_mem_nil, or_false] at hc
  rcases hc with rfl | rfl <;> exact isHexDigit_digitChar _ (by omega)

theorem length_hexDigits (bytes : List UInt8) : (hexDigits bytes).length = 2 * bytes.length := by
  induction bytes with
  | nil => rfl
  | cons b bytes =>
    change (hexDigits bytes).length + 2 = 2 * (bytes.length + 1)
    omega

theorem colon_notMem_hexDigits (bytes : List UInt8) : ':' ∉ hexDigits bytes := by
  intro h
  have hcolon := List.all_eq_true.mp (all_isHexDigit bytes) ':' h
  revert hcolon
  decide

/-- Spellings with one letter only, as many as the number of the byte string. -/
def Base58.unary : Base58 where
  encode bytes := String.ofList (List.replicate (Encodable.encode (bytes.map UInt8.toNat)) 'A')
  injective bytes bytes' h := by
    have hletters := String.ofList_injective h
    have hcode := List.replicate_left_injective 'A' hletters
    exact List.map_injective_iff.mpr (fun _ _ => UInt8.toNat_inj.mp)
      (Encodable.encode_injective hcode)
  alphabet bytes := by
    rw [String.toList_ofList, List.all_replicate]
    split_ifs <;> decide

end OpenFiat.PeerSpelling
