import OpenFiat.DeliveredRecords
import OpenFiat.PeerSpelling

/-!
# Payment methods that merchants define

A merchant publishes the payment methods that the node has no name for. The id of a method is the
spelling of its merchant and a digest of the whole record. A node keeps at most thirty-two methods
of one merchant, and a full shelf gives its largest id away for a smaller one, so that what it
keeps in the end does not depend on the order of arrival.
-/
namespace OpenFiat.PaymentMethods
open DeliveredRecords GuardedResult NodePayloads PeerSpelling TransactionRuns
open RecordStores.RecordStore
open RecordStores (RecordStore)

inductive PaymentMethodCategory where
  | mobileMoney
  | bankTransfer
  | fintech
  | cash
deriving DecidableEq, Repr

structure MerchantPaymentMethod where
  merchant : PeerId
  merchantPublicKey : PublicKey
  name : String
  category : PaymentMethodCategory
deriving DecidableEq

inductive TaxonomyError where
  | invalidSignature
  | malformedDefinition
  | impersonatesKnownMethod
  | tooManyMethods
deriving DecidableEq, Repr

/-- The cryptography and encodings, the fold of look-alike names, and the names and aliases that
the build ships. -/
structure MethodPlatform extends SignatureScheme MerchantPaymentMethod where
  base58 : Base58
  json : MerchantPaymentMethod → List UInt8
  sha256 : List UInt8 → List UInt8
  skeleton : String → String
  catalog : List (String × List String)
  spelled : ∀ key peer, peerIdFromPublicKey key = some peer →
    16 ≤ (base58.encode peer.bytes).toList.length ∧ (base58.encode peer.bytes).toList.length ≤ 64
  length_sha256 : ∀ bytes, (sha256 bytes).length = 32

def builtin : String := "builtin"

def isSlug (body : List Char) : Bool :=
  body.length ≠ 0 && body.length ≤ 48 && body.head? ≠ some '-' && body.getLast? ≠ some '-' &&
    !decide (['-', '-'] <:+: body) && body.all fun c => c.isLower || c.isDigit || c = '-'

def isPeerId (body : List Char) : Bool :=
  16 ≤ body.length && body.length ≤ 64 && body.all isBase58

def digestHexLen : ℕ := 16

def isDigest (body : List Char) : Bool := body.length = digestHexLen && body.all isHexDigit

/-- The text is a reference in one of the two namespaces. -/
def parses (input : String) : Bool :=
  match input.toList.dropWhile (· ≠ ':') with
  | [] => false
  | _ :: body => !body.contains ':' &&
    if input.toList.takeWhile (· ≠ ':') = builtin.toList then isSlug body
    else isPeerId (input.toList.takeWhile (· ≠ ':')) && isDigest body

/-- The spelling of the peer that a reference belongs to. -/
def owner (id : String) : Option (List Char) :=
  if id.toList.contains ':' then
    let space := id.toList.takeWhile (· ≠ ':')
    if space = builtin.toList then none else some space
  else none

def prefixOf (P : MethodPlatform) (merchant : PeerId) : String :=
  P.base58.encode merchant.bytes ++ ":"

def digest (P : MethodPlatform) (method : MerchantPaymentMethod) : List Char :=
  hexDigits ((P.sha256 (P.json method)).take (digestHexLen / 2))

def methodId (P : MethodPlatform) (method : MerchantPaymentMethod) : String :=
  prefixOf P method.merchant ++ String.ofList (digest P method)

def maxNameChars : ℕ := 64

def isControl (c : Char) : Bool := c.toNat < 0x20 || (0x7f ≤ c.toNat && c.toNat < 0xa0)

def isWhitespace (c : Char) : Bool :=
  (9 ≤ c.toNat && c.toNat ≤ 13) || (0x2000 ≤ c.toNat && c.toNat ≤ 0x200a) ||
    c.toNat ∈ [0x20, 0x85, 0xa0, 0x1680, 0x2028, 0x2029, 0x202f, 0x205f, 0x3000]

def isInvisible (c : Char) : Bool :=
  c.toNat ∈ [0xad, 0x61c, 0x180e, 0x2800, 0xfeff] ||
    [(0x200b, 0x200f), (0x2060, 0x2064), (0x206a, 0x206f), (0xfff9, 0xfffb), (0xe0000, 0xe007f)].any
      fun range => range.1 ≤ c.toNat && c.toNat ≤ range.2

def turnsText (c : Char) : Bool :=
  (0x202a ≤ c.toNat && c.toNat ≤ 0x202e) || (0x2066 ≤ c.toNat && c.toNat ≤ 0x2069)

def checkName (P : MethodPlatform) (name : String) : Except TaxonomyError Unit := do
  let chars := name.toList
  require (chars.length ≠ 0 ∧ chars.length ≤ maxNameChars) .malformedDefinition
  require (chars.head? ≠ some ' ' ∧ chars.getLast? ≠ some ' ' ∧
    ¬ [' ', ' '] <:+: chars) .malformedDefinition
  require (chars.all (fun c => !isControl c && !isInvisible c &&
    (!isWhitespace c || c = ' ') && !turnsText c) = true) .malformedDefinition
  require (P.skeleton name ≠ "") .malformedDefinition

def validate (P : MethodPlatform) (method : MerchantPaymentMethod) : Except TaxonomyError Unit := do
  checkName P method.name
  let folded := P.skeleton method.name
  require (P.catalog.any (fun known => P.skeleton known.1 = folded ||
    known.2.any fun spelling => P.skeleton spelling = folded) = false) .impersonatesKnownMethod

abbrev Registry (P : MethodPlatform) := RecordStore (methodId P)

def maxMethodsPerMerchant : ℕ := 32

variable {P : MethodPlatform}

def all (r : Registry P) : List MerchantPaymentMethod := r.all (fun id => id) fun _ _ h => h

def forMerchant (r : Registry P) (merchant : PeerId) : List (String × MerchantPaymentMethod) :=
  (((all r).filter fun method =>
    (prefixOf P merchant).toList.isPrefixOf (methodId P method).toList &&
      parses (methodId P method)).map fun method => (methodId P method, method)).insertionSort
    fun a b => a.1 ≤ b.1

variable (P) in
def verify (signed : Signed MerchantPaymentMethod) : Except TaxonomyError Unit :=
  P.verifyAuthor signed.payload.merchantPublicKey signed.payload.merchant signed.payload
    signed.signature .invalidSignature .invalidSignature

variable (P) in
/-- The checks that need no state. -/
def check (signed : Signed MerchantPaymentMethod) : Except TaxonomyError MerchantPaymentMethod := do
  verify P signed
  validate P signed.payload
  return signed.payload

/-- A definition that is not on file takes a free place, or the place of the largest one. -/
def place (r : Registry P) (method : MerchantPaymentMethod) : Except TaxonomyError (Registry P) :=
  let held := forMerchant r method.merchant
  if maxMethodsPerMerchant ≤ held.length then do
    let largest ← load held.getLast? .tooManyMethods
    require (methodId P method < largest.1) .tooManyMethods
    return (r.erase largest.1).put method
  else .ok (r.put method)

def applyDefine (r : Registry P) (signed : Signed MerchantPaymentMethod) :
    Except TaxonomyError (Registry P) := do
  let method ← check P signed
  if (r.get (methodId P method)).isSome then .ok r else place r method

section Ids
variable {method method' : MerchantPaymentMethod} {merchant : PeerId}

theorem toList_prefixOf : (prefixOf P merchant).toList =
    (P.base58.encode merchant.bytes).toList ++ [':'] := by
  simp [prefixOf]

theorem toList_methodId : (methodId P method).toList =
    (P.base58.encode method.merchant.bytes).toList ++ ':' :: digest P method := by
  simp [methodId, prefixOf]

theorem takeWhile_methodId : (methodId P method).toList.takeWhile (· ≠ ':') =
    (P.base58.encode method.merchant.bytes).toList := by
  rw [toList_methodId]
  exact takeWhile_ne (P.base58.colon_notMem _) _

/-- The scan for a merchant finds exactly its own methods. -/
theorem prefixOf_iff : (prefixOf P merchant).toList <+: (methodId P method).toList ↔
    method.merchant = merchant := by
  constructor
  · rintro ⟨rest, h⟩
    have hspelled := congrArg (List.takeWhile (· ≠ ':')) h
    rw [takeWhile_methodId, toList_prefixOf, List.append_assoc] at hspelled
    rw [List.singleton_append, takeWhile_ne (P.base58.colon_notMem _)] at hspelled
    exact congrArg PeerId.mk (P.base58.injective (String.toList_injective hspelled)).symm
  · rintro rfl
    rw [toList_prefixOf, toList_methodId]
    exact ⟨digest P method, by simp⟩

theorem encode_ne_builtin (bytes : List UInt8) :
    (P.base58.encode bytes).toList ≠ builtin.toList := by
  intro h
  have hmem : 'l' ∈ (P.base58.encode bytes).toList := by
    rw [h]
    simp [builtin]
  have hl := List.all_eq_true.mp (P.base58.alphabet bytes) 'l' hmem
  revert hl
  decide

theorem owner_methodId : owner (methodId P method) =
    some (P.base58.encode method.merchant.bytes).toList := by
  rw [owner, takeWhile_methodId, if_neg (encode_ne_builtin _)]
  rw [toList_methodId]
  simp

theorem parses_methodId (h : 16 ≤ (P.base58.encode method.merchant.bytes).toList.length ∧
    (P.base58.encode method.merchant.bytes).toList.length ≤ 64) :
    parses (methodId P method) = true := by
  have hdrop : (methodId P method).toList.dropWhile (· ≠ ':') = ':' :: digest P method := by
    rw [toList_methodId]
    exact dropWhile_ne (P.base58.colon_notMem _) _
  have hlength : (digest P method).length = digestHexLen := by
    rw [digest, length_hexDigits, List.length_take, P.length_sha256]
    rfl
  have hcolon : ':' ∉ digest P method := colon_notMem_hexDigits _
  have hhex : (digest P method).all isHexDigit = true := all_isHexDigit _
  rw [parses, hdrop, takeWhile_methodId]
  simp only [if_neg (encode_ne_builtin (P := P) method.merchant.bytes)]
  simp only [isPeerId, isDigest, hlength, h, P.base58.alphabet, hhex, decide_true, Bool.and_true]
  simpa using hcolon

end Ids

variable {d : Signed MerchantPaymentMethod}

section Shelf
variable {r r' : Registry P} {merchant : PeerId} {method : MerchantPaymentMethod}

/-- The spelling of every merchant on file has the length of a peer id. -/
def Spelled (r : Registry P) : Prop :=
  ∀ id method, r.get id = some method →
    16 ≤ (P.base58.encode method.merchant.bytes).toList.length ∧
      (P.base58.encode method.merchant.bytes).toList.length ≤ 64

theorem mem_forMerchant (hr : Spelled r) {entry : String × MerchantPaymentMethod} :
    entry ∈ forMerchant r merchant ↔
      r.get entry.1 = some entry.2 ∧ entry.2.merchant = merchant := by
  obtain ⟨id, method⟩ := entry
  have hall (method : MerchantPaymentMethod) :
      method ∈ all r ↔ r.get (methodId P method) = some method := mem_all
  simp only [forMerchant, List.mem_insertionSort, List.mem_map, List.mem_filter, hall,
    Bool.and_eq_true, List.isPrefixOf_iff_prefix, prefixOf_iff, Prod.mk.injEq]
  constructor
  · rintro ⟨_, ⟨hget, hmerchant, -⟩, rfl, rfl⟩
    exact ⟨hget, hmerchant⟩
  · rintro ⟨hget, hmerchant⟩
    obtain rfl := idOf_get hget
    exact ⟨method, ⟨hget, hmerchant, parses_methodId (hr _ method hget)⟩, rfl, rfl⟩

theorem pairwise_forMerchant (r : Registry P) (merchant : PeerId) :
    (forMerchant r merchant).Pairwise fun a b => a.1 < b.1 :=
  pairwise_lt_insertionSort (List.pairwise_map.mpr ((pairwise_all r).filter _))

/-- The listing depends only on what is on file for the merchant. -/
theorem forMerchant_congr (hr : Spelled r) (hr' : Spelled r') (h : ∀ id method,
    method.merchant = merchant → (r.get id = some method ↔ r'.get id = some method)) :
    forMerchant r merchant = forMerchant r' merchant := by
  refine FiniteTable.Table.eq_of_ascending _ (pairwise_forMerchant r merchant)
    (pairwise_forMerchant r' merchant) fun entry => ?_
  rw [mem_forMerchant hr, mem_forMerchant hr']
  exact and_congr_left (h entry.1 entry.2)

def heldIds (r : Registry P) (merchant : PeerId) : Finset String :=
  ((forMerchant r merchant).map Prod.fst).toFinset

theorem mem_heldIds (hr : Spelled r) {id : String} : id ∈ heldIds r merchant ↔
    ∃ method, r.get id = some method ∧ method.merchant = merchant := by
  rw [heldIds, List.mem_toFinset, List.mem_map]
  constructor
  · rintro ⟨⟨_, method⟩, hentry, rfl⟩
    exact ⟨method, (mem_forMerchant hr).mp hentry⟩
  · rintro ⟨method, hmethod⟩
    exact ⟨(id, method), (mem_forMerchant hr).mpr hmethod, rfl⟩

theorem card_heldIds (r : Registry P) (merchant : PeerId) :
    (heldIds r merchant).card = (forMerchant r merchant).length := by
  rw [heldIds, List.toFinset_card_of_nodup, List.length_map]
  exact List.pairwise_map.mpr ((pairwise_forMerchant r merchant).imp ne_of_lt)

/-- What becomes of a definition that passes the checks. -/
inductive Outcome (r : Registry P) (method : MerchantPaymentMethod) : Registry P → Prop
  | known {known} (hget : r.get (methodId P method) = some known) : Outcome r method r
  | placed (hget : r.get (methodId P method) = none)
      (hroom : (forMerchant r method.merchant).length < maxMethodsPerMerchant) :
      Outcome r method (r.put method)
  | refused {largest} (hget : r.get (methodId P method) = none)
      (hfull : maxMethodsPerMerchant ≤ (forMerchant r method.merchant).length)
      (hlargest : (forMerchant r method.merchant).getLast? = some largest)
      (hle : largest.1 ≤ methodId P method) : Outcome r method r
  | displaced {largest} (hget : r.get (methodId P method) = none)
      (hfull : maxMethodsPerMerchant ≤ (forMerchant r method.merchant).length)
      (hlargest : (forMerchant r method.merchant).getLast? = some largest)
      (hlt : methodId P method < largest.1) : Outcome r method ((r.erase largest.1).put method)

theorem apply_of_check_error {e : TaxonomyError} (h : check P d = .error e) :
    apply applyDefine r d = r := by
  have hstep : applyDefine r d = .error e := (bind_error _ _ _).mpr (.inl h)
  exact apply_error hstep

theorem apply_outcome (h : check P d = .ok method) : Outcome r method (apply applyDefine r d) := by
  cases hget : r.get (methodId P method) with
  | some known =>
    have hstep : applyDefine r d = .ok r := by
      rw [applyDefine, h]
      exact if_pos (by rw [hget]; rfl)
    rw [apply_ok hstep]
    exact .known hget
  | none =>
    have hstep : applyDefine r d = place r method := by
      rw [applyDefine, h]
      exact if_neg (by rw [hget]; exact Bool.false_ne_true)
    by_cases hfull : maxMethodsPerMerchant ≤ (forMerchant r method.merchant).length
    · have hplace := hstep.trans (if_pos hfull)
      cases hlargest : (forMerchant r method.merchant).getLast? with
      | none =>
        rw [List.getLast?_eq_none_iff.mp hlargest] at hfull
        exact absurd hfull (by decide)
      | some largest =>
        rw [hlargest] at hplace
        by_cases hlt : methodId P method < largest.1
        · rw [apply_ok (hplace.trans ((bind_ok _ _ _).mpr ⟨largest, rfl,
            (bind_ok _ _ _).mpr ⟨(), (require_ok _ _ _).mpr hlt, rfl⟩⟩))]
          exact .displaced hget hfull hlargest hlt
        · rw [apply_error (hplace.trans ((bind_error _ _ _).mpr (.inr ⟨largest, rfl,
            (bind_error _ _ _).mpr (.inl ((require_error _ _ _).mpr ⟨hlt, rfl⟩))⟩)))]
          exact .refused hget hfull hlargest (not_lt.mp hlt)
    · rw [apply_ok (hstep.trans (if_neg hfull))]
      exact .placed hget (not_le.mp hfull)

theorem Spelled.put (hr : Spelled r)
    (hspelled : 16 ≤ (P.base58.encode method.merchant.bytes).toList.length ∧
      (P.base58.encode method.merchant.bytes).toList.length ≤ 64) : Spelled (r.put method) := by
  intro id known h
  rw [get_put] at h
  split_ifs at h
  · exact Option.some.inj h ▸ hspelled
  · exact hr id known h

theorem Spelled.erase (hr : Spelled r) (id : String) : Spelled (r.erase id) := by
  intro id' known h
  rw [get_erase] at h
  split_ifs at h
  exact hr id' known h

theorem heldIds_put (hr : Spelled r) (hr' : Spelled (r.put method))
    (hget : r.get (methodId P method) = none) : heldIds (r.put method) merchant =
      if method.merchant = merchant then insert (methodId P method) (heldIds r merchant)
      else heldIds r merchant := by
  ext id
  rw [mem_heldIds hr', get_put]
  by_cases hid : id = methodId P method
  · have hnotMem : methodId P method ∉ heldIds r merchant := by
      rw [mem_heldIds hr, hget]
      rintro ⟨_, h, -⟩
      cases h
    split_ifs with hmerchant <;> simp_all
  · split_ifs <;> simp [hid, mem_heldIds hr]

theorem heldIds_erase (hr : Spelled r) (id : String) :
    heldIds (r.erase id) merchant = (heldIds r merchant).erase id := by
  ext id'
  rw [Finset.mem_erase, mem_heldIds (hr.erase id), mem_heldIds hr, get_erase]
  by_cases hid : id' = id <;> simp [hid]

theorem largest_spec (hr : Spelled r) {largest : String × MerchantPaymentMethod}
    (h : (forMerchant r merchant).getLast? = some largest) :
    (r.get largest.1 = some largest.2 ∧ largest.2.merchant = merchant) ∧
      ∀ id ∈ heldIds r merchant, id ≤ largest.1 := by
  refine ⟨(mem_forMerchant hr).mp (List.mem_of_getLast? h), fun id hid => ?_⟩
  obtain ⟨others, heq⟩ := List.getLast?_eq_some_iff.mp h
  have hsorted := pairwise_forMerchant r merchant
  rw [heldIds, heq] at hid
  rw [heq, List.pairwise_append] at hsorted
  simp only [List.map_append, List.map_cons, List.map_nil, List.mem_toFinset, List.mem_append,
    List.mem_map, List.mem_singleton] at hid
  rcases hid with ⟨entry, hentry, rfl⟩ | rfl
  · exact (hsorted.2.2 entry hentry largest List.mem_cons_self).le
  · exact le_rfl

end Shelf

section Convergence
variable {methods methods' : List MerchantPaymentMethod} {r r' : Registry P} {merchant : PeerId}
  {method : MerchantPaymentMethod}

def idsOf (P : MethodPlatform) (methods : List MerchantPaymentMethod) (merchant : PeerId) :
    Finset String :=
  ((methods.filter (·.merchant = merchant)).map (methodId P)).toFinset

theorem idsOf_concat : idsOf P (methods ++ [method]) merchant =
    if method.merchant = merchant then insert (methodId P method) (idsOf P methods merchant)
    else idsOf P methods merchant := by
  by_cases h : method.merchant = merchant <;>
    simp [idsOf, h, List.filter_append, List.toFinset_append]

/-- Everything on file was delivered, and each shelf has its merchant's smallest ids. -/
structure Kept (methods : List MerchantPaymentMethod) (r : Registry P) : Prop where
  spelled : Spelled r
  delivered : ∀ id method, r.get id = some method → method ∈ methods
  smallest : ∀ merchant,
    Smallest maxMethodsPerMerchant (idsOf P methods merchant) (heldIds r merchant)

theorem kept_empty : Kept [] (empty : Registry P) := by
  have hspelled : Spelled (empty : Registry P) := by
    rintro _ _ ⟨⟩
  refine ⟨hspelled, by rintro _ _ ⟨⟩, fun merchant => ?_⟩
  exact smallest_empty

theorem Kept.outcome (h : Kept methods r) (houtcome : Outcome r method r')
    (hspelled : 16 ≤ (P.base58.encode method.merchant.bytes).toList.length ∧
      (P.base58.encode method.merchant.bytes).toList.length ≤ 64) :
    Kept (methods ++ [method]) r' := by
  have hold (id : String) (known : MerchantPaymentMethod) (hget : r.get id = some known) :
      known ∈ methods ++ [method] :=
    List.mem_append_left _ (h.delivered id known hget)
  have hnew (hget : r.get (methodId P method) = none) :
      methodId P method ∉ heldIds r method.merchant := by
    rw [mem_heldIds h.spelled, hget]
    rintro ⟨_, ⟨⟩, -⟩
  have hcard (hfull : maxMethodsPerMerchant ≤ (forMerchant r method.merchant).length) :
      (heldIds r method.merchant).card = maxMethodsPerMerchant :=
    (h.smallest _).card_le.antisymm (hfull.trans (card_heldIds r _).ge)
  cases houtcome with
  | known hget =>
    refine ⟨h.spelled, hold, fun merchant => ?_⟩
    rw [idsOf_concat]
    split_ifs with hmerchant
    · subst hmerchant
      refine (h.smallest _).same ((mem_heldIds h.spelled).mpr ⟨_, hget, ?_⟩)
      rw [← prefixOf_iff (P := P), idOf_get hget, prefixOf_iff]
    · exact h.smallest merchant
  | placed hget hroom =>
    have hput := h.spelled.put hspelled
    refine ⟨hput, fun id known hknown => ?_, fun merchant => ?_⟩
    · rw [get_put] at hknown
      split_ifs at hknown
      · exact Option.some.inj hknown ▸ List.mem_append_right _ List.mem_cons_self
      · exact hold id known hknown
    · rw [idsOf_concat, heldIds_put h.spelled hput hget]
      split_ifs with hmerchant
      · subst hmerchant
        exact (h.smallest _).room (hnew hget) ((card_heldIds r _).trans_lt hroom)
      · exact h.smallest merchant
  | refused hget hfull hlargest hle =>
    refine ⟨h.spelled, hold, fun merchant => ?_⟩
    rw [idsOf_concat]
    split_ifs with hmerchant
    · subst hmerchant
      refine (h.smallest _).refused (hcard hfull) fun id hid => ?_
      refine lt_of_le_of_ne (((largest_spec h.spelled hlargest).2 id hid).trans hle) ?_
      exact fun heq => hnew hget (heq ▸ hid)
    · exact h.smallest merchant
  | @displaced largest hget hfull hlargest hlt =>
    obtain ⟨⟨hgetLargest, howner⟩, hmax⟩ := largest_spec h.spelled hlargest
    have herase := h.spelled.erase largest.1
    have hput := herase.put hspelled
    have hgetErase : (r.erase largest.1).get (methodId P method) = none := by
      rw [get_erase, if_neg hlt.ne]
      exact hget
    refine ⟨hput, fun id known hknown => ?_, fun merchant => ?_⟩
    · rw [get_put, get_erase] at hknown
      split_ifs at hknown
      · exact Option.some.inj hknown ▸ List.mem_append_right _ List.mem_cons_self
      · exact hold id known hknown
    · rw [idsOf_concat, heldIds_put herase hput hgetErase, heldIds_erase h.spelled]
      split_ifs with hmerchant
      · subst hmerchant
        exact (h.smallest _).displaced (hnew hget) (hcard hfull)
          ((mem_heldIds h.spelled).mpr ⟨_, hgetLargest, howner⟩) hmax hlt
      · rw [Finset.erase_eq_of_notMem]
        · exact h.smallest merchant
        · rw [mem_heldIds h.spelled, hgetLargest]
          rintro ⟨_, ⟨⟩, hmerchant'⟩
          exact hmerchant (howner.symm.trans hmerchant')

theorem check_ok (h : check P d = .ok method) :
    P.peerIdFromPublicKey method.merchantPublicKey = some method.merchant ∧ d.payload = method := by
  simp only [check, verify, bind_ok, SignatureScheme.verifyAuthor_ok, pure_ok] at h
  obtain ⟨_, ⟨hkey, -⟩, _, -, rfl⟩ := h
  exact ⟨hkey, rfl⟩

/-- The definitions that pass the checks. -/
def accepted (P : MethodPlatform) (ds : List (Signed MerchantPaymentMethod)) :
    List MerchantPaymentMethod :=
  ds.filterMap fun d => (check P d).toOption

def methodsAfter (P : MethodPlatform) (ds : List (Signed MerchantPaymentMethod)) : Registry P :=
  run applyDefine .empty ds

theorem kept_methodsAfter (ds : List (Signed MerchantPaymentMethod)) :
    Kept (accepted P ds) (methodsAfter P ds) := by
  induction ds using List.reverseRecOn with
  | nil => exact kept_empty
  | append_singleton ds d ih =>
    rw [methodsAfter, run_concat, accepted, List.filterMap_append, List.filterMap_cons]
    cases hcheck : check P d with
    | error =>
      rw [apply_of_check_error hcheck]
      exact (List.append_nil (accepted P ds)).symm ▸ ih
    | ok =>
      obtain ⟨hkey, -⟩ := check_ok hcheck
      exact ih.outcome (apply_outcome hcheck) (P.spelled _ _ hkey)

/-- A definition leaves the shelves of other merchants as they are. -/
theorem Kept.forMerchant_apply (h : Kept methods r) (hd : d.payload.merchant ≠ merchant) :
    forMerchant (apply applyDefine r d) merchant = forMerchant r merchant := by
  cases hcheck : check P d with
  | error => rw [apply_of_check_error hcheck]
  | ok =>
    obtain ⟨hkey, rfl⟩ := check_ok hcheck
    have hkept := h.outcome (apply_outcome hcheck) (P.spelled _ _ hkey)
    have houtcome := apply_outcome (r := r) hcheck
    refine forMerchant_congr hkept.spelled h.spelled fun id known hknown => ?_
    have hown (hget : r.get (methodId P d.payload) = none) (hid : id = methodId P d.payload) :
        some d.payload = some known ↔ r.get id = some known := by
      refine iff_of_false (fun heq => hd (Option.some.inj heq ▸ hknown)) fun hsome => ?_
      rw [hid, hget] at hsome
      cases hsome
    generalize apply applyDefine r d = r' at houtcome
    cases houtcome with
    | known | refused => rfl
    | placed hget =>
      rw [get_put]
      split_ifs with hid
      · exact hown hget hid
      · rfl
    | displaced hget _ hlargest =>
      obtain ⟨⟨hgetLargest, howner⟩, -⟩ := largest_spec h.spelled hlargest
      rw [get_put, get_erase]
      split_ifs with hid hid
      · exact hown hget hid
      · refine iff_of_false not_false fun hsome => hd ?_
        rw [hid, hgetLargest] at hsome
        rw [← howner, Option.some.inj hsome, hknown]
      · rfl

/-- What is on file under an id is the one definition with that id. -/
theorem Kept.get_of_get (h : Kept methods r) (h' : Kept methods' r')
    (hmem : ∀ method, method ∈ methods' ↔ method ∈ methods) (hdigest : ∀ a ∈ methods,
      ∀ b ∈ methods, methodId P a = methodId P b → a = b) {id : String}
    (hget : r.get id = some method) : r'.get id = some method := by
  have hids : idsOf P methods method.merchant = idsOf P methods' method.merchant := by
    ext id
    simp [idsOf, hmem]
  have hheld : id ∈ heldIds r method.merchant := (mem_heldIds h.spelled).mpr ⟨method, hget, rfl⟩
  rw [(h.smallest _).unique (hids ▸ h'.smallest _)] at hheld
  obtain ⟨known, hknown, -⟩ := (mem_heldIds h'.spelled).mp hheld
  have heq := hdigest known ((hmem known).mp (h'.delivered _ _ hknown)) method
    (h.delivered _ _ hget) ((idOf_get hknown).trans (idOf_get hget).symm)
  exact heq ▸ hknown

end Convergence

/-- Each merchant ends up with the smallest ids of its definitions, at most thirty-two, whatever
the order and the repetitions; definitions of one merchant leave the others' methods alone; and the
owner of a method is the wallet that its id spells. -/
theorem payment_methods_converge (P : MethodPlatform) (ds : List (Signed MerchantPaymentMethod))
    (hdigest : ∀ a ∈ accepted P ds, ∀ b ∈ accepted P ds, methodId P a = methodId P b → a = b) :
    (∀ merchant, Smallest maxMethodsPerMerchant (idsOf P (accepted P ds) merchant)
      (heldIds (methodsAfter P ds) merchant)) ∧
    (∀ ds', (∀ d, d ∈ ds' ↔ d ∈ ds) → ∀ merchant,
      forMerchant (methodsAfter P ds') merchant = forMerchant (methodsAfter P ds) merchant) ∧
    (∀ d merchant, d.payload.merchant ≠ merchant →
      forMerchant (apply applyDefine (methodsAfter P ds) d) merchant =
        forMerchant (methodsAfter P ds) merchant) ∧
    ∀ merchant, ∀ entry ∈ forMerchant (methodsAfter P ds) merchant,
      entry.2 ∈ accepted P ds ∧ entry.1 = methodId P entry.2 ∧ entry.2.merchant = merchant ∧
        owner entry.1 = some (P.base58.encode merchant.bytes).toList := by
  have hkept := kept_methodsAfter (P := P) ds
  refine ⟨hkept.smallest, fun ds' hds merchant => ?_, fun d merchant => hkept.forMerchant_apply,
    fun merchant entry hentry => ?_⟩
  · have hkept' := kept_methodsAfter (P := P) ds'
    have hmem (method : MerchantPaymentMethod) :
        method ∈ accepted P ds' ↔ method ∈ accepted P ds := by
      simp [accepted, hds]
    refine forMerchant_congr hkept'.spelled hkept.spelled fun id method _ => ⟨fun hget => ?_, ?_⟩
    · refine hkept'.get_of_get hkept (fun method => (hmem method).symm) (fun a ha b hb => ?_) hget
      exact hdigest a ((hmem a).mp ha) b ((hmem b).mp hb)
    · exact hkept.get_of_get hkept' hmem hdigest
  · obtain ⟨hget, rfl⟩ := (mem_forMerchant hkept.spelled).mp hentry
    have hid := RecordStore.idOf_get hget
    exact ⟨hkept.delivered _ _ hget, hid.symm, rfl, hid ▸ owner_methodId⟩

namespace OneMerchant

def wallet : PeerId := ⟨[4]⟩

def keyOwner (key : PublicKey) : Option PeerId := if key = .filled 4 then some wallet else none

def padded (bytes : List UInt8) : List UInt8 := (bytes ++ List.replicate 32 0).take 32

theorem spelled_wallet (key : PublicKey) (peer : PeerId) (h : keyOwner key = some peer) :
    16 ≤ (Base58.unary.encode peer.bytes).toList.length ∧
      (Base58.unary.encode peer.bytes).toList.length ≤ 64 := by
  unfold keyOwner at h
  split_ifs at h
  rw [← Option.some.inj h]
  decide +kernel

theorem length_padded (bytes : List UInt8) : (padded bytes).length = 32 := by
  simp [padded]

def platform : MethodPlatform where
  verify _ _ _ := true
  peerIdFromPublicKey := keyOwner
  base58 := .unary
  json method := method.name.toList.map fun c => UInt8.ofNat c.toNat
  sha256 := padded
  skeleton name := name
  catalog := [("Cash in Person", ["Cash"])]
  spelled := spelled_wallet
  length_sha256 := length_padded

def defining (name : String) : Signed MerchantPaymentMethod :=
  ⟨⟨wallet, .filled 4, name, .fintech⟩, ⟨[]⟩⟩

end OneMerchant

open OneMerchant in
/-- A validly signed definition whose name ends in a space is not stored. -/
theorem refused_name_not_stored : verify platform (defining "Acme ") = .ok () ∧
    (forMerchant (methodsAfter platform [defining "Acme "]) wallet).length = 0 ∧
    (forMerchant (methodsAfter platform [defining "Acme"]) wallet).length = 1 := by
  decide +kernel

open OneMerchant in
theorem payment_methods_converge_acme :
    (∀ a ∈ accepted platform [defining "Acme", defining "Zeta"],
      ∀ b ∈ accepted platform [defining "Acme", defining "Zeta"],
        methodId platform a = methodId platform b → a = b) ∧
      forMerchant (methodsAfter platform [defining "Zeta", defining "Acme"]) wallet =
        forMerchant (methodsAfter platform [defining "Acme", defining "Zeta"]) wallet :=
  ⟨by decide +kernel, (payment_methods_converge platform [defining "Acme", defining "Zeta"]
    (by decide +kernel)).2.1 _ (fun _ => (List.Perm.swap _ _ _).mem_iff) wallet⟩

end OpenFiat.PaymentMethods
