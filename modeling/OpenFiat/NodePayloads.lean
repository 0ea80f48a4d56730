import OpenFiat.ProgramAddress
import OpenFiat.GuardedResult

/-!
# Signed payloads of the trading network

A node learns about trades from payloads that their authors sign and anybody may
deliver. A signature covers a domain tag together with the value signed under it;
`Statement` has one constructor for each tag, so a signature for one kind of payload
never stands for another.

Signature verification, the derivation of a peer id from a key, the base58 spelling,
the hash function and the arithmetic of doubles are the platform's.
-/
namespace OpenFiat.NodePayloads
open GuardedResult ProgramAddress

/-- The 32 bytes of an Ed25519 public key. -/
@[ext]
structure PublicKey where
  bytes : List UInt8
  length_eq : bytes.length = 32
deriving Repr

instance : DecidableEq PublicKey := fun _ _ => decidable_of_iff _ PublicKey.ext_iff.symm

def PublicKey.filled (b : UInt8) : PublicKey := ⟨List.replicate 32 b, length_filled b⟩

structure PeerId where
  bytes : List UInt8
deriving DecidableEq, Repr

/-- The peer whose key repeats one byte. -/
def peer (b : UInt8) : PeerId := ⟨(PublicKey.filled b).bytes⟩

structure Signature where
  bytes : List UInt8
deriving DecidableEq, Repr

/-- Milliseconds since the Unix epoch. -/
abbrev Timestamp := ℕ

/-- A count of the smallest unit of an asset, with the precision to read it in. -/
structure Amount where
  baseUnits : ℕ
  decimals : ℕ
  baseUnits_lt : baseUnits < 2 ^ 64
  decimals_lt : decimals < 2 ^ 8
deriving DecidableEq, Repr

namespace Amount

def new (baseUnits : UInt64) (decimals : UInt8) : Amount :=
  ⟨baseUnits.toNat, decimals.toNat, baseUnits.toNat_lt, decimals.toNat_lt⟩

def checkedAdd (a b : Amount) : Option Amount :=
  if h : a.decimals = b.decimals ∧ a.baseUnits + b.baseUnits < 2 ^ 64 then
    some ⟨a.baseUnits + b.baseUnits, a.decimals, h.2, a.decimals_lt⟩
  else none

def checkedSub (a b : Amount) : Option Amount :=
  if a.decimals = b.decimals ∧ b.baseUnits ≤ a.baseUnits then
    some ⟨a.baseUnits - b.baseUnits, a.decimals, (Nat.sub_le _ _).trans_lt a.baseUnits_lt,
      a.decimals_lt⟩
  else none

theorem checkedAdd_eq_some {a b c : Amount} : checkedAdd a b = some c ↔
    a.decimals = b.decimals ∧ c.decimals = a.decimals ∧
      c.baseUnits = a.baseUnits + b.baseUnits := by
  constructor
  · intro h
    unfold checkedAdd at h
    split_ifs at h with hab
    rw [← Option.some.inj h]
    exact ⟨hab.1, rfl, rfl⟩
  · rintro ⟨hdec, hc, hunits⟩
    have hlt : a.baseUnits + b.baseUnits < 2 ^ 64 := hunits ▸ c.baseUnits_lt
    rw [checkedAdd, dif_pos ⟨hdec, hlt⟩]
    cases c
    simp only at hc hunits
    simp only [hc, hunits]

theorem checkedSub_eq_some {a b c : Amount} : checkedSub a b = some c ↔
    a.decimals = b.decimals ∧ b.baseUnits ≤ a.baseUnits ∧ c.decimals = a.decimals ∧
      c.baseUnits = a.baseUnits - b.baseUnits := by
  constructor
  · intro h
    unfold checkedSub at h
    split_ifs at h with hab
    rw [← Option.some.inj h]
    exact ⟨hab.1, hab.2, rfl, rfl⟩
  · rintro ⟨hdec, hle, hc, hunits⟩
    rw [checkedSub, if_pos ⟨hdec, hle⟩]
    cases c
    simp only at hc hunits
    simp only [hc, hunits]

end Amount

structure AdvertisementId where
  id : String
deriving DecidableEq, Repr

structure ReservationId where
  id : String
deriving DecidableEq, Repr

structure SettlementId where
  id : String
deriving DecidableEq, Repr

structure DisputeId where
  id : String
deriving DecidableEq, Repr

/-- A double, as its bit pattern. -/
structure F64 where
  bits : UInt64
deriving DecidableEq, Repr

structure DoubleArithmetic where
  ofInt : ℤ → F64
  add : F64 → F64 → F64
  mul : F64 → F64 → F64
  div : F64 → F64 → F64
  powi : F64 → ℤ → F64
  isFinite : F64 → Bool
  lt : F64 → F64 → Bool
  le : F64 → F64 → Bool
  roundTiesEven : F64 → F64
  toU64 : F64 → Fin (2 ^ 64)

inductive PricingModel where
  | fixed (price : Amount)
  | floating (oracleProvider : String) (premiumBps : ℤ) (priceDecimals : Fin (2 ^ 8))
deriving DecidableEq, Repr

inductive MidPrice where
  | available (rate : F64) (expiresAt : Timestamp)
  | noOracleData
  | staleOracleData
deriving DecidableEq, Repr

inductive UnpriceableReason where
  | noOracleData
  | staleOracleData
  | priceOutOfRange
deriving DecidableEq, Repr

inductive PriceQuote where
  | fixed (price : Amount)
  | floating (price : Amount) (midRate : F64) (premiumBps : ℤ) (midExpiresAt : Timestamp)
  | unpriceable (reason : UnpriceableReason) (premiumBps : ℤ)
deriving DecidableEq, Repr

def toAmount (d : DoubleArithmetic) (value : F64) (decimals : Fin (2 ^ 8)) : Option Amount :=
  let scaled := d.mul value (d.powi (d.ofInt 10) decimals)
  if !d.isFinite scaled || d.lt scaled (d.ofInt 0) then none
  else
    let rounded := d.roundTiesEven scaled
    if d.le (d.ofInt (2 ^ 64)) rounded then none
    else some ⟨d.toU64 rounded, decimals, (d.toU64 rounded).isLt, decimals.isLt⟩

namespace PricingModel

def quoteFloating (d : DoubleArithmetic) (premiumBps : ℤ) (priceDecimals : Fin (2 ^ 8)) :
    MidPrice → PriceQuote
  | .noOracleData => .unpriceable .noOracleData premiumBps
  | .staleOracleData => .unpriceable .staleOracleData premiumBps
  | .available rate midExpiresAt =>
    let multiplier := d.add (d.ofInt 1) (d.div (d.ofInt premiumBps) (d.ofInt 10000))
    match toAmount d (d.mul rate multiplier) priceDecimals with
    | some price => .floating price rate premiumBps midExpiresAt
    | none => .unpriceable .priceOutOfRange premiumBps

/-- Whether the agreed price follows from these terms and the recorded mid. -/
def agreesWith (d : DoubleArithmetic) (agreedPrice : Amount) (agreedMid : Option F64) :
    PricingModel → Bool
  | .fixed price =>
    agreedMid.isNone && agreedPrice.baseUnits == price.baseUnits &&
      agreedPrice.decimals == price.decimals
  | .floating _ premiumBps priceDecimals =>
    match agreedMid with
    | none => false
    | some mid =>
      match quoteFloating d premiumBps priceDecimals (.available mid 0) with
      | .floating price _ _ _ =>
        agreedPrice.baseUnits == price.baseUnits && agreedPrice.decimals == price.decimals
      | _ => false

end PricingModel

inductive Direction where
  | sell
  | buy
deriving DecidableEq, Repr

inductive AdvertisementStatus where
  | active
  | disabled
  | vacation
  | deleted
deriving DecidableEq, Repr

structure MintAddress where
  address : String
deriving DecidableEq, Repr

structure FiatCurrency where
  code : String
deriving DecidableEq, Repr

/-- A payment method is either compiled into the node or defined by a merchant, whose peer
id is part of the reference in its base58 spelling. -/
inductive PaymentMethodRef where
  | builtin (slug : String)
  | merchantDefined (owner digest : String)
deriving DecidableEq, Repr

def PaymentMethodRef.owner : PaymentMethodRef → Option String
  | .builtin _ => none
  | .merchantDefined owner _ => some owner

structure AdvertisementCreate where
  id : AdvertisementId
  merchant : PeerId
  merchantPublicKey : PublicKey
  assetMint : MintAddress
  direction : Direction
  fiatCurrency : FiatCurrency
  minTrade : Amount
  maxTrade : Amount
  initialLiquidity : Amount
  pricing : PricingModel
  paymentMethods : List PaymentMethodRef
  timestamp : Timestamp
deriving DecidableEq, Repr

structure AdvertisementStatusSet where
  id : AdvertisementId
  merchant : PeerId
  status : AdvertisementStatus
  timestamp : Timestamp
deriving DecidableEq, Repr

structure AdvertisementTermsUpdate where
  id : AdvertisementId
  merchant : PeerId
  minTrade : Amount
  maxTrade : Amount
  paymentMethods : List PaymentMethodRef
  timestamp : Timestamp
deriving DecidableEq, Repr

structure AdvertisementPriceUpdate where
  id : AdvertisementId
  merchant : PeerId
  pricing : PricingModel
  timestamp : Timestamp
deriving DecidableEq, Repr

structure ReservationRequest where
  id : ReservationId
  advertisementId : AdvertisementId
  requester : PeerId
  requesterPublicKey : PublicKey
  amount : Amount
  agreedPrice : Amount
  agreedMid : Option F64
  timestamp : Timestamp
deriving DecidableEq, Repr

structure ReservationCancel where
  id : ReservationId
  requester : PeerId
  timestamp : Timestamp
deriving DecidableEq, Repr

inductive PaymentDiscrepancy where
  | incorrectAmount
  | wrongReference
  | duplicatePayment
  | incorrectAccount
  | other
deriving DecidableEq, Repr

structure SettlementInitiate where
  id : SettlementId
  reservationId : ReservationId
  buyer : PeerId
  buyerPublicKey : PublicKey
  seller : PeerId
  sellerPublicKey : PublicKey
  amount : Amount
  timestamp : Timestamp
deriving DecidableEq, Repr

structure PaymentSubmitted where
  settlementId : SettlementId
  buyer : PeerId
  paymentReference : Option String
  timestamp : Timestamp
deriving DecidableEq, Repr

structure PaymentReversed where
  settlementId : SettlementId
  buyer : PeerId
  timestamp : Timestamp
deriving DecidableEq, Repr

structure SettlementApproved where
  settlementId : SettlementId
  seller : PeerId
  timestamp : Timestamp
deriving DecidableEq, Repr

structure SettlementRejected where
  settlementId : SettlementId
  seller : PeerId
  reason : String
  discrepancy : PaymentDiscrepancy
  timestamp : Timestamp
deriving DecidableEq, Repr

structure SettlementCancelled where
  settlementId : SettlementId
  canceller : PeerId
  timestamp : Timestamp
deriving DecidableEq, Repr

inductive Vote where
  | buyerWins
  | merchantWins
  | invalid
deriving DecidableEq, Repr

structure DisputeOpen where
  id : DisputeId
  settlementId : SettlementId
  opener : PeerId
  openerPublicKey : PublicKey
  reason : String
  timestamp : Timestamp
deriving DecidableEq, Repr

structure ArbitratorJoin where
  disputeId : DisputeId
  arbitrator : PeerId
  arbitratorPublicKey : PublicKey
  timestamp : Timestamp
deriving DecidableEq, Repr

structure VoteCommit where
  disputeId : DisputeId
  arbitrator : PeerId
  commitment : Digest
  timestamp : Timestamp
deriving DecidableEq, Repr

@[ext]
structure VoteReveal where
  disputeId : DisputeId
  arbitrator : PeerId
  vote : Vote
  secret : List UInt8
  timestamp : Timestamp
  secret_length : secret.length = 32
deriving Repr

instance : DecidableEq VoteReveal := fun _ _ => decidable_of_iff _ VoteReveal.ext_iff.symm

structure MutualSettlementAgree where
  disputeId : DisputeId
  party : PeerId
  timestamp : Timestamp
deriving DecidableEq, Repr

/-- A text that only the owner of one key can open. -/
structure SealedBox where
  ephemeralPublic : List UInt8
  nonce : List UInt8
  ciphertext : List UInt8
deriving DecidableEq

structure Signed (α : Type) where
  payload : α
  signature : Signature
deriving DecidableEq, Repr

/-- Signatures over the statements of one registry, and the peer id that a key derives. -/
structure SignatureScheme (σ : Type) where
  verify : PublicKey → σ → Signature → Bool
  peerIdFromPublicKey : PublicKey → Option PeerId

/-- The check of a payload that carries its author's key, against the errors that a registry
reports. -/
def SignatureScheme.verifyAuthor {ε σ : Type} (scheme : SignatureScheme σ) (key : PublicKey)
    (claimed : PeerId) (statement : σ) (signature : Signature) (unauthorized invalidSignature : ε) :
    Except ε Unit := do
  let expected ← load (scheme.peerIdFromPublicKey key) invalidSignature
  require (expected = claimed) unauthorized
  require (scheme.verify key statement signature = true) invalidSignature

@[simp] theorem SignatureScheme.verifyAuthor_ok {ε σ : Type} {scheme : SignatureScheme σ}
    {key : PublicKey} {claimed : PeerId} {statement : σ} {signature : Signature} {e e' : ε}
    {u : Unit} : scheme.verifyAuthor key claimed statement signature e e' = .ok u ↔
      scheme.peerIdFromPublicKey key = some claimed ∧
        scheme.verify key statement signature = true := by
  simp only [verifyAuthor, bind_ok, load_ok, require_ok]
  constructor
  · rintro ⟨expected, hkey, -, rfl, hverify⟩
    exact ⟨hkey, hverify⟩
  · rintro ⟨hkey, hverify⟩
    exact ⟨claimed, hkey, (), rfl, hverify⟩

/-- What a signature is over: a value under the domain tag of its type. -/
inductive Statement where
  | advertisementCreate (create : AdvertisementCreate)
  | advertisementStatusSet (set : AdvertisementStatusSet)
  | advertisementTermsUpdate (update : AdvertisementTermsUpdate)
  | advertisementPriceUpdate (update : AdvertisementPriceUpdate)
  | reservationRequest (request : ReservationRequest)
  | reservationCancel (cancel : ReservationCancel)
  | settlementInitiate (initiate : SettlementInitiate)
  | paymentSubmitted (action : PaymentSubmitted)
  | paymentReversed (action : PaymentReversed)
  | settlementApproved (action : SettlementApproved)
  | settlementRejected (action : SettlementRejected)
  | settlementCancelled (action : SettlementCancelled)
  | disputeOpen (opening : DisputeOpen)
  | arbitratorJoin (join : ArbitratorJoin)
  | voteCommit (commit : VoteCommit)
  | voteReveal (reveal : VoteReveal)
  | mutualSettlementAgree (agree : MutualSettlementAgree)
deriving DecidableEq, Repr

structure NodePlatform extends SignatureScheme Statement where
  base58 : List UInt8 → String
  sha256 : List UInt8 → Digest
  double : DoubleArithmetic

/-- Whether a merchant may put this method on an advertisement. -/
def PaymentMethodRef.isSelectableBy (p : NodePlatform) (merchant : PeerId)
    (method : PaymentMethodRef) : Bool :=
  match method.owner with
  | none => true
  | some owner => owner == p.base58 merchant.bytes

end OpenFiat.NodePayloads
