import OpenFiat.NodePayloads
import OpenFiat.FiniteTable

/-!
# Records of a trading node

A node holds four registries: advertisements, the reservations made against them, the
settlements raised against reservations, and the disputes about settlements. A record is
stored under its id.
-/
namespace OpenFiat.TradingNode
open FiniteTable ProgramAddress NodePayloads

inductive AdvertisementError where
  | invalidSignature
  | unauthorizedUpdate
  | duplicateAdvertisementId
  | malformedAdvertisement
  | negativeLiquidity
  | advertisementNotFound
  | insufficientLiquidity
  | advertisementDeleted
  | unusableTerms
deriving DecidableEq, Repr

structure Advertisement where
  merchant : PeerId
  merchantPublicKey : PublicKey
  assetMint : MintAddress
  direction : Direction
  fiatCurrency : FiatCurrency
  minTrade : Amount
  maxTrade : Amount
  availableLiquidity : Amount
  pricing : PricingModel
  paymentMethods : List PaymentMethodRef
  status : AdvertisementStatus
  createdAt : Timestamp
  updatedAt : Timestamp
deriving DecidableEq, Repr

def validationWindow : ℕ := 30 * 60 * 1000

/-- How far a requester's timestamp may be ahead of the node's clock, 5 minutes. -/
def maxClockSkew : ℕ := 5 * 60 * 1000

inductive ReservationError where
  | invalidSignature
  | unauthorizedUpdate
  | duplicateReservationId
  | malformedReservation
  | reservationNotFound
  | advertisementNotFound
  | invalidAmount
  | insufficientLiquidity
  | invalidReservationState
  | settlementInFlight
  | priceDisagreement
  | timestampTooFarAhead
deriving DecidableEq, Repr

inductive ReservationState where
  | escrowLocked
  | settling
  | settled
  | cancelled
  | expired
deriving DecidableEq, Repr

structure Reservation where
  advertisementId : AdvertisementId
  requester : PeerId
  requesterPublicKey : PublicKey
  amount : Amount
  agreedPrice : Amount
  agreedMid : Option F64
  state : ReservationState
  requestedAt : Timestamp
  updatedAt : Timestamp
  expiresAt : Timestamp
deriving DecidableEq, Repr

inductive SettlementError where
  | invalidSignature
  | unauthorized
  | duplicateSettlementId
  | malformedSettlement
  | settlementNotFound
  | invalidStateTransition
deriving DecidableEq, Repr

inductive SettlementState where
  | awaitingPayment
  | paymentSubmitted
  | approved
  | completed
  | rejected
  | cancelled
  | disputed
deriving DecidableEq, Repr

/-- What arbitration did to the escrow. -/
inductive DisputeVerdict where
  | escrowReleased
  | escrowReturned
deriving DecidableEq, Repr

structure Settlement where
  reservationId : ReservationId
  buyer : PeerId
  buyerPublicKey : PublicKey
  seller : PeerId
  sellerPublicKey : PublicKey
  amount : Amount
  state : SettlementState
  paymentReference : Option String
  escrowReleaseSignature : Option String
  paymentSubmittedAt : Option Timestamp
  merchantRespondedAt : Option Timestamp
  paymentDiscrepancy : Option PaymentDiscrepancy
  disputedAt : Option Timestamp
  createdAt : Timestamp
  updatedAt : Timestamp
deriving DecidableEq, Repr

inductive DisputeError where
  | invalidSignature
  | unauthorized
  | duplicateDisputeId
  | malformedDispute
  | disputeNotFound
  | settlementNotFound
  | invalidStateTransition
  | notAParty
  | commitmentMismatch
  | arbitrationFull
  | notAnArbitrator
deriving DecidableEq, Repr

inductive DisputeStatus where
  | opened
  | caseLocked
  | revealPhase
  | awaitingChainExecution
  | resolved
deriving DecidableEq, Repr

inductive Resolution where
  | buyerWins
  | merchantWins
  | mutualSettlement
  | invalid
deriving DecidableEq, Repr

def Resolution.escrowVerdict : Resolution → DisputeVerdict
  | .buyerWins | .mutualSettlement => .escrowReleased
  | .merchantWins | .invalid => .escrowReturned

def requiredArbitrators : ℕ := 3

structure Dispute where
  settlementId : SettlementId
  buyer : PeerId
  buyerPublicKey : PublicKey
  seller : PeerId
  sellerPublicKey : PublicKey
  opener : PeerId
  reason : String
  status : DisputeStatus
  requiredArbitrators : ℕ
  arbitrators : List PeerId
  arbitratorKeys : List (PeerId × PublicKey)
  commitments : List (PeerId × Digest)
  reveals : List (PeerId × Vote)
  resolution : Option Resolution
  buyerAgreedMutualSettlement : Bool
  sellerAgreedMutualSettlement : Bool
  onchainExecutionSignature : Option String
  openedAt : Timestamp
  updatedAt : Timestamp
deriving DecidableEq, Repr

def Dispute.arbitratorKey (d : Dispute) (arbitrator : PeerId) : Option PublicKey :=
  d.arbitratorKeys.lookup arbitrator

structure Node where
  advertisements : Table AdvertisementId Advertisement
  reservations : Table ReservationId Reservation
  settlements : Table SettlementId Settlement
  disputes : Table DisputeId Dispute

def emptyNode : Node := ⟨∅, ∅, ∅, ∅⟩

/-- What a node acts on: the signed payloads that peers deliver, and the steps it takes on
its own, which are the expiry sweep and the records of what it saw on chain. -/
inductive Event where
  | advertisementCreated (signed : Signed AdvertisementCreate)
  | advertisementStatusSet (signed : Signed AdvertisementStatusSet)
  | advertisementTermsUpdated (signed : Signed AdvertisementTermsUpdate)
  | advertisementPriceUpdated (signed : Signed AdvertisementPriceUpdate)
  | reservationRequested (signed : Signed ReservationRequest)
  | reservationCancelled (signed : Signed ReservationCancel)
  | settlementInitiated (signed : Signed SettlementInitiate)
  | paymentSubmitted (signed : Signed PaymentSubmitted)
  | paymentReversed (signed : Signed PaymentReversed)
  | settlementApproved (signed : Signed SettlementApproved)
  | settlementRejected (signed : Signed SettlementRejected)
  | settlementCancelled (signed : Signed SettlementCancelled)
  | disputeOpened (signed : Signed DisputeOpen)
  | arbitratorJoined (signed : Signed ArbitratorJoin)
  | voteCommitted (signed : Signed VoteCommit)
  | voteRevealed (signed : Signed VoteReveal)
  | mutualSettlementAgreed (signed : Signed MutualSettlementAgree)
  | expireStale (window : ℕ)
  | escrowReleased (id : SettlementId) (signature : String)
  | disputeResolved (id : SettlementId) (verdict : DisputeVerdict) (signature : String)
  | onchainExecution (id : DisputeId) (signature : String) (outcome : Option Resolution)
deriving DecidableEq, Repr

/-- An event together with the reading of the node's clock when it is handled. -/
structure Input where
  now : Timestamp
  event : Event
deriving DecidableEq, Repr

end OpenFiat.TradingNode
