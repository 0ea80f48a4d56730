import OpenFiat.NodePayloads
import OpenFiat.RecordStores
import Mathlib.Data.String.Basic

/-!
# Identity claims

A wallet publishes claims about itself, marks them verified and revokes them. A claim is never
changed into another one: a newer claim names the one that it supersedes. A claim of a wallet is
live if it is not revoked, not expired and not superseded by a claim of the same wallet; the
number of live claims that a wallet may hold is bounded.

The wallet's encryption key is read off its live claims of that type. A sweep reclaims claims
that have been dead for the retention time.
-/
namespace OpenFiat.IdentityClaims
open GuardedResult NodePayloads RecordStores

structure ClaimId where
  id : String
deriving DecidableEq, Repr

inductive ClaimType where
  | email
  | phone
  | telegram
  | discord
  | twitter
  | merchantName
  | businessName
  | avatar
  | encryptionKey
  | custom (name : String)
deriving DecidableEq, Repr

inductive VerificationStatus where
  | unverified
  | selfAttested
deriving DecidableEq, Repr

structure Claim where
  id : ClaimId
  wallet : PeerId
  walletPublicKey : PublicKey
  claimType : ClaimType
  value : String
  verificationStatus : VerificationStatus
  supersedes : Option ClaimId
  expiresAt : Option Timestamp
  revoked : Bool
  createdAt : Timestamp
  updatedAt : Timestamp
deriving DecidableEq

/-- Neither revoked nor past its expiry. -/
def Claim.isValid (claim : Claim) (now : Timestamp) : Bool :=
  !claim.revoked && claim.expiresAt.all fun expiry => now < expiry

structure ClaimPublish where
  id : ClaimId
  wallet : PeerId
  walletPublicKey : PublicKey
  claimType : ClaimType
  value : String
  verified : Bool
  supersedes : Option ClaimId
  expiresAt : Option Timestamp
  timestamp : Timestamp
deriving DecidableEq

inductive IdentityError where
  | invalidSignature
  | unauthorized
  | duplicateClaimId
  | malformedClaim
  | claimNotFound
  | invalidClaimState
  | tooManyClaims
deriving DecidableEq, Repr

structure EncryptionPublicKey where
  bytes : List UInt8
deriving DecidableEq, Repr

structure IdentityPlatform extends SignatureScheme ClaimPublish where
  /-- Whether a string parses as a content id. -/
  isCid : String → Bool
  /-- The key that a base58 string spells, unless it is malformed or of small order. -/
  parseEncryptionKey : String → Option EncryptionPublicKey

def ClaimType.accepts (P : IdentityPlatform) (value : String) : ClaimType → Bool
  | .avatar => P.isCid value
  | .encryptionKey => (P.parseEncryptionKey value).isSome
  | _ => true

/-- The number of live claims one wallet may hold at once. -/
def maxClaimsPerWallet : ℕ := 64

/-- How long a dead claim is kept, in milliseconds. -/
def claimRetention : ℕ := 7 * 24 * 60 * 60 * 1000

abbrev IdentityRegistry := RecordStore Claim.id

theorem claimId_injective : Function.Injective ClaimId.id := by
  rintro ⟨_⟩ ⟨_⟩ h
  exact congrArg _ h

def all (r : IdentityRegistry) : List Claim := r.all ClaimId.id claimId_injective

def findByWallet (r : IdentityRegistry) (wallet : PeerId) : List Claim :=
  (all r).filter fun claim => claim.wallet = wallet

def superseded (claims : List Claim) : List ClaimId := claims.filterMap Claim.supersedes

/-- The live claims of a wallet: only its own claims can supersede them. -/
def liveClaimIds (r : IdentityRegistry) (wallet : PeerId) (now : Timestamp) : Finset ClaimId :=
  let claims := findByWallet r wallet
  ((claims.filter fun claim => claim.isValid now && claim.id ∉ superseded claims).map
    Claim.id).toFinset

def maxByKey {α : Type} (key : α → ℕ) (l : List α) : Option α :=
  l.foldl (fun best a => best.elim (some a) fun b => if key b ≤ key a then some a else some b) none

/-- The newest of the encryption keys that are in force. -/
def currentEncryptionKey (P : IdentityPlatform) (claims : List Claim) (now : Timestamp) :
    Option EncryptionPublicKey :=
  let candidates := claims.filter fun claim =>
    claim.claimType = .encryptionKey && claim.isValid now && claim.id ∉ superseded claims
  (maxByKey Claim.createdAt candidates).bind fun claim => P.parseEncryptionKey claim.value

def encryptionKey (P : IdentityPlatform) (r : IdentityRegistry) (wallet : PeerId)
    (now : Timestamp) : Option EncryptionPublicKey :=
  currentEncryptionKey P (findByWallet r wallet) now

def newClaim (publish : ClaimPublish) : Claim where
  __ := publish
  verificationStatus := if publish.verified then .selfAttested else .unverified
  revoked := false
  createdAt := publish.timestamp
  updatedAt := publish.timestamp

/-- Publish a claim. A claim that supersedes a live claim of its own wallet takes that claim's
place, every other one needs room among the live claims. -/
def applyPublish (P : IdentityPlatform) (now : Timestamp) (r : IdentityRegistry)
    (signed : Signed ClaimPublish) : Except IdentityError IdentityRegistry := do
  let publish := signed.payload
  P.verifyAuthor publish.walletPublicKey publish.wallet publish signed.signature
    .unauthorized .invalidSignature
  require (r.get publish.id = none) .duplicateClaimId
  require (publish.claimType.accepts P publish.value = true) .malformedClaim
  let live := liveClaimIds r publish.wallet now
  require (publish.supersedes.any (· ∈ live) = true ∨ live.card < maxClaimsPerWallet)
    .tooManyClaims
  return r.put (newClaim publish)

def cutoff (now : Timestamp) : Timestamp := now - claimRetention

/-- Whether a sweep takes a claim. The claims of all wallets count as its replacements. -/
def reclaimable (claims : List Claim) (now : Timestamp) (claim : Claim) : Bool :=
  (claim.revoked || !claim.isValid now || claim.id ∈ superseded claims) &&
    claim.updatedAt ≤ cutoff now

/-- One sweep, with the number of claims that it removed. -/
def prune (now : Timestamp) (r : IdentityRegistry) : IdentityRegistry × ℕ :=
  r.prune ClaimId.id claimId_injective (reclaimable (all r) now)

variable {r : IdentityRegistry} {now : Timestamp} {wallet : PeerId} {claim : Claim}

theorem mem_findByWallet :
    claim ∈ findByWallet r wallet ↔ claim ∈ all r ∧ claim.wallet = wallet := by
  rw [findByWallet, List.mem_filter, decide_eq_true_eq]

theorem mem_superseded {claims : List Claim} {id : ClaimId} :
    id ∈ superseded claims ↔ ∃ claim ∈ claims, claim.supersedes = some id := by
  rw [superseded, List.mem_filterMap]

theorem isValid_of_le {t : Timestamp} (h : now ≤ t) (hvalid : claim.isValid t = true) :
    claim.isValid now = true := by
  unfold Claim.isValid at hvalid ⊢
  rw [Bool.and_eq_true] at hvalid ⊢
  refine ⟨hvalid.1, ?_⟩
  cases hexpiry : claim.expiresAt with
  | none => rfl
  | some expiry =>
    have ht : t < expiry := by simpa [hexpiry] using hvalid.2
    simpa using h.trans_lt ht

theorem all_prune : all (prune now r).1 = (all r).filter fun c => !reclaimable (all r) now c :=
  RecordStore.all_prune _ r

theorem findByWallet_prune : findByWallet (prune now r).1 wallet =
    (findByWallet r wallet).filter fun c => !reclaimable (all r) now c := by
  rw [findByWallet, findByWallet, all_prune, List.filter_filter, List.filter_filter]
  exact List.filter_congr fun c _ => Bool.and_comm _ _

def Claim.replaces (d c : Claim) : Bool := d.supersedes = some c.id

/-- The claims that neither expiry nor revocation nor a claim of the list has ended. -/
def claimsInForce (claims : List Claim) (now : Timestamp) : List Claim :=
  inForce Claim.replaces (Claim.isValid · now) claims

theorem claimsInForce_eq (claims : List Claim) (now : Timestamp) : claimsInForce claims now =
    claims.filter fun claim => claim.isValid now && claim.id ∉ superseded claims := by
  refine List.filter_congr fun c _ => congrArg (c.isValid now && ·) ?_
  rw [Bool.eq_iff_iff, Bool.not_eq_true', decide_eq_true_eq, mem_superseded]
  simp [Claim.replaces]

theorem liveClaimIds_eq : liveClaimIds r wallet now =
    ((claimsInForce (findByWallet r wallet) now).map Claim.id).toFinset := by
  rw [claimsInForce_eq]
  rfl

theorem mem_liveClaimIds (hclaim : claim ∈ all r) : claim.id ∈ liveClaimIds r wallet now ↔
    claim ∈ claimsInForce (findByWallet r wallet) now := by
  rw [liveClaimIds_eq, List.mem_toFinset, List.mem_map]
  constructor
  · rintro ⟨c, hc, hid⟩
    have hmem : c ∈ all r := (mem_findByWallet.mp (mem_inForce.mp hc).1).1
    rw [← RecordStore.eq_of_id_eq hmem hclaim hid]
    exact hc
  · exact fun h => ⟨claim, h, rfl⟩

theorem currentEncryptionKey_eq (P : IdentityPlatform) (claims : List Claim) :
    currentEncryptionKey P claims now =
      (maxByKey Claim.createdAt ((claimsInForce claims now).filter
        fun claim => claim.claimType = .encryptionKey)).bind
          fun claim => P.parseEncryptionKey claim.value := by
  rw [claimsInForce_eq, List.filter_filter, currentEncryptionKey]
  simp only [Bool.and_assoc]

end OpenFiat.IdentityClaims
