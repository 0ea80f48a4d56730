import Mathlib.Data.Nat.Notation

/-!
# Addresses and digests

An account address is either held by a signer, or fixed by the deployment, or
derived by a program from a seed list. A derived address determines its seeds and
no signer holds its key, so each seed family is a constructor of `Pubkey` and a
signature can only come from a `wallet`. Associated token accounts, derived by
the associated-token program from an owner and a mint, form one more family.

The hash function and the byte encoding of addresses belong to the platform and
are parameters of the development.
-/
namespace OpenFiat.ProgramAddress

/-- The staking roles, in the order of their wire encoding. -/
inductive Role where
  | merchant
  | arbitrator
  | nodeOperator
  | notificationProvider
  | oracleProvider
  | riskIntelligenceProvider
  | snapshotProvider
deriving DecidableEq, Repr

/-- Keys that appear as constants in the programs. -/
inductive FixedKey where
  | default
  | wrappedSol
  | mockUsdc
  | mockUsdt
  | testSettlementMint
deriving DecidableEq, Repr

inductive Pubkey where
  | wallet (n : ℕ)
  | fixed (key : FixedKey)
  | associatedToken (owner mint : Pubkey)
  | liquidityVault (merchant mint : Pubkey)
  | liquidityVaultTokens (merchant mint : Pubkey)
  | tradeEscrow (reservationId : ℕ)
  | tradeEscrowTokens (reservationId : ℕ)
  | feeConfig
  | disputeCase (reservationId : ℕ)
  | arbitrationPool
  | arbitrationPolicy
  | stakeRecoveryClaim (merchant mint : Pubkey)
  | stakingConfig
  | stakeVault
  | rewardsVault
  | stakeAccount (owner : Pubkey) (role : Role)
  | stakeRecoveryReceipt (merchant : Pubkey)
deriving DecidableEq, Repr

/-- A 32-byte hash value. -/
structure Digest where
  bytes : List UInt8
  length_eq : bytes.length = 32
deriving DecidableEq, Repr

theorem length_filled (b : UInt8) : (List.replicate 32 b).length = 32 := List.length_replicate

def Digest.filled (b : UInt8) : Digest := ⟨List.replicate 32 b, length_filled b⟩

structure Platform where
  sha256 : List UInt8 → Digest
  keyBytes : Pubkey → List UInt8

end OpenFiat.ProgramAddress
