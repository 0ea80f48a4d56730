import OpenFiat.LedgerMoves
import OpenFiat.ChainWorld

/-!
# Accounts of the governance program

A proposal and its action are created together under the proposal's id, a vote record
under the id and the voter, and a ban record under the banned wallet, whose existence is
the ban. Deposits of all proposals lie in one vault. The configuration holds its bounds in
the types of its fields: shares are at most 10000 basis points, and the vote lock is
positive and at most thirty days. Voting weight is read from the accounts of the staking
program, which this program never writes.
-/
namespace OpenFiat.GovernanceAccounts
open GuardedResult FiniteTable TokenLedger ProgramAddress LedgerMoves StakingAccounts
open ChainWorld (AnchorError)

/-- An address as this program sees it: its own derived addresses that hold or move tokens,
and everything else. -/
inductive Address where
  | external (k : Pubkey)
  | governanceConfig
  | depositVault
deriving DecidableEq, Repr

def Address.wallet (n : ℕ) : Address := .external (.wallet n)

/-- Only this program signs for its configuration and opens accounts at its addresses. -/
def reserved : Reserved Address where
  authority
    | .governanceConfig => true
    | _ => false
  address
    | .external _ => false
    | _ => true
  owner
    | .depositVault, k => k = .governanceConfig
    | _, _ => false

def bpsDenominator : ℕ := 10000

def maxVoteLockSecs : ℤ := 30 * 24 * 60 * 60

def firstYearSecs : ℤ := 365 * 24 * 60 * 60

def minVotingPeriodSecs : ℤ := 30

abbrev Bps := { bps : ℕ // bps ≤ bpsDenominator }

abbrev VoteLock := { secs : ℤ // 0 < secs ∧ secs ≤ maxVoteLockSecs }

inductive GovernanceError where
  | unauthorized
  | invalidBps
  | invalidVoteLock
  | votingStillOpen
  | notInVotingState
  | depositAlreadySettled
  | notYetTallied
  | proposalNotAccepted
  | wrongCategoryForParameterUpdate
  | wrongCategoryForTreasurySpend
  | alreadyExecuted
  | overflow
  | mintMismatch
  | walletBanned
  | quorumNotMet
  | executionTimelockActive
  | wrongCategoryForBanAction
  | proposalActionMismatch
  | voteLockTooLong
  | emergencyPowersExpired
  | offchainLinkAlreadySet
  | notTheProposer
  | emptyOffchainIdHash
  | votingPeriodTooShort
deriving DecidableEq, Repr

inductive GovernanceFailure where
  | anchor (e : AnchorError)
  | governance (e : GovernanceError)
  | token (e : TransferError Address)
deriving DecidableEq, Repr

inductive ProposalCategory where
  | informational
  | standards
  | parameter
  | treasury
  | protocolUpgrade
  | constitutional
deriving DecidableEq, Repr

inductive ProposalState where
  | draft
  | voting
  | accepted
  | rejected
deriving DecidableEq, Repr

inductive BanReason where
  | stolenFunds
  | sanctions
  | phishing
  | scam
  | other
deriving DecidableEq, Repr

inductive GovernanceAction where
  | none
  | listWallet (wallet : Address) (reason : BanReason) (evidenceHash : Digest)
  | delistWallet (wallet : Address)
deriving DecidableEq, Repr

structure GovernanceConfig where
  admin : Address
  mint : Address
  totalOpenSupply : ℕ
  quorumBps : Bps
  thresholdSimpleBps : Bps
  thresholdTreasuryBps : Bps
  thresholdUpgradeBps : Bps
  quorumUpgradeBps : Bps
  depositAmount : ℕ
  forfeitDestination : Address
  voteLockSecs : VoteLock
deriving DecidableEq

structure EmergencyAuthority where
  initializedAt : ℤ
  expiresAt : ℤ
deriving DecidableEq, Repr

def zeroDigest : Digest := .filled 0

structure Proposal where
  id : ℕ
  category : ProposalCategory
  proposer : Address
  stakeDeposit : ℕ
  votesFor : ℕ
  votesAgainst : ℕ
  quorumSnapshot : ℕ
  thresholdSnapshot : ℕ
  createdAt : ℤ
  votingEndsAt : ℤ
  state : ProposalState
  quorumMet : Bool
  depositSettled : Bool
  executed : Bool
  offchainIdHash : Digest
deriving DecidableEq, Repr

structure VoteRecord where
  voter : Address
  weight : ℕ
  inFavor : Bool
  lockedUntil : ℤ
deriving DecidableEq, Repr

/-- The authorizing proposal is named by its id, from which its address derives. -/
structure BanRecord where
  wallet : Address
  reason : BanReason
  evidenceHash : Digest
  listedAt : ℤ
  authorizingProposal : ℕ
deriving DecidableEq, Repr

/-- The accounts that the program reads or writes. The last two belong to the staking
program. -/
structure GovernanceWorld where
  clock : ℤ
  tokens : Ledger Address
  config : Option GovernanceConfig
  emergencyAuthority : Option EmergencyAuthority
  proposals : Table ℕ Proposal
  actions : Table ℕ GovernanceAction
  votes : Table (ℕ × Address) VoteRecord
  bans : Table Address BanRecord
  stakeAccounts : Table (Address × Role) StakeAccount
  stakingConfig : Option StakingConfig

section Loading
variable (w : GovernanceWorld)

def loadConfig : Except GovernanceFailure GovernanceConfig :=
  load w.config (.anchor .accountNotInitialized)

def loadTokenAccount (k : Address) : Except GovernanceFailure (TokenAccount Address) :=
  load (w.tokens.accounts.lookup k) (.anchor .accountNotInitialized)

def loadProposal (id : ℕ) : Except GovernanceFailure Proposal :=
  load (w.proposals.lookup id) (.anchor .accountNotInitialized)

def loadAction (id : ℕ) : Except GovernanceFailure GovernanceAction :=
  load (w.actions.lookup id) (.anchor .accountNotInitialized)

def loadStakingConfig : Except GovernanceFailure StakingConfig := do
  let c ← load w.stakingConfig (.anchor .accountNotInitialized)
  match c.unbondingPeriods with
  | .byRole _ => return c
  | .single _ => .error (.anchor .accountDidNotDeserialize)

def loadStakeAccount (owner : Address) (role : Role) : Except GovernanceFailure StakeAccount := do
  let s ← load (w.stakeAccounts.lookup (owner, role)) (.anchor .accountNotInitialized)
  require (s.firstStakedAt.isSome = true) (.anchor .accountDidNotDeserialize)
  return s

def walletIsBanned (wallet : Address) : Bool := (w.bans.lookup wallet).isSome

def invoke {α : Type} (x : Except (TransferError Address) α) : Except GovernanceFailure α :=
  x.mapError .token

variable {w}

@[simp] theorem loadConfig_ok (c : GovernanceConfig) : loadConfig w = .ok c ↔ w.config = some c :=
  load_ok _ _ _

@[simp] theorem loadTokenAccount_ok (k : Address) (a : TokenAccount Address) :
    loadTokenAccount w k = .ok a ↔ w.tokens.accounts.lookup k = some a := load_ok _ _ _

@[simp] theorem loadProposal_ok (id : ℕ) (p : Proposal) :
    loadProposal w id = .ok p ↔ w.proposals.lookup id = some p := load_ok _ _ _

@[simp] theorem loadAction_ok (id : ℕ) (a : GovernanceAction) :
    loadAction w id = .ok a ↔ w.actions.lookup id = some a := load_ok _ _ _

@[simp] theorem invoke_ok {α : Type} (x : Except (TransferError Address) α) (a : α) :
    invoke x = .ok a ↔ x = .ok a := by
  cases x <;> simp [invoke, Except.mapError]

end Loading

end OpenFiat.GovernanceAccounts
