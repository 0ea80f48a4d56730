import OpenFiat.GovernanceAccounts

/-!
# Instructions of the governance program

Creating a proposal takes a deposit and fixes the quorum, the threshold and the action;
voting adds the voter's stake to one side; the tally decides once voting is over. Settling
the deposit and executing the action are open to everyone and each happen once, guarded by
a flag of the proposal. Parameter and treasury proposals are executed by setting the flag
only.
-/
namespace OpenFiat.GovernanceInstructions
open GuardedResult TokenLedger ProgramAddress GovernanceAccounts
open StakingAccounts (StakeAccount StakingConfig)

structure UpdateGovernanceConfigParams where
  totalOpenSupply : ℕ
  quorumBps : ℕ
  thresholdSimpleBps : ℕ
  thresholdTreasuryBps : ℕ
  thresholdUpgradeBps : ℕ
  quorumUpgradeBps : ℕ
  depositAmount : ℕ
  voteLockSecs : ℤ

structure InitializeGovernanceConfigParams extends UpdateGovernanceConfigParams where
  forfeitDestination : Address

def requireValidBps (bps : ℕ) : Except GovernanceFailure Bps := do
  let h ← ensure (bps ≤ bpsDenominator) (.governance .invalidBps)
  return ⟨bps, h.down⟩

def requireValidVoteLock (secs : ℤ) : Except GovernanceFailure VoteLock := do
  let hpos ← ensure (0 < secs) (.governance .invalidVoteLock)
  let hmax ← ensure (secs ≤ maxVoteLockSecs) (.governance .voteLockTooLong)
  return ⟨secs, hpos.down, hmax.down⟩

/-- The configuration with the given parameters, once they are checked. -/
def validConfig (admin mint forfeitDestination : Address) (p : UpdateGovernanceConfigParams) :
    Except GovernanceFailure GovernanceConfig := do
  let quorumBps ← requireValidBps p.quorumBps
  let thresholdSimpleBps ← requireValidBps p.thresholdSimpleBps
  let thresholdTreasuryBps ← requireValidBps p.thresholdTreasuryBps
  let thresholdUpgradeBps ← requireValidBps p.thresholdUpgradeBps
  let quorumUpgradeBps ← requireValidBps p.quorumUpgradeBps
  let voteLockSecs ← requireValidVoteLock p.voteLockSecs
  return {
    admin
    mint
    totalOpenSupply := p.totalOpenSupply
    quorumBps
    thresholdSimpleBps
    thresholdTreasuryBps
    thresholdUpgradeBps
    quorumUpgradeBps
    depositAmount := p.depositAmount
    forfeitDestination
    voteLockSecs }

def writeEmergencyAuthority (now : ℤ) : Except GovernanceFailure EmergencyAuthority := do
  let expiresAt ← checkedAddI64 (.governance .overflow) now firstYearSecs
  return { initializedAt := now, expiresAt }

def initializeGovernanceConfig (w : GovernanceWorld) (admin mint : Address)
    (p : InitializeGovernanceConfigParams) : Except GovernanceFailure GovernanceWorld := do
  require (w.config = none) (.anchor .accountInUse)
  let tokens ← invoke (w.tokens.createAccount .depositVault mint .governanceConfig)
  require (w.emergencyAuthority = none) (.anchor .accountInUse)
  let c ← validConfig admin mint p.forfeitDestination p.toUpdateGovernanceConfigParams
  let authority ← writeEmergencyAuthority w.clock
  return { w with tokens, config := some c, emergencyAuthority := some authority }

def initializeEmergencyAuthority (w : GovernanceWorld) :
    Except GovernanceFailure GovernanceWorld := do
  require (w.emergencyAuthority = none) (.anchor .accountInUse)
  let authority ← writeEmergencyAuthority w.clock
  return { w with emergencyAuthority := some authority }

def emergencyPowersAvailable (authority : EmergencyAuthority) (now : ℤ) : Prop :=
  now < authority.expiresAt

instance (authority : EmergencyAuthority) (now : ℤ) :
    Decidable (emergencyPowersAvailable authority now) := inferInstanceAs (Decidable (_ < _))

def requireVoteLockChangeAllowed (authority : EmergencyAuthority) (now current requested : ℤ) :
    Except GovernanceFailure Unit :=
  if emergencyPowersAvailable authority now then .ok ()
  else require (requested = current) (.governance .emergencyPowersExpired)

section Handlers
variable (w : GovernanceWorld)

def updateGovernanceConfig (admin mint forfeitDestination : Address)
    (p : UpdateGovernanceConfigParams) : Except GovernanceFailure GovernanceWorld := do
  let c ← loadConfig w
  require (c.admin = admin) (.governance .unauthorized)
  require (c.mint = mint) (.governance .mintMismatch)
  let destination ← loadTokenAccount w forfeitDestination
  require (destination.mint = mint) (.anchor .constraintRaw)
  let authority ← load w.emergencyAuthority (.anchor .accountNotInitialized)
  let c' ← validConfig c.admin c.mint forfeitDestination p
  requireVoteLockChangeAllowed authority w.clock c.voteLockSecs p.voteLockSecs
  return { w with config := some c' }

def quorumBpsFor (c : GovernanceConfig) : ProposalCategory → Bps
  | .protocolUpgrade | .constitutional => c.quorumUpgradeBps
  | _ => c.quorumBps

def thresholdBpsFor (c : GovernanceConfig) : ProposalCategory → Bps
  | .treasury => c.thresholdTreasuryBps
  | .protocolUpgrade | .constitutional => c.thresholdUpgradeBps
  | _ => c.thresholdSimpleBps

/-- A ban-list action fixes the category of its proposal. -/
def requireCategory (category : ProposalCategory) : GovernanceAction → Except GovernanceFailure Unit
  | .listWallet _ _ _ | .delistWallet _ =>
    require (category = .standards) (.governance .wrongCategoryForBanAction)
  | .none => .ok ()

def createProposal (proposer mint src : Address) (id : ℕ)
    (category : ProposalCategory) (votingPeriodSecs : ℤ) (action : GovernanceAction) :
    Except GovernanceFailure GovernanceWorld := do
  let c ← loadConfig w
  require (c.mint = mint) (.anchor .constraintRaw)
  let _ ← loadTokenAccount w .depositVault
  let a ← loadTokenAccount w src
  require (a.mint = mint) (.anchor .constraintRaw)
  require (w.proposals.lookup id = none) (.anchor .accountInUse)
  require (w.actions.lookup id = none) (.anchor .accountInUse)
  require (walletIsBanned w proposer = false) (.governance .walletBanned)
  require (minVotingPeriodSecs ≤ votingPeriodSecs) (.governance .votingPeriodTooShort)
  requireCategory category action
  let tokens ← invoke (w.tokens.transfer src mint .depositVault proposer c.depositAmount)
  let scaled ← checkedMul 128 (.governance .overflow) c.totalOpenSupply (quorumBpsFor c category)
  let votingEndsAt ← checkedAddI64 (.governance .overflow) w.clock votingPeriodSecs
  let proposal : Proposal :=
    { id
      category
      proposer
      stakeDeposit := c.depositAmount
      votesFor := 0
      votesAgainst := 0
      quorumSnapshot := scaled / bpsDenominator % 2 ^ 64
      thresholdSnapshot := thresholdBpsFor c category
      createdAt := w.clock
      votingEndsAt
      state := .voting
      quorumMet := false
      depositSettled := false
      executed := false
      offchainIdHash := zeroDigest }
  return { w with
    tokens
    proposals := w.proposals.insert id proposal
    actions := w.actions.insert id action }

def linkOffchainProposal (proposer : Address) (id : ℕ) (hash : Digest) :
    Except GovernanceFailure GovernanceWorld := do
  let p ← loadProposal w id
  require (p.proposer = proposer) (.governance .notTheProposer)
  require (p.state = .voting) (.governance .notInVotingState)
  require (hash ≠ zeroDigest) (.governance .emptyOffchainIdHash)
  require (p.offchainIdHash = zeroDigest) (.governance .offchainLinkAlreadySet)
  return { w with proposals := w.proposals.insert id { p with offchainIdHash := hash } }

def addVote (p : Proposal) (inFavor : Bool) (weight : ℕ) : Except GovernanceFailure Proposal :=
  if inFavor then do
    let votesFor ← checkedAdd 64 (.governance .overflow) p.votesFor weight
    return { p with votesFor }
  else do
    let votesAgainst ← checkedAdd 64 (.governance .overflow) p.votesAgainst weight
    return { p with votesAgainst }

def castVote (voter : Address) (id : ℕ) (inFavor : Bool) (role : Role) :
    Except GovernanceFailure GovernanceWorld := do
  let c ← loadConfig w
  let p ← loadProposal w id
  require (p.state = .voting) (.governance .notInVotingState)
  let staking ← loadStakingConfig w
  let s ← loadStakeAccount w voter role
  require (w.votes.lookup (id, voter) = none) (.anchor .accountInUse)
  require (w.clock < p.votingEndsAt) (.governance .notInVotingState)
  let weight := s.effectiveStake staking
  let p' ← addVote p inFavor weight
  let lockedUntil ← checkedAddI64 (.governance .overflow) w.clock c.voteLockSecs
  return { w with
    proposals := w.proposals.insert id p'
    votes := w.votes.insert (id, voter) { voter, weight, inFavor, lockedUntil } }

def acceptedBy (p : Proposal) (totalCast : ℕ) : Except GovernanceFailure Bool :=
  if totalCast < p.quorumSnapshot ∨ totalCast = 0 then .ok false
  else do
    let scaled ← checkedMul 128 (.governance .overflow) p.votesFor bpsDenominator
    return decide (p.thresholdSnapshot ≤ scaled / totalCast)

def tallyAndFinalize (id : ℕ) : Except GovernanceFailure GovernanceWorld := do
  let p ← loadProposal w id
  require (p.state = .voting) (.governance .notInVotingState)
  require (p.votingEndsAt ≤ w.clock) (.governance .votingStillOpen)
  let totalCast ← checkedAdd 64 (.governance .overflow) p.votesFor p.votesAgainst
  let accepted ← acceptedBy p totalCast
  let proposal :=
    { p with
      quorumMet := decide (p.quorumSnapshot ≤ totalCast)
      state := if accepted then .accepted else .rejected }
  return { w with proposals := w.proposals.insert id proposal }

def refundOrForfeitDeposit (id : ℕ) (mint proposerTokenAccount forfeitDestination : Address) :
    Except GovernanceFailure GovernanceWorld := do
  let c ← loadConfig w
  require (c.mint = mint) (.anchor .constraintRaw)
  require (c.forfeitDestination = forfeitDestination) (.anchor .constraintRaw)
  let _ ← loadTokenAccount w .depositVault
  let p ← loadProposal w id
  require (p.state ≠ .voting) (.governance .notYetTallied)
  require (p.depositSettled = false) (.governance .depositAlreadySettled)
  let a ← loadTokenAccount w proposerTokenAccount
  require (a.owner = p.proposer) (.anchor .constraintRaw)
  require (a.mint = mint) (.anchor .constraintRaw)
  let _ ← loadTokenAccount w forfeitDestination
  require [.depositVault, proposerTokenAccount, forfeitDestination].Nodup
    (.anchor .constraintDuplicateMutableAccount)
  let destination := if p.quorumMet then proposerTokenAccount else forfeitDestination
  let tokens ← invoke
    (w.tokens.transfer .depositVault mint destination .governanceConfig p.stakeDeposit)
  return { w with
    tokens
    proposals := w.proposals.insert id { p with depositSettled := true } }

def requireExecutable (p : Proposal) (c : GovernanceConfig) (now : ℤ) :
    Except GovernanceFailure Unit := do
  require (p.state = .accepted) (.governance .proposalNotAccepted)
  require (p.quorumMet = true) (.governance .quorumNotMet)
  require (p.executed = false) (.governance .alreadyExecuted)
  let executableAt ← checkedAddI64 (.governance .overflow) p.votingEndsAt c.voteLockSecs
  require (executableAt ≤ now) (.governance .executionTimelockActive)

def setExecuted (id : ℕ) (p : Proposal) : GovernanceWorld :=
  { w with proposals := w.proposals.insert id { p with executed := true } }

/-- The reason and the evidence of a listing that names the wallet. -/
def listingOf (wallet : Address) : GovernanceAction → Except GovernanceFailure (BanReason × Digest)
  | .listWallet target reason evidenceHash =>
    if target = wallet then .ok (reason, evidenceHash)
    else .error (.governance .proposalActionMismatch)
  | _ => .error (.governance .proposalActionMismatch)

def listWallet (id : ℕ) (wallet : Address) : Except GovernanceFailure GovernanceWorld := do
  let c ← loadConfig w
  let p ← loadProposal w id
  require (p.category = .standards) (.governance .wrongCategoryForBanAction)
  let action ← loadAction w id
  require (w.bans.lookup wallet = none) (.anchor .accountInUse)
  requireExecutable p c w.clock
  let (reason, evidenceHash) ← listingOf wallet action
  let record : BanRecord :=
    { wallet, reason, evidenceHash, listedAt := w.clock, authorizingProposal := id }
  return setExecuted { w with bans := w.bans.insert wallet record } id p

def delistWallet (id : ℕ) (wallet : Address) : Except GovernanceFailure GovernanceWorld := do
  let c ← loadConfig w
  let p ← loadProposal w id
  require (p.category = .standards) (.governance .wrongCategoryForBanAction)
  let action ← loadAction w id
  let _ ← load (w.bans.lookup wallet) (.anchor .accountNotInitialized)
  requireExecutable p c w.clock
  require (action = .delistWallet wallet) (.governance .proposalActionMismatch)
  return setExecuted { w with bans := w.bans.erase wallet } id p

def recordExecution (id : ℕ) (category : ProposalCategory)
    (wrongCategory : GovernanceError) : Except GovernanceFailure GovernanceWorld := do
  let p ← loadProposal w id
  require (p.state = .accepted) (.governance .proposalNotAccepted)
  require (p.category = category) (.governance wrongCategory)
  require (p.executed = false) (.governance .alreadyExecuted)
  return setExecuted w id p

def updateConfigParameter (id : ℕ) : Except GovernanceFailure GovernanceWorld :=
  recordExecution w id .parameter .wrongCategoryForParameterUpdate

def authorizeTreasurySpend (id : ℕ) : Except GovernanceFailure GovernanceWorld :=
  recordExecution w id .treasury .wrongCategoryForTreasurySpend

end Handlers

section Specs
variable {w w' : GovernanceWorld} {id : ℕ}

variable {admin forfeitDestination mint wallet : Address} {action : GovernanceAction}
  {category : ProposalCategory} {p : Proposal}

theorem validConfig_ok {p : UpdateGovernanceConfigParams} {c : GovernanceConfig}
    (h : validConfig admin mint forfeitDestination p = .ok c) :
    c.admin = admin ∧ c.mint = mint ∧ c.forfeitDestination = forfeitDestination := by
  simp only [validConfig, bind_ok, pure_ok] at h
  obtain ⟨_, -, _, -, _, -, _, -, _, -, _, -, rfl⟩ := h
  exact ⟨rfl, rfl, rfl⟩

theorem initializeGovernanceConfig_ok {p : InitializeGovernanceConfigParams}
    (h : initializeGovernanceConfig w admin mint p = .ok w') :
    ∃ L c authority, w.config = none ∧
      w.tokens.createAccount .depositVault mint .governanceConfig = .ok L ∧ c.mint = mint ∧
      w' = { w with tokens := L, config := some c, emergencyAuthority := some authority } := by
  simp only [initializeGovernanceConfig, bind_ok, require_ok, exists_const, invoke_ok,
    pure_ok] at h
  obtain ⟨hnone, L, hL, -, c, hc, authority, -, rfl⟩ := h
  exact ⟨L, c, authority, hnone, hL, (validConfig_ok hc).2.1, rfl⟩

theorem initializeEmergencyAuthority_ok (h : initializeEmergencyAuthority w = .ok w') :
    ∃ authority, w' = { w with emergencyAuthority := some authority } := by
  simp only [initializeEmergencyAuthority, bind_ok, require_ok, exists_const, pure_ok] at h
  obtain ⟨-, authority, -, rfl⟩ := h
  exact ⟨authority, rfl⟩

theorem updateGovernanceConfig_ok {p : UpdateGovernanceConfigParams}
    (h : updateGovernanceConfig w admin mint forfeitDestination p = .ok w') :
    ∃ c c', w.config = some c ∧ c'.mint = c.mint ∧ w' = { w with config := some c' } := by
  simp only [updateGovernanceConfig, bind_ok, require_ok, exists_const, loadConfig_ok,
    pure_ok] at h
  obtain ⟨c, hc, -, -, _, -, -, _, -, c', hc', _, -, rfl⟩ := h
  exact ⟨c, c', hc, (validConfig_ok hc').2.1, rfl⟩

/-- What a new proposal is. -/
structure NewProposal (id : ℕ) (p : Proposal) (c : GovernanceConfig) (action : GovernanceAction) :
    Prop where
  id : p.id = id
  offchainIdHash : p.offchainIdHash = zeroDigest
  category : action = .none ∨ p.category = .standards
  stakeDeposit : p.stakeDeposit = c.depositAmount
  votesFor : p.votesFor = 0
  votesAgainst : p.votesAgainst = 0
  state : p.state = .voting
  depositSettled : p.depositSettled = false
  executed : p.executed = false

theorem requireCategory_ok {u : Unit} (h : requireCategory category action = .ok u) :
    action = .none ∨ category = .standards := by
  cases action with
  | none => exact .inl rfl
  | listWallet | delistWallet => exact .inr ((require_ok _ _ _).mp h)

theorem createProposal_ok {proposer src : Address} {secs : ℤ}
    (h : createProposal w proposer mint src id category secs action = .ok w') :
    ∃ c L p, w.config = some c ∧ w.proposals.lookup id = none ∧ w.actions.lookup id = none ∧
      w.tokens.transfer src c.mint .depositVault proposer c.depositAmount = .ok L ∧
      NewProposal id p c action ∧
      w' = { w with
        tokens := L
        proposals := w.proposals.insert id p
        actions := w.actions.insert id action } := by
  simp only [createProposal, bind_ok, require_ok, exists_const, loadConfig_ok, invoke_ok,
    pure_ok] at h
  obtain ⟨c, hc, rfl, _, -, _, -, -, hproposals, hactions, -, -, _, hcategory, L, hL, _, -, _, -,
    rfl⟩ := h
  exact ⟨c, L, _, hc, hproposals, hactions, hL,
    ⟨rfl, rfl, requireCategory_ok hcategory, rfl, rfl, rfl, rfl, rfl, rfl⟩, rfl⟩

theorem linkOffchainProposal_ok {proposer : Address} {hash : Digest}
    (h : linkOffchainProposal w proposer id hash = .ok w') :
    ∃ p, w.proposals.lookup id = some p ∧ p.proposer = proposer ∧ p.state = .voting ∧
      hash ≠ zeroDigest ∧ p.offchainIdHash = zeroDigest ∧
      w' = { w with proposals := w.proposals.insert id { p with offchainIdHash := hash } } := by
  simp only [linkOffchainProposal, bind_ok, require_ok, exists_const, loadProposal_ok,
    pure_ok] at h
  obtain ⟨p, hp, hproposer, hstate, hhash, hzero, rfl⟩ := h
  exact ⟨p, hp, hproposer, hstate, hhash, hzero, rfl⟩

def withVote (p : Proposal) (r : VoteRecord) : Proposal :=
  { p with
    votesFor := p.votesFor + if r.inFavor = true then r.weight else 0
    votesAgainst := p.votesAgainst + if r.inFavor = false then r.weight else 0 }

theorem addVote_ok {p' : Proposal} (voter : Address) {inFavor : Bool} {weight : ℕ} (lockedUntil : ℤ)
    (h : addVote p inFavor weight = .ok p') :
    p' = withVote p ⟨voter, weight, inFavor, lockedUntil⟩ := by
  cases inFavor with
  | true =>
    simp only [addVote, if_true, bind_ok, checkedAdd_ok, pure_ok] at h
    obtain ⟨_, ⟨-, rfl⟩, rfl⟩ := h
    rfl
  | false =>
    simp only [addVote, Bool.false_eq_true, if_false, bind_ok, checkedAdd_ok, pure_ok] at h
    obtain ⟨_, ⟨-, rfl⟩, rfl⟩ := h
    rfl

theorem castVote_ok {voter : Address} {inFavor : Bool} {role : Role}
    (h : castVote w voter id inFavor role = .ok w') :
    ∃ p r, w.proposals.lookup id = some p ∧ p.state = .voting ∧
      w.votes.lookup (id, voter) = none ∧
      w' = { w with
        proposals := w.proposals.insert id (withVote p r)
        votes := w.votes.insert (id, voter) r } := by
  simp only [castVote, bind_ok, require_ok, exists_const, loadProposal_ok, pure_ok] at h
  obtain ⟨_, -, p, hp, hstate, staking, -, s, -, hnone, -, p', hp', lockedUntil, -, rfl⟩ := h
  obtain rfl := addVote_ok voter lockedUntil hp'
  exact ⟨p, ⟨voter, s.effectiveStake staking, inFavor, lockedUntil⟩, hp, hstate, hnone, rfl⟩

/-- The votes accept a proposal: enough were cast, and enough of them in favor. -/
def Passes (p : Proposal) : Prop :=
  p.quorumSnapshot ≤ p.votesFor + p.votesAgainst ∧ 0 < p.votesFor + p.votesAgainst ∧
    p.thresholdSnapshot * (p.votesFor + p.votesAgainst) ≤ p.votesFor * bpsDenominator

theorem acceptedBy_ok {accepted : Bool}
    (h : acceptedBy p (p.votesFor + p.votesAgainst) = .ok accepted) :
    accepted = true ↔ Passes p := by
  unfold acceptedBy at h
  split_ifs at h with hfew
  · obtain rfl := Except.ok.inj h
    refine ⟨Bool.noConfusion, fun hpasses => ?_⟩
    have hquorum := hpasses.1
    have hpos := hpasses.2.1
    omega
  · simp only [bind_ok, checkedMul_ok, pure_ok] at h
    obtain ⟨_, ⟨-, rfl⟩, rfl⟩ := h
    have hpos : 0 < p.votesFor + p.votesAgainst := by omega
    rw [decide_eq_true_eq, Nat.le_div_iff_mul_le hpos]
    exact ⟨fun h => ⟨by omega, hpos, h⟩, fun h => h.2.2⟩

theorem tallyAndFinalize_ok (h : tallyAndFinalize w id = .ok w') :
    ∃ p accepted, w.proposals.lookup id = some p ∧ p.state = .voting ∧
      p.votingEndsAt ≤ w.clock ∧ (accepted = true ↔ Passes p) ∧
      w' = { w with
        proposals := w.proposals.insert id
          { p with
            quorumMet := decide (p.quorumSnapshot ≤ p.votesFor + p.votesAgainst)
            state := if accepted = true then .accepted else .rejected } } := by
  simp only [tallyAndFinalize, bind_ok, require_ok, exists_const, loadProposal_ok, pure_ok,
    checkedAdd_ok] at h
  obtain ⟨p, hp, hstate, hends, _, ⟨-, rfl⟩, accepted, haccepted, rfl⟩ := h
  exact ⟨p, accepted, hp, hstate, hends, acceptedBy_ok haccepted, rfl⟩

theorem refundOrForfeitDeposit_ok {proposerTokenAccount : Address}
    (h : refundOrForfeitDeposit w id mint proposerTokenAccount forfeitDestination = .ok w') :
    ∃ c p L, w.config = some c ∧ w.proposals.lookup id = some p ∧ p.state ≠ .voting ∧
      p.depositSettled = false ∧
      w.tokens.header proposerTokenAccount = some (c.mint, p.proposer) ∧
      w.tokens.transfer .depositVault c.mint
        (if p.quorumMet = true then proposerTokenAccount else c.forfeitDestination)
        .governanceConfig p.stakeDeposit = .ok L ∧
      w' = { w with
        tokens := L
        proposals := w.proposals.insert id { p with depositSettled := true } } := by
  simp only [refundOrForfeitDeposit, bind_ok, require_ok, exists_const, loadConfig_ok,
    loadProposal_ok, loadTokenAccount_ok, invoke_ok, pure_ok] at h
  obtain ⟨c, hc, rfl, rfl, _, -, p, hp, hstate, hsettled, a, ha, howner, hmint, _, -, -, L, hL,
    rfl⟩ := h
  refine ⟨c, p, L, hc, hp, hstate, hsettled, ?_, hL, rfl⟩
  rw [Ledger.header_of_lookup ha, howner, hmint]

/-- When an accepted proposal may act. -/
structure Executable (p : Proposal) (c : GovernanceConfig) (now : ℤ) : Prop where
  accepted : p.state = .accepted
  quorumMet : p.quorumMet = true
  executed : p.executed = false
  timelock : p.votingEndsAt + c.voteLockSecs ≤ now

theorem requireExecutable_ok {c : GovernanceConfig} {now : ℤ} {u : Unit}
    (h : requireExecutable p c now = .ok u) : Executable p c now := by
  simp only [requireExecutable, bind_ok, require_ok, exists_const, checkedAddI64_ok] at h
  obtain ⟨haccepted, hquorum, hexecuted, _, ⟨-, rfl⟩, htime⟩ := h
  exact ⟨haccepted, hquorum, hexecuted, htime⟩

theorem listingOf_ok {reason : BanReason} {evidence : Digest}
    (h : listingOf wallet action = .ok (reason, evidence)) :
    action = .listWallet wallet reason evidence := by
  cases action with
  | listWallet =>
    simp only [listingOf] at h
    split_ifs at h with htarget
    obtain ⟨rfl, rfl⟩ := Prod.mk.inj (Except.ok.inj h)
    rw [htarget]
  | none | delistWallet => cases h

theorem listWallet_ok (h : listWallet w id wallet = .ok w') :
    ∃ c p r, w.config = some c ∧ w.proposals.lookup id = some p ∧ p.category = .standards ∧
      Executable p c w.clock ∧ w.bans.lookup wallet = none ∧ r.wallet = wallet ∧
      r.authorizingProposal = id ∧
      w.actions.lookup id = some (.listWallet wallet r.reason r.evidenceHash) ∧
      w' = setExecuted { w with bans := w.bans.insert wallet r } id p := by
  simp only [listWallet, bind_ok, require_ok, exists_const, loadConfig_ok, loadProposal_ok,
    loadAction_ok, pure_ok] at h
  obtain ⟨c, hc, p, hp, hcategory, action, haction, hnone, _, hexecutable, ⟨reason, evidence⟩,
    hlisting, rfl⟩ := h
  obtain rfl := listingOf_ok hlisting
  exact ⟨c, p, _, hc, hp, hcategory, requireExecutable_ok hexecutable, hnone, rfl, rfl, haction,
    rfl⟩

theorem delistWallet_ok (h : delistWallet w id wallet = .ok w') :
    ∃ c p r, w.config = some c ∧ w.proposals.lookup id = some p ∧ p.category = .standards ∧
      Executable p c w.clock ∧ w.bans.lookup wallet = some r ∧
      w.actions.lookup id = some (.delistWallet wallet) ∧
      w' = setExecuted { w with bans := w.bans.erase wallet } id p := by
  simp only [delistWallet, bind_ok, require_ok, exists_const, loadConfig_ok, loadProposal_ok,
    loadAction_ok, load_ok, pure_ok] at h
  obtain ⟨c, hc, p, hp, hcategory, _, haction, r, hr, _, hexecutable, rfl, rfl⟩ := h
  exact ⟨c, p, r, hc, hp, hcategory, requireExecutable_ok hexecutable, hr, haction, rfl⟩

theorem recordExecution_ok {e : GovernanceError} (h : recordExecution w id category e = .ok w') :
    ∃ p, w.proposals.lookup id = some p ∧ p.category = category ∧ p.executed = false ∧
      w' = setExecuted w id p := by
  simp only [recordExecution, bind_ok, require_ok, exists_const, loadProposal_ok, pure_ok] at h
  obtain ⟨p, hp, -, hcategory, hexecuted, rfl⟩ := h
  exact ⟨p, hp, hcategory, hexecuted, rfl⟩

end Specs

end OpenFiat.GovernanceInstructions
