import OpenFiat.GossipEvents
import OpenFiat.ProposalAccount
import OpenFiat.RecordStores
import OpenFiat.TransactionRuns

/-!
# The governance registry

Off-chain proposals are gossiped: an author opens one with a signed payload, votes on it are
collected, and the author may withdraw it or declare it live once it was accepted. What the
registry never does is decide one. An outcome is adopted from an account of the governance
program that the proposal names and that names the proposal in turn.
-/
namespace OpenFiat.GovernanceRegistry
open GuardedResult NodePayloads RecordStores ProposalAccount
open GossipEvents (utf8)
open ProgramAddress (Digest)
open GovernanceAccounts (ProposalState)

structure ProposalId where
  id : String
deriving DecidableEq, Repr

inductive ProposalCategory where
  | protocol
  | economics
  | marketplace
  | infrastructure
  | governance
deriving DecidableEq, Repr

inductive ProposalStatus where
  | voting
  | accepted
  | rejected
  | withdrawn
  | activated
deriving DecidableEq, Repr

inductive VoteChoice where
  | approve
  | reject
  | abstain
deriving DecidableEq, Repr

structure CastVote where
  voter : PeerId
  choice : VoteChoice
  weight : ℕ
  timestamp : Timestamp
deriving DecidableEq, Repr

structure Proposal where
  id : ProposalId
  title : String
  summary : String
  category : ProposalCategory
  author : PeerId
  authorPublicKey : PublicKey
  status : ProposalStatus
  votes : List CastVote
  /-- The on-chain proposal that this one claims to belong to. -/
  onchainProposalId : Option UInt64
  votingClosesAt : Timestamp
  createdAt : Timestamp
  updatedAt : Timestamp
deriving DecidableEq

def Proposal.voteBy (p : Proposal) (voter : PeerId) : Option CastVote :=
  p.votes.find? fun vote => decide (vote.voter = voter)

structure ProposalCreate where
  id : ProposalId
  title : String
  summary : String
  category : ProposalCategory
  author : PeerId
  authorPublicKey : PublicKey
  onchainProposalId : Option UInt64
  timestamp : Timestamp
deriving DecidableEq

structure VoteCast where
  proposalId : ProposalId
  voter : PeerId
  voterPublicKey : PublicKey
  choice : VoteChoice
  weight : ℕ
  stakeAccount : String
  timestamp : Timestamp
deriving DecidableEq

structure ProposalWithdraw where
  proposalId : ProposalId
  author : PeerId
  timestamp : Timestamp
deriving DecidableEq

structure ProposalActivate where
  proposalId : ProposalId
  author : PeerId
  timestamp : Timestamp
deriving DecidableEq

inductive GovernanceStatement where
  | proposalCreate (create : ProposalCreate)
  | voteCast (vote : VoteCast)
  | proposalWithdraw (withdraw : ProposalWithdraw)
  | proposalActivate (activate : ProposalActivate)
deriving DecidableEq

def defaultVotingPeriod : ℕ := 7 * 24 * 60 * 60 * 1000

abbrev Registry := RecordStore Proposal.id

def newProposal (create : ProposalCreate) : Proposal where
  __ := create
  status := .voting
  votes := []
  votingClosesAt := create.timestamp + defaultVotingPeriod
  createdAt := create.timestamp
  updatedAt := create.timestamp

section Handlers
variable (S : SignatureScheme GovernanceStatement) (r : Registry)

def applyCreate (signed : Signed ProposalCreate) : Except GovernanceError Registry := do
  let create := signed.payload
  S.verifyAuthor create.authorPublicKey create.author (.proposalCreate create) signed.signature
    .unauthorized .invalidSignature
  require (r.get create.id = none) .duplicateProposalId
  return r.put (newProposal create)

def Proposal.withVote (p : Proposal) (vote : VoteCast) (weight : ℕ) : Proposal :=
  { p with
    votes := p.votes ++ [⟨vote.voter, vote.choice, weight, vote.timestamp⟩]
    updatedAt := vote.timestamp }

def applyVoteInner (vote : VoteCast) (weight : ℕ) : Except GovernanceError Registry := do
  let p ← load (r.get vote.proposalId) .proposalNotFound
  require (p.status = .voting ∧ vote.timestamp < p.votingClosesAt) .votingClosed
  require (p.voteBy vote.voter = none) .duplicateVote
  return r.put (p.withVote vote weight)

/-- A vote counted with the weight that was read from the voter's stake. -/
def applyVoteWithVerifiedWeight
    (signed : Signed VoteCast) (verifiedWeight : ℕ) : Except GovernanceError Registry := do
  let vote := signed.payload
  S.verifyAuthor vote.voterPublicKey vote.voter (.voteCast vote) signed.signature
    .unauthorized .invalidSignature
  applyVoteInner r vote verifiedWeight

/-- A vote counted with the weight that it reports itself. -/
def applyVote (signed : Signed VoteCast) : Except GovernanceError Registry :=
  applyVoteWithVerifiedWeight S r signed signed.payload.weight

/-- The shared body of the two moves that are the author's. -/
def applyAuthorMove (id : ProposalId)
    (author : PeerId) (statement : GovernanceStatement) (signature : Signature)
    (source target : ProposalStatus) (timestamp : Timestamp) :
    Except GovernanceError Registry := do
  let p ← load (r.get id) .proposalNotFound
  require (p.author = author) .unauthorized
  require (S.verify p.authorPublicKey statement signature = true) .invalidSignature
  require (p.status = source) .invalidStateTransition
  return r.put { p with status := target, updatedAt := timestamp }

def applyWithdraw (signed : Signed ProposalWithdraw) : Except GovernanceError Registry :=
  let withdraw := signed.payload
  applyAuthorMove S r withdraw.proposalId withdraw.author (.proposalWithdraw withdraw)
    signed.signature .voting .withdrawn withdraw.timestamp

def applyActivate (signed : Signed ProposalActivate) : Except GovernanceError Registry :=
  let activate := signed.payload
  applyAuthorMove S r activate.proposalId activate.author (.proposalActivate activate)
    signed.signature .accepted .activated activate.timestamp

end Handlers

/-- The status that an on-chain state resolves a proposal to, if it is a resolution. -/
def resolution : ProposalState → Option ProposalStatus
  | .accepted => some .accepted
  | .rejected => some .rejected
  | .draft => none
  | .voting => none

inductive ChainAgreement where
  | noClaim
  | claimNotReciprocated
  | linkedStillVoting
  | linkedAwaitingAdoption
  | linkedAgreed
  | linkedDisagreed
deriving DecidableEq, Repr

/-- The hash by which an on-chain proposal names an off-chain one. -/
def offchainIdHash (sha256 : List UInt8 → Digest) (id : ProposalId) : Digest := sha256 (utf8 id.id)

/-- Both name each other. -/
def Linked (sha256 : List UInt8 → Digest) (id : ProposalId) (claimedId : UInt64)
    (onchain : OnchainProposal) : Prop :=
  onchain.id = claimedId ∧ onchain.offchainIdHash = some (offchainIdHash sha256 id)

instance (sha256 : List UInt8 → Digest) (id : ProposalId) (claimedId : UInt64)
    (onchain : OnchainProposal) : Decidable (Linked sha256 id claimedId onchain) :=
  inferInstanceAs (Decidable (_ ∧ _))

def compare (sha256 : List UInt8 → Digest) (offchain : Proposal)
    (onchain : Option OnchainProposal) : ChainAgreement :=
  match offchain.onchainProposalId, onchain with
  | none, _ => .noClaim
  | some _, none => .claimNotReciprocated
  | some claimedId, some onchain =>
    if Linked sha256 offchain.id claimedId onchain then
      match resolution onchain.state with
      | none => .linkedStillVoting
      | some resolved =>
        if resolved = offchain.status then .linkedAgreed
        else if offchain.status = .voting then .linkedAwaitingAdoption
        else .linkedDisagreed
    else .claimNotReciprocated

def applyOnchainResolution (r : Registry) (id : ProposalId) (resolved : ProposalStatus)
    (now : Timestamp) : Except GovernanceError Registry := do
  require (resolved = .accepted ∨ resolved = .rejected) .invalidStateTransition
  let p ← load (r.get id) .proposalNotFound
  require (p.status = .voting) .invalidStateTransition
  return r.put { p with status := resolved, updatedAt := now }

/-- Adopt the chain's answer, and report what the two records say about each other. -/
def adoptOnchainResolution (sha256 : List UInt8 → Digest) (r : Registry) (id : ProposalId)
    (onchain : Option OnchainProposal) (now : Timestamp) :
    Except GovernanceError (Registry × ChainAgreement) := do
  let p ← load (r.get id) .proposalNotFound
  let agreement := compare sha256 p onchain
  if agreement = .linkedAwaitingAdoption then
    -- the source aborts without a resolution, which the agreement rules out
    let resolved ← load (onchain.bind fun o => resolution o.state) .invalidStateTransition
    match applyOnchainResolution r id resolved now with
    | .ok r' => return (r', agreement)
    | .error .invalidStateTransition => return (r, agreement)
    | .error e => throw e
  else return (r, agreement)

/-- An account as a node fetched it: its owner and its bytes. -/
structure FetchedAccount where
  owner : String
  data : List UInt8

inductive Action where
  | create (signed : Signed ProposalCreate)
  | vote (signed : Signed VoteCast)
  | verifiedVote (signed : Signed VoteCast) (weight : ℕ)
  | withdraw (signed : Signed ProposalWithdraw)
  | activate (signed : Signed ProposalActivate)
  | adopt (id : ProposalId) (account : Option FetchedAccount) (now : Timestamp)

def decodeFetched (account : FetchedAccount) : Option OnchainProposal :=
  (decodeProposal account.owner account.data).toOption

structure RegistryPlatform where
  scheme : SignatureScheme GovernanceStatement
  sha256 : List UInt8 → Digest

def step (P : RegistryPlatform) (r : Registry) : Action → Except GovernanceError Registry
  | .create signed => applyCreate P.scheme r signed
  | .vote signed => applyVote P.scheme r signed
  | .verifiedVote signed weight => applyVoteWithVerifiedWeight P.scheme r signed weight
  | .withdraw signed => applyWithdraw P.scheme r signed
  | .activate signed => applyActivate P.scheme r signed
  | .adopt id account now => do
    let r ← adoptOnchainResolution P.sha256 r id (account.bind decodeFetched) now
    return r.1

section Changes
variable {P : RegistryPlatform} {r r' : Registry} {a : Action}

/-- A fetched account decides a proposal: it decodes, both name each other, and its state is a
resolution. -/
structure Decides (sha256 : List UInt8 → Digest) (p : Proposal) (account : FetchedAccount)
    (onchain : OnchainProposal) (resolved : ProposalStatus) : Prop where
  decoded : decodeProposal account.owner account.data = .ok onchain
  claimed : p.onchainProposalId = some onchain.id
  named : onchain.offchainIdHash = some (offchainIdHash sha256 p.id)
  state : resolution onchain.state = some resolved

/-- The ways in which the record of a proposal can change. -/
inductive Change (sha256 : List UInt8 → Digest) (a : Action) (id : ProposalId) :
    Option Proposal → Option Proposal → Prop
  | same (o : Option Proposal) : Change sha256 a id o o
  | created (signed : Signed ProposalCreate) : a = .create signed → signed.payload.id = id →
      Change sha256 a id none (some (newProposal signed.payload))
  | voted (p : Proposal) (vote : VoteCast) (weight : ℕ) : p.status = .voting →
      Change sha256 a id (some p) (some (p.withVote vote weight))
  | withdrawn (p : Proposal) (timestamp : Timestamp) : p.status = .voting →
      Change sha256 a id (some p) (some { p with status := .withdrawn, updatedAt := timestamp })
  | activated (p : Proposal) (timestamp : Timestamp) : p.status = .accepted →
      Change sha256 a id (some p) (some { p with status := .activated, updatedAt := timestamp })
  | adopted (p : Proposal) (account : FetchedAccount) (onchain : OnchainProposal)
      (resolved : ProposalStatus) (now : Timestamp) : a = .adopt id (some account) now →
      p.status = .voting → Decides sha256 p account onchain resolved →
      Change sha256 a id (some p) (some { p with status := resolved, updatedAt := now })

theorem change_put {id : ProposalId} {p p' : Proposal} (hget : r.get id = some p)
    (h : Change P.sha256 a id (some p) (some p')) (hid : p'.id = p.id) (k : ProposalId) :
    Change P.sha256 a k (r.get k) ((r.put p').get k) :=
  RecordStore.rel_put_back (fun _ o => .same o) hget hid h k

theorem applyVoteInner_change {vote : VoteCast} {weight : ℕ}
    (h : applyVoteInner r vote weight = .ok r') (k : ProposalId) :
    Change P.sha256 a k (r.get k) (r'.get k) := by
  simp only [applyVoteInner, bind_ok, load_ok, require_ok, pure_ok, exists_const] at h
  obtain ⟨p, hget, ⟨hvoting, -⟩, -, rfl⟩ := h
  exact change_put hget (.voted p vote weight hvoting) rfl k

theorem applyAuthorMove_ok {S : SignatureScheme GovernanceStatement} {id : ProposalId}
    {author : PeerId} {statement : GovernanceStatement} {signature : Signature}
    {source target : ProposalStatus} {timestamp : Timestamp}
    (h : applyAuthorMove S r id author statement signature source target timestamp = .ok r') :
    ∃ p, r.get id = some p ∧ p.status = source ∧
      r' = r.put { p with status := target, updatedAt := timestamp } := by
  simp only [applyAuthorMove, bind_ok, load_ok, require_ok, pure_ok, exists_const] at h
  obtain ⟨p, hget, -, -, hsource, rfl⟩ := h
  exact ⟨p, hget, hsource, rfl⟩

theorem compare_awaiting {sha256 : List UInt8 → Digest} {p : Proposal}
    {onchain : Option OnchainProposal}
    (h : compare sha256 p onchain = .linkedAwaitingAdoption) :
    ∃ o resolved, onchain = some o ∧ p.onchainProposalId = some o.id ∧
      o.offchainIdHash = some (offchainIdHash sha256 p.id) ∧
      resolution o.state = some resolved ∧ p.status = .voting := by
  unfold compare at h
  cases hclaim : p.onchainProposalId with
  | none =>
    rw [hclaim] at h
    cases h
  | some claimedId =>
    cases onchain with
    | none =>
      rw [hclaim] at h
      cases h
    | some o =>
      rw [hclaim] at h
      dsimp only at h
      by_cases hlinked : Linked sha256 p.id claimedId o
      · rw [if_pos hlinked] at h
        cases hstate : resolution o.state with
        | none =>
          rw [hstate] at h
          cases h
        | some resolved =>
          rw [hstate] at h
          dsimp only at h
          split_ifs at h with _ hvoting
          exact ⟨o, resolved, rfl, congrArg some hlinked.1.symm, hlinked.2, hstate, hvoting⟩
      · rw [if_neg hlinked] at h
        cases h

theorem resolution_adoptable {s : ProposalState} {resolved : ProposalStatus}
    (h : resolution s = some resolved) : resolved = .accepted ∨ resolved = .rejected := by
  cases s <;> cases h
  · exact .inl rfl
  · exact .inr rfl

/-- An adoption writes exactly when the agreement awaits it. -/
theorem adoptOnchainResolution_ok {sha256 : List UInt8 → Digest} {id : ProposalId}
    {onchain : Option OnchainProposal} {now : Timestamp} {agreement : ChainAgreement}
    (h : adoptOnchainResolution sha256 r id onchain now = .ok (r', agreement)) :
    r' = r ∨ ∃ p o resolved, r.get id = some p ∧ onchain = some o ∧
      p.onchainProposalId = some o.id ∧ o.offchainIdHash = some (offchainIdHash sha256 p.id) ∧
      resolution o.state = some resolved ∧ p.status = .voting ∧
      r' = r.put { p with status := resolved, updatedAt := now } := by
  simp only [adoptOnchainResolution, bind_ok, load_ok] at h
  obtain ⟨p, hget, h⟩ := h
  split_ifs at h with hawaiting
  · obtain ⟨o, resolved, rfl, hclaim, hname, hstate, hvoting⟩ := compare_awaiting hawaiting
    have happly : applyOnchainResolution r id resolved now =
        .ok (r.put { p with status := resolved, updatedAt := now }) := by
      simp only [applyOnchainResolution, bind_ok, load_ok, require_ok, pure_ok, exists_const]
      exact ⟨resolution_adoptable hstate, p, hget, hvoting, rfl⟩
    simp only [bind_ok, load_ok, Option.bind_some, hstate] at h
    obtain ⟨_, hresolved, h⟩ := h
    obtain rfl := Option.some.inj hresolved
    rw [happly] at h
    obtain ⟨rfl, -⟩ := Prod.mk.inj (Except.ok.inj h)
    exact .inr ⟨p, o, resolved, hget, rfl, hclaim, hname, hstate, hvoting, rfl⟩
  · obtain ⟨rfl, -⟩ := Prod.mk.inj (Except.ok.inj h)
    exact .inl rfl

theorem decodeFetched_some {account : FetchedAccount} {o : OnchainProposal}
    (h : decodeFetched account = some o) : decodeProposal account.owner account.data = .ok o := by
  unfold decodeFetched at h
  cases hdecode : decodeProposal account.owner account.data with
  | error =>
    rw [hdecode] at h
    cases h
  | ok =>
    rw [hdecode] at h
    exact congrArg Except.ok (Option.some.inj h)

theorem step_change (h : step P r a = .ok r') (k : ProposalId) :
    Change P.sha256 a k (r.get k) (r'.get k) := by
  cases a with
  | create signed =>
    simp only [step, applyCreate, bind_ok, require_ok, pure_ok, exists_const] at h
    obtain ⟨-, -, hfree, rfl⟩ := h
    refine RecordStore.rel_put (fun _ o => .same o) ?_ k
    have hnone : r.get (newProposal signed.payload).id = none := hfree
    rw [hnone]
    exact .created signed rfl rfl
  | vote | verifiedVote =>
    simp only [step, applyVote, applyVoteWithVerifiedWeight, bind_ok] at h
    obtain ⟨-, -, h⟩ := h
    exact applyVoteInner_change h k
  | withdraw =>
    obtain ⟨p, hget, hvoting, rfl⟩ := applyAuthorMove_ok h
    exact change_put hget (.withdrawn p _ hvoting) rfl k
  | activate =>
    obtain ⟨p, hget, haccepted, rfl⟩ := applyAuthorMove_ok h
    exact change_put hget (.activated p _ haccepted) rfl k
  | adopt id account now =>
    simp only [step, bind_ok, pure_ok] at h
    obtain ⟨⟨r₁, agreement⟩, hadopt, rfl⟩ := h
    rcases adoptOnchainResolution_ok hadopt with rfl |
      ⟨p, o, resolved, hget, hfetched, hclaim, hname, hstate, hvoting, rfl⟩
    · exact .same _
    · obtain ⟨account, rfl, hdecode⟩ := Option.bind_eq_some_iff.mp hfetched
      exact change_put hget (.adopted p account o resolved now rfl hvoting
        ⟨decodeFetched_some hdecode, hclaim, hname, hstate⟩) rfl k

end Changes

end OpenFiat.GovernanceRegistry
