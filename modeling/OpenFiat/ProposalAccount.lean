import OpenFiat.GovernanceAccounts
import OpenFiat.RecordLayouts

/-!
# Reading a proposal off its account

A node does not share types with the governance program: it reads the fields of a `Proposal`
account that it needs at offsets computed by hand. `StoredProposal.bytes` is the account as the
program writes it, and `decodeProposal_bytes` says what the reader returns on it, whatever
follows it in the account.
-/
namespace OpenFiat.ProposalAccount
open GuardedResult RecordLayouts ProgramAddress GovernanceAccounts

/-- The first eight bytes of `sha256("account:Proposal")`. -/
def proposalDiscriminator : List UInt8 := [26, 94, 189, 187, 116, 136, 53, 33]

/-- The owner that the node expects: the deployed governance program. -/
def governanceProgramId : String := "2k71DBDoxM4SUFYGbyMXFiTSUynPuY2CqFUsx3FuarXF"

/-- A proposal with the widths of the program's own fields. -/
structure StoredProposal where
  id : UInt64
  category : ProposalCategory
  proposer : Block 32
  titleHash : Digest
  summaryHash : Digest
  stakeDeposit : UInt64
  votesFor : UInt64
  votesAgainst : UInt64
  quorumSnapshot : UInt64
  thresholdSnapshot : UInt16
  createdAt : Int64
  votingEndsAt : Int64
  state : ProposalState
  quorumMet : Bool
  depositSettled : Bool
  executed : Bool
  bump : UInt8
  offchainIdHash : Digest

def categoryByte : ProposalCategory → UInt8
  | .informational => 0
  | .standards => 1
  | .parameter => 2
  | .treasury => 3
  | .protocolUpgrade => 4
  | .constitutional => 5

def stateByte : ProposalState → UInt8
  | .draft => 0
  | .voting => 1
  | .accepted => 2
  | .rejected => 3

def flagByte (b : Bool) : UInt8 := if b then 1 else 0

/-- The account as the governance program writes it, field after field. -/
def StoredProposal.fields (p : StoredProposal) : List (List UInt8) :=
  [proposalDiscriminator, u64.encode p.id, [categoryByte p.category], p.proposer.bytes,
    p.titleHash.bytes, p.summaryHash.bytes, u64.encode p.stakeDeposit, u64.encode p.votesFor,
    u64.encode p.votesAgainst, u64.encode p.quorumSnapshot, u16.encode p.thresholdSnapshot,
    i64.encode p.createdAt, i64.encode p.votingEndsAt, [stateByte p.state], [flagByte p.quorumMet],
    [flagByte p.depositSettled], [flagByte p.executed], [p.bump], p.offchainIdHash.bytes]

def StoredProposal.bytes (p : StoredProposal) : List UInt8 := p.fields.flatten

inductive GovernanceError where
  | invalidSignature
  | unauthorized
  | duplicateProposalId
  | malformedProposal
  | proposalNotFound
  | votingClosed
  | duplicateVote
  | invalidStateTransition
deriving DecidableEq, Repr

def idOffset : ℕ := 8
def votesForOffset : ℕ := 8 + 8 + 1 + 32 + 32 + 32 + 8
def votesAgainstOffset : ℕ := votesForOffset + 8
def votingEndsAtOffset : ℕ := votesAgainstOffset + 8 + 8 + 2 + 8
def stateOffset : ℕ := votingEndsAtOffset + 8
def quorumMetOffset : ℕ := stateOffset + 1
def depositSettledOffset : ℕ := quorumMetOffset + 1
def executedOffset : ℕ := depositSettledOffset + 1
def offchainIdHashOffset : ℕ := executedOffset + 1 + 1
def proposalLen : ℕ := offchainIdHashOffset + 32

def stateFromDiscriminant (raw : UInt8) : Except GovernanceError ProposalState :=
  if raw = 0 then .ok .draft
  else if raw = 1 then .ok .voting
  else if raw = 2 then .ok .accepted
  else if raw = 3 then .ok .rejected
  else .error .malformedProposal

structure OnchainProposal where
  id : UInt64
  state : ProposalState
  votesFor : UInt64
  votesAgainst : UInt64
  quorumMet : Bool
  depositSettled : Bool
  executed : Bool
  votingEndsAt : Int64
  offchainIdHash : Option Digest
deriving DecidableEq

def byteAt (data : List UInt8) (offset : ℕ) : UInt8 := (slice offset 1 data).headD 0

def digestOf (bytes : List UInt8) : Digest :=
  if h : bytes.length = 32 then ⟨bytes, h⟩ else zeroDigest

def decodeProposal (owner : String) (data : List UInt8) :
    Except GovernanceError OnchainProposal := do
  require (owner = governanceProgramId) .unauthorized
  require (proposalLen ≤ data.length ∧ data.take 8 = proposalDiscriminator) .malformedProposal
  let hash := digestOf (slice offchainIdHashOffset 32 data)
  let state ← stateFromDiscriminant (byteAt data stateOffset)
  return {
    id := u64.decode (slice idOffset 8 data)
    state := state
    votesFor := u64.decode (slice votesForOffset 8 data)
    votesAgainst := u64.decode (slice votesAgainstOffset 8 data)
    quorumMet := byteAt data quorumMetOffset ≠ 0
    depositSettled := byteAt data depositSettledOffset ≠ 0
    executed := byteAt data executedOffset ≠ 0
    votingEndsAt := (u64.decode (slice votingEndsAtOffset 8 data)).toInt64
    offchainIdHash := if hash ≠ zeroDigest then some hash else none }

/-- The fields of a stored proposal that a node reads; an all-zero hash is none. -/
def StoredProposal.reading (p : StoredProposal) : OnchainProposal where
  __ := p
  offchainIdHash := if p.offchainIdHash ≠ zeroDigest then some p.offchainIdHash else none

section Reading
variable (p : StoredProposal) (trailing : List UInt8)

def fieldSizes : List ℕ := [8, 8, 1, 32, 32, 32, 8, 8, 8, 8, 2, 8, 8, 1, 1, 1, 1, 1, 32]

theorem length_fields : p.fields.map List.length = fieldSizes := by
  simp only [StoredProposal.fields, List.map_cons, List.map_nil, u64.length_encode,
    u16.length_encode, i64.length_encode, Block.length_eq, Digest.length_eq, List.length_singleton]
  rfl

/-- The reader's slices, at an offset that is the sum of the sizes before it. -/
theorem slice_bytes {k offset count : ℕ} {field : List UInt8} (hfield : p.fields[k]? = some field)
    (hcount : fieldSizes[k]? = some count) (hoffset : (fieldSizes.take k).sum = offset) :
    slice offset count (p.bytes ++ trailing) = field :=
  hoffset ▸ slice_field (length_fields p) hfield hcount trailing

theorem byteAt_bytes {k offset : ℕ} {b : UInt8} (hfield : p.fields[k]? = some [b])
    (hcount : fieldSizes[k]? = some 1) (hoffset : (fieldSizes.take k).sum = offset) :
    byteAt (p.bytes ++ trailing) offset = b := by
  rw [byteAt, slice_bytes p trailing hfield hcount hoffset, List.headD_cons]

theorem digestOf_bytes (d : Digest) : digestOf d.bytes = d := dif_pos d.length_eq

theorem flagByte_ne_zero (b : Bool) : decide (flagByte b ≠ 0) = b := by
  cases b <;> rfl

theorem stateFromDiscriminant_stateByte (s : ProposalState) :
    stateFromDiscriminant (stateByte s) = .ok s := by
  cases s <;> rfl

theorem length_bytes : p.bytes.length = proposalLen := by
  rw [StoredProposal.bytes, List.length_flatten, length_fields]
  rfl

/-- The reader returns exactly the fields of the account. -/
theorem decodeProposal_bytes :
    decodeProposal governanceProgramId (p.bytes ++ trailing) = .ok p.reading := by
  have hlength : proposalLen ≤ (p.bytes ++ trailing).length := by
    rw [List.length_append, length_bytes]
    exact Nat.le_add_right _ _
  have hdiscriminator : (p.bytes ++ trailing).take 8 = proposalDiscriminator := rfl
  have hid : slice idOffset 8 (p.bytes ++ trailing) = u64.encode p.id :=
    slice_bytes p trailing (k := 1) rfl rfl rfl
  have hvotesFor : slice votesForOffset 8 (p.bytes ++ trailing) = u64.encode p.votesFor :=
    slice_bytes p trailing (k := 7) rfl rfl rfl
  have hvotesAgainst : slice votesAgainstOffset 8 (p.bytes ++ trailing) =
      u64.encode p.votesAgainst := slice_bytes p trailing (k := 8) rfl rfl rfl
  have hends : slice votingEndsAtOffset 8 (p.bytes ++ trailing) = i64.encode p.votingEndsAt :=
    slice_bytes p trailing (k := 12) rfl rfl rfl
  have hstate : byteAt (p.bytes ++ trailing) stateOffset = stateByte p.state :=
    byteAt_bytes p trailing (k := 13) rfl rfl rfl
  have hquorum : byteAt (p.bytes ++ trailing) quorumMetOffset = flagByte p.quorumMet :=
    byteAt_bytes p trailing (k := 14) rfl rfl rfl
  have hsettled : byteAt (p.bytes ++ trailing) depositSettledOffset = flagByte p.depositSettled :=
    byteAt_bytes p trailing (k := 15) rfl rfl rfl
  have hexecuted : byteAt (p.bytes ++ trailing) executedOffset = flagByte p.executed :=
    byteAt_bytes p trailing (k := 16) rfl rfl rfl
  have hhash : slice offchainIdHashOffset 32 (p.bytes ++ trailing) = p.offchainIdHash.bytes :=
    slice_bytes p trailing (k := 18) rfl rfl rfl
  have hendsAt : (u64.decode (i64.encode p.votingEndsAt)).toInt64 = p.votingEndsAt :=
    i64.decode_encode p.votingEndsAt
  simp only [decodeProposal, bind_ok, require_ok, pure_ok, exists_const, hlength, hdiscriminator,
    hid, hvotesFor, hvotesAgainst, hends, hstate, hquorum, hsettled, hexecuted, hhash,
    stateFromDiscriminant_stateByte, u64.decode_encode, hendsAt, flagByte_ne_zero, digestOf_bytes,
    and_self, true_and]
  exact ⟨p.state, rfl, rfl⟩

theorem reading_hash_none : p.reading.offchainIdHash = none ↔ p.offchainIdHash = zeroDigest := by
  rw [StoredProposal.reading]
  by_cases hzero : p.offchainIdHash = zeroDigest
  · simp [hzero]
  · simp [hzero]

theorem reading_hash_some {d : Digest} :
    p.reading.offchainIdHash = some d ↔ p.offchainIdHash = d ∧ p.offchainIdHash ≠ zeroDigest := by
  rw [StoredProposal.reading]
  by_cases hzero : p.offchainIdHash = zeroDigest
  · simp [hzero]
  · simp [hzero]

end Reading

end OpenFiat.ProposalAccount
