import OpenFiat.GovernanceSteps

/-!
# The record of one proposal

`RecordStep` lists what an event can do to the record of one proposal, with the conditions
it is done under and the event that does it. A proposal is created once, in voting; while it is in
voting its proposer may link it once and votes are counted; a tally decides it; afterwards
only its two flags change.
-/
namespace OpenFiat.ProposalRecords
open FiniteTable GovernanceAccounts GovernanceInstructions
open GovernanceSteps ProgramAddress

structure Fresh (id : ℕ) (p : Proposal) : Prop where
  id : p.id = id
  state : p.state = .voting
  votesFor : p.votesFor = 0
  votesAgainst : p.votesAgainst = 0
  offchainIdHash : p.offchainIdHash = zeroDigest

/-- What the event `e` did to the proposal stored under `id`. -/
inductive RecordStep (w : GovernanceWorld) (e : Event) (id : ℕ) :
    Option Proposal → Option Proposal → Prop
  | untouched (o : Option Proposal) : RecordStep w e id o o
  | created {p : Proposal} : id < 2 ^ 64 → Fresh id p → RecordStep w e id none (some p)
  | linked {p : Proposal} {proposer : ℕ} {hash : Digest} :
      e = .invoke (.linkOffchainProposal proposer id hash) → p.proposer = .wallet proposer →
      p.state = .voting → hash ≠ zeroDigest → p.offchainIdHash = zeroDigest →
      RecordStep w e id (some p) (some { p with offchainIdHash := hash })
  | voted {p : Proposal} {r : VoteRecord} : p.state = .voting →
      RecordStep w e id (some p) (some (withVote p r))
  | tallied {p : Proposal} {accepted : Bool} : e = .invoke (.tallyAndFinalize id) →
      p.state = .voting → p.votingEndsAt ≤ w.clock → (accepted = true ↔ Passes p) →
      RecordStep w e id (some p) (some
        { p with
          quorumMet := decide (p.quorumSnapshot ≤ p.votesFor + p.votesAgainst)
          state := if accepted = true then .accepted else .rejected })
  | flagged {p : Proposal} (depositSettled executed : Bool) :
      RecordStep w e id (some p) (some { p with depositSettled, executed })

section
variable {w w' : GovernanceWorld} {e : Event} {id : ℕ}

theorem recordStep_of_insert {id₁ : ℕ} {p' : Proposal}
    (h : w'.proposals = w.proposals.insert id₁ p')
    (hstep : RecordStep w e id₁ (w.proposals.lookup id₁) (some p')) (id : ℕ) :
    RecordStep w e id (w.proposals.lookup id) (w'.proposals.lookup id) := by
  rw [h, Table.lookup_insert_eq]
  split_ifs with hid
  · exact hid ▸ hstep
  · exact .untouched _

theorem step_record (h : step w e = .ok w') (id : ℕ) :
    RecordStep w e id (w.proposals.lookup id) (w'.proposals.lookup id) := by
  cases step_change h with
  | outside _ hproposals =>
    rw [hproposals]
    exact .untouched _
  | created _ hid hnone _ hnew hproposals =>
    refine recordStep_of_insert hproposals ?_ id
    rw [hnone]
    exact .created hid { hnew with }
  | @rewritten _ p _ hp hproposals _ _ hrewrite =>
    refine recordStep_of_insert hproposals ?_ id
    rw [hp]
    cases hrewrite with
    | linked he hproposer hstate hhash hzero => exact .linked he hproposer hstate hhash hzero
    | voted _ hstate => exact .voted hstate
    | tallied he hstate hends haccepted => exact .tallied he hstate hends haccepted
    | settled => exact .flagged true p.executed
    | executed => exact .flagged p.depositSettled true

end

end OpenFiat.ProposalRecords
