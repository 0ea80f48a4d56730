import OpenFiat.ProposalRecords

/-!
# Majorities of accepted proposals

The tally compares the share of votes in favor, rounded down to basis points, with the
threshold that the proposal took from the configuration, and the configuration may hold any
threshold up to 10000. At a threshold of one half or less the comparison lets a tie
through, and below one half a minority: only thresholds above one half keep to the majority
whatever the ballots. The quorum holds for every accepted proposal.
-/
namespace OpenFiat.ProposalMajority
open GuardedResult FiniteTable TransactionRuns GovernanceAccounts GovernanceInstructions
open GovernanceSteps ProposalRecords
open ProgramAddress (Role)

def totalCast (p : Proposal) : ℕ := p.votesFor + p.votesAgainst

/-- What a finalised proposal should show: accepted with a strict majority and the quorum,
rejected in a tie. -/
structure DecidedByMajority (p : Proposal) : Prop where
  accepted : p.state = .accepted → p.votesAgainst < p.votesFor ∧ p.quorumSnapshot ≤ totalCast p
  tie : p.state ≠ .voting → p.votesFor = p.votesAgainst → p.state = .rejected

def withVotes (p : Proposal) (votesFor votesAgainst : ℕ) : Proposal :=
  { p with votesFor, votesAgainst }

section
variable {w w' : GovernanceWorld} {e : Event} {p p' : Proposal}

/-- Above one half no tie and no minority reaches the threshold. -/
theorem majority_of_passes (hhalf : 5000 < p.thresholdSnapshot) (h : Passes p) :
    p.votesAgainst < p.votesFor := by
  obtain ⟨-, hcast, hthreshold⟩ := h
  have hscaled : 5000 * (p.votesFor + p.votesAgainst) <
      p.thresholdSnapshot * (p.votesFor + p.votesAgainst) := Nat.mul_lt_mul_of_pos_right hhalf hcast
  unfold bpsDenominator at hthreshold
  omega

/-- At one half or below a tie of enough ballots does. -/
theorem passes_tie {n : ℕ} (hhalf : p.thresholdSnapshot ≤ 5000) (hpos : 0 < n)
    (hquorum : p.quorumSnapshot ≤ n + n) : Passes (withVotes p n n) := by
  refine ⟨hquorum, Nat.add_pos_left hpos n, ?_⟩
  have hscaled : p.thresholdSnapshot * (n + n) ≤ 5000 * (n + n) := Nat.mul_le_mul_right _ hhalf
  change p.thresholdSnapshot * (n + n) ≤ n * bpsDenominator
  unfold bpsDenominator
  omega

/-- Every proposal on chain is decided by a majority. -/
def MajorityRule (w : GovernanceWorld) : Prop :=
  ∀ id p, w.proposals.lookup id = some p → DecidedByMajority p

def tallies : Event → Option ℕ
  | .invoke (.tallyAndFinalize id) => some id
  | _ => none

/-- A tally meets a threshold above one half. -/
def AboveHalf (t : Transition GovernanceWorld Event) : Prop :=
  ∀ id ∈ tallies t.label, ∀ p ∈ t.before.proposals.lookup id, 5000 < p.thresholdSnapshot

instance (t : Transition GovernanceWorld Event) : Decidable (AboveHalf t) :=
  inferInstanceAs (Decidable (∀ _ ∈ _, ∀ _ ∈ _, _))

theorem DecidedByMajority.of_voting (h : p.state = .voting) : DecidedByMajority p where
  accepted := fun haccepted => by
    rw [h] at haccepted
    cases haccepted
  tie := fun hdecided => absurd h hdecided

theorem decidedByMajority_tallied {accepted quorumMet : Bool}
    (hhalf : 5000 < p.thresholdSnapshot) (h : accepted = true ↔ Passes p) :
    DecidedByMajority
      { p with quorumMet, state := if accepted = true then .accepted else .rejected } := by
  cases accepted with
  | false => exact ⟨fun h => (by cases h), fun _ _ => rfl⟩
  | true =>
    have hpasses : Passes p := h.mp rfl
    have hmajority := majority_of_passes hhalf hpasses
    exact ⟨fun _ => ⟨hmajority, hpasses.1⟩, fun _ htie => absurd htie hmajority.ne'⟩

theorem decidedByMajority_recordStep {id : ℕ} {o : Option Proposal}
    (h : RecordStep w e id o (some p')) (hbefore : ∀ p, o = some p → DecidedByMajority p)
    (htally : id ∈ tallies e → ∀ p ∈ o, 5000 < p.thresholdSnapshot) :
    DecidedByMajority p' := by
  cases h with
  | untouched => exact hbefore p' rfl
  | created _ hfresh => exact .of_voting hfresh.state
  | linked _ _ hstate | voted hstate => exact .of_voting hstate
  | @tallied p _ he _ _ haccepted =>
    subst he
    exact decidedByMajority_tallied (htally rfl p rfl) haccepted
  | @flagged p =>
    obtain ⟨haccepted, htie⟩ := hbefore p rfl
    exact ⟨haccepted, htie⟩

theorem step_majorityRule (hw : MajorityRule w) (h : step w e = .ok w')
    (hhalf : AboveHalf ⟨w, e, w'⟩) : MajorityRule w' := by
  intro id p' hp'
  have hrecord := step_record h id
  rw [hp'] at hrecord
  exact decidedByMajority_recordStep hrecord (hw id) (hhalf id)

/-- Put the votes on a proposal and tally it. -/
def tallied (w : GovernanceWorld) (id : ℕ) (p : Proposal) (votesFor votesAgainst : ℕ) :
    Except GovernanceFailure GovernanceWorld :=
  tallyAndFinalize { w with proposals := w.proposals.insert id (withVotes p votesFor votesAgainst) }
    id

variable {id : ℕ}

theorem tallied_ok {f a : ℕ} (h : tallied w id p f a = .ok w') :
    ∃ accepted, (accepted = true ↔ Passes (withVotes p f a)) ∧
      w'.proposals.lookup id = some { withVotes p f a with
        quorumMet := decide (p.quorumSnapshot ≤ f + a)
        state := if accepted = true then .accepted else .rejected } := by
  obtain ⟨q, accepted, hq, -, -, haccepted, rfl⟩ := tallyAndFinalize_ok h
  obtain rfl := Option.some.inj ((Finmap.lookup_insert _).symm.trans hq)
  exact ⟨accepted, haccepted, Finmap.lookup_insert _⟩

theorem tallied_total (hstate : p.state = .voting) (hdue : p.votingEndsAt ≤ w.clock) {f a : ℕ}
    (hcast : f + a < 2 ^ 64) : ∃ w', tallied w id p f a = .ok w' := by
  have haccepted : ∃ accepted, acceptedBy (withVotes p f a) (f + a) = .ok accepted := by
    unfold acceptedBy
    split_ifs
    · exact ⟨_, rfl⟩
    · simp only [bind_ok, checkedMul_ok, pure_ok]
      refine ⟨_, _, ⟨?_, rfl⟩, rfl⟩
      change f * 10000 < 2 ^ 128
      omega
  obtain ⟨accepted, haccepted⟩ := haccepted
  simp only [tallied, tallyAndFinalize, bind_ok, require_ok, exists_const, loadProposal_ok, pure_ok,
    checkedAdd_ok]
  exact ⟨_, _, Finmap.lookup_insert _, hstate, hdue, _, ⟨hcast, rfl⟩, accepted, haccepted, rfl⟩

/-- Whatever the ballots, the tally keeps to the majority: exactly above one half. -/
theorem decidedByMajority_tallied_iff (hstate : p.state = .voting)
    (hdue : p.votingEndsAt ≤ w.clock) (hquorum : p.quorumSnapshot + 1 < 2 ^ 64) :
    (∀ f a w' p', tallied w id p f a = .ok w' → w'.proposals.lookup id = some p' →
      DecidedByMajority p') ↔ 5000 < p.thresholdSnapshot := by
  constructor
  · intro h
    by_contra hhalf
    -- a tie of as few ballots as meet the quorum
    obtain ⟨n, hpos, henough, hcast⟩ : ∃ n, 0 < n ∧ p.quorumSnapshot ≤ n + n ∧ n + n < 2 ^ 64 :=
      ⟨max 1 ((p.quorumSnapshot + 1) / 2), by omega, by omega, by omega⟩
    obtain ⟨w', hw'⟩ : ∃ w', tallied w id p n n = .ok w' := tallied_total hstate hdue hcast
    obtain ⟨accepted, haccepted, hp'⟩ := tallied_ok hw'
    have htrue := haccepted.mpr (passes_tie (not_lt.mp hhalf) hpos henough)
    exact absurd ((h n n w' _ hw' hp').accepted (if_pos htrue)).1 (lt_irrefl n)
  · intro hhalf f a w' p' hw' hp'
    obtain ⟨accepted, haccepted, hlookup⟩ := tallied_ok hw'
    obtain rfl := Option.some.inj (hlookup.symm.trans hp')
    exact decidedByMajority_tallied (p := withVotes p f a) hhalf haccepted

end

/-- The quorum is met by every accepted proposal, in every run. A run accepts strict majorities
only, and rejects every tie, if the thresholds of what it tallies are above one half. And no other
thresholds do: an open proposal whose voting has ended is decided by the majority, whatever its
ballots, exactly if its threshold is above one half. -/
theorem majority_accepted_iff {w₀ : GovernanceWorld} (h : Deployed w₀) (txs : List Event) :
    (∀ id p, (run step w₀ txs).proposals.lookup id = some p →
      (p.state = .accepted → p.quorumSnapshot ≤ totalCast p ∧ 0 < totalCast p) ∧
      (p.state ≠ .voting → totalCast p = 0 → p.state = .rejected)) ∧
    ((∀ t ∈ transitions step w₀ txs, AboveHalf t) → MajorityRule (run step w₀ txs)) ∧
    ∀ w id (p : Proposal), p.state = .voting → p.votingEndsAt ≤ w.clock →
      p.quorumSnapshot + 1 < 2 ^ 64 →
      ((∀ votesFor votesAgainst w' p', tallied w id p votesFor votesAgainst = .ok w' →
        w'.proposals.lookup id = some p' → DecidedByMajority p') ↔ 5000 < p.thresholdSnapshot) := by
  have hsound : ProposalsSound (run step w₀ txs) :=
    run_invariant_always (fun _ _ _ => step_sound) (proposalsSound_deployed h) txs
  have hstart : MajorityRule w₀ := Table.forall_of_empty h.proposals
  refine ⟨fun id p hp => ?_, run_invariant (fun _ _ _ => step_majorityRule) hstart txs,
    fun w id p hstate hdue hquorum => decidedByMajority_tallied_iff hstate hdue hquorum⟩
  have haccepted (hstate : p.state = .accepted) :
      p.quorumSnapshot ≤ totalCast p ∧ 0 < totalCast p := by
    obtain ⟨hquorum, hcast, -⟩ := (hsound.sound id p hp).accepted hstate
    exact ⟨hquorum, hcast⟩
  refine ⟨haccepted, fun hdecided hzero => ?_⟩
  have hdrafted := (hsound.sound id p hp).drafted
  cases hstate : p.state with
  | draft => exact absurd hstate hdrafted
  | voting => exact absurd hstate hdecided
  | accepted => exact absurd hzero (haccepted hstate).2.ne'
  | rejected => rfl

theorem slashBps_fits : 100 ≤ StakingAccounts.bpsDenominator := by decide

/-- Wallets 20 and 22 have staked 600 each. -/
def twoStakers : List Event :=
  constituted ++
    [.staking
      (((∅ : Table (Address × Role) StakingAccounts.StakeAccount).insert (.wallet 20, .arbitrator)
        ⟨.wallet 20, .arbitrator, 600, 0, 0, 0, 0, some 1⟩).insert (.wallet 22, .arbitrator)
        ⟨.wallet 22, .arbitrator, 600, 0, 0, 0, 0, some 1⟩)
      (some ⟨.wallet 9, .wallet 1, fun _ => 10, .byRole fun _ => 60, 100, .wallet 9, .wallet 9,
        .wallet 9, slashBps_fits⟩)]

def tied (category : ProposalCategory) : List Event :=
  twoStakers ++
    [.invoke (.createProposal 20 depositMint (.wallet 21) 7 category 30 .none),
      .invoke (.castVote 20 7 true .arbitrator), .invoke (.castVote 22 7 false .arbitrator),
      .advanceClock 30, .invoke (.tallyAndFinalize 7)]

/-- At the threshold of 5000 a tie is accepted. -/
theorem tied_standards_accepted : Deployed emptyGovernance ∧
    ¬ MajorityRule (run step emptyGovernance (tied .standards)) ∧
    ∃ p, (run step emptyGovernance (tied .standards)).proposals.lookup 7 = some p ∧
      p.votesFor = 600 ∧ p.votesAgainst = 600 ∧ p.quorumSnapshot = 100 ∧
      p.thresholdSnapshot = 5000 ∧ p.state = .accepted := by
  have htied : (run step emptyGovernance (tied .standards)).proposals.lookup 7 = some
      ⟨7, .standards, .wallet 20, 50, 600, 600, 100, 5000, 0, 30, .accepted, true, false, false,
        zeroDigest⟩ := by
    decide +kernel
  refine ⟨deployed_emptyGovernance, fun hrule => ?_, _, htied, rfl, rfl, rfl, rfl, rfl⟩
  exact absurd ((hrule 7 _ htied).accepted rfl).1 (lt_irrefl 600)

/-- At the threshold of 6000 the same votes reject. -/
theorem majority_accepted_iff_tied : Deployed emptyGovernance ∧
    MajorityRule (run step emptyGovernance (tied .treasury)) ∧
    ∃ p, (run step emptyGovernance (tied .treasury)).proposals.lookup 7 = some p ∧
      p.votesFor = p.votesAgainst ∧ p.state = .rejected := by
  have hrule := (majority_accepted_iff deployed_emptyGovernance (tied .treasury)).2.1
  exact ⟨deployed_emptyGovernance, hrule (by decide +kernel),
    ⟨7, .treasury, .wallet 20, 50, 600, 600, 100, 6000, 0, 30, .rejected, true, false, false,
      zeroDigest⟩, by decide +kernel, rfl, rfl⟩

end OpenFiat.ProposalMajority
