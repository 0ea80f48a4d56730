import OpenFiat.GovernanceRegistry
import OpenFiat.ProposalRecords

/-!
# Outcomes come from the linked on-chain proposal

A node runs its registry beside the chain and fetches accounts at any time; what it fetches was
on the chain at some earlier moment. An off-chain proposal is decided only by an account of the
governance program that it names and that names it, and it keeps that outcome. The program
writes the name once, so one on-chain proposal cannot decide two proposals with different
hashes.
-/
namespace OpenFiat.ChainResolution
open GuardedResult TransactionRuns RecordLayouts RecordStores ProgramAddress
open ProposalAccount GovernanceRegistry GovernanceSteps
open GovernanceAccounts (GovernanceWorld zeroDigest)

section Reports
variable (keyBytes : GovernanceAccounts.Address → Block 32)

/-- The account of a proposal, with the fields that the program does not compute with. -/
def storedProposal
    (titleHash summaryHash : Digest) (bump : UInt8) (p : GovernanceAccounts.Proposal) :
    StoredProposal where
  id := UInt64.ofNat p.id
  __ := p
  proposer := keyBytes p.proposer
  titleHash := titleHash
  summaryHash := summaryHash
  stakeDeposit := UInt64.ofNat p.stakeDeposit
  votesFor := UInt64.ofNat p.votesFor
  votesAgainst := UInt64.ofNat p.votesAgainst
  quorumSnapshot := UInt64.ofNat p.quorumSnapshot
  thresholdSnapshot := UInt16.ofNat p.thresholdSnapshot
  createdAt := Int64.ofInt p.createdAt
  votingEndsAt := Int64.ofInt p.votingEndsAt
  bump := bump

/-- A fetched account is the account of the proposal stored under `id`. -/
structure AccountOf (w : GovernanceWorld)
    (account : FetchedAccount) (id : ℕ) (q : GovernanceAccounts.Proposal) : Prop where
  stored : w.proposals.lookup id = some q
  data : ∃ titleHash summaryHash bump,
    account.data = (storedProposal keyBytes titleHash summaryHash bump q).bytes

/-- What a true report can be: under the owner and the discriminator of a proposal stands one. -/
def Reported (w : GovernanceWorld) (account : FetchedAccount) : Prop :=
  account.owner = governanceProgramId → account.data.take 8 = proposalDiscriminator →
    ∃ id q, AccountOf keyBytes w account id q

/-- Every account that the node reads was on the chain at some moment of its history. -/
def ReadsTruly (w₀ : GovernanceWorld)
    (txs : List GovernanceSteps.Event) (actions : List Action) : Prop :=
  ∀ id account now, Action.adopt id (some account) now ∈ actions →
    ∃ pre, pre <+: txs ∧ Reported keyBytes (run GovernanceSteps.step w₀ pre) account

end Reports

section Chain
variable {w w' w₀ : GovernanceWorld} {id : ℕ} {q q' : GovernanceAccounts.Proposal}
  {txs pre pre' : List Event}

def Keyed (w : GovernanceWorld) : Prop :=
  ∀ id q, w.proposals.lookup id = some q → q.id = id ∧ id < 2 ^ 64

theorem step_keyed {e : Event} (hk : Keyed w)
    (h : step w e = .ok w') : Keyed w' := by
  intro id q hq
  have hrecord := ProposalRecords.step_record h id
  have hold := hk id
  rw [hq] at hrecord
  generalize w.proposals.lookup id = before at hrecord hold
  cases hrecord with
  | untouched => exact hold q rfl
  | created hid hfresh => exact ⟨hfresh.id, hid⟩
  | @linked p | @voted p | @tallied p | @flagged p => exact hold p rfl

theorem run_keyed (hw₀ : Deployed w₀) (txs : List Event) :
    Keyed (run step w₀ txs) := by
  exact run_invariant_always (fun _ _ _ => step_keyed)
    (FiniteTable.Table.forall_of_empty hw₀.proposals) txs

def LinksKept (w w' : GovernanceWorld) : Prop :=
  ∀ id q, w.proposals.lookup id = some q → q.offchainIdHash ≠ zeroDigest →
    ∃ q', w'.proposals.lookup id = some q' ∧ q'.offchainIdHash = q.offchainIdHash

theorem step_linksKept {e : Event} (h : step w e = .ok w') :
    LinksKept w w' := by
  intro id q hq hlinked
  have hrecord := ProposalRecords.step_record h id
  rw [hq] at hrecord
  generalize w'.proposals.lookup id = after at hrecord
  cases hrecord with
  | untouched => exact ⟨q, rfl, rfl⟩
  | linked _ _ _ _ hzero => exact absurd hzero hlinked
  | voted | tallied | flagged => exact ⟨_, rfl, rfl⟩

theorem run_linksKept (w : GovernanceWorld) (txs : List Event) :
    LinksKept w (run step w txs) := by
  refine run_relation (R := LinksKept) (fun w id q hq _ => ⟨q, hq, rfl⟩) ?_
    (fun _ _ _ => step_linksKept) w txs
  intro w₁ w₂ w₃ h h' id q hq hlinked
  obtain ⟨q', hq', hsame⟩ := h id q hq hlinked
  obtain ⟨q'', hq'', hsame'⟩ := h' id q' hq' (hsame ▸ hlinked)
  exact ⟨q'', hq'', hsame'.trans hsame⟩

/-- At any two moments of one history a proposal names the same off-chain proposal. -/
theorem link_unique (hpre : pre <+: txs) (hpre' : pre' <+: txs)
    (hq : (run step w₀ pre).proposals.lookup id = some q)
    (hq' : (run step w₀ pre').proposals.lookup id = some q')
    (hlinked : q.offchainIdHash ≠ zeroDigest) (hlinked' : q'.offchainIdHash ≠ zeroDigest) :
    q.offchainIdHash = q'.offchainIdHash := by
  -- One of the moments is the earlier one, and its link is kept up to the other.
  rcases List.prefix_or_prefix_of_prefix hpre hpre' with ⟨rest, rfl⟩ | ⟨rest, rfl⟩
  · rw [run_append] at hq'
    obtain ⟨q₁, hq₁, hsame⟩ := run_linksKept _ rest id q hq hlinked
    rw [hq'] at hq₁
    exact hsame.symm.trans (congrArg _ (Option.some.inj hq₁).symm)
  · rw [run_append] at hq
    obtain ⟨q₁, hq₁, hsame⟩ := run_linksKept _ rest id q' hq' hlinked'
    rw [hq] at hq₁
    exact (congrArg _ (Option.some.inj hq₁)).trans hsame

end Chain

def statusOf (r : Registry) (x : ProposalId) : Option ProposalStatus :=
  (r.get x).map Proposal.status

/-- The transition gives the proposal a status that it did not have. -/
def Becomes (t : Transition Registry Action) (x : ProposalId) (s : ProposalStatus) : Prop :=
  statusOf t.before x ≠ some s ∧ statusOf t.after x = some s

/-- The transition adopts for `x` what the account of the on-chain proposal `id`, at some moment
of the chain's history, says: the account belongs to the governance program, `x` claims its id,
it names the hash of `x`, and its state resolves to `s`. -/
def ResolvedBy (P : RegistryPlatform) (keyBytes : GovernanceAccounts.Address → Block 32)
    (w₀ : GovernanceWorld) (txs : List GovernanceSteps.Event) (t : Transition Registry Action)
    (x : ProposalId) (id : ℕ) (s : ProposalStatus) : Prop :=
  ∃ p account now pre q, t.label = .adopt x (some account) now ∧
    account.owner = governanceProgramId ∧ t.before.get x = some p ∧ p.status = .voting ∧
    p.onchainProposalId = some (UInt64.ofNat id) ∧ id < 2 ^ 64 ∧ q.id = id ∧ pre <+: txs ∧
    AccountOf keyBytes (run GovernanceSteps.step w₀ pre) account id q ∧
    q.offchainIdHash = offchainIdHash P.sha256 x ∧ q.offchainIdHash ≠ zeroDigest ∧
    resolution q.state = some s

section Resolving
variable {P : RegistryPlatform} {keyBytes : GovernanceAccounts.Address → Block 32}
  {w₀ : GovernanceWorld} {txs : List Event} {r r' : Registry} {a : Action}
  {actions : List Action} {t : Transition Registry Action} {x : ProposalId} {s : ProposalStatus}

/-- Among the changes of a record only the adoption of an outcome decides it. -/
theorem adopted_of_becomes (hchange : Change P.sha256 a x (r.get x) (r'.get x))
    (hs : s = .accepted ∨ s = .rejected) (hbefore : statusOf r x ≠ some s)
    (hafter : statusOf r' x = some s) :
    ∃ p account o now, a = .adopt x (some account) now ∧ r.get x = some p ∧ p.status = .voting ∧
      Decides P.sha256 p account o s := by
  unfold statusOf at hbefore hafter
  generalize r.get x = before at hchange hbefore
  generalize r'.get x = after at hchange hafter
  have hnot : ∀ s', s' = .voting ∨ s' = .withdrawn ∨ s' = .activated → some s' ≠ some s := by
    rintro s' hs' heq
    obtain rfl := Option.some.inj heq
    rcases hs with rfl | rfl <;> simp at hs'
  cases hchange with
  | same | voted => exact absurd hafter hbefore
  | created => exact absurd hafter (hnot _ (.inl rfl))
  | withdrawn => exact absurd hafter (hnot _ (.inr (.inl rfl)))
  | activated => exact absurd hafter (hnot _ (.inr (.inr rfl)))
  | adopted p account o resolved now haction hvoting hdecides =>
    obtain rfl := Option.some.inj hafter
    exact ⟨p, account, o, now, haction, rfl, hvoting, hdecides⟩

/-- A decoded account that was truly reported decides what the chain's record says. -/
theorem resolvedBy_of_becomes (hw₀ : Deployed w₀)
    (htrue : ReadsTruly keyBytes w₀ txs actions) (ht : t ∈ transitions (step P) r actions)
    (hs : s = .accepted ∨ s = .rejected) (hbecomes : Becomes t x s) :
    ∃ id, ResolvedBy P keyBytes w₀ txs t x id s := by
  obtain ⟨p, account, o, now, hlabel, hget, hvoting, hdecides⟩ :=
    adopted_of_becomes (step_change (step_of_mem ht) x) hs hbecomes.1 hbecomes.2
  have hdecoded := hdecides.decoded
  simp only [decodeProposal, bind_ok, require_ok, exists_const] at hdecoded
  obtain ⟨howner, ⟨-, hdiscriminator⟩, -⟩ := hdecoded
  obtain ⟨pre, hpre, hreported⟩ := htrue x account now (hlabel ▸ label_mem_of_mem ht)
  obtain ⟨id, q, haccount⟩ := hreported howner hdiscriminator
  obtain ⟨hid, hlt⟩ := run_keyed hw₀ pre id q haccount.stored
  obtain ⟨titleHash, summaryHash, bump, hdata⟩ := haccount.data
  have hreading : o = (storedProposal keyBytes titleHash summaryHash bump q).reading := by
    have hdecode := decodeProposal_bytes (storedProposal keyBytes titleHash summaryHash bump q) []
    rw [List.append_nil, ← hdata, ← howner, hdecides.decoded] at hdecode
    exact Except.ok.inj hdecode
  subst hreading
  have hnamed := hdecides.named
  rw [RecordStore.idOf_get hget] at hnamed
  obtain ⟨hhash, hlinked⟩ := (reading_hash_some _).mp hnamed
  have hclaimed : p.onchainProposalId = some (UInt64.ofNat id) := hid ▸ hdecides.claimed
  exact ⟨id, p, account, now, pre, q, hlabel, howner, hget, hvoting, hclaimed, hlt, hid, hpre,
    haccount, hhash, hlinked, hdecides.state⟩

theorem hash_eq_of_resolvedBy {t' : Transition Registry Action} {x' : ProposalId}
    {s' : ProposalStatus} {id : ℕ} (h : ResolvedBy P keyBytes w₀ txs t x id s)
    (h' : ResolvedBy P keyBytes w₀ txs t' x' id s') :
    offchainIdHash P.sha256 x = offchainIdHash P.sha256 x' := by
  obtain ⟨_, _, _, _, q, -, -, -, -, -, -, -, hpre, haccount, hhash, hlinked, -⟩ := h
  obtain ⟨_, _, _, _, q', -, -, -, -, -, -, -, hpre', haccount', hhash', hlinked', -⟩ := h'
  rw [← hhash, ← hhash']
  exact link_unique hpre hpre' haccount.stored haccount'.stored hlinked hlinked'

/-- An outcome is kept; an accepted proposal may go live. -/
def OutcomesKept (r r' : Registry) : Prop :=
  ∀ x, (statusOf r x = some .rejected → statusOf r' x = some .rejected) ∧
    (statusOf r x = some .accepted ∨ statusOf r x = some .activated →
      statusOf r' x = some .accepted ∨ statusOf r' x = some .activated)

theorem step_outcomesKept (h : step P r a = .ok r') : OutcomesKept r r' := by
  intro x
  have hchange := step_change h x
  unfold statusOf
  generalize r.get x = before at hchange
  generalize r'.get x = after at hchange
  cases hchange with
  | same => exact ⟨id, id⟩
  | created => simp
  | voted p vote weight hvoting | withdrawn p _ hvoting | adopted p _ _ _ _ _ hvoting =>
    simp [hvoting]
  | activated p _ haccepted => simp [haccepted]

theorem run_outcomesKept (r : Registry) (actions : List Action) :
    OutcomesKept r (run (step P) r actions) := by
  refine run_relation (R := OutcomesKept) (fun r x => ⟨id, id⟩) (fun r₁ r₂ r₃ h h' x => ?_)
    (fun _ _ _ => step_outcomesKept) r actions
  exact ⟨fun hs => (h' x).1 ((h x).1 hs), fun hs => (h' x).2 ((h x).2 hs)⟩

end Resolving

/-- The reader returns exactly what the account holds; a proposal is decided only by its on-chain
counterpart, to the state that the counterpart's account shows; it keeps the outcome; and one
on-chain proposal decides at most one off-chain proposal, unless two ids collide under the
hash. -/
theorem outcomes_from_chain (P : RegistryPlatform)
    (keyBytes : GovernanceAccounts.Address → Block 32) (w₀ : GovernanceWorld)
    (hw₀ : GovernanceSteps.Deployed w₀) (txs : List GovernanceSteps.Event) (r₀ : Registry)
    (actions : List Action) (htrue : ReadsTruly keyBytes w₀ txs actions) :
    (∀ (p : StoredProposal) (trailing : List UInt8),
      decodeProposal governanceProgramId (p.bytes ++ trailing) = .ok p.reading ∧
      (p.reading.offchainIdHash = none ↔ p.offchainIdHash = zeroDigest)) ∧
    (∀ t ∈ transitions (step P) r₀ actions, ∀ x s, s = .accepted ∨ s = .rejected →
      Becomes t x s → ∃ id, ResolvedBy P keyBytes w₀ txs t x id s) ∧
    (∀ pre post, actions = pre ++ post →
      OutcomesKept (run (step P) r₀ pre) (run (step P) r₀ actions)) ∧
    ∀ t ∈ transitions (step P) r₀ actions, ∀ t' ∈ transitions (step P) r₀ actions,
      ∀ x x' s s' id, ResolvedBy P keyBytes w₀ txs t x id s →
        ResolvedBy P keyBytes w₀ txs t' x' id s' →
        (offchainIdHash P.sha256 x = offchainIdHash P.sha256 x' → x = x') → x = x' := by
  refine ⟨fun p trailing => ⟨decodeProposal_bytes p trailing, reading_hash_none p⟩, ?_, ?_, ?_⟩
  · intro t ht x s hs hbecomes
    exact resolvedBy_of_becomes hw₀ htrue ht hs hbecomes
  · rintro pre post rfl
    rw [run_append]
    exact run_outcomesKept _ post
  · intro t _ t' _ x x' s s' id hresolved hresolved' hcollision
    exact hcollision (hash_eq_of_resolvedBy hresolved hresolved')

/-- Proposal 7 is created, linked to the hash whose bytes are all 7, voted for and accepted. -/
def linkedAndPassed : List GovernanceSteps.Event :=
  GovernanceSteps.constituted ++
    [.invoke (.createProposal 20 GovernanceSteps.depositMint (.wallet 21) 7 .standards 30 .none),
      .invoke (.linkOffchainProposal 20 7 (.filled 7)), .invoke (.castVote 20 7 true .arbitrator),
      .advanceClock 30, .invoke (.tallyAndFinalize 7)]

/-- A digest is filled with the length of what is hashed, and every signature holds. -/
def lengthPlatform : RegistryPlatform where
  scheme := ⟨fun _ _ _ => true, fun key => some ⟨key.bytes⟩⟩
  sha256 bytes := .filled (UInt8.ofNat bytes.length)

def acceptedProposal : GovernanceAccounts.Proposal :=
  ⟨7, .standards, .wallet 20, 50, 600, 0, 100, 5000, 0, 30, .accepted, true, false, false,
    .filled 7⟩

def acceptedAccount : FetchedAccount :=
  ⟨governanceProgramId,
    (storedProposal (fun _ => .zero 32) (.filled 0) (.filled 0) 255 acceptedProposal).bytes⟩

/-- The author opens a proposal that claims the on-chain proposal 7. -/
def openClaim : List Action :=
  [.create ⟨⟨⟨"upgrade"⟩, "", "", .protocol, NodePayloads.peer 1, .filled 1, some 7, 0⟩, ⟨[]⟩⟩]

/-- The proposal is opened, and its account is adopted. -/
theorem outcomes_from_chain_linked :
    GovernanceSteps.Deployed GovernanceSteps.emptyGovernance ∧
    ∃ t ∈ transitions (step lengthPlatform) .empty
        (openClaim ++ [.adopt ⟨"upgrade"⟩ (some acceptedAccount) 5]),
      Becomes t ⟨"upgrade"⟩ .accepted ∧
      ∃ id, ResolvedBy lengthPlatform (fun _ => .zero 32) GovernanceSteps.emptyGovernance
        linkedAndPassed t ⟨"upgrade"⟩ id .accepted := by
  have hstored : (run GovernanceSteps.step GovernanceSteps.emptyGovernance
      linkedAndPassed).proposals.lookup 7 = some acceptedProposal := by decide +kernel
  have htrue : ReadsTruly (fun _ => .zero 32) GovernanceSteps.emptyGovernance linkedAndPassed
      (openClaim ++ [.adopt ⟨"upgrade"⟩ (some acceptedAccount) 5]) := by
    intro id account now hmem
    simp only [openClaim, List.mem_append, List.mem_singleton, reduceCtorEq, false_or,
      Action.adopt.injEq, Option.some.injEq] at hmem
    obtain ⟨-, rfl, -⟩ := hmem
    exact ⟨linkedAndPassed, List.prefix_rfl, fun _ _ =>
      ⟨7, acceptedProposal, hstored, .filled 0, .filled 0, 255, rfl⟩⟩
  have hok : (step lengthPlatform (run (step lengthPlatform) .empty openClaim)
      (.adopt ⟨"upgrade"⟩ (some acceptedAccount) 5)).isOk = true := by decide +kernel
  have hbecomes : Becomes ⟨run (step lengthPlatform) .empty openClaim,
      .adopt ⟨"upgrade"⟩ (some acceptedAccount) 5,
      apply (step lengthPlatform) (run (step lengthPlatform) .empty openClaim)
        (.adopt ⟨"upgrade"⟩ (some acceptedAccount) 5)⟩ ⟨"upgrade"⟩ .accepted :=
    ⟨by decide +kernel, by decide +kernel⟩
  refine ⟨GovernanceSteps.deployed_emptyGovernance, _, last_mem_transitions hok, hbecomes, ?_⟩
  exact (outcomes_from_chain lengthPlatform (fun _ => .zero 32) GovernanceSteps.emptyGovernance
    GovernanceSteps.deployed_emptyGovernance linkedAndPassed .empty _ htrue).2.1 _
    (last_mem_transitions hok) _ _ (.inl rfl) hbecomes

end OpenFiat.ChainResolution
