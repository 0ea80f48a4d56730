import OpenFiat.GovernanceSteps

/-!
# Custody of proposal deposits

Every proposal pays the deposit of its day into one vault. Settling a proposal takes
exactly that amount out again, to the proposer if the votes met the quorum that was fixed
with the proposal, and to the forfeit destination otherwise. The settled flag of the
proposal lets this happen once.
-/
namespace OpenFiat.ProposalDeposits
open GuardedResult FiniteTable TokenLedger LedgerMoves TransactionRuns
open GovernanceAccounts GovernanceInstructions GovernanceSteps

def unsettledDeposits (w : GovernanceWorld) : ℕ :=
  Table.total (fun _ p => if p.depositSettled = true then 0 else p.stakeDeposit) w.proposals

/-- The deposit vault belongs to the configuration and holds its mint. -/
def VaultOpen (w : GovernanceWorld) : Prop :=
  ∀ c, w.config = some c →
    w.tokens.header .depositVault = some (c.mint, .governanceConfig)

structure DepositBooks (w : GovernanceWorld) : Prop where
  proposals : ProposalsSound w
  vault : VaultOpen w
  held : Held reserved w.tokens .depositVault
  covered : unsettledDeposits w ≤ w.tokens.balance .depositVault

section
variable {w w' : GovernanceWorld} {e : Event} {id : ℕ} {p p' : Proposal}

theorem depositBooks_deployed (h : Deployed w) : DepositBooks w := by
  refine ⟨proposalsSound_deployed h, fun c hc => ?_, ?_, ?_⟩
  · rw [h.config] at hc
    cases hc
  · rw [Held, h.tokens .depositVault rfl]
    rfl
  · rw [unsettledDeposits, h.proposals]
    exact Nat.zero_le _

theorem unsettled_settled (hp : w.proposals.lookup id = some p)
    (hproposals : w'.proposals = w.proposals.insert id { p with depositSettled := true })
    (hsettled : p.depositSettled = false) :
    unsettledDeposits w' + p.stakeDeposit = unsettledDeposits w := by
  have hinsert := Table.total_insert_old (fun (_ : ℕ) (q : Proposal) =>
    if q.depositSettled = true then 0 else q.stakeDeposit) { p with depositSettled := true } hp
  simp only [hsettled, Bool.false_eq_true, if_false, if_true, add_zero] at hinsert
  rw [unsettledDeposits, hproposals]
  exact hinsert

theorem Change.spends (h : Change w e w') :
    (settles e = none ∧ Spends reserved [] w.tokens w'.tokens) ∨
    ∃ id p c target, settles e = some id ∧ w.proposals.lookup id = some p ∧ w.config = some c ∧
      p.state ≠ .voting ∧ p.depositSettled = false ∧
      (if p.quorumMet = true then w.tokens.header target = some (c.mint, p.proposer)
        else target = c.forfeitDestination) ∧
      Spends reserved [⟨.depositVault, target, p.stakeDeposit⟩] w.tokens w'.tokens := by
  cases h with
  | outside hplain _ _ _ _ _ hspends | created hplain _ _ _ _ _ _ _ _ _ hspends =>
    exact .inl ⟨hplain.2.1, hspends⟩
  | @rewritten id p _ hp _ _ _ hrewrite =>
    cases hrewrite with
    | linked he _ _ _ _ _ _ htokens | tallied he _ _ _ _ _ htokens =>
      exact .inl ⟨he ▸ rfl, htokens ▸ .refl _⟩
    | voted hplain _ _ _ _ htokens => exact .inl ⟨hplain.2.1, htokens ▸ .refl _⟩
    | @settled c _ account _ he hc hstate hsettled hheader hL =>
      refine .inr ⟨id, p, c, _, he ▸ rfl, hp, hc, hstate, hsettled, ?_, spends_transfer hL⟩
      split_ifs
      · exact hheader
      · rfl
    | executed _ hsettles _ htokens => exact .inl ⟨hsettles, htokens ▸ .refl _⟩

theorem step_vaultOpen (hw : VaultOpen w) (h : step w e = .ok w') : VaultOpen w' := by
  intro c' hc'
  obtain hopened | ⟨c, hc, hmint⟩ := (step_change h).config c' hc'
  · exact hopened
  · rw [hmint]
    rcases Change.spends (step_change h) with ⟨-, hspends⟩ | ⟨_, _, _, _, -, -, -, -, -, -, hspends⟩
    · exact hspends.header _ _ (hw c hc)
    · exact hspends.header _ _ (hw c hc)

theorem Change.covered (h : Change w e w') (hheld : Held reserved w.tokens .depositVault)
    (hcovered : unsettledDeposits w ≤ w.tokens.balance .depositVault) :
    unsettledDeposits w' ≤ w'.tokens.balance .depositVault := by
  have hkept {id : ℕ} {p p' : Proposal} (hp : w.proposals.lookup id = some p)
      (hproposals : w'.proposals = w.proposals.insert id p') (htokens : w'.tokens = w.tokens)
      (hsettled : p'.depositSettled = p.depositSettled)
      (hdeposit : p'.stakeDeposit = p.stakeDeposit) :
      unsettledDeposits w' ≤ w'.tokens.balance .depositVault := by
    have hinsert := Table.total_insert_old (fun (_ : ℕ) (q : Proposal) =>
      if q.depositSettled = true then 0 else q.stakeDeposit) p' hp
    rw [hsettled, hdeposit, ← hproposals] at hinsert
    rw [unsettledDeposits, Nat.add_right_cancel hinsert, htokens]
    exact hcovered
  cases h with
  | outside _ hproposals _ _ _ _ hspends =>
    have hbalance := hspends.balance _ hheld
    rw [unsettledDeposits, hproposals]
    exact hcovered.trans hbalance
  | created _ _ hnone _ hnew hproposals _ _ _ _ _ hdeposit =>
    rw [unsettledDeposits, hproposals, Table.total_insert_new _ _ hnone, hnew.depositSettled]
    exact (Nat.add_le_add_right hcovered _).trans (hdeposit hheld)
  | rewritten hp hproposals _ _ hrewrite =>
    cases hrewrite with
    | linked _ _ _ _ _ _ _ htokens | voted _ _ _ _ _ htokens | tallied _ _ _ _ _ _ htokens
    | executed _ _ _ htokens => exact hkept hp hproposals htokens rfl rfl
    | settled _ _ _ hsettled _ hL =>
      have hunsettled := unsettled_settled hp hproposals hsettled
      have hbalance := (spends_transfer (R := reserved) hL).balance _ hheld
      rw [Ledger.outflow_cons, if_pos rfl, Ledger.outflow_nil] at hbalance
      dsimp only at hbalance
      omega

theorem step_depositBooks (hw : DepositBooks w) (h : step w e = .ok w') : DepositBooks w' := by
  have hchange := step_change h
  refine ⟨step_sound hw.proposals h, step_vaultOpen hw.vault h, ?_,
    Change.covered hchange hw.held hw.covered⟩
  rcases Change.spends hchange with ⟨-, hspends⟩ | ⟨_, _, _, _, -, -, -, -, -, -, hspends⟩
  · exact hspends.held _ hw.held
  · exact hspends.held _ hw.held

def depositsPaid (t : Transition GovernanceWorld Event) : List (Transfer Address) :=
  Ledger.paidSince .depositVault t.before.tokens t.after.tokens

/-- A settlement pays one deposit of a tallied proposal, by its own quorum. -/
structure Settles (t : Transition GovernanceWorld Event) (id : ℕ) (p : Proposal)
    (c : GovernanceConfig) (target : Address) : Prop where
  proposal : t.before.proposals.lookup id = some p
  config : t.before.config = some c
  tallied : p.state = .accepted ∨ p.state = .rejected
  paid : depositsPaid t = [⟨.depositVault, target, p.stakeDeposit⟩]
  refunded : p.quorumSnapshot ≤ p.votesFor + p.votesAgainst →
    t.before.tokens.header target = some (c.mint, p.proposer)
  forfeited : p.votesFor + p.votesAgainst < p.quorumSnapshot → target = c.forfeitDestination

theorem deposits_of_step (hw : DepositBooks w) (h : step w e = .ok w') :
    (settles e = none → depositsPaid ⟨w, e, w'⟩ = []) ∧
    ∀ id, settles e = some id → ∃ p c target, Settles ⟨w, e, w'⟩ id p c target := by
  rcases Change.spends (step_change h) with
    ⟨hnone, hspends⟩ | ⟨id', p, c, target, hsome, hp, hc, hstate, -, hdestination, hspends⟩
  · refine ⟨fun _ => ?_, fun id hid => absurd hid (not_eq_some hnone id)⟩
    rw [depositsPaid, hspends.paidSince hw.held, List.filter_nil]
  · refine ⟨fun hnone => absurd hsome (not_eq_some hnone id'), fun id hid => ⟨p, c, target, ?_⟩⟩
    obtain rfl := Option.mem_unique hsome hid
    have hsound := hw.proposals.sound id' p hp
    have hquorum := hsound.quorum hstate
    refine ⟨hp, hc, ?_, ?_, fun hmet => ?_, fun hmissed => ?_⟩
    · cases hs : p.state with
      | draft => exact absurd hs hsound.drafted
      | voting => exact absurd hs hstate
      | accepted => exact .inl rfl
      | rejected => exact .inr rfl
    · rw [depositsPaid, hspends.paidSince hw.held]
      simp
    · rwa [if_pos (hquorum.mpr hmet)] at hdestination
    · rwa [if_neg fun h => absurd (hquorum.mp h) (Nat.not_le.mpr hmissed)] at hdestination

/-- A tallied proposal can be settled once its accounts exist, if they are three different ones. -/
theorem settlement_succeeds_iff {c : GovernanceConfig} {account owner : Address}
    (hw : DepositBooks w) (hp : w.proposals.lookup id = some p) (hc : w.config = some c)
    (hstate : p.state ≠ .voting) (hsettled : p.depositSettled = false)
    (haccount : w.tokens.header account = some (c.mint, p.proposer))
    (hforfeit : w.tokens.header c.forfeitDestination = some (c.mint, owner)) :
    (∃ w', step w
      (.invoke (.refundOrForfeitDeposit id c.mint account c.forfeitDestination)) = .ok w') ↔
      [.depositVault, account, c.forfeitDestination].Nodup := by
  have hdeposit : p.stakeDeposit ≤ w.tokens.balance .depositVault := by
    have hle := Table.le_total (fun (_ : ℕ) (q : Proposal) =>
      if q.depositSettled = true then 0 else q.stakeDeposit) hp
    simp only [hsettled, Bool.false_eq_true, if_false] at hle
    exact hle.trans hw.covered
  obtain ⟨vault, hvault, -⟩ := Option.map_eq_some_iff.mp (hw.vault c hc)
  obtain ⟨a, ha, hheader⟩ := Option.map_eq_some_iff.mp haccount
  obtain ⟨hmint, howner⟩ := Prod.mk.inj hheader
  obtain ⟨f, hf, -⟩ := Option.map_eq_some_iff.mp hforfeit
  have htarget : ∃ o, w.tokens.header
      (if p.quorumMet = true then account else c.forfeitDestination) = some (c.mint, o) := by
    split_ifs
    · exact ⟨_, haccount⟩
    · exact ⟨_, hforfeit⟩
  change (∃ w', refundOrForfeitDeposit w id c.mint account c.forfeitDestination = .ok w') ↔ _
  simp only [refundOrForfeitDeposit, bind_ok, require_ok, exists_const, loadConfig_ok,
    loadProposal_ok, loadTokenAccount_ok, invoke_ok, pure_ok]
  constructor
  · rintro ⟨_, -, -, -, -, -, -, -, -, -, -, -, -, -, -, -, -, hnodup, -⟩
    exact hnodup
  · intro hnodup
    exact ⟨_, c, hc, rfl, rfl, vault, hvault, p, hp, hstate, hsettled, a, ha, howner, hmint, f, hf,
      hnodup, _, Ledger.transfer_ok.mpr ⟨hdeposit, hw.vault c hc, htarget, rfl⟩, rfl⟩

end

/-- Deposits are held until they are settled, once and by the quorum of their proposal, in
every run of the program. -/
theorem deposits_in_custody {w₀ : GovernanceWorld} (h : Deployed w₀) (txs : List Event) :
    unsettledDeposits (run step w₀ txs) ≤ (run step w₀ txs).tokens.balance .depositVault ∧
    ((used settles (transitions step w₀ txs)).Nodup ∧
      ∀ id p, (run step w₀ txs).proposals.lookup id = some p →
        (p.depositSettled = true ↔ id ∈ used settles (transitions step w₀ txs))) ∧
    (∀ t ∈ transitions step w₀ txs, Extends t.before (run step w₀ txs) ∧
      (settles t.label = none → depositsPaid t = []) ∧
      ∀ id, settles t.label = some id → ∃ p c target, Settles t id p c target) ∧
    (∀ id p, (run step w₀ txs).proposals.lookup id = some p →
      p.votesFor = voteTotal (run step w₀ txs) id true ∧
      p.votesAgainst = voteTotal (run step w₀ txs) id false) ∧
    ∀ id p c account owner, (run step w₀ txs).proposals.lookup id = some p →
      (run step w₀ txs).config = some c → p.state ≠ .voting → p.depositSettled = false →
      (run step w₀ txs).tokens.header account = some (c.mint, p.proposer) →
      (run step w₀ txs).tokens.header c.forfeitDestination = some (c.mint, owner) →
      ((∃ w', step (run step w₀ txs)
        (.invoke (.refundOrForfeitDeposit id c.mint account c.forfeitDestination)) = .ok w') ↔
        [.depositVault, account, c.forfeitDestination].Nodup) := by
  have hbooks : DepositBooks (run step w₀ txs) :=
    run_invariant_always (fun _ _ _ => step_depositBooks) (depositBooks_deployed h) txs
  obtain ⟨hnodup, hused⟩ := run_used settles
    (fun _ _ _ hs id => ((step_change hs).depositSettled id).1)
    (fun _ _ _ hs id => ((step_change hs).depositSettled id).2) (not_marked_deployed h) txs
  refine ⟨hbooks.covered, ⟨hnodup, fun id p hp => ?_⟩, fun t ht => ?_, fun id p hp => ?_, ?_⟩
  · rw [← hused]
    refine ⟨fun hsettled => ⟨p, hp, hsettled⟩, ?_⟩
    rintro ⟨q, hq, hsettled⟩
    obtain rfl := Option.mem_unique hp hq
    exact hsettled
  · obtain ⟨hbefore, hstep⟩ := invariant_of_mem (I := DepositBooks) (G := fun _ => True)
      (fun _ _ _ hw hs _ => step_depositBooks hw hs) (depositBooks_deployed h)
        (fun _ _ => trivial) ht
    exact ⟨extends_of_mem ht, deposits_of_step hbefore hstep⟩
  · have hsound := hbooks.proposals.sound id p hp
    exact ⟨hsound.votesFor, hsound.votesAgainst⟩
  · intro id p c account owner hp hc hstate hsettled haccount hforfeit
    exact settlement_succeeds_iff hbooks hp hc hstate hsettled haccount hforfeit

/-- Proposal 7 meets its quorum. Then the deposit is raised to 70, and nobody votes on
proposal 8. Both are settled. -/
def refundedAndForfeited : List Event :=
  constituted ++ passed 0 7 .none ++
    [.invoke (.updateGovernanceConfig 9 depositMint (.wallet 5)
        ⟨1000, 1000, 5000, 6000, 6600, 2000, 70, 60⟩),
      .invoke (.createProposal 20 depositMint (.wallet 21) 8 .informational 30 .none),
      .advanceClock 200, .invoke (.tallyAndFinalize 8),
      .invoke (.refundOrForfeitDeposit 7 depositMint (.wallet 21) (.wallet 5)),
      .invoke (.refundOrForfeitDeposit 8 depositMint (.wallet 21) (.wallet 5)),
      .invoke (.refundOrForfeitDeposit 7 depositMint (.wallet 21) (.wallet 5))]

theorem deposits_in_custody_refund_and_forfeit :
    Deployed emptyGovernance ∧
    used settles (transitions step emptyGovernance refundedAndForfeited) = [7, 8] ∧
    (used settles (transitions step emptyGovernance refundedAndForfeited)).Nodup ∧
    unsettledDeposits (run step emptyGovernance refundedAndForfeited) ≤
      (run step emptyGovernance refundedAndForfeited).tokens.balance .depositVault ∧
    (run step emptyGovernance refundedAndForfeited).tokens.balance (.wallet 5) = 70 ∧
    (run step emptyGovernance refundedAndForfeited).tokens.balance (.wallet 21) = 430 := by
  obtain ⟨hcovered, ⟨hnodup, -⟩, -⟩ :=
    deposits_in_custody deployed_emptyGovernance refundedAndForfeited
  exact ⟨deployed_emptyGovernance, by decide +kernel, hnodup, hcovered, by decide +kernel,
    by decide +kernel⟩

end OpenFiat.ProposalDeposits
