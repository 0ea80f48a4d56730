import OpenFiat.LedgerCustody

/-!
# What a step does to a dispute case

Six instructions write dispute cases. `CaseStep` lists everything one of them can
have done to a case, with the conditions it was done under. `step_dispute` shows
that every step touches at most one case and only as listed, and `step_slot` reads
this off for one case: it is opened once and never removed.
-/
namespace OpenFiat.DisputeSteps
open FiniteTable TokenLedger ProgramAddress EscrowAccounts
open ChainWorld EscrowDisputes
open TransactionRuns ChainSteps LedgerCustody

/-- The record of a case that the step `ix` opens under `id`. -/
inductive CaseOpened (w : World) (ix : Instruction) (w' : World) (id : ℕ) : DisputeCase → Prop
  | opened {signer : ℕ} {mint : Pubkey} {commitSecs revealSecs : ℤ} {seed : Digest}
      {e : TradeEscrowVault} {fees : FeeConfig} {deposit shortfall : ℕ} :
      ix = .openDisputeCase signer id mint commitSecs revealSecs →
      w.tradeEscrows.lookup id = some e → inDisputeWindow commitSecs →
      inDisputeWindow revealSecs →
      (∃ owner, w.tokens.header .arbitrationPool = some (mint, owner)) →
      Ledger.Moved (Ledger.payments (.liquidityVaultTokens e.seller mint)
        (depositPayments deposit)) w.tokens w'.tokens →
      w.feeConfig = some fees → deposit ≤ fees.disputeFilingFee →
      CaseOpened w ix w' id (newDisputeCase w.clock (w.clock + commitSecs)
        (w.clock + commitSecs + revealSecs) commitSecs revealSecs seed e.seller mint id deposit
        shortfall)

/-- What the step `ix` from `w` to `w'` did to the case `c` stored under `id`. -/
inductive CaseStep (P : Platform) (w : World) (ix : Instruction) (w' : World) (id : ℕ)
    (c : DisputeCase) : DisputeCase → Prop
  | toppedUp {mint seller : Pubkey} {n : ℕ} : ix = .topUpArbitrationDeposit id mint →
      c.resolved = false → 0 < n → n ≤ c.depositShortfall →
      Ledger.Moved [⟨.liquidityVaultTokens seller mint, .arbitrationPool, n⟩] w.tokens w'.tokens →
      c.deposit + n < 2 ^ 64 → CaseStep P w ix w' id c
        { c with deposit := c.deposit + n, depositShortfall := c.depositShortfall - n }
  | committed {arbitrator : ℕ} {commitment : Digest} :
      ix = .commitDisputeVote arbitrator id commitment → w.clock < c.commitDeadline →
      .wallet arbitrator ∉ c.barred → .wallet arbitrator ∉ c.arbitrators →
      c.arbitrators.length < maxArbitrators → w'.tokens = w.tokens →
      CaseStep P w ix w' id c
        (pushSeat c (.wallet arbitrator) commitment (c.seatsTakenTotal + 1))
  | revealed {arbitrator : ℕ} {outcome : DisputeOutcome} {salt : Digest} {i weight : ℕ} :
      ix = .revealDisputeVote arbitrator id outcome salt → c.commitDeadline ≤ w.clock →
      w.clock < c.revealDeadline → c.arbitrators.idxOf? (.wallet arbitrator) = some i →
      c.revealedOutcomes[i]? = some none → w'.tokens = w.tokens →
      CaseStep P w ix w' id c
        { c with
          revealedOutcomes := c.revealedOutcomes.set i (some outcome)
          weights := c.weights.set i weight }
  | executed {a : ExecuteAccounts} {e : TradeEscrowVault} {v ov : LiquidityVault}
      {fees : FeeConfig} {d : Docket} : ix = .executeDisputeOutcome a → a.caseId = id →
      w.liquidityVaults.lookup (a.openMerchant, a.openMint) = some ov →
      .liquidityVault a.openMerchant a.openMint = c.depositVault → c.resolved = false →
      c.revealDeadline ≤ w.clock →
      RoundResult P w fees a.buyerTokenAccount ⟨w.tokens, e, v, ov, c⟩ d →
      w'.tokens = d.tokens → CaseStep P w ix w' id c d.dispute
  | claimed {arbitrator : ℕ} {mint target : Pubkey} {outcome : DisputeOutcome} {i : ℕ} :
      ix = .claimArbitrationReward arbitrator id mint target → c.resolved = true →
      mint = c.depositMint → c.outcome = some outcome → 0 < c.rewardRemaining →
      c.arbitrators.idxOf? (.wallet arbitrator) = some i → winningSeat c outcome i →
      c.rewardClaimed[i]? = some false →
      rewardShare c outcome (c.weights[i]?.getD 0) ≤ c.rewardRemaining →
      Ledger.Moved [⟨.arbitrationPool, target, rewardShare c outcome (c.weights[i]?.getD 0)⟩]
        w.tokens w'.tokens →
      CaseStep P w ix w' id c
        { c with
          rewardClaimed := c.rewardClaimed.set i true
          rewardRemaining := c.rewardRemaining - rewardShare c outcome (c.weights[i]?.getD 0) }

section
variable {P : Platform} {w w' : World} {ix : Instruction}

/-- No case changes and the arbitration pool pays nothing. -/
structure OutsideDisputes (w w' : World) : Prop where
  disputeCases : w'.disputeCases = w.disputeCases
  tokens : Ledger.Kept (· = .arbitrationPool) w.tokens w'.tokens

def caseOf : Instruction → Option ℕ
  | .openDisputeCase _ id .. | .topUpArbitrationDeposit id _ | .commitDisputeVote _ id _
  | .revealDisputeVote _ id .. | .claimArbitrationReward _ id .. => some id
  | .executeDisputeOutcome a => some a.caseId
  | _ => none

theorem step_outsideDisputes (hc : Custodial w.tokens) (hix : caseOf ix = none)
    (h : step P w ix = .ok w') : OutsideDisputes w w' := by
  have hwrites : (writes ix).contains .cases = false := by
    cases ix <;> first | rfl | cases hix
  have hpurses : (purses ix).contains .pool = false := by
    cases ix <;> first | rfl | cases hix
  refine ⟨step_same h .cases hwrites, step_kept hc h ?_⟩
  rintro k rfl
  exact ⟨.pool, rfl, hpurses⟩

inductive DisputeStep (P : Platform) (w : World) (ix : Instruction) (w' : World) : Prop
  | outside : caseOf ix = none → OutsideDisputes w w' → DisputeStep P w ix w'
  | opened {id : ℕ} {c : DisputeCase} : w.disputeCases.lookup id = none →
      CaseOpened w ix w' id c → w'.disputeCases = w.disputeCases.insert id c →
      DisputeStep P w ix w'
  | changed {id : ℕ} {c c' : DisputeCase} : w.disputeCases.lookup id = some c →
      CaseStep P w ix w' id c c' → w'.disputeCases = w.disputeCases.insert id c' →
      DisputeStep P w ix w'

theorem step_dispute (hc : Custodial w.tokens) (h : step P w ix = .ok w') :
    DisputeStep P w ix w' := by
  by_cases hix : caseOf ix = none
  · exact .outside hix (step_outsideDisputes hc hix h)
  obtain ⟨-, h⟩ := step_ok.mp h
  cases ix with
  | openDisputeCase =>
    obtain ⟨e, fees, v, L, claim, seed, he, -, -, -, hf, -, hpool, hnone, hcw, hrw, hL, -, -,
      rfl⟩ :=
      openDisputeCase_ok h
    exact .opened hnone (.opened rfl he hcw hrw hpool hL hf (min_le_left _ _)) rfl
  | topUpArbitrationDeposit =>
    obtain ⟨c, e, v, L, n, hk, -, -, hres, -, hpos, hle, hfit, hL, -, -, rfl⟩ :=
      topUpArbitrationDeposit_ok h
    exact .changed hk (.toppedUp rfl hres hpos hle hL hfit) rfl
  | commitDisputeVote =>
    obtain ⟨c, hk, hclock, hbar, hnew, hroom, -, rfl⟩ := commitDisputeVote_ok h
    refine .changed hk ?_ rfl
    exact .committed rfl hclock hbar hnew hroom rfl
  | revealDisputeVote =>
    obtain ⟨c, i, weight, hk, hcd, hrd, hi, hnone, -, rfl⟩ := revealDisputeVote_ok h
    refine .changed hk ?_ rfl
    exact .revealed rfl hcd hrd hi hnone rfl
  | executeDisputeOutcome =>
    obtain ⟨c, e, v, ov, fees, d, hk, -, -, -, -, -, hov, hres, -, -, hdv, -, hclock, -, hd, rfl⟩ :=
      executeDisputeOutcome_ok h
    exact .changed hk (.executed rfl rfl hov hdv hres hclock hd rfl) rfl
  | claimArbitrationReward =>
    obtain ⟨c, o, i, L, hk, hres, hmint, ho, hpos, hi, hwin, hcl, hle, hL, rfl⟩ :=
      claimArbitrationReward_ok h
    exact .changed hk (.claimed rfl hres hmint ho hpos hi hwin hcl hle hL) rfl
  | _ => exact absurd rfl hix

theorem CaseOpened.caseOf_eq {id : ℕ} {c : DisputeCase} (h : CaseOpened w ix w' id c) :
    caseOf ix = some id := by
  cases h with
  | opened hix => rw [hix, caseOf]

theorem CaseStep.caseOf_eq {id : ℕ} {c c' : DisputeCase} (h : CaseStep P w ix w' id c c') :
    caseOf ix = some id := by
  cases h with
  | toppedUp hix | committed hix | revealed hix | claimed hix => rw [hix, caseOf]
  | executed hix hid => rw [hix, caseOf, hid]

def executes (id : ℕ) (t : Transition World Instruction) : Bool :=
  match t.label with
  | .executeDisputeOutcome a => a.caseId = id
  | _ => false

theorem executes_of_caseOf {id : ℕ} {t : Transition World Instruction}
    (h : caseOf t.label ≠ some id) : executes id t = false := by
  refine Bool.eq_false_iff.mpr fun hexec => h ?_
  unfold executes at hexec
  split at hexec
  · rename_i a hlabel
    rw [hlabel, caseOf, of_decide_eq_true hexec]
  · cases hexec

inductive SlotStep (P : Platform) (w : World) (ix : Instruction) (w' : World) (id : ℕ) :
    Option DisputeCase → Option DisputeCase → Prop
  | untouched {slot : Option DisputeCase} : caseOf ix ≠ some id → SlotStep P w ix w' id slot slot
  | opened {c : DisputeCase} : CaseOpened w ix w' id c → SlotStep P w ix w' id none (some c)
  | changed {c c' : DisputeCase} : CaseStep P w ix w' id c c' →
      SlotStep P w ix w' id (some c) (some c')

theorem step_slot (hc : Custodial w.tokens) (h : step P w ix = .ok w') (id : ℕ) :
    SlotStep P w ix w' id (w.disputeCases.lookup id) (w'.disputeCases.lookup id) := by
  cases step_dispute hc h with
  | outside hix hout =>
    rw [hout.disputeCases]
    refine .untouched ?_
    rw [hix]
    exact (Option.some_ne_none id).symm
  | opened hnone hopened hcases =>
    rw [hcases, Table.lookup_insert_eq]
    split_ifs with hid
    · rw [hid, hnone]
      exact .opened hopened
    · refine .untouched ?_
      rw [hopened.caseOf_eq]
      exact fun heq => hid (Option.some.inj heq).symm
  | changed hc hstep hcases =>
    rw [hcases, Table.lookup_insert_eq]
    split_ifs with hid
    · rw [hid, hc]
      exact .changed hstep
    · refine .untouched ?_
      rw [hstep.caseOf_eq]
      exact fun heq => hid (Option.some.inj heq).symm

end

section Runs
variable {P : Platform} {w : World} {id : ℕ} {c : DisputeCase} {I : DisputeCase → Prop}
  {R : DisputeCase → DisputeCase → Prop}

/-- What every case has when it is opened and keeps when it changes, every case of a run has. -/
theorem run_forall_case (hopened : ∀ w ix w' id c, CaseOpened w ix w' id c → I c)
    (hstep : ∀ w ix w' id c c', CaseStep P w ix w' id c c' → I c → I c') (hg : Genesis w)
    (txs : List Instruction) (hc : (run (step P) w txs).disputeCases.lookup id = some c) : I c := by
  refine (run_invariant_always
    (I := fun w => Custodial w.tokens ∧ ∀ id, ∀ c ∈ w.disputeCases.lookup id, I c)
    (fun v ix v' h hs => ⟨(step_headers hs).custodial h.1, fun id => ?_⟩)
    ⟨custodial_of_genesis hg, Table.forall_of_empty hg.disputeCases⟩ txs).2 id c hc
  have hslot := step_slot h.1 hs id
  have hold := h.2 id
  generalize v.disputeCases.lookup id = slot at hslot hold
  generalize v'.disputeCases.lookup id = slot' at hslot ⊢
  intro c hmem
  cases hslot with
  | untouched => exact hold c hmem
  | opened hopen =>
    cases hmem
    exact hopened _ _ _ _ _ hopen
  | changed hchange =>
    cases hmem
    exact hstep _ _ _ _ _ _ hchange (hold _ rfl)

/-- A relation that every change of a case respects relates a case to what it becomes. -/
theorem run_case_relation (hrefl : ∀ c, R c c) (htrans : ∀ c c' c'', R c c' → R c' c'' → R c c'')
    (hstep : ∀ w ix w' id c c', CaseStep P w ix w' id c c' → R c c') (hw : Custodial w.tokens)
    (txs : List Instruction) (hc : w.disputeCases.lookup id = some c) :
    ∃ c', (run (step P) w txs).disputeCases.lookup id = some c' ∧ R c c' := by
  refine (run_invariant_always (I := fun w : World => Custodial w.tokens ∧
    ∃ c', w.disputeCases.lookup id = some c' ∧ R c c') ?_ ⟨hw, c, hc, hrefl c⟩ txs).2
  rintro v ix v' ⟨hv, c', hc', hrel⟩ hs
  refine ⟨(step_headers hs).custodial hv, ?_⟩
  have hslot := step_slot hv hs id
  rw [hc'] at hslot
  generalize v'.disputeCases.lookup id = slot' at hslot ⊢
  cases hslot with
  | untouched => exact ⟨c', rfl, hrel⟩
  | changed hchange => exact ⟨_, rfl, htrans _ _ _ hrel (hstep _ _ _ _ _ _ hchange)⟩

end Runs

end OpenFiat.DisputeSteps
